import Wasm.Proofs.Safety.Events
import Wasm.Proofs.Safety.Quiescence

/-!
# Recovery from failures

A call that fails, whoever has made it and whatever it has called in turn, leaves every thread as
it has found it.  So between the calls of the embedder nothing of earlier failures is left: every
thread is idle, and what the next call does is determined by the modules, the objects and the
handles (`recovery`).
-/

namespace Wasm

namespace Safety

variable {s s' : Store} {known : List FuncRef} {m : Machine} {waiting : List Waiting}
  {outer : Threads}

/-! ### Failed calls -/

/-- A call by index, of any function and with any arguments, begins in order. -/
theorem healthy_invokeIndex (a : Address) (exclusive : Bool) (index : UInt32) (args : List Value)
    {below : List Waiting} (hsound : Sound s) (hnested : Nested s below outer s.thread? waiting) :
    Healthy below outer (Machine.invokeIndex s a exclusive index args waiting) := by
  cases hi : s.instance? a with
  | none =>
    unfold Machine.invokeIndex
    rw [hi]
    exact ⟨hsound, hnested⟩
  | some i =>
    have hb : s.bindings? a = some i.bindings := by
      rw [Store.bindings?, hi]
      rfl
    cases hf : i.bindings.func index with
    | ok f => exact (clean_invokeIndex exclusive args hsound hb hf hnested).toHealthy
    | error t =>
      unfold Machine.invokeIndex
      rw [hi]
      dsimp only
      rw [hf]
      dsimp only
      generalize htaken : (if exclusive = true then
        s.modifyInstance a fun i => { i with busy := true } else s) = s'
      obtain ⟨hlater, hthread⟩ := taken_keeps htaken
      have ht : s'.thread? a = some i.thread := by
        rw [hthread, Store.thread?, hi]
        rfl
      refine healthy_fail _ (hsound.later hlater) ht
        ⟨List.suffix_refl _, List.suffix_refl _, rfl⟩ ?_
      rw [Threads.put_eq_self ht, hthread]
      exact hnested.later hlater

/-- A call that has returned leaves every thread as it has found it. -/
theorem Reachable.thread?_of_within {a : Address} {exclusive : Bool} {index : UInt32}
    {args : List Value} {m' : Machine} {r : Except Error (List Value)} (h : Reachable known m)
    (hwithin : Within waiting (Machine.invokeIndex m.store a exclusive index args waiting) m')
    (hwaiting : m'.waiting = waiting) (hfocus : m'.focus = .returned r) :
    m'.store.thread? = m.store.thread? := by
  obtain ⟨⟨_, hhealthy⟩, -⟩ := h.orderly
  exact (hwithin.healthy (healthy_invokeIndex a exclusive index args hhealthy.sound .refl)).thread?_eq
    hwaiting hfocus

/-! ### Stores in which nothing runs -/

/-- In a store in which nothing runs, a call by index begins as a regular machine. -/
theorem regular_invokeIndex (hsound : Sound s) (h : Resting s) (a : Address) (index : UInt32)
    (args : List Value) : Regular (Machine.invokeIndex s a true index args []) := by
  have hmoves := moves_invokeIndex (G := fun _ => True) s a true index args []
  obtain ⟨hlimited, hoccupied⟩ := hmoves.keep h.limited h.occupied
  exact ⟨⟨s.thread?, healthy_invokeIndex a true index args hsound .refl,
    fun {a' b} hb => h.thread? ((hmoves.stays.bindings a').symm.trans hb)⟩, hlimited, hoccupied⟩

theorem Regular.within {m' : Machine} (h : Regular m) (hwithin : Within waiting m m') :
    Regular m' := by
  induction hwithin with
  | refl => exact h
  | step _ _ ih => exact ih.step

/-- A regular machine that comes to its end leaves nothing running. -/
theorem Regular.run {fuel : Nat} {r : Except Error (List Value)} (h : Regular m)
    (hrun : m.run fuel = some (r, s)) : Sound s ∧ Resting s := by
  have hend := h.within (within_of_run hrun)
  obtain ⟨outer, hhealthy, -⟩ := hend.healthy
  exact ⟨hhealthy.sound, hend.resting⟩

/-- Where nothing runs, instances are told apart by their bindings only. -/
theorem Resting.instance?_eq (h : Resting s) (a : Address) :
    s.instance? a = (s.bindings? a).map fun b => ⟨b, .idle b.config, false⟩ := by
  rw [Store.bindings?]
  cases hi : s.instance? a with
  | none => rfl
  | some i =>
    obtain ⟨hthread, hbusy⟩ := h a i hi
    obtain ⟨b, t, busy⟩ := i
    obtain rfl : t = .idle b.config := hthread
    obtain rfl : busy = false := hbusy
    rfl

theorem Resting.instances_eq (h : Resting s) (h' : Resting s') (hstays : s.Stays s') :
    s'.instances = s.instances := by
  refine Array.ext hstays.size fun k hk' hk => ?_
  have hslot {x : Store} (hk : k < x.instances.size) : x.instance? k = x.instances[k] := by
    rw [Store.instance?, Array.getElem?_eq_getElem hk]
    rfl
  rw [← hslot hk, ← hslot hk', h.instance?_eq, h'.instance?_eq, hstays.bindings]

/-- Calls of a function in two stores that differ in their events only. -/
theorem invokeIndex_of_eq (hinstances : s'.instances = s.instances)
    (hobjects : s'.objects = s.objects) (hhandles : s'.handles = s.handles) (fuel : Nat)
    (a : Address) (index : UInt32) (args : List Value) :
    ∃ result : Option (Except Error (List Value) × Store),
      s.invokeIndex fuel a index args = result.map (fun x => (x.1, x.2.after s.events)) ∧
      s'.invokeIndex fuel a index args = result.map fun x => (x.1, x.2.after s'.events) := by
  obtain ⟨o, instances, handles, events⟩ := s
  obtain ⟨o', instances', handles', events'⟩ := s'
  obtain rfl : instances' = instances := hinstances
  obtain rfl : o' = o := hobjects
  obtain rfl : handles' = handles := hhandles
  have hpast (past : List Event) :
      Store.invokeIndex fuel ⟨o', instances', handles', past⟩ a index args =
        (Store.invokeIndex fuel ⟨o', instances', handles', []⟩ a index args).map
          fun x => (x.1, x.2.after past) := by
    unfold Store.invokeIndex
    rw [← runFuel_after, ← invokeIndex_after]
    rfl
  exact ⟨_, hpast events, hpast events'⟩

/-- In a machine that can be reached, a call of a function of any instance, made by whatever waits
for it, that fails leaves every thread as it has found it.  When the calls of the embedder have
returned, whether they have failed or not, nothing runs in any instance; and the next call has the
same result, and changes the same, as from any other store that can be reached with the same
instances, objects and handles. -/
theorem recovery (h : Reachable known m) :
    (∀ {a : Address} {exclusive : Bool} {index : UInt32} {args : List Value}
      {waiting : List Waiting} {m' : Machine} {e : Error},
      Within waiting (Machine.invokeIndex m.store a exclusive index args waiting) m' →
      m'.waiting = waiting → m'.focus = .returned (.error e) →
      m'.store.thread? = m.store.thread?) ∧
    ∀ {s : Store} {r : Except Error (List Value)}, m = ⟨s, .returned r, []⟩ → Resting s ∧
      ∀ {known' : List FuncRef} {s' : Store} {r' : Except Error (List Value)},
        Reachable known' ⟨s', .returned r', []⟩ → s.Stays s' → s'.objects = s.objects →
        s'.handles = s.handles → ∀ (fuel : Nat) (a : Address) (index : UInt32) (args : List Value),
        ∃ result : Option (Except Error (List Value) × Store),
          s.invokeIndex fuel a index args = result.map (fun x => (x.1, x.2.after s.events)) ∧
          s'.invokeIndex fuel a index args = result.map fun x => (x.1, x.2.after s'.events) := by
  refine ⟨fun hwithin hwaiting hfocus => h.thread?_of_within hwithin hwaiting hfocus, ?_⟩
  rintro s r rfl
  refine ⟨h.resting, fun h' hstays hobjects hhandles fuel a index args => ?_⟩
  exact invokeIndex_of_eq (h.resting.instances_eq h'.resting hstays) hobjects hhandles fuel a index
    args

/-! ### A division by zero -/

/-- A module with one function, which divides 1 by its argument. -/
def inverseInput : List UInt8 :=
  [0x00, 0x61, 0x73, 0x6D, 1, 0, 0, 0, 1, 6, 1, 0x60, 1, 0x7F, 1, 0x7F, 3, 2, 1, 0,
    10, 9, 1, 7, 0, 0x41, 1, 0x20, 0, 0x6E, 0x0B]

def inverseBody : Expr :=
  [.plain (.const .i32) (.value (.i32 1)), .plain .localGet (.index 0),
    .plain (.intBinary .w32 (.div .unsigned)) .none]

def inverseModule : Module :=
  { types := [⟨[.i32], [.i32]⟩], functions := [0], codes := [⟨[], inverseBody⟩] }

/-- The only instance of the module, in which nothing runs. -/
def inverseStore : Store :=
  ⟨{}, #[some ⟨⟨0, inverseModule, {}, #[.defined ⟨[.i32], [.i32]⟩ 0 inverseBody], #[], none,
    none⟩, .idle {}, false⟩], [], []⟩

/-- The machine that calls the function with 0, after a number of steps. -/
def inverseOfZero : Nat → Machine
  | 0 => Machine.invokeIndex inverseStore 0 true 0 [.i32 0] []
  | n + 1 => (inverseOfZero n).step

theorem reachable_inverse : Reachable [] ⟨inverseStore, .returned (.ok []), []⟩ := by
  have hdecode : Binary.decode inverseInput = .ok inverseModule := rfl
  have hvalid : Validation.module inverseModule = .ok () := rfl
  have himports : Instantiate.imports {} [] ⟨0, inverseModule, {}, #[], #[], none, none⟩ [] =
    .ok ⟨0, inverseModule, {}, #[], #[], none, none⟩ := rfl
  have hexternals {name : String} {p : Provider} (h : List.lookup name ([] : Externals) = some p) :
      p.Held [] := nomatch h
  exact .act .start (.link hdecode hvalid hexternals himports rfl)

theorem reachable_inverseOfZero (n : Nat) : Reachable [] (inverseOfZero n) := by
  induction n with
  | zero => exact .call reachable_inverse (.index (a := 0) rfl rfl _)
  | succ n ih => exact .step ih

theorem within_inverseOfZero (n : Nat) (hn : n ≤ 3) :
    Within [] (inverseOfZero 0) (inverseOfZero n) := by
  induction n with
  | zero => exact .refl
  | succ n ih =>
    refine .step (ih (by omega)) fun _ r h => ?_
    rcases n with _ | _ | _ | n
    · cases h
    · cases h
    · cases h
    · omega

theorem stays_inverseOfZero (n : Nat) : inverseStore.Stays (inverseOfZero n).store := by
  induction n with
  | zero => exact (moves_invokeIndex (G := fun _ => True) inverseStore 0 true 0 [.i32 0] []).stays
  | succ n ih => exact ih.trans (moves_step _).stays

/-- The division by 0 fails and leaves an idle thread; the function then divides 1 by 1 as if it had
never failed. -/
theorem inverse_recovers : (∃ e, (inverseOfZero 3).focus = .returned (.error e)) ∧
    (inverseOfZero 3).store.thread? = inverseStore.thread? ∧
    ((inverseOfZero 3).store.invokeIndex 10 0 0 [.i32 1]).map Prod.fst = some (.ok [.i32 1]) := by
  obtain ⟨e, he⟩ : ∃ e, inverseOfZero 3 = ⟨(inverseOfZero 3).store, .returned (.error e), []⟩ :=
    ⟨_, rfl⟩
  have hfocus : (inverseOfZero 3).focus = .returned (.error e) := by rw [he]
  obtain ⟨hfailed, hreturned⟩ := recovery reachable_inverse
  refine ⟨⟨e, hfocus⟩, hfailed (within_inverseOfZero 3 (Nat.le_refl 3)) (by rw [he]) hfocus, ?_⟩
  have hreached := reachable_inverseOfZero 3
  rw [he] at hreached
  obtain ⟨result, hfresh, hagain⟩ := (hreturned rfl).2 hreached (stays_inverseOfZero 3) rfl rfl 10 0
    0 [.i32 1]
  have hresult : (inverseStore.invokeIndex 10 0 0 [.i32 1]).map Prod.fst = some (.ok [.i32 1]) := rfl
  rw [hfresh, Option.map_map] at hresult
  rw [hagain, Option.map_map]
  exact hresult

end Safety

end Wasm
