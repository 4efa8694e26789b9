import Wasm.Proofs.Safety.Reachable

/-!
# Soundness of validation

Code that has passed validation does not go wrong.  In no machine that can be reached does a step
raise an internal error, and a call of a function leaves the thread of every instance as it has
found it.  Neither instantiation nor running until the end leads out of the reachable machines.
-/

namespace Wasm.Safety

variable {s s' : Store} {known : List FuncRef} {m m' : Machine} {waiting : List Waiting}
  {outer : Threads} {r : Except Error (List Value)}

/-! ### Whole runs -/

/-- A run to its end stays within what can be reached. -/
theorem Reachable.run {fuel : Nat} (h : Reachable known m) (hrun : m.run fuel = some (r, s)) :
    Reachable known ⟨s, .returned r, []⟩ :=
  holds_of_run (·.step) h hrun

/-- A valid module has the function with which it starts. -/
theorem Reachable.startFunction {fuel : Nat} {a : Address} {b : Bindings}
    {result : Except Error Unit} (h : Reachable known ⟨s, .returned r, []⟩)
    (hb : s.bindings? a = some b) (hpassed : Validation.Passed b.module)
    (hrun : s.start fuel a b.module.start = some (result, s')) :
    ∃ r', Reachable known ⟨s', .returned r', []⟩ := by
  unfold Store.start at hrun
  split at hrun
  · cases hrun
    exact ⟨r, h⟩
  · next index hindex =>
    obtain ⟨⟨r', s''⟩, hrun', heq⟩ := Option.map_eq_some_iff.mp hrun
    obtain ⟨⟨_, hsound, _⟩, -⟩ := h.orderly
    obtain ⟨type, htype⟩ := hpassed.start hindex
    obtain ⟨f, hf, -⟩ := (hsound.instances hb).wired.func htype
    have hreached := (h.call (.index hb hf [])).run hrun'
    cases r' <;> cases heq <;> exact ⟨_, hreached⟩

/-- To give up one instance. -/
theorem forget_eq_setInstance (s : Store) (a : Address) :
    { s with instances := s.instances.mapIdx fun a' i => if decide (a' ≠ a) then i else none } =
      s.setInstance a none := by
  unfold Store.setInstance
  congr 1
  refine Array.ext (by simp) fun k hk hk' => ?_
  have hlt : k < s.instances.size := by simpa using hk'
  rw [Array.getElem_mapIdx, Array.getElem_setIfInBounds hlt]
  by_cases hka : a = k
  · simp [hka]
  · simp [hka, Ne.symm hka]

/-- Instantiation leads to stores that can be reached, whether it succeeds or not. -/
theorem Reachable.instantiate {input : List UInt8} {module : Module} {externals : Externals}
    {config : Config} {fuel : Nat} {result : Except Error Address}
    (h : Reachable known ⟨s, .returned r, []⟩) (hdecode : Binary.decode input = .ok module)
    (hexternals : ∀ {name p}, externals.lookup name = some p → p.Held known)
    (hrun : s.instantiate fuel externals module config = some (result, s')) :
    ∃ r', Reachable known ⟨s', .returned r', []⟩ := by
  unfold Store.instantiate at hrun
  split at hrun
  · cases hrun
    exact ⟨r, h⟩
  · next hvalid =>
    dsimp only at hrun
    split at hrun
    · cases hrun
      exact ⟨r, h⟩
    · next b himports =>
      split at hrun
      · next e o hsetup =>
        cases hrun
        exact ⟨r, h.act (.abort hdecode hvalid hexternals himports hsetup)⟩
      · next b' o hsetup =>
        obtain ⟨⟨_, hsound, _⟩, hknown⟩ := h.orderly
        have hleads := leads_instantiate hsound hknown hdecode hvalid hexternals himports
        unfold Leads at hleads
        rw [hsetup] at hleads
        obtain ⟨-, rfl, -⟩ := hleads
        obtain ⟨⟨started, s''⟩, hstart, heq⟩ := Option.map_eq_some_iff.mp hrun
        have hlinked := h.act (.link hdecode hvalid hexternals himports hsetup)
        obtain ⟨r', hreached⟩ := hlinked.startFunction
          (by rw [bindings?_push, if_pos rfl]; rfl) (Validation.passed_of_module hvalid) hstart
        cases started with
        | ok _ =>
          cases heq
          exact ⟨r', hreached⟩
        | error e =>
          cases heq
          rw [← forget_eq_setInstance]
          exact ⟨r', hreached.act (.forget fun a' => decide (a' ≠ s.instances.size))⟩

/-! ### Calls of functions by their indices -/

/-- The second machine comes after the first one, while the call above `waiting` goes on. -/
inductive Within (waiting : List Waiting) (m : Machine) : Machine → Prop where
  | refl : Within waiting m m
  | step {m' : Machine} (h : Within waiting m m')
      (hopen : m'.waiting = waiting → ∀ r, m'.focus ≠ .returned r) : Within waiting m m'.step

theorem Within.healthy (h : Within waiting m m') (hm : Healthy waiting outer m) :
    Healthy waiting outer m' := by
  induction h with
  | refl => exact hm
  | step _ hopen ih => exact (ih.step hopen).1

/-- When the call has returned, the threads are as they were. -/
theorem Healthy.thread?_eq (h : Healthy waiting outer m) (hwaiting : m.waiting = waiting)
    (hfocus : m.focus = .returned r) : m.store.thread? = outer := by
  obtain ⟨-, hinOrder⟩ := h
  rw [hfocus, hwaiting] at hinOrder
  exact Nested.eq_outer hinOrder

/-- In a machine that can be reached, no step raises an internal error, and no call of the embedder
fails with one before its first step; a call of a function of an instance that has returned, in
whatever way, leaves all threads as they were. -/
theorem validation_sound (h : Reachable known m) :
    (∀ {e : Error}, m.Raises e → ¬ e.IsInternal) ∧
    (∀ {m' : Machine} {e : Error}, Calls m.store known m' → m'.focus = .returned (.error e) →
      ¬ e.IsInternal) ∧
    ∀ {a : Address} {b : Bindings} {index : UInt32} {f : Func} (exclusive : Bool)
      (args : List Value) (waiting : List Waiting), m.store.bindings? a = some b →
      b.func index = .ok f →
      (∀ {e : Error}, (Machine.invokeIndex m.store a exclusive index args waiting).focus =
        .returned (.error e) → ¬ e.IsInternal) ∧
      ∀ {m' : Machine} {r : Except Error (List Value)},
        Within waiting (Machine.invokeIndex m.store a exclusive index args waiting) m' →
        m'.waiting = waiting → m'.focus = .returned r → m'.store.thread? = m.store.thread? := by
  obtain ⟨⟨outer, hhealthy⟩, hknown⟩ := h.orderly
  refine ⟨fun {e} hraises => ?_, fun {m' e} hcalls hfocus => ?_,
    fun {a b index f} exclusive args waiting hb hf => ?_⟩
  · rcases step_returned_or_open m with hstep | hopen
    · have hfailed : m.focus = .returned (.error e) := by
        rw [← hstep]
        exact hraises.1
      refine absurd ?_ hraises.2
      rw [hfailed]
      trivial
    · exact (hhealthy.step hopen).2 hraises
  · exact (clean_of_calls hhealthy.sound hknown hcalls).error hfocus
  · have hclean : Clean waiting m.store.thread? (Machine.invokeIndex m.store a exclusive index args
        waiting) := clean_invokeIndex exclusive args hhealthy.sound hb hf .refl
    exact ⟨hclean.error, fun hwithin hwaiting hfocus =>
      (hwithin.healthy hclean.toHealthy).thread?_eq hwaiting hfocus⟩

/-! ### A call of one function -/

/-- A module with one function, which leaves a block with the result 7. -/
def sevenInput : List UInt8 :=
  [0x00, 0x61, 0x73, 0x6D, 1, 0, 0, 0, 1, 5, 1, 0x60, 0, 1, 0x7F, 3, 2, 1, 0,
    10, 11, 1, 9, 0, 0x02, 0x7F, 0x41, 7, 0x0C, 0, 0x0B, 0x0B]

def sevenBody : Expr :=
  [.block .block (.value .i32) [.plain (.const .i32) (.value (.i32 7)), .plain .br (.index 0)]]

def sevenModule : Module :=
  { types := [⟨[], [.i32]⟩], functions := [0], codes := [⟨[], sevenBody⟩] }

/-- The only instance of the module, in which nothing runs. -/
def sevenStore : Store :=
  ⟨{}, #[some ⟨⟨0, sevenModule, {}, #[.defined ⟨[], [.i32]⟩ 0 sevenBody], #[], none, none⟩,
    .idle {}, false⟩], [], []⟩

theorem reachable_seven : Reachable [] ⟨sevenStore, .returned (.ok []), []⟩ := by
  have hdecode : Binary.decode sevenInput = .ok sevenModule := rfl
  have hvalid : Validation.module sevenModule = .ok () := rfl
  have himports : Instantiate.imports {} [] ⟨0, sevenModule, {}, #[], #[], none, none⟩ [] =
    .ok ⟨0, sevenModule, {}, #[], #[], none, none⟩ := rfl
  have hexternals {name : String} {p : Provider} (h : List.lookup name ([] : Externals) = some p) :
      p.Held [] := nomatch h
  exact .act .start (.link hdecode hvalid hexternals himports rfl)

/-- The machine that calls the function, after a number of steps. -/
def sevenAfter : Nat → Machine
  | 0 => Machine.invokeIndex sevenStore 0 true 0 [] []
  | n + 1 => (sevenAfter n).step

theorem within_seven (n : Nat) (hn : n ≤ 5) : Within [] (sevenAfter 0) (sevenAfter n) := by
  induction n with
  | zero => exact .refl
  | succ n ih =>
    refine .step (ih (by omega)) fun _ r h => ?_
    match n with
    | 0 | 1 | 2 | 3 | 4 => cases h

/-- The call returns 7, and leaves the thread without frames and operands, as it was. -/
theorem seven_leaves_thread : (sevenAfter 5).focus = .returned (.ok [.i32 7]) ∧
    (sevenAfter 5).store.thread? = sevenStore.thread? := by
  obtain ⟨-, -, hcalls⟩ := validation_sound reachable_seven
  have hfocus : (sevenAfter 5).focus = .returned (.ok [.i32 7]) := rfl
  exact ⟨hfocus, (@hcalls 0 _ 0 _ true [] [] rfl rfl).2 (within_seven 5 (Nat.le_refl 5)) rfl hfocus⟩

end Wasm.Safety
