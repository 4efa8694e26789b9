import Wasm.Proofs.Isolation.Departures
import Wasm.Proofs.Isolation.Locality
import Wasm.Proofs.Safety.Moves
import Wasm.Proofs.Safety.Returns

/-!
# Machines side by side

Some instances may be bound only to objects of a certain region and call only one another
(`Store.Closed`).  Two machines that run in them, over stores that agree as far as they are
concerned, do the same step by step, and nothing else in either store changes (`Paired.step`).  With
one machine next to itself this says what a call leaves alone; with two, what it depends on.
-/

namespace Wasm

open Safety (Reaches settled)
open Execution (Alike Enclosed Yields Sends)

/-- Some of the instances of a store, and some of the objects. -/
structure Realm extends Region where
  instances : Address → Prop

/-- A reference to a function of one of the instances. -/
def FuncRef.OwnedIn (w : Realm) : FuncRef → Prop
  | .host .. => False
  | .owned _ owner _ => w.instances owner

namespace Store

/-- The instances are bound to nothing outside of the region, and call nothing but one another. -/
structure Closed (w : Realm) (s : Store) : Prop where
  inside : ∀ {a : Address} {b : Bindings}, w.instances a → s.bindings? a = some b →
    b.Inside w.toRegion
  calls : ∀ {a : Address} {b : Bindings} {f : FuncRef}, w.instances a → s.bindings? a = some b →
    Reaches b s.objects f → f.OwnedIn w

/-- Two stores that are the same for the instances, which are closed in the first one. -/
structure Twin (w : Realm) (s s' : Store) : Prop where
  instances : ∀ {a : Address}, w.instances a → s'.instance? a = s.instance? a
  objects : s.objects.Agree w.toRegion s'.objects
  closed : s.Closed w

/-- In the second store nothing is different from the first one but the threads of instances and
the objects in the region. -/
structure Confined (v : Region) (s s' : Store) : Prop where
  stays : s.Stays s'
  objects : s.objects.Confined v s'.objects
  handles : s'.handles = s.handles
  events : s'.events = s.events

/-- Two stores that come after two others. -/
structure After (w : Realm) (s s' t t' : Store) : Prop where
  twin : t.Twin w t'
  left : s.Confined w.toRegion t
  right : s'.Confined w.toRegion t'

variable {w : Realm} {v : Region} {s s' t t' u u' : Store} {a : Address}

theorem confined_refl (v : Region) (s : Store) : s.Confined v s :=
  ⟨stays_refl s, Objects.confined_refl v _, rfl, rfl⟩

theorem Confined.trans (h : s.Confined v t) (h' : t.Confined v u) : s.Confined v u :=
  ⟨h.stays.trans h'.stays, h.objects.trans h'.objects, h'.handles.trans h.handles,
    h'.events.trans h.events⟩

theorem Twin.after (h : s.Twin w s') : After w s s' s s' :=
  ⟨h, confined_refl _ s, confined_refl _ s'⟩

theorem After.trans (h : After w s s' t t') (h' : After w t t' u u') : After w s s' u u' :=
  ⟨h'.twin, h.left.trans h'.left, h.right.trans h'.right⟩

/-- Bindings and tables stay as they are in a run. -/
theorem Closed.of_confined (h : s.Closed w) (hconfined : s.Confined v t) : t.Closed w := by
  refine ⟨fun {a b} ha hb => ?_, fun {a b f} ha hb hf => ?_⟩
  · exact h.inside ha ((hconfined.stays.bindings a).symm.trans hb)
  · exact h.calls ha ((hconfined.stays.bindings a).symm.trans hb)
      (Execution.reaches_congr hf hconfined.objects.tables)

/-! ### Changes of instances -/

theorem confined_modifyInstance (v : Region) (s : Store) (a : Address) {g : Instance → Instance}
    (hg : ∀ i, (g i).bindings = i.bindings) : s.Confined v (s.modifyInstance a g) :=
  ⟨(Safety.later_modifyInstance s a hg).toStays, Objects.confined_refl v _, rfl, rfl⟩

theorem Twin.modifyInstance (h : s.Twin w s') (a : Address) {g : Instance → Instance}
    (hg : ∀ i, (g i).bindings = i.bindings) :
    After w s s' (s.modifyInstance a g) (s'.modifyInstance a g) := by
  have hleft := confined_modifyInstance w.toRegion s a hg
  refine ⟨⟨fun {a'} ha' => ?_, h.objects, h.closed.of_confined hleft⟩, hleft,
    confined_modifyInstance w.toRegion s' a hg⟩
  rw [Safety.instance?_modifyInstance, Safety.instance?_modifyInstance, h.instances ha']

theorem Twin.undo (h : s.Twin w s') (act : Activation) :
    After w s s' (act.undo s) (act.undo s') :=
  h.modifyInstance act.self fun _ => rfl

theorem Twin.release (h : s.Twin w s') (act : Activation) :
    After w s s' (act.release s) (act.release s') := by
  unfold Activation.release
  split
  · exact h.modifyInstance act.self fun _ => rfl
  · exact h.after

theorem Twin.settle {i : Instance} {x x' : Execution} (h : s.Twin w s')
    (hi : s.instance? a = some i) (hi' : s'.instance? a = some i)
    (hx : Execution.After w.toRegion ⟨s.objects, i.thread⟩ ⟨s'.objects, i.thread⟩ x x') :
    After w s s' (settled s a i x) (settled s' a i x') := by
  have hleft : s.Confined w.toRegion (settled s a i x) :=
    ⟨Safety.stays_settled hi x, hx.left, rfl, rfl⟩
  refine ⟨⟨fun {a'} ha' => ?_, hx.twin.objects, h.closed.of_confined hleft⟩, hleft,
    Safety.stays_settled hi' x', hx.right, rfl, rfl⟩
  rw [Safety.instance?_settled hi, Safety.instance?_settled hi', h.instances ha', hx.twin.thread]

/-! ### Parts of executions -/

variable {act : Activation} {α : Type} {part : Bindings → Execution.Step α}

theorem Twin.run (act : Activation) (part : Bindings → Execution.Step α) (h : s.Twin w s')
    (hself : w.instances act.self)
    (hpart : ∀ b : Bindings, b.Inside w.toRegion → Enclosed w.toRegion (part b)) :
    Alike (After w s s') (act.run part s) (act.run part s') := by
  have hsame := h.instances hself
  cases hi : s.instance? act.self with
  | none =>
    have hi' := hsame.trans hi
    unfold Activation.run
    rw [hi, hi']
    exact .error h.after
  | some i =>
    have hi' := hsame.trans hi
    have hinside : i.bindings.Inside w.toRegion :=
      h.closed.inside hself (by rw [Store.bindings?, hi]; rfl)
    have htwin : Execution.Twin w.toRegion ⟨s.objects, i.thread⟩ ⟨s'.objects, i.thread⟩ :=
      ⟨rfl, h.objects⟩
    have halike := (hpart _ hinside).alike htwin
    rw [Safety.run_eq hi, Safety.run_eq hi']
    rcases halike.cases with ⟨r, x, x', hx, hx', hafter⟩ | ⟨e, x, x', hx, hx', hafter⟩
    · rw [hx, hx']
      exact .ok (h.settle hi hi' hafter)
    · rw [hx, hx']
      exact .error (h.settle hi hi' hafter)

/-- A call that leaves one of the instances goes to one of them. -/
theorem Closed.ownedIn (sent : α → Option Call) {r : α} {call : Call} (h : s.Closed w)
    (hself : w.instances act.self)
    (hpart : ∀ {b : Bindings} {x : Execution},
      Yields (fun r _ => Sends b x.objects (sent r)) (part b) x)
    (hrun : act.run part s = .ok r t) (hsent : sent r = some call) : call.func.OwnedIn w := by
  obtain ⟨i, x, hi, hx, -⟩ := Safety.exists_of_run_ok hrun
  exact h.calls hself (by rw [Store.bindings?, hi]; rfl) (hpart.of_run hx hsent)

end Store

/-! ### Machines -/

/-- What is to be done is to be done in one of the instances. -/
def Focus.Inside (w : Realm) : Focus → Prop
  | .wasm act => w.instances act.self
  | .host .. => False
  | .call _ sent => sent.func.OwnedIn w
  | .returned _ => True

/-- One of the instances waits. -/
def Waiting.Inside (w : Realm) : Waiting → Prop
  | .wasm act .. => w.instances act.self
  | .host .. => False

/-- Two machines that do the same in the instances of a realm, over stores that come after two
others. -/
structure Paired (w : Realm) (s s' : Store) (m m' : Machine) : Prop where
  focus : m'.focus = m.focus
  waiting : m'.waiting = m.waiting
  running : m.focus.Inside w
  waits : ∀ x ∈ m.waiting, x.Inside w
  after : Store.After w s s' m.store m'.store

section

variable {w : Realm} {s s' t t' : Store} {waiting : List Waiting} {m m' : Machine}
  {act : Activation} {a : Address}

theorem Paired.from (h : Paired w t t' m m') (hafter : Store.After w s s' t t') :
    Paired w s s' m m' :=
  ⟨h.focus, h.waiting, h.running, h.waits, hafter.trans h.after⟩

theorem paired_returned (r : Except Error (List Value)) (h : s.Twin w s')
    (hwaits : ∀ x ∈ waiting, x.Inside w) :
    Paired w s s' ⟨s, .returned r, waiting⟩ ⟨s', .returned r, waiting⟩ :=
  ⟨rfl, rfl, trivial, hwaits, h.after⟩

theorem paired_fail (act : Activation) (e : Error) (h : s.Twin w s')
    (hwaits : ∀ x ∈ waiting, x.Inside w) :
    Paired w s s' (Machine.fail s act e waiting) (Machine.fail s' act e waiting) :=
  have hundo := h.undo act
  ⟨rfl, rfl, trivial, hwaits, hundo.trans (hundo.twin.release act)⟩

/-- An activation that goes on. -/
theorem paired_active (act : Activation) (h : s.Twin w s') (hself : w.instances act.self)
    (hwaits : ∀ x ∈ waiting, x.Inside w) :
    Paired w s s' ⟨s, .wasm act, waiting⟩ ⟨s', .wasm act, waiting⟩ :=
  ⟨rfl, rfl, hself, hwaits, h.after⟩

/-- An activation that waits for a call. -/
theorem paired_call (act : Activation) {call : Call} (type : FuncType) (site : Option Site)
    (h : s.Twin w s') (hself : w.instances act.self) (hcall : call.func.OwnedIn w)
    (hwaits : ∀ x ∈ waiting, x.Inside w) :
    Paired w s s' ⟨s, .call (.instance act.self) call, .wasm act type site :: waiting⟩
      ⟨s', .call (.instance act.self) call, .wasm act type site :: waiting⟩ :=
  ⟨rfl, rfl, hcall, List.forall_mem_cons.mpr ⟨hself, hwaits⟩, h.after⟩

/-! ### Calls -/

theorem Store.Twin.take (h : s.Twin w s') (a : Address) (exclusive : Bool) : Store.After w s s'
    (if exclusive = true then s.modifyInstance a fun i => { i with busy := true } else s)
    (if exclusive = true then s'.modifyInstance a fun i => { i with busy := true } else s') := by
  split
  · exact h.modifyInstance a fun _ => rfl
  · exact h.after

theorem paired_invokeIndex (exclusive : Bool) (index : UInt32) (args : List Value)
    (h : s.Twin w s') (ha : w.instances a) (hwaits : ∀ x ∈ waiting, x.Inside w) :
    Paired w s s' (Machine.invokeIndex s a exclusive index args waiting)
      (Machine.invokeIndex s' a exclusive index args waiting) := by
  unfold Machine.invokeIndex
  rw [h.instances ha]
  cases s.instance? a with
  | none => exact paired_returned _ h hwaits
  | some i =>
    dsimp only
    have htaken := h.take a exclusive
    revert htaken
    generalize (if exclusive = true then s.modifyInstance a _ else s) = t
    generalize (if exclusive = true then s'.modifyInstance a _ else s') = t'
    intro htaken
    refine Paired.from ?_ htaken
    replace h := htaken.twin
    cases i.bindings.func index with
    | error e => exact paired_fail _ _ h hwaits
    | ok f =>
      dsimp only
      cases f.type.checkArgs (args.map Value.type) with
      | error e => exact paired_fail _ _ h hwaits
      | ok _ =>
        dsimp only
        have halike := h.run ⟨a, f.type.results, i.thread, exclusive⟩ (Activation.enter index args) ha
          fun _ _ => Activation.enclosed_enter index args
        rcases halike.cases with ⟨sent, u, u', hrun, hrun', hafter⟩ | ⟨e, u, u', hrun, hrun', hafter⟩
        · rw [hrun, hrun']
          cases sent with
          | none => exact (paired_active _ hafter.twin ha hwaits).from hafter
          | some call =>
            have howned : call.func.OwnedIn w :=
              h.closed.ownedIn id ha (Activation.sending_enter index args) hrun rfl
            exact (paired_call ⟨a, f.type.results, i.thread, exclusive⟩ _ _ hafter.twin ha howned
              hwaits).from hafter
        · rw [hrun, hrun']
          exact (paired_fail _ _ hafter.twin hwaits).from hafter

theorem paired_callRef (caller : Caller) {call : Call} (h : s.Twin w s')
    (hcall : call.func.OwnedIn w) (hwaits : ∀ x ∈ waiting, x.Inside w) :
    Paired w s s' (Machine.callRef s caller call waiting)
      (Machine.callRef s' caller call waiting) := by
  obtain ⟨f, args⟩ := call
  cases f with
  | host => cases hcall
  | owned type owner index =>
    have hbusy : s'.isBusy owner = s.isBusy owner := by
      rw [Store.isBusy, Store.isBusy, h.instances hcall]
    unfold Machine.callRef
    dsimp only
    rw [hbusy]
    split
    · exact paired_returned _ h hwaits
    · exact paired_invokeIndex _ _ _ h hcall hwaits

/-! ### Steps -/

theorem paired_stepWasm (h : s.Twin w s') (hself : w.instances act.self)
    (hwaits : ∀ x ∈ waiting, x.Inside w) :
    Paired w s s' (Machine.stepWasm s act waiting) (Machine.stepWasm s' act waiting) := by
  have hfinished : act.isFinished s' = act.isFinished s := by
    rw [Activation.isFinished, Activation.isFinished, h.instances hself]
  unfold Machine.stepWasm
  rw [hfinished]
  split
  · have halike := h.run act _ hself fun _ _ => Activation.enclosed_finish act.results
    rcases halike.cases with ⟨values, t, t', hrun, hrun', hafter⟩ | ⟨e, t, t', hrun, hrun', hafter⟩
    · rw [hrun, hrun']
      have hrelease := hafter.twin.release act
      exact (paired_returned _ hrelease.twin hwaits).from (hafter.trans hrelease)
    · rw [hrun, hrun']
      exact (paired_fail _ _ hafter.twin hwaits).from hafter
  · have halike := h.run act _ hself fun _ hb => Activation.enclosed_advance hb
    rcases halike.cases with ⟨sent, t, t', hrun, hrun', hafter⟩ | ⟨e, t, t', hrun, hrun', hafter⟩
    · rw [hrun, hrun']
      cases sent with
      | none => exact (paired_active _ hafter.twin hself hwaits).from hafter
      | some sent =>
        obtain ⟨call, site⟩ := sent
        have howned : call.func.OwnedIn w :=
          h.closed.ownedIn (Option.map Prod.fst) hself Activation.yields_advance hrun rfl
        exact (paired_call act _ _ hafter.twin hself howned hwaits).from hafter
    · rw [hrun, hrun']
      exact (paired_fail _ _ hafter.twin hwaits).from hafter

theorem paired_resumeWasm (type : FuncType) (site : Option Site) (result : Except Error (List Value))
    (h : s.Twin w s') (hself : w.instances act.self) (hwaits : ∀ x ∈ waiting, x.Inside w) :
    Paired w s s' (Machine.resumeWasm s act type site waiting result)
      (Machine.resumeWasm s' act type site waiting result) := by
  unfold Machine.resumeWasm
  cases result with
  | error e => exact paired_fail _ _ h hwaits
  | ok values =>
    dsimp only
    have halike := h.run act _ hself fun _ _ => Activation.enclosed_resume type values
    rcases halike.cases with ⟨_, t, t', hrun, hrun', hafter⟩ | ⟨e, t, t', hrun, hrun', hafter⟩
    · rw [hrun, hrun']
      exact (paired_active _ hafter.twin hself hwaits).from hafter
    · rw [hrun, hrun']
      exact (paired_fail _ _ hafter.twin hwaits).from hafter

/-- A step of each of two machines. -/
theorem Paired.step (h : Paired w s s' m m') : Paired w s s' m.step m'.step := by
  obtain ⟨t, focus, waiting⟩ := m
  obtain ⟨t', focus', waiting'⟩ := m'
  obtain ⟨hfocus, hwaiting, hrunning, hwaits, hafter⟩ := h
  obtain rfl : focus' = focus := hfocus
  obtain rfl : waiting' = waiting := hwaiting
  refine Paired.from ?_ hafter
  have htwin : t.Twin w t' := hafter.twin
  cases focus' with
  | wasm act => exact paired_stepWasm htwin hrunning hwaits
  | host => cases hrunning
  | call caller call => exact paired_callRef caller htwin hrunning hwaits
  | returned r =>
    cases waiting' with
    | nil => exact paired_returned r htwin hwaits
    | cons x rest =>
      obtain ⟨hx, hrest⟩ := List.forall_mem_cons.mp hwaits
      cases x with
      | wasm act type site => exact paired_resumeWasm type site r htwin hx hrest
      | host => cases hx

/-! ### Runs -/

/-- Two runs have the same result and leave stores that are related, or neither comes to its end. -/
inductive SameEnd (P : Store → Store → Prop) : Option (Except Error (List Value) × Store) →
    Option (Except Error (List Value) × Store) → Prop where
  | none : SameEnd P none none
  | some {r : Except Error (List Value)} {s s' : Store} (h : P s s') :
      SameEnd P (some (r, s)) (some (r, s'))

section SameEnd

variable {P Q : Store → Store → Prop} {x x' : Option (Except Error (List Value) × Store)}
  {r : Except Error (List Value)}

theorem SameEnd.mono (h : SameEnd P x x') (hPQ : ∀ {s s'}, P s s' → Q s s') : SameEnd Q x x' := by
  cases h with
  | none => exact .none
  | some h => exact .some (hPQ h)

theorem SameEnd.map_fst (h : SameEnd P x x') : x'.map Prod.fst = x.map Prod.fst := by
  cases h <;> rfl

theorem SameEnd.left (h : SameEnd P (.some (r, s)) x') : ∃ s', x' = .some (r, s') ∧ P s s' := by
  cases h with
  | some h => exact ⟨_, rfl, h⟩

theorem SameEnd.right (h : SameEnd P x (.some (r, s'))) : ∃ s, x = .some (r, s) ∧ P s s' := by
  cases h with
  | some h => exact ⟨_, rfl, h⟩

end SameEnd

theorem Paired.isOpen (h : Paired w s s' m m') (hopen : m.Open []) : m'.Open [] :=
  fun hwaiting r hfocus => hopen (h.waiting ▸ hwaiting) r (h.focus ▸ hfocus)

theorem Paired.run_of_not_open (h : Paired w s s' m m') (hend : ¬ m.Open []) (fuel : Nat) :
    SameEnd (Store.After w s s') (m.run fuel) (m'.run fuel) := by
  obtain ⟨t, r, rfl⟩ := Safety.eq_of_not_open hend
  obtain ⟨t', focus', waiting'⟩ := m'
  obtain rfl : focus' = .returned r := h.focus
  obtain rfl : waiting' = [] := h.waiting
  rw [Safety.run_returned, Safety.run_returned]
  exact .some h.after

/-- Two runs with the same fuel. -/
theorem Paired.run (h : Paired w s s' m m') (fuel : Nat) :
    SameEnd (Store.After w s s') (m.run fuel) (m'.run fuel) := by
  induction fuel generalizing m m' with
  | zero =>
    by_cases hopen : m.Open []
    · rw [(Safety.run_eq_of_open hopen).1, (Safety.run_eq_of_open (h.isOpen hopen)).1]
      exact .none
    · exact h.run_of_not_open hopen 0
  | succ fuel ih =>
    by_cases hopen : m.Open []
    · rw [(Safety.run_eq_of_open hopen).2, (Safety.run_eq_of_open (h.isOpen hopen)).2]
      exact ih h.step
    · exact h.run_of_not_open hopen _

/-- A machine next to itself stays so. -/
theorem Paired.within (h : Paired w s s m m) {waiting : List Waiting}
    (hwithin : Safety.Within waiting m m') : Paired w s s m' m' := by
  induction hwithin with
  | refl => exact h
  | step _ _ ih => exact ih.step

end

end Wasm
