import Mathlib.Logic.Relation
import Wasm.Proofs.Safety.Stores

/-!
# What a step does to the store

Whatever a step of a machine does, it does to the store in a few kinds of moves: an activation
begins and perhaps takes its instance for itself, it runs a part of its execution, it is cut back,
it ends and sets the instance free, or a request of a host function is served.  `moves_step` says so
once; an invariant of the store and of the activations in it then needs one case for each kind of
move.
-/

namespace Wasm

/-- The activation that runs. -/
def Focus.activations : Focus → List Activation
  | .wasm act => [act]
  | _ => []

/-- The activation that waits. -/
def Waiting.activations : Waiting → List Activation
  | .wasm act _ _ => [act]
  | .host .. => []

/-- The activations that have not ended, the most recent first. -/
def Machine.activations (m : Machine) : List Activation :=
  m.focus.activations ++ m.waiting.flatMap Waiting.activations

namespace Safety

/-- The parts of an execution that a machine runs at once. -/
inductive IsPart : {α : Type} → (Bindings → Execution.Step α) → Prop where
  | enter (index : UInt32) (args : List Value) : IsPart (Activation.enter index args)
  | advance : IsPart Activation.advance
  | resume (type : FuncType) (values : List Value) : IsPart fun _ => Activation.resume type values
  | finish (types : List ValueType) : IsPart fun _ => Activation.finish types

/-- What happens to a store and to the activations in it at once.  Only functions that satisfy the
condition are put in tables. -/
inductive Move (G : FuncRef → Prop) :
    Store × List Activation → Store × List Activation → Prop where
  /-- An activation begins. -/
  | take {s : Store} {acts : List Activation} {a : Address} {i : Instance}
      (results : List ValueType) (exclusive : Bool) (hi : s.instance? a = some i) :
      Move G (s, acts)
        (if exclusive then s.modifyInstance a fun i => { i with busy := true } else s,
          ⟨a, results, i.thread, exclusive⟩ :: acts)
  | run {α : Type} {part : Bindings → Execution.Step α} {s : Store} {acts : List Activation}
      {act : Activation} {i : Instance} {x : Execution} (hpart : IsPart part)
      (hi : s.instance? act.self = some i)
      (hx : (∃ r, part i.bindings ⟨s.objects, i.thread⟩ = .ok r x) ∨
        ∃ e, part i.bindings ⟨s.objects, i.thread⟩ = .error e x) :
      Move G (s, act :: acts) (settled s act.self i x, act :: acts)
  /-- The thread of a failed activation is cut back. -/
  | undo (s : Store) (act : Activation) (acts : List Activation) :
      Move G (s, act :: acts) (act.undo s, act :: acts)
  /-- An activation ends. -/
  | release (s : Store) (act : Activation) (acts : List Activation) :
      Move G (s, act :: acts) (act.release s, acts)
  /-- A request of a host function is answered. -/
  | serve {s s' : Store} (acts : List Activation) (h : s.Served G s') : Move G (s, acts) (s', acts)

/-- Some moves, one after another. -/
abbrev Moves (G : FuncRef → Prop) :
    Store × List Activation → Store × List Activation → Prop :=
  Relation.ReflTransGen (Move G)

/-- The store and the activations of a machine. -/
def state (m : Machine) : Store × List Activation :=
  (m.store, m.activations)

variable {G : FuncRef → Prop} {s s' : Store} {act : Activation} {acts : List Activation}
  {waiting : List Waiting}

/-! ### Parts and failures -/

theorem moves_run_ok {α : Type} {part : Bindings → Execution.Step α} {r : α} (hpart : IsPart part)
    (acts : List Activation) (h : act.run part s = .ok r s') :
    Moves G (s, act :: acts) (s', act :: acts) := by
  obtain ⟨i, x, hi, hx, rfl⟩ := exists_of_run_ok h
  exact .single (.run hpart hi (.inl ⟨_, hx⟩))

theorem moves_run_error {α : Type} {part : Bindings → Execution.Step α} {e : Error}
    (hpart : IsPart part) (acts : List Activation) (h : act.run part s = .error e s') :
    Moves G (s, act :: acts) (s', act :: acts) := by
  cases hi : s.instance? act.self with
  | none =>
    unfold Activation.run at h
    rw [hi] at h
    cases h
    exact .refl
  | some i =>
    rw [run_eq hi] at h
    cases hx : part i.bindings ⟨s.objects, i.thread⟩ with
    | ok r x =>
      rw [hx] at h
      cases h
    | error e x =>
      rw [hx] at h
      cases h
      exact .single (.run hpart hi (.inr ⟨_, hx⟩))

theorem moves_fail (s : Store) (act : Activation) (e : Error) (waiting : List Waiting) :
    Moves G (s, act :: waiting.flatMap Waiting.activations)
      (state (Machine.fail s act e waiting)) :=
  .tail (.single (.undo ..)) (.release ..)

/-! ### Calls -/

theorem moves_invokeIndex (s : Store) (a : Address) (exclusive : Bool) (index : UInt32)
    (args : List Value) (waiting : List Waiting) :
    Moves G (s, waiting.flatMap Waiting.activations)
      (state (Machine.invokeIndex s a exclusive index args waiting)) := by
  unfold Machine.invokeIndex
  cases hi : s.instance? a with
  | none => exact .refl
  | some i =>
    dsimp only
    have htake (results : List ValueType) :=
      @Move.take G s (waiting.flatMap Waiting.activations) a i results exclusive hi
    cases i.bindings.func index with
    | error t => exact .head (htake []) (moves_fail ..)
    | ok f =>
      dsimp only
      cases f.type.checkArgs (args.map Value.type) with
      | error e => exact .head (htake f.type.results) (moves_fail ..)
      | ok _ =>
        dsimp only
        refine .head (htake f.type.results) ?_
        generalize (if exclusive = true then _ else _) = taken
        split
        · next e s' hrun => exact (moves_run_error (.enter ..) _ hrun).trans (moves_fail ..)
        · next s' hrun => exact moves_run_ok (.enter ..) _ hrun
        · next call s' hrun => exact moves_run_ok (.enter ..) _ hrun

/-- A call by the name of an export fails before it begins, or it is one by index. -/
theorem invokeExport_cases (s : Store) (a : Address) (exclusive : Bool) (name : String)
    (args : List Value) (waiting : List Waiting) :
    (∃ e, Machine.invokeExport s a exclusive name args waiting =
      ⟨s, .returned (.error e), waiting⟩) ∨
    ∃ index, Machine.invokeExport s a exclusive name args waiting =
      Machine.invokeIndex s a exclusive index args waiting := by
  unfold Machine.invokeExport
  split
  · exact .inl ⟨_, rfl⟩
  · split
    · next e _ => exact .inl ⟨e, rfl⟩
    · next index _ => exact .inr ⟨index, rfl⟩

theorem invokeHandle_cases (s : Store) (a : Address) (name : String) (args : List Value)
    (waiting : List Waiting) :
    (∃ e, Machine.invokeHandle s a name args waiting = ⟨s, .returned (.error e), waiting⟩) ∨
    ∃ index, Machine.invokeHandle s a name args waiting =
      Machine.invokeIndex s a true index args waiting := by
  unfold Machine.invokeHandle
  split
  · exact .inl ⟨_, rfl⟩
  · exact invokeExport_cases ..

theorem moves_invokeExport (s : Store) (a : Address) (exclusive : Bool) (name : String)
    (args : List Value) (waiting : List Waiting) :
    Moves G (s, waiting.flatMap Waiting.activations)
      (state (Machine.invokeExport s a exclusive name args waiting)) := by
  rcases invokeExport_cases s a exclusive name args waiting with ⟨e, h⟩ | ⟨index, h⟩ <;> rw [h]
  · exact .refl
  · exact moves_invokeIndex ..

theorem moves_invokeHandle (s : Store) (a : Address) (name : String) (args : List Value)
    (waiting : List Waiting) :
    Moves G (s, waiting.flatMap Waiting.activations)
      (state (Machine.invokeHandle s a name args waiting)) := by
  rcases invokeHandle_cases s a name args waiting with ⟨e, h⟩ | ⟨index, h⟩ <;> rw [h]
  · exact .refl
  · exact moves_invokeIndex ..

theorem moves_invokeNative (s : Store) (m : NativeModule) (name : String) (args : List Value)
    (waiting : List Waiting) :
    Moves G (s, waiting.flatMap Waiting.activations)
      (state (Machine.invokeNative s m name args waiting)) := by
  unfold Machine.invokeNative
  split <;> exact .refl

theorem moves_callRef (s : Store) (caller : Caller) (call : Call) (waiting : List Waiting) :
    Moves G (s, waiting.flatMap Waiting.activations)
      (state (Machine.callRef s caller call waiting)) := by
  unfold Machine.callRef
  split
  · split <;> exact .refl
  · split
    · exact .refl
    · exact moves_invokeIndex ..

/-! ### Steps -/

theorem moves_stepWasm (s : Store) (act : Activation) (waiting : List Waiting) :
    Moves G (s, act :: waiting.flatMap Waiting.activations)
      (state (Machine.stepWasm s act waiting)) := by
  unfold Machine.stepWasm
  split
  · split
    · next e s' hrun => exact (moves_run_error (.finish _) _ hrun).trans (moves_fail ..)
    · next values s' hrun => exact (moves_run_ok (.finish _) _ hrun).tail (.release ..)
  · split
    · next e s' hrun => exact (moves_run_error .advance _ hrun).trans (moves_fail ..)
    · next s' hrun => exact moves_run_ok .advance _ hrun
    · next call site s' hrun => exact moves_run_ok .advance _ hrun

theorem moves_stepHost (s : Store) (caller : Caller) (type : FuncType) (waiting : List Waiting)
    (proc : Proc) (hG : ∀ {source f}, s.funcAt caller source = some f → G f) :
    Moves G (s, waiting.flatMap Waiting.activations)
      (state (Machine.stepHost s caller type waiting proc)) := by
  unfold Machine.stepHost
  split
  · exact .refl
  · split <;> exact .refl
  · exact .single (.serve _ (Store.served_answer caller _ hG))
  · next name args next =>
    -- The host function that waits is no activation.
    show Moves G (s, (Waiting.host caller type next :: waiting).flatMap Waiting.activations) _
    split
    · exact moves_invokeExport ..
    · exact moves_invokeNative ..
  · next h name args next =>
    show Moves G (s, (Waiting.host caller type next :: waiting).flatMap Waiting.activations) _
    split
    · exact moves_invokeHandle ..
    · exact .refl
  · split <;> exact .refl

theorem moves_resumeWasm (s : Store) (act : Activation) (type : FuncType) (site : Option Site)
    (waiting : List Waiting) (result : Except Error (List Value)) :
    Moves G (s, act :: waiting.flatMap Waiting.activations)
      (state (Machine.resumeWasm s act type site waiting result)) := by
  unfold Machine.resumeWasm
  dsimp only
  split
  · exact moves_fail ..
  · split
    · next e s' hrun => exact (moves_run_error (.resume ..) _ hrun).trans (moves_fail ..)
    · next s' hrun => exact moves_run_ok (.resume ..) _ hrun

/-- A step of a machine is a series of moves. -/
theorem moves_step (m : Machine) : Moves (fun _ => True) (state m) (state m.step) := by
  unfold Machine.step
  split
  · exact moves_stepWasm ..
  · exact moves_stepHost _ _ _ _ _ fun _ => trivial
  · exact moves_callRef ..
  · exact .refl
  · exact moves_resumeWasm ..
  · exact .refl

/-! ### Instances stay -/

theorem Move.stays {x y : Store × List Activation} (h : Move G x y) : x.1.Stays y.1 := by
  cases h with
  | take results exclusive hi =>
    dsimp only
    split
    · exact (later_modifyInstance (g := fun i => { i with busy := true }) _ _ fun _ => rfl).toStays
    · exact Store.stays_refl _
  | run _ hi => exact stays_settled hi _
  | undo s act => exact (later_undo s act).toStays
  | release s act => exact (later_release s act).toStays
  | serve _ hserved => exact Store.stays_of_instances hserved.instances

theorem Moves.stays {x y : Store × List Activation} (h : Moves G x y) : x.1.Stays y.1 := by
  induction h with
  | refl => exact Store.stays_refl _
  | tail _ hmove ih => exact ih.trans hmove.stays

/-! ### Objects change -/

theorem IsPart.writing {α : Type} {part : Bindings → Execution.Step α} (h : IsPart part)
    (b : Bindings) (x : Execution) : Execution.Writing (part b) x := by
  cases h with
  | enter => exact Activation.writing_enter ..
  | advance => exact Activation.writing_advance
  | resume => exact Activation.writing_resume ..
  | finish => exact Activation.writing_finish _

theorem Move.changes {x y : Store × List Activation} (h : Move G x y) :
    x.1.objects.Changes G y.1.objects := by
  cases h with
  | take results exclusive hi =>
    dsimp only
    split <;> exact .refl
  | @run _ part s acts act i x hpart hi hx =>
    have hwriting := hpart.writing i.bindings ⟨s.objects, i.thread⟩
    unfold Execution.Writing at hwriting
    rcases hx with ⟨r, hx⟩ | ⟨e, hx⟩
    · rw [hx] at hwriting
      exact hwriting.changes
    · rw [hx] at hwriting
      exact hwriting.changes
  | undo => exact .refl
  | release s act =>
    dsimp only [Activation.release]
    split <;> exact .refl
  | serve _ hserved => exact hserved.changes

theorem Moves.changes {x y : Store × List Activation} (h : Moves G x y) :
    x.1.objects.Changes G y.1.objects := by
  induction h with
  | refl => exact .refl
  | tail _ hmove ih => exact ih.trans hmove.changes

/-! ### Whole runs -/

/-- What every step keeps holds when a run has come to its end. -/
theorem holds_of_run {P : Machine → Prop} (hstep : ∀ {m}, P m → P m.step) {m : Machine} (h : P m)
    {fuel : Nat} {r : Except Error (List Value)} {s : Store} (hrun : m.run fuel = some (r, s)) :
    P ⟨s, .returned r, []⟩ := by
  induction fuel generalizing m with
  | zero =>
    unfold Machine.run at hrun
    split at hrun
    · cases hrun
      exact h
    · cases hrun
    · next heq _ => cases heq
  | succ fuel ih =>
    unfold Machine.run at hrun
    split at hrun
    · cases hrun
      exact h
    · next heq _ => cases heq
    · next heq _ =>
      cases heq
      exact ih (hstep h) hrun

end Safety

end Wasm
