import Wasm.Proofs.Safety.Returns

/-!
# Earlier events

The events of a store are a log for the embedder: host functions add to it, and nothing looks at it.
So it makes no difference to a step (`step_after`), and none to a run (`runFuel_after`), which
events were there before.
-/

namespace Wasm

/-- The store with earlier events. -/
def Store.after (s : Store) (past : List Event) : Store :=
  { s with events := s.events ++ past }

/-- The machine with earlier events. -/
def Machine.after (m : Machine) (past : List Event) : Machine :=
  { m with store := m.store.after past }

namespace Safety

/-! ### Activations -/

theorem release_after (act : Activation) (s : Store) (past : List Event) :
    act.release (s.after past) = (act.release s).after past := by
  unfold Activation.release
  split <;> rfl

theorem run_after {α : Type} (part : Bindings → Execution.Step α) (act : Activation) (s : Store)
    (past : List Event) : act.run part (s.after past) = match act.run part s with
      | .ok r s' => .ok r (s'.after past)
      | .error e s' => .error e (s'.after past) := by
  cases hi : s.instance? act.self with
  | none =>
    have hi' : (s.after past).instance? act.self = none := hi
    unfold Activation.run
    rw [hi, hi']
  | some i =>
    have hi' : (s.after past).instance? act.self = some i := hi
    have hobjects : (s.after past).objects = s.objects := rfl
    rw [run_eq hi, run_eq hi', hobjects]
    cases part i.bindings ⟨s.objects, i.thread⟩ <;> rfl

theorem fail_after (act : Activation) (e : Error) (s : Store) (waiting : List Waiting)
    (past : List Event) :
    Machine.fail (s.after past) act e waiting = (Machine.fail s act e waiting).after past := by
  show Machine.mk (act.release ((act.undo s).after past)) _ _ = _
  rw [release_after]
  rfl

/-! ### Calls -/

theorem invokeIndex_after (s : Store) (a : Address) (exclusive : Bool) (index : UInt32)
    (args : List Value) (waiting : List Waiting) (past : List Event) :
    Machine.invokeIndex (s.after past) a exclusive index args waiting =
      (Machine.invokeIndex s a exclusive index args waiting).after past := by
  unfold Machine.invokeIndex
  have hi : (s.after past).instance? a = s.instance? a := rfl
  rw [hi]
  cases s.instance? a with
  | none => rfl
  | some i =>
    dsimp only
    have htaken : (if exclusive = true then
        (s.after past).modifyInstance a fun i => { i with busy := true } else s.after past) =
        (if exclusive = true then s.modifyInstance a fun i => { i with busy := true }
          else s).after past := by
      split <;> rfl
    rw [htaken]
    generalize (if exclusive = true then s.modifyInstance a fun i => { i with busy := true }
      else s) = s'
    cases i.bindings.func index with
    | error t => exact fail_after ..
    | ok f =>
      dsimp only
      cases f.type.checkArgs (args.map Value.type) with
      | error e => exact fail_after ..
      | ok _ =>
        dsimp only
        rw [run_after]
        cases Activation.run ⟨a, f.type.results, i.thread, exclusive⟩ (Activation.enter index args)
          s' with
        | error e s => exact fail_after ..
        | ok call s => cases call <;> rfl

theorem invokeExport_after (s : Store) (a : Address) (exclusive : Bool) (name : String)
    (args : List Value) (waiting : List Waiting) (past : List Event) :
    Machine.invokeExport (s.after past) a exclusive name args waiting =
      (Machine.invokeExport s a exclusive name args waiting).after past := by
  unfold Machine.invokeExport
  have hi : (s.after past).instance? a = s.instance? a := rfl
  rw [hi]
  cases s.instance? a with
  | none => rfl
  | some i =>
    dsimp only
    cases i.bindings.exportIndex .func name with
    | error e => rfl
    | ok index => exact invokeIndex_after ..

theorem invokeHandle_after (s : Store) (a : Address) (name : String) (args : List Value)
    (waiting : List Waiting) (past : List Event) :
    Machine.invokeHandle (s.after past) a name args waiting =
      (Machine.invokeHandle s a name args waiting).after past := by
  unfold Machine.invokeHandle
  have hbusy : (s.after past).isBusy a = s.isBusy a := rfl
  rw [hbusy]
  split
  · rfl
  · exact invokeExport_after ..

theorem invokeNative_after (s : Store) (module : NativeModule) (name : String) (args : List Value)
    (waiting : List Waiting) (past : List Event) :
    Machine.invokeNative (s.after past) module name args waiting =
      (Machine.invokeNative s module name args waiting).after past := by
  unfold Machine.invokeNative
  cases module.func name <;> rfl

theorem callRef_after (s : Store) (caller : Caller) (call : Call) (waiting : List Waiting)
    (past : List Event) : Machine.callRef (s.after past) caller call waiting =
      (Machine.callRef s caller call waiting).after past := by
  obtain ⟨f, args⟩ := call
  unfold Machine.callRef
  cases f with
  | host type run =>
    dsimp only
    cases type.checkArgs (args.map Value.type) <;> rfl
  | owned type owner index =>
    dsimp only
    have hbusy : (s.after past).isBusy owner = s.isBusy owner := rfl
    rw [hbusy]
    split
    · rfl
    · exact invokeIndex_after ..

/-! ### Answers -/

theorem assignGlobal_after (s : Store) (a : Address) (v : Value) (past : List Event) :
    (s.after past).assignGlobal a v =
      ((s.assignGlobal a v).1, (s.assignGlobal a v).2.after past) := by
  unfold Store.assignGlobal
  have hset : (s.after past).objects.setGlobal a v = s.objects.setGlobal a v := rfl
  rw [hset]
  cases s.objects.setGlobal a v <;> rfl

theorem assignMemory_after (s : Store) (a : Address) (offset : Nat) (data : List UInt8)
    (past : List Event) : (s.after past).assignMemory a offset data =
      ((s.assignMemory a offset data).1, (s.assignMemory a offset data).2.after past) := by
  unfold Store.assignMemory
  have hwrite : (s.after past).objects.writeMemory a offset data =
    s.objects.writeMemory a offset data := rfl
  rw [hwrite]
  cases s.objects.writeMemory a offset data <;> rfl

theorem growMemory_after (s : Store) (a : Address) (delta : UInt32) (past : List Event) :
    (s.after past).growMemory a delta =
      ((s.growMemory a delta).1, (s.growMemory a delta).2.after past) := by
  unfold Store.growMemory
  have hmemory : (s.after past).objects.memory a = s.objects.memory a := rfl
  rw [hmemory]
  cases s.objects.memory a with
  | error t => rfl
  | ok m =>
    dsimp only
    cases m.grow delta <;> rfl

theorem growTable_after (s : Store) (a : Address) (delta : UInt32) (past : List Event) :
    (s.after past).growTable a delta =
      ((s.growTable a delta).1, (s.growTable a delta).2.after past) := by
  unfold Store.growTable
  have htable : (s.after past).objects.table a = s.objects.table a := rfl
  rw [htable]
  cases s.objects.table a with
  | error t => rfl
  | ok t =>
    dsimp only
    cases t.grow delta <;> rfl

theorem setSlot_after (s : Store) (a : Address) (index : UInt32) (f : Option FuncRef)
    (past : List Event) : (s.after past).setSlot a index f =
      ((s.setSlot a index f).1, (s.setSlot a index f).2.after past) := by
  unfold Store.setSlot
  have htable : (s.after past).objects.table a = s.objects.table a := rfl
  rw [htable]
  cases (s.objects.table a).bind fun t => t.set index f <;> rfl

theorem onObject_after {α : Type} (s : Store) (place : Option Address)
    {act act' : Address → α × Store} (past : List Event)
    (h : ∀ a, act' a = ((act a).1, (act a).2.after past)) :
    (s.after past).onObject place act' =
      ((s.onObject place act).1, (s.onObject place act).2.after past) := by
  cases place with
  | none => rfl
  | some a =>
    show ((some (act' a).1, (act' a).2) : Option α × Store) = _
    rw [h a]
    rfl

theorem answer_after (s : Store) (caller : Caller) (request : Request) (past : List Event) :
    (s.after past).answer caller request =
      ((s.answer caller request).1, (s.answer caller request).2.after past) := by
  cases request with
  | setGlobal target name v =>
    unfold Store.answer
    dsimp only
    have hglobal : (s.after past).globalOf caller target name = s.globalOf caller target name := rfl
    rw [hglobal]
    cases s.globalOf caller target name with
    | ok a => exact assignGlobal_after ..
    | error e => rfl
  | writeMemory name offset data =>
    unfold Store.answer
    dsimp only
    have hmember : (s.after past).memberOf caller .caller name = s.memberOf caller .caller name :=
      rfl
    rw [hmember]
    cases s.memberOf caller .caller name with
    | none => rfl
    | some member =>
      cases member with
      | memory a => exact assignMemory_after ..
      | _ => rfl
  | setCell => exact onObject_after s _ past fun a => assignGlobal_after ..
  | putBytes => exact onObject_after s _ past fun a => assignMemory_after ..
  | growMemory => exact onObject_after s _ past fun a => growMemory_after ..
  | growTable => exact onObject_after s _ past fun a => growTable_after ..
  | setSlot table index source =>
    cases source with
    | none => exact onObject_after s _ past fun a => setSlot_after ..
    | some source =>
      unfold Store.answer
      dsimp only
      have hfunc : (s.after past).funcAt caller source = s.funcAt caller source := rfl
      rw [hfunc]
      cases s.funcAt caller source with
      | none => rfl
      | some f => exact onObject_after s _ past fun a => setSlot_after ..
  | _ => rfl

/-! ### Steps -/

theorem stepWasm_after (s : Store) (act : Activation) (waiting : List Waiting)
    (past : List Event) : Machine.stepWasm (s.after past) act waiting =
      (Machine.stepWasm s act waiting).after past := by
  unfold Machine.stepWasm
  have hfinished : act.isFinished (s.after past) = act.isFinished s := rfl
  rw [hfinished]
  split
  · rw [run_after]
    cases act.run (fun _ => Activation.finish act.results) s with
    | error e s => exact fail_after ..
    | ok values s =>
      show Machine.mk (act.release (s.after past)) _ _ = _
      rw [release_after]
      rfl
  · rw [run_after]
    cases act.run Activation.advance s with
    | error e s => exact fail_after ..
    | ok call s => cases call <;> rfl

theorem stepHost_after (s : Store) (caller : Caller) (type : FuncType) (waiting : List Waiting)
    (proc : Proc) (past : List Event) : Machine.stepHost (s.after past) caller type waiting proc =
      (Machine.stepHost s caller type waiting proc).after past := by
  cases proc with
  | done r =>
    cases r with
    | error e => rfl
    | ok values =>
      unfold Machine.stepHost
      dsimp only
      cases type.checkResults (values.map Value.type) <;> rfl
  | ask request next =>
    unfold Machine.stepHost
    dsimp only
    rw [answer_after]
    rfl
  | invoke target name args next =>
    unfold Machine.stepHost
    cases target with
    | caller =>
      cases caller with
      | «instance» a => exact invokeExport_after ..
      | native m => exact invokeNative_after ..
    | handle h =>
      dsimp only
      have hhandle : (s.after past).handle? h = s.handle? h := rfl
      rw [hhandle]
      cases s.handle? h with
      | some a => exact invokeHandle_after ..
      | none => rfl
  | call source args otherwise next =>
    unfold Machine.stepHost
    dsimp only
    have hfunc : (s.after past).funcAt caller source = s.funcAt caller source := rfl
    rw [hfunc]
    cases s.funcAt caller source <;> rfl

theorem resumeWasm_after (s : Store) (act : Activation) (type : FuncType) (site : Option Site)
    (waiting : List Waiting) (r : Except Error (List Value)) (past : List Event) :
    Machine.resumeWasm (s.after past) act type site waiting r =
      (Machine.resumeWasm s act type site waiting r).after past := by
  unfold Machine.resumeWasm
  cases r with
  | error e => exact fail_after ..
  | ok values =>
    dsimp only
    rw [run_after]
    cases act.run (fun _ => Activation.resume type values) s with
    | error e s => exact fail_after ..
    | ok _ s => rfl

/-- Earlier events make no difference to a step. -/
theorem step_after (m : Machine) (past : List Event) : (m.after past).step = m.step.after past := by
  obtain ⟨s, focus, waiting⟩ := m
  cases focus with
  | wasm act => exact stepWasm_after ..
  | host caller type proc => exact stepHost_after ..
  | call caller call => exact callRef_after ..
  | returned r =>
    cases waiting with
    | nil => rfl
    | cons w waiting =>
      cases w with
      | wasm act type site => exact resumeWasm_after ..
      | host caller type next => rfl

/-- Earlier events make no difference to a run. -/
theorem runFuel_after (fuel : Nat) (m : Machine) (past : List Event) :
    (m.after past).run fuel = (m.run fuel).map fun x => (x.1, x.2.after past) := by
  by_cases hopen : m.Open []
  · have hopen' : (m.after past).Open [] := hopen
    induction fuel generalizing m with
    | zero =>
      rw [(run_eq_of_open hopen).1, (run_eq_of_open hopen').1]
      rfl
    | succ fuel ih =>
      rw [(run_eq_of_open hopen).2, (run_eq_of_open hopen').2, step_after]
      by_cases hnext : m.step.Open []
      · exact ih _ hnext hnext
      · obtain ⟨s, r, heq⟩ := eq_of_not_open hnext
        rw [heq, run_returned]
        exact run_returned ..
  · obtain ⟨s, r, rfl⟩ := eq_of_not_open hopen
    rw [run_returned]
    exact run_returned ..

end Safety

end Wasm
