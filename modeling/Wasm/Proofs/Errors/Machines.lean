import Wasm.Proofs.Errors.Accounts

/-!
# Accounts of running machines

A step of a machine hands failures on, puts contexts in front of them, or raises one that agrees in
category and code.  One lemma for each kind of call and step says so; `Machine.Builds.step` and
`Machine.Builds.run` put them together.
-/

namespace Wasm

variable {own : Error → Prop} {s s' : Store} {waiting : List Waiting}

/-! ### What requests are answered with -/

theorem accounts_exportedGlobal (b : Bindings) (name : String) :
    Accounts own (b.exportedGlobal name) := by
  refine Accounts.bind ?_ fun index => ?_
  · intro e h
    obtain ⟨message, rfl⟩ := Bindings.exportIndex_error h
    exact (Error.belongs_runtime (by decide)).accounted
  · split
    · exact accounts_ok _
    · exact accounts_trap _

theorem accounts_nativeGlobal (m : NativeModule) (name : String) :
    Accounts own (m.globalAt name) := by
  intro e h
  obtain ⟨message, rfl⟩ := NativeModule.globalAt_error h
  exact (Error.belongs_runtime (by decide)).accounted

theorem accounts_heldGlobal (s : Store) (a : Address) (name : String) :
    Accounts own (s.heldGlobal a name) := by
  unfold Store.heldGlobal
  split
  · exact accounts_exportedGlobal ..
  · exact accounts_runtime (by decide)

theorem accounts_globalOf (s : Store) (caller : Caller) (target : Target) (name : String) :
    Accounts own (s.globalOf caller target name) := by
  unfold Store.globalOf
  split
  · exact accounts_nativeGlobal ..
  · split
    · exact accounts_exportedGlobal ..
    · exact accounts_runtime (by decide)
  · split
    · exact accounts_heldGlobal ..
    · exact accounts_runtime (by decide)

theorem accounts_readGlobal (s : Store) (a : Address) : Accounts own (s.readGlobal a) := by
  unfold Store.readGlobal
  split
  · exact accounts_ok _
  · exact accounts_trap _

theorem accounts_assignGlobal (s : Store) (a : Address) (v : Value) :
    Accounts own (s.assignGlobal a v).1 := by
  unfold Store.assignGlobal
  split
  · exact accounts_ok _
  · exact accounts_trap _

theorem accounts_assignMemory (s : Store) (a : Address) (offset : Nat) (data : List UInt8) :
    Accounts own (s.assignMemory a offset data).1 := by
  unfold Store.assignMemory
  split
  · exact accounts_ok _
  · exact accounts_trap _

theorem accounts_growMemory (s : Store) (a : Address) (delta : UInt32) :
    Accounts own (s.growMemory a delta).1 := by
  rcases s.growMemory_cases a delta with
    ⟨m, old, m', -, -, hrun⟩ | ⟨e, hrun, ⟨t, rfl⟩ | ⟨m, hgrow⟩⟩ <;> rw [hrun]
  · exact accounts_ok _
  · exact accounts_trap _
  · obtain ⟨message, rfl⟩ := Memory.grow_error hgrow
    exact accounts_runtime (by decide)

theorem accounts_growTable (s : Store) (a : Address) (delta : UInt32) :
    Accounts own (s.growTable a delta).1 := by
  rcases s.growTable_cases a delta with
    ⟨t, old, t', -, -, hrun⟩ | ⟨e, hrun, ⟨t, rfl⟩ | ⟨t, hgrow⟩⟩ <;> rw [hrun]
  · exact accounts_ok _
  · exact accounts_trap _
  · obtain ⟨message, rfl⟩ := Table.grow_error hgrow
    exact accounts_runtime (by decide)

theorem accounts_setSlot (s : Store) (a : Address) (index : UInt32) (f : Option FuncRef) :
    Accounts own (s.setSlot a index f).1 := by
  unfold Store.setSlot
  split
  · exact accounts_ok _
  · exact accounts_trap _

theorem accounts_slot (s : Store) (a : Address) (index : UInt32) :
    Accounts own (s.slot a index) := by
  unfold Store.slot
  split
  · exact accounts_ok _
  · exact accounts_trap _

theorem accounts_readMemory (s : Store) (a : Address) (offset length : Nat) :
    Accounts own (s.readMemory a offset length) := by
  unfold Store.readMemory
  split
  · exact accounts_ok _
  · exact accounts_trap _

theorem accountsSome_map {α : Type} {place : Option Address} {act : Address → Except Error α}
    (h : ∀ a, Accounts own (act a)) : AccountsSome own (place.map act) := by
  intro x hx
  obtain ⟨a, -, rfl⟩ := Option.map_eq_some_iff.mp hx
  exact h a

theorem accountsSome_onObject {α : Type} {place : Option Address}
    {act : Address → Except Error α × Store} (h : ∀ a, Accounts own (act a).1) :
    AccountsSome own (s.onObject place act).1 := by
  intro x hx
  cases place with
  | none => cases hx
  | some a =>
    cases hx
    exact h a

theorem accounts_answer (s : Store) (caller : Caller) (request : Request) :
    request.Accounts own (s.answer caller request).1 := by
  cases request with
  | getGlobal target name =>
    exact (accounts_globalOf s caller target name).bind fun a => accounts_readGlobal s a
  | setGlobal target name v =>
    have htarget : Accounts own (s.globalOf caller target name) :=
      accounts_globalOf s caller target name
    unfold Store.answer
    dsimp only [Request.Accounts]
    split
    · exact accounts_assignGlobal ..
    · next he => exact accounts_error (htarget he)
  | writeMemory name offset data =>
    unfold Store.answer
    dsimp only [Request.Accounts]
    cases s.memberOf caller .caller name with
    | none => exact accounts_ok _
    | some member =>
      cases member with
      | memory a => exact accounts_assignMemory ..
      | _ => exact accounts_ok _
  | readCell global => exact accountsSome_map fun a => accounts_readGlobal s a
  | setCell global v => exact accountsSome_onObject fun a => accounts_assignGlobal s a v
  | readBytes memory offset length =>
    exact accountsSome_map fun a => accounts_readMemory s a offset length
  | putBytes memory offset data =>
    exact accountsSome_onObject fun a => accounts_assignMemory s a offset data
  | growMemory memory delta =>
    exact accountsSome_onObject fun a => accounts_growMemory s a delta
  | growTable table delta => exact accountsSome_onObject fun a => accounts_growTable s a delta
  | slotType table index => exact accountsSome_map fun a => (accounts_slot s a index).map _
  | setSlot table index source =>
    cases source with
    | none => exact accountsSome_onObject fun a => accounts_setSlot s a index none
    | some source =>
      unfold Store.answer
      dsimp only [Request.Accounts]
      split
      · next f _ => exact accountsSome_onObject fun a => accounts_setSlot s a index (some f)
      · exact fun _ h => nomatch h
  | emit | member | exports | hasMemory => trivial

/-! ### Calls -/

theorem builds_fail {act : Activation} {e : Error} (hs : s.Builds own) (he : e.Accounted own)
    (hwaiting : ∀ w ∈ waiting, w.Builds own) : (Machine.fail s act e waiting).Builds own :=
  ⟨hs.moves (Safety.moves_fail s act e waiting), accounts_error he, hwaiting⟩

/-- Wasm code that waits is no host function. -/
theorem builds_cons_wasm {act : Activation} {type : FuncType} {site : Option Site}
    (hwaiting : ∀ w ∈ waiting, w.Builds own) :
    ∀ w ∈ Waiting.wasm act type site :: waiting, w.Builds own :=
  List.forall_mem_cons.mpr ⟨trivial, hwaiting⟩

theorem builds_cons_host {caller : Caller} {type : FuncType}
    {next : Except Error (List Value) → Proc} (hcaller : caller.Builds own)
    (hnext : ∀ r, Accounts own r → (next r).Builds own) (hwaiting : ∀ w ∈ waiting, w.Builds own) :
    ∀ w ∈ Waiting.host caller type next :: waiting, w.Builds own :=
  List.forall_mem_cons.mpr ⟨⟨hcaller, hnext⟩, hwaiting⟩

/-- A call that leaves an instance as it is entered is one of a function in reach. -/
theorem builds_of_enter {act : Activation} {index : UInt32} {args : List Value} {call : Call}
    (hs : s.Builds own) (h : act.run (Activation.enter index args) s = .ok (some call) s') :
    call.func.Builds own := by
  obtain ⟨i, x, hi, hrun, -⟩ := Safety.exists_of_run_ok h
  exact (Activation.leaving_enter (hs.departs hi) index args).of_run hrun rfl

theorem builds_of_advance {act : Activation} {call : Call} {site : Site} (hs : s.Builds own)
    (h : act.run Activation.advance s = .ok (some (call, site)) s') : call.func.Builds own := by
  obtain ⟨i, x, hi, hrun, -⟩ := Safety.exists_of_run_ok h
  exact (Activation.leaving_advance (x := ⟨s.objects, i.thread⟩) (hs.departs hi)).of_run hrun rfl

theorem builds_take (hs : s.Builds own) (a : Address) (exclusive : Bool) :
    (if exclusive then s.modifyInstance a fun i => { i with busy := true } else s).Builds own := by
  split
  · exact hs.congr (Safety.later_modifyInstance (g := fun i => { i with busy := true }) _ _
      fun _ => rfl).toStays.bindings rfl
  · exact hs

theorem builds_invokeIndex (a : Address) (exclusive : Bool) (index : UInt32) (args : List Value)
    (hs : s.Builds own) (hwaiting : ∀ w ∈ waiting, w.Builds own) :
    (Machine.invokeIndex s a exclusive index args waiting).Builds own := by
  unfold Machine.invokeIndex
  cases hi : s.instance? a with
  | none => exact ⟨hs, accounts_runtime (by decide), hwaiting⟩
  | some i =>
    dsimp only
    have htaken := builds_take hs a exclusive
    generalize (if exclusive = true then _ else _) = taken at htaken ⊢
    cases i.bindings.func index with
    | error t => exact builds_fail htaken (Error.belongs_trap t).accounted hwaiting
    | ok f =>
      dsimp only
      cases hcheck : f.type.checkArgs (args.map Value.type) with
      | error e =>
        obtain ⟨message, rfl⟩ := FuncType.checkArgs_error hcheck
        exact builds_fail htaken (Error.belongs_runtime (by decide)).accounted hwaiting
      | ok _ =>
        dsimp only
        split
        · next e s' hrun =>
          have hs' := htaken.moves (Safety.moves_run_error (.enter ..) [] hrun)
          exact builds_fail hs' (.inl (Safety.agrees_of_run (.enter ..) hrun)) hwaiting
        · next s' hrun =>
          exact ⟨htaken.moves (Safety.moves_run_ok (.enter ..) [] hrun), trivial, hwaiting⟩
        · next call s' hrun =>
          exact ⟨htaken.moves (Safety.moves_run_ok (.enter ..) [] hrun),
            ⟨trivial, builds_of_enter htaken hrun⟩, builds_cons_wasm hwaiting⟩

theorem builds_invokeExport (a : Address) (exclusive : Bool) (name : String) (args : List Value)
    (hs : s.Builds own) (hwaiting : ∀ w ∈ waiting, w.Builds own) :
    (Machine.invokeExport s a exclusive name args waiting).Builds own := by
  unfold Machine.invokeExport
  split
  · exact ⟨hs, accounts_runtime (by decide), hwaiting⟩
  · split
    · next hindex =>
      obtain ⟨message, rfl⟩ := Bindings.exportIndex_error hindex
      exact ⟨hs, accounts_runtime (by decide), hwaiting⟩
    · exact builds_invokeIndex a exclusive _ args hs hwaiting

theorem builds_invokeHandle (a : Address) (name : String) (args : List Value)
    (hs : s.Builds own) (hwaiting : ∀ w ∈ waiting, w.Builds own) :
    (Machine.invokeHandle s a name args waiting).Builds own := by
  unfold Machine.invokeHandle
  split
  · exact ⟨hs, accounts_runtime (by decide), hwaiting⟩
  · exact builds_invokeExport a true name args hs hwaiting

theorem builds_invokeNative {m : NativeModule} (name : String) (args : List Value)
    (hs : s.Builds own) (hm : m.Builds own) (hwaiting : ∀ w ∈ waiting, w.Builds own) :
    (Machine.invokeNative s m name args waiting).Builds own := by
  unfold Machine.invokeNative
  split
  · next hf =>
    obtain ⟨message, rfl⟩ := NativeModule.func_error hf
    exact ⟨hs, accounts_runtime (by decide), hwaiting⟩
  · next f hf =>
    unfold NativeModule.func at hf
    split at hf
    · next hmember =>
      cases hf
      exact ⟨hs, ⟨hm, hm.member hmember⟩, hwaiting⟩
    · cases hf

theorem builds_callRef {caller : Caller} {call : Call} (hs : s.Builds own)
    (hcaller : caller.Builds own) (hcall : call.func.Builds own)
    (hwaiting : ∀ w ∈ waiting, w.Builds own) :
    (Machine.callRef s caller call waiting).Builds own := by
  obtain ⟨f, args⟩ := call
  cases f with
  | host type run =>
    unfold Machine.callRef
    dsimp only
    cases hcheck : type.checkArgs (args.map Value.type) with
    | error e =>
      obtain ⟨message, rfl⟩ := FuncType.checkArgs_error hcheck
      exact ⟨hs, accounts_runtime (by decide), hwaiting⟩
    | ok _ => exact ⟨hs, ⟨hcaller, hcall args⟩, hwaiting⟩
  | owned type owner index =>
    show Machine.Builds own (ite _ _ _)
    split
    · exact ⟨hs, accounts_runtime (by decide), hwaiting⟩
    · exact builds_invokeIndex owner true index args hs hwaiting

/-! ### Steps -/

theorem builds_stepWasm (act : Activation) (hs : s.Builds own)
    (hwaiting : ∀ w ∈ waiting, w.Builds own) : (Machine.stepWasm s act waiting).Builds own := by
  unfold Machine.stepWasm
  split
  · split
    · next e s' hrun =>
      have hs' := hs.moves (Safety.moves_run_error (.finish _) [] hrun)
      exact builds_fail hs' (.inl (Safety.agrees_of_run (.finish _) hrun)) hwaiting
    · next values s' hrun =>
      have hs' := hs.moves (Safety.moves_run_ok (.finish _) [] hrun)
      exact ⟨hs'.moves (.single (.release s' act [])), accounts_ok _, hwaiting⟩
  · split
    · next e s' hrun =>
      have hs' := hs.moves (Safety.moves_run_error .advance [] hrun)
      exact builds_fail hs' (.inl (Safety.agrees_of_run .advance hrun)) hwaiting
    · next s' hrun =>
      exact ⟨hs.moves (Safety.moves_run_ok .advance [] hrun), trivial, hwaiting⟩
    · next call site s' hrun =>
      exact ⟨hs.moves (Safety.moves_run_ok .advance [] hrun),
        ⟨trivial, builds_of_advance hs hrun⟩, builds_cons_wasm hwaiting⟩

theorem builds_stepHost {caller : Caller} {type : FuncType} {proc : Proc} (hs : s.Builds own)
    (hcaller : caller.Builds own) (hproc : proc.Builds own)
    (hwaiting : ∀ w ∈ waiting, w.Builds own) :
    (Machine.stepHost s caller type waiting proc).Builds own := by
  unfold Machine.stepHost
  split
  · exact ⟨hs, hproc, hwaiting⟩
  · split
    · next hcheck =>
      obtain ⟨message, rfl⟩ := FuncType.checkResults_error hcheck
      exact ⟨hs, accounts_runtime (by decide), hwaiting⟩
    · exact ⟨hs, accounts_ok _, hwaiting⟩
  · next request next =>
    have hs' : (s.answer caller request).2.Builds own :=
      hs.served (Store.served_answer caller request (hs.funcAt hcaller))
    exact ⟨hs', ⟨hcaller, hproc _ (accounts_answer ..)⟩, hwaiting⟩
  · next name args next =>
    split
    · exact builds_invokeExport _ false name args hs (builds_cons_host hcaller hproc hwaiting)
    · exact builds_invokeNative name args hs hcaller (builds_cons_host hcaller hproc hwaiting)
  · next h name args next =>
    split
    · exact builds_invokeHandle _ name args hs (builds_cons_host hcaller hproc hwaiting)
    · exact ⟨hs, ⟨hcaller, hproc _ (accounts_runtime (by decide))⟩, hwaiting⟩
  · next source args otherwise next =>
    split
    · next f hf =>
      exact ⟨hs, ⟨hcaller, hs.funcAt hcaller hf⟩, builds_cons_host hcaller hproc.2 hwaiting⟩
    · exact ⟨hs, ⟨hcaller, hproc.1⟩, hwaiting⟩

theorem builds_resumeWasm (act : Activation) (type : FuncType) (site : Option Site)
    {r : Except Error (List Value)} (hs : s.Builds own) (hr : Accounts own r)
    (hwaiting : ∀ w ∈ waiting, w.Builds own) :
    (Machine.resumeWasm s act type site waiting r).Builds own := by
  unfold Machine.resumeWasm
  dsimp only
  split
  · refine builds_fail hs ?_ hwaiting
    split
    · exact (hr rfl).context _
    · exact hr rfl
  · split
    · next e s' hrun =>
      have he : e.Accounted own := .inl (Safety.agrees_of_run (.resume ..) hrun)
      refine builds_fail (hs.moves (Safety.moves_run_error (.resume ..) [] hrun)) ?_ hwaiting
      split
      · exact he.context _
      · exact he
    · next s' hrun =>
      exact ⟨hs.moves (Safety.moves_run_ok (.resume ..) [] hrun), trivial, hwaiting⟩

/-- A step of a machine keeps accounts. -/
theorem Machine.Builds.step {m : Machine} (h : m.Builds own) : m.step.Builds own := by
  obtain ⟨s, focus, waiting⟩ := m
  obtain ⟨hs, hfocus, hwaiting⟩ := h
  cases focus with
  | wasm act => exact builds_stepWasm act hs hwaiting
  | host caller type proc => exact builds_stepHost hs hfocus.1 hfocus.2 hwaiting
  | call caller sent => exact builds_callRef hs hfocus.1 hfocus.2 hwaiting
  | returned r =>
    cases waiting with
    | nil => exact ⟨hs, hfocus, hwaiting⟩
    | cons w waiting =>
      obtain ⟨hw, hbelow⟩ := List.forall_mem_cons.mp hwaiting
      cases w with
      | wasm act type site => exact builds_resumeWasm act type site hs hfocus hbelow
      | host caller type next => exact ⟨hs, ⟨hw.1, hw.2 r hfocus⟩, hbelow⟩

/-- Whatever a run takes, the failure that it ends with is accounted for. -/
theorem Machine.Builds.run {m : Machine} (h : m.Builds own) {fuel : Nat}
    {r : Except Error (List Value)} (hrun : m.run fuel = some (r, s')) :
    Accounts own r ∧ s'.Builds own := by
  have hend : Machine.Builds own ⟨s', .returned r, []⟩ := Safety.holds_of_run (·.step) h hrun
  exact ⟨hend.focus, hend.store⟩

end Wasm
