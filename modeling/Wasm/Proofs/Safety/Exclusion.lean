import Wasm.Proofs.Safety.Quiescence
import Wasm.Proofs.Safety.Reentrancy

/-!
# Running instances are left alone

A call from outside takes its instance until it ends, unless it is a call back from a host function
that the instance waits for.  So every instance in which an activation has not ended is taken
(`Held`), and through a handle or a reference nothing gets at it (`Refuses`).  A host function that
turns to its caller is served all the same, and when the calls of the embedder have returned, every
instance accepts the next one (`busy_discipline`).
-/

namespace Wasm

/-- An instance that is running refuses calls through a handle or a reference and gives no global
away, nor any other member through a handle; nothing changes in the store. -/
structure Store.Refuses (s : Store) (a : Address) : Prop where
  handle : ∀ name args waiting, Machine.invokeHandle s a name args waiting =
    ⟨s, .returned (.error alreadyExecuting), waiting⟩
  reference : ∀ caller type index args waiting,
    Machine.callRef s caller ⟨.owned type a index, args⟩ waiting =
      ⟨s, .returned (.error (ownerExecuting index)), waiting⟩
  getGlobal : ∀ name, s.getGlobal (.instance a) name = .error alreadyExecuting
  setGlobal : ∀ name v, s.setGlobal (.instance a) name v = (.error alreadyExecuting, s)
  requests : ∀ {caller h}, s.handle? h = some a →
    (∀ name, s.answer caller (.getGlobal (.handle h) name) = (.error alreadyExecuting, s)) ∧
    ∀ name v, s.answer caller (.setGlobal (.handle h) name v) = (.error alreadyExecuting, s)
  members : ∀ {caller h}, s.handle? h = some a →
    ∀ name, s.memberOf caller (.handle h) name = none

/-- An instance does not refuse a call or an access to a global as one that is running or gone
does, at least not on its own account. -/
structure Store.Accepts (s : Store) (a : Address) : Prop where
  handle : ∀ {name args waiting e}, (Machine.invokeHandle s a name args waiting).focus =
    .returned (.error e) → e.code ≠ Code.instanceUnavailable
  reference : ∀ {caller type index args waiting e},
    (Machine.callRef s caller ⟨.owned type a index, args⟩ waiting).focus = .returned (.error e) →
      e.code ≠ Code.instanceUnavailable
  getGlobal : ∀ {name e}, s.getGlobal (.instance a) name = .error e →
    e.code ≠ Code.instanceUnavailable
  setGlobal : ∀ {name v e}, (s.setGlobal (.instance a) name v).1 = .error e →
    e.code ≠ Code.instanceUnavailable

namespace Safety

variable {s s' : Store} {a : Address} {act : Activation} {acts : List Activation}
  {waiting : List Waiting} {known : List FuncRef} {m : Machine}

/-! ### Refusals -/

theorem idle?_of_busy (h : s.isBusy a = true) : s.idle? a = none := by
  unfold Store.isBusy at h
  unfold Store.idle?
  cases hi : s.instance? a with
  | none => rfl
  | some i =>
    rw [hi] at h
    exact if_pos h

theorem refuses_of_busy (h : s.isBusy a = true) : s.Refuses a := by
  have hheld (name : String) : s.heldGlobal a name = .error alreadyExecuting := by
    rw [Store.heldGlobal, idle?_of_busy h]
  have hprovided (name : String) :
      s.providedGlobal (.instance a) name = .error alreadyExecuting := hheld name
  have hasked {handle : String} (caller : Caller) (name : String)
      (hhandle : s.handle? handle = some a) :
      s.globalOf caller (.handle handle) name = .error alreadyExecuting := by
    unfold Store.globalOf
    dsimp only
    rw [hhandle]
    exact hheld name
  constructor
  case handle =>
    intro name args waiting
    exact if_pos h
  case reference =>
    intro caller type index args waiting
    exact if_pos h
  case getGlobal =>
    intro name
    rw [Store.getGlobal, hprovided]
    rfl
  case setGlobal =>
    intro name v
    rw [Store.setGlobal, hprovided]
  case requests =>
    intro caller handle hhandle
    constructor
    · intro name
      unfold Store.answer
      dsimp only
      rw [hasked caller name hhandle]
      rfl
    · intro name v
      unfold Store.answer
      dsimp only
      rw [hasked caller name hhandle]
  case members =>
    intro caller handle hhandle name
    unfold Store.memberOf
    dsimp only
    rw [hhandle, Option.bind_some, idle?_of_busy h]
    rfl

/-! ### Failures that are no refusals -/

theorem code_ne_of_trap (t : Trap) : t.error.code ≠ Code.instanceUnavailable := by
  intro hcode
  have hcategory := t.ofCode_code
  rw [show t.code = Code.instanceUnavailable from hcode] at hcategory
  cases hcategory

/-- A part of an execution that does not fail because of an instance that is running or gone. -/
def Unrefused {α : Type} (part : Execution.Step α) : Prop :=
  ∀ x e y, part x = .error e y → e.code ≠ Code.instanceUnavailable

section Unrefused

open Execution

variable {α β : Type} {c : Step α} {f : α → Step β}

theorem Unrefused.bind (h : Unrefused c) (hf : ∀ r, Unrefused (f r)) : Unrefused (c >>= f) := by
  intro x e y hrun
  replace hrun : EStateM.bind c f x = .error e y := hrun
  unfold EStateM.bind at hrun
  cases hc : c x with
  | ok r x' =>
    rw [hc] at hrun
    exact hf r x' e y hrun
  | error e' x' =>
    rw [hc] at hrun
    cases hrun
    exact h x _ _ hc

theorem unrefused_pure (r : α) : Unrefused (pure r : Step α) :=
  fun _ _ _ hrun => nomatch hrun

theorem unrefused_trap (t : Trap) : Unrefused (trap t : Step α) := by
  intro x e y hrun
  cases hrun
  exact code_ne_of_trap t

theorem unrefused_orTrap (r : Except Trap α) : Unrefused (orTrap r) := by
  cases r with
  | ok r => exact unrefused_pure r
  | error t => exact unrefused_trap t

theorem unrefused_get : Unrefused (get : Step Execution) :=
  fun _ _ _ hrun => nomatch hrun

theorem unrefused_modify (g : Execution → Execution) : Unrefused (modify g : Step PUnit) :=
  fun _ _ _ hrun => nomatch hrun

theorem unrefused_operands : Unrefused operands :=
  fun _ _ _ hrun => nomatch hrun

theorem unrefused_setOperands (operands : OperandStack) : Unrefused (setOperands operands) :=
  fun _ _ _ hrun => nomatch hrun

theorem unrefused_call (b : Bindings) (index : UInt32) : Unrefused (call b index) := by
  refine (unrefused_orTrap _).bind fun g => ?_
  cases g with
  | imported f =>
    have hleave : Unrefused (leave f) := unrefused_operands.bind fun _ =>
      (unrefused_orTrap _).bind fun _ => (unrefused_setOperands _).bind fun _ => unrefused_pure _
    exact hleave.bind fun _ => unrefused_pure _
  | defined type localCount body =>
    refine unrefused_get.bind fun x => ?_
    show Unrefused (ite _ _ _)
    split
    · exact unrefused_trap _
    · have hbase : Unrefused (baseBelow type.params.length) := by
        refine unrefused_operands.bind fun operands => ?_
        show Unrefused (ite _ _ _)
        split
        · exact unrefused_trap _
        · exact unrefused_pure _
      exact hbase.bind fun _ => (unrefused_orTrap _).bind fun _ => (unrefused_setOperands _).bind
        fun _ => (unrefused_modify _).bind fun _ => unrefused_pure _

theorem unrefused_enter (index : UInt32) (args : List Value) (b : Bindings) :
    Unrefused (Activation.enter index args b) :=
  unrefused_operands.bind fun _ => (unrefused_orTrap _).bind fun _ =>
    (unrefused_setOperands _).bind fun _ => unrefused_call b index

end Unrefused

/-- A call of a function of an instance that is there does not fail as that of a running one. -/
theorem code_ne_of_invokeIndex {i : Instance} {exclusive : Bool} {index : UInt32}
    {args : List Value} {e : Error} (hi : s.instance? a = some i)
    (h : (Machine.invokeIndex s a exclusive index args waiting).focus = .returned (.error e)) :
    e.code ≠ Code.instanceUnavailable := by
  unfold Machine.invokeIndex at h
  rw [hi] at h
  dsimp only at h
  generalize htaken : (if exclusive = true then s.modifyInstance a fun i => { i with busy := true }
    else s) = s' at h
  obtain ⟨i', hi'⟩ : ∃ i', s'.instance? a = some i' := by
    have hb : s'.bindings? a = some i.bindings := by
      rw [(taken_keeps htaken).1.bindings, Store.bindings?, hi]
      rfl
    obtain ⟨i', hi', -⟩ := exists_instance hb
    exact ⟨i', hi'⟩
  cases hf : i.bindings.func index with
  | error t =>
    rw [hf] at h
    cases h
    exact code_ne_of_trap t
  | ok f =>
    rw [hf] at h
    dsimp only at h
    cases hcheck : f.type.checkArgs (args.map Value.type) with
    | error e =>
      rw [hcheck] at h
      cases h
      obtain ⟨_, rfl⟩ := FuncType.checkArgs_error hcheck
      exact (by decide : Code.argumentMismatch ≠ Code.instanceUnavailable)
    | ok _ =>
      rw [hcheck] at h
      dsimp only at h
      rw [@run_eq s' _ ⟨a, f.type.results, i.thread, exclusive⟩ i' hi'] at h
      cases hrun : Activation.enter index args i'.bindings ⟨s'.objects, i'.thread⟩ with
      | error e x =>
        rw [hrun] at h
        cases h
        exact unrefused_enter index args _ _ _ _ hrun
      | ok call x =>
        rw [hrun] at h
        cases call <;> cases h

theorem code_ne_of_exportIndex {b : Bindings} {kind : ExternKind} {name : String} {e : Error}
    (h : b.exportIndex kind name = .error e) : e.code ≠ Code.instanceUnavailable := by
  unfold Bindings.exportIndex at h
  split at h
  · split at h
    · cases h
    · cases h
      exact (by decide : Code.exportNotFound ≠ Code.instanceUnavailable)
  · cases h
    exact (by decide : Code.exportNotFound ≠ Code.instanceUnavailable)

theorem code_ne_of_invokeExport {i : Instance} {exclusive : Bool} {name : String}
    {args : List Value} {e : Error} (hi : s.instance? a = some i)
    (h : (Machine.invokeExport s a exclusive name args waiting).focus = .returned (.error e)) :
    e.code ≠ Code.instanceUnavailable := by
  unfold Machine.invokeExport at h
  rw [hi] at h
  dsimp only at h
  cases hindex : i.bindings.exportIndex .func name with
  | error e =>
    rw [hindex] at h
    cases h
    exact code_ne_of_exportIndex hindex
  | ok index =>
    rw [hindex] at h
    exact code_ne_of_invokeIndex hi h

theorem code_ne_of_exportedGlobal {b : Bindings} {name : String} {e : Error}
    (h : b.exportedGlobal name = .error e) : e.code ≠ Code.instanceUnavailable := by
  unfold Bindings.exportedGlobal at h
  cases hindex : b.exportIndex .global name with
  | error e' =>
    rw [hindex] at h
    cases h
    exact code_ne_of_exportIndex hindex
  | ok index =>
    rw [hindex] at h
    dsimp only [bind, Except.bind] at h
    split at h
    · cases h
    · cases h
      exact code_ne_of_trap _

theorem code_ne_of_readGlobal {e : Error} (h : s.readGlobal a = .error e) :
    e.code ≠ Code.instanceUnavailable := by
  unfold Store.readGlobal at h
  split at h
  · cases h
  · cases h
    exact code_ne_of_trap _

theorem code_ne_of_assignGlobal {v : Value} {e : Error} (h : (s.assignGlobal a v).1 = .error e) :
    e.code ≠ Code.instanceUnavailable := by
  unfold Store.assignGlobal at h
  split at h
  · cases h
  · cases h
    exact code_ne_of_trap _

/-- The value of a global that an instance exports. -/
theorem code_ne_of_read {b : Bindings} {name : String} {e : Error}
    (h : (b.exportedGlobal name).bind s.readGlobal = .error e) :
    e.code ≠ Code.instanceUnavailable := by
  cases haddress : b.exportedGlobal name with
  | error e' =>
    rw [haddress] at h
    cases h
    exact code_ne_of_exportedGlobal haddress
  | ok address =>
    rw [haddress] at h
    exact code_ne_of_readGlobal h

/-- A value for a global that an instance exports. -/
theorem code_ne_of_assign {b : Bindings} {name : String} {v : Value} {e : Error}
    (h : (match b.exportedGlobal name with
      | .ok a => s.assignGlobal a v
      | .error e => (.error e, s)).1 = .error e) : e.code ≠ Code.instanceUnavailable := by
  cases haddress : b.exportedGlobal name with
  | error e' =>
    rw [haddress] at h
    cases h
    exact code_ne_of_exportedGlobal haddress
  | ok address =>
    rw [haddress] at h
    exact code_ne_of_assignGlobal h

/-- An instance that is there and not running accepts what comes. -/
theorem accepts_of_idle {i : Instance} (hi : s.instance? a = some i) (hbusy : i.busy = false) :
    s.Accepts a := by
  have hfree : ¬ s.isBusy a = true := by
    unfold Store.isBusy
    rw [hi]
    exact Bool.eq_false_iff.mp hbusy
  have hprovided (name : String) :
      s.providedGlobal (.instance a) name = i.bindings.exportedGlobal name := by
    have hidle : s.idle? a = some i.bindings := by
      rw [Store.idle?, hi]
      exact if_neg (Bool.eq_false_iff.mp hbusy)
    show s.heldGlobal a name = _
    rw [Store.heldGlobal, hidle]
  constructor
  case handle =>
    intro name args waiting e h
    rw [Machine.invokeHandle, if_neg hfree] at h
    exact code_ne_of_invokeExport hi h
  case reference =>
    intro caller type index args waiting e h
    replace h : (if s.isBusy a = true then _ else Machine.invokeIndex s a true index args waiting
      ).focus = .returned (.error e) := h
    rw [if_neg hfree] at h
    exact code_ne_of_invokeIndex hi h
  case getGlobal =>
    intro name e h
    rw [Store.getGlobal, hprovided] at h
    exact code_ne_of_read h
  case setGlobal =>
    intro name v e h
    rw [Store.setGlobal, hprovided] at h
    exact code_ne_of_assign h

/-! ### Activations that hold their instances -/

/-- An activation of an instance above others: it takes an instance that none of them runs in, or it
is a call back into one that one of them runs in. -/
def Fits (acts : List Activation) (a : Address) (exclusive : Bool) : Prop :=
  if exclusive = true then ∀ act ∈ acts, act.self ≠ a else ∃ act ∈ acts, act.self = a

/-- Every activation fits above those that wait for it. -/
def Stacked : List Activation → Prop
  | [] => True
  | act :: below => Fits below act.self act.exclusive ∧ Stacked below

/-- The instances in which activations have not ended are taken. -/
structure Held (s : Store) (acts : List Activation) : Prop where
  busy : ∀ act ∈ acts, s.isBusy act.self = true
  stacked : Stacked acts

theorem held_nil (s : Store) : Held s [] :=
  ⟨nofun, trivial⟩

theorem Held.congr (h : Held s acts) (hbusy : ∀ a, s'.isBusy a = s.isBusy a) : Held s' acts :=
  ⟨fun act hact => (hbusy _).trans (h.busy act hact), h.stacked⟩

/-! ### What parts do to the marks of instances -/

/-- A change of an instance that does not set its mark. -/
theorem isBusy_modifyInstance (s : Store) (a : Address) {g : Instance → Instance}
    (hg : ∀ i, (g i).busy = i.busy) (a' : Address) :
    (s.modifyInstance a g).isBusy a' = s.isBusy a' := by
  unfold Store.isBusy
  rw [instance?_modifyInstance]
  by_cases ha : a' = a
  · rw [if_pos ha]
    cases s.instance? a' with
    | none => rfl
    | some i => exact hg i
  · rw [if_neg ha]

theorem isBusy_settled {i : Instance} (hi : s.instance? a = some i) (x : Execution)
    (a' : Address) : (settled s a i x).isBusy a' = s.isBusy a' := by
  unfold Store.isBusy
  rw [instance?_settled hi]
  by_cases ha : a' = a
  · rw [if_pos ha, ha, hi]
  · rw [if_neg ha]

/-- Running a part of an execution leaves the marks alone, however it ends. -/
theorem isBusy_run {α : Type} (act : Activation) (part : Bindings → Execution.Step α) (s : Store) :
    match act.run part s with
    | .ok _ s' | .error _ s' => ∀ a, s'.isBusy a = s.isBusy a := by
  cases hi : s.instance? act.self with
  | none =>
    unfold Activation.run
    rw [hi]
    exact fun _ => rfl
  | some i =>
    rw [run_eq hi]
    cases part i.bindings ⟨s.objects, i.thread⟩ with
    | ok r x => exact isBusy_settled hi x
    | error e x => exact isBusy_settled hi x

theorem Held.run_ok {α : Type} {part : Bindings → Execution.Step α} {r : α} (h : Held s acts)
    (hrun : act.run part s = .ok r s') : Held s' acts := by
  have hbusy := isBusy_run act part s
  rw [hrun] at hbusy
  exact h.congr hbusy

theorem Held.run_error {α : Type} {part : Bindings → Execution.Step α} {e : Error} (h : Held s acts)
    (hrun : act.run part s = .error e s') : Held s' acts := by
  have hbusy := isBusy_run act part s
  rw [hrun] at hbusy
  exact h.congr hbusy

/-- The end of an activation sets no other instance free. -/
theorem Held.release (h : Held s (act :: acts)) : Held (act.release s) acts := by
  obtain ⟨hfits, hstacked⟩ := h.stacked
  refine ⟨fun act' hact' => ?_, hstacked⟩
  have hbusy := h.busy act' (List.mem_cons_of_mem _ hact')
  unfold Activation.release
  unfold Fits at hfits
  split
  · next hexclusive =>
    rw [if_pos hexclusive] at hfits
    unfold Store.isBusy at hbusy ⊢
    rw [instance?_modifyInstance, if_neg (hfits act' hact')]
    exact hbusy
  · exact hbusy

theorem Held.fail (h : Held s (act :: waiting.flatMap Waiting.activations)) (e : Error) :
    Held (Machine.fail s act e waiting).store (Machine.fail s act e waiting).activations := by
  have hundo : Held (act.undo s) (act :: waiting.flatMap Waiting.activations) :=
    h.congr (isBusy_modifyInstance s act.self fun _ => rfl)
  exact hundo.release

/-- An activation that fits begins. -/
theorem Held.take {i : Instance} {exclusive : Bool} (h : Held s acts) (hi : s.instance? a = some i)
    (hfits : Fits acts a exclusive) (results : List ValueType) :
    Held (if exclusive = true then s.modifyInstance a fun i => { i with busy := true } else s)
      (⟨a, results, i.thread, exclusive⟩ :: acts) := by
  refine ⟨fun act hact => ?_, hfits, h.stacked⟩
  unfold Fits at hfits
  split
  · next hexclusive =>
    unfold Store.isBusy
    rw [instance?_modifyInstance]
    rcases List.mem_cons.mp hact with rfl | hact
    · rw [if_pos rfl, hi]
      rfl
    · rw [if_pos hexclusive] at hfits
      rw [if_neg (hfits act hact)]
      exact h.busy act hact
  · next hexclusive =>
    rcases List.mem_cons.mp hact with rfl | hact
    · rw [if_neg hexclusive] at hfits
      obtain ⟨act', hact', rfl⟩ := hfits
      exact h.busy act' hact'
    · exact h.busy act hact

/-! ### Callers -/

/-- A caller that is an instance has an activation that waits. -/
def Backed (acts : List Activation) : Caller → Prop
  | .instance a => ∃ act ∈ acts, act.self = a
  | .native _ => True

/-- The callers of the host functions that wait are below them. -/
def WaitingBacked : List Waiting → Prop
  | [] => True
  | .wasm .. :: rest => WaitingBacked rest
  | .host caller .. :: rest => Backed (rest.flatMap Waiting.activations) caller ∧ WaitingBacked rest

/-- The caller of what is to be done is below it. -/
def FocusBacked (waiting : List Waiting) : Focus → Prop
  | .host caller .. | .call caller _ => Backed (waiting.flatMap Waiting.activations) caller
  | _ => True

/-- Every activation holds its instance, and every caller waits. -/
structure Exclusive (m : Machine) : Prop where
  held : Held m.store m.activations
  waiting : WaitingBacked m.waiting
  focus : FocusBacked m.waiting m.focus

variable {caller : Caller} {type : FuncType}

theorem exclusive_returned (r : Except Error (List Value))
    (hheld : Held s (waiting.flatMap Waiting.activations)) (hwaiting : WaitingBacked waiting) :
    Exclusive ⟨s, .returned r, waiting⟩ :=
  ⟨hheld, hwaiting, trivial⟩

theorem exclusive_fail (e : Error) (hheld : Held s (act :: waiting.flatMap Waiting.activations))
    (hwaiting : WaitingBacked waiting) : Exclusive (Machine.fail s act e waiting) :=
  ⟨hheld.fail e, hwaiting, trivial⟩

/-- An activation that waits for a call. -/
theorem exclusive_call {call : Call} {site : Option Site}
    (hheld : Held s (act :: waiting.flatMap Waiting.activations)) (hwaiting : WaitingBacked waiting) :
    Exclusive ⟨s, .call (.instance act.self) call, .wasm act type site :: waiting⟩ :=
  ⟨hheld, hwaiting, act, List.mem_cons_self .., rfl⟩

theorem exclusive_invokeIndex {exclusive : Bool} (index : UInt32) (args : List Value)
    (hheld : Held s (waiting.flatMap Waiting.activations)) (hwaiting : WaitingBacked waiting)
    (hfits : Fits (waiting.flatMap Waiting.activations) a exclusive) :
    Exclusive (Machine.invokeIndex s a exclusive index args waiting) := by
  unfold Machine.invokeIndex
  cases hi : s.instance? a with
  | none => exact exclusive_returned _ hheld hwaiting
  | some i =>
    have htake := hheld.take hi hfits
    dsimp only
    cases i.bindings.func index with
    | error t => exact exclusive_fail _ (htake []) hwaiting
    | ok f =>
      dsimp only
      cases f.type.checkArgs (args.map Value.type) with
      | error e => exact exclusive_fail _ (htake f.type.results) hwaiting
      | ok _ =>
        dsimp only
        have htaken := htake f.type.results
        generalize (if exclusive = true then _ else _) = taken at htaken
        split
        · next hrun => exact exclusive_fail _ (htaken.run_error hrun) hwaiting
        · next hrun => exact ⟨htaken.run_ok hrun, hwaiting, trivial⟩
        · next hrun => exact exclusive_call (htaken.run_ok hrun) hwaiting

theorem exclusive_invokeExport {exclusive : Bool} (name : String) (args : List Value)
    (hheld : Held s (waiting.flatMap Waiting.activations)) (hwaiting : WaitingBacked waiting)
    (hfits : Fits (waiting.flatMap Waiting.activations) a exclusive) :
    Exclusive (Machine.invokeExport s a exclusive name args waiting) := by
  unfold Machine.invokeExport
  split
  · exact exclusive_returned _ hheld hwaiting
  · split
    · exact exclusive_returned _ hheld hwaiting
    · exact exclusive_invokeIndex _ _ hheld hwaiting hfits

/-- An instance that is not taken can be taken. -/
theorem Held.fits (h : Held s acts) (hfree : ¬ s.isBusy a = true) : Fits acts a true := by
  refine (if_pos rfl).mpr fun act hact hself => hfree ?_
  rw [← hself]
  exact h.busy act hact

theorem exclusive_invokeHandle (a : Address) (name : String) (args : List Value)
    (hheld : Held s (waiting.flatMap Waiting.activations)) (hwaiting : WaitingBacked waiting) :
    Exclusive (Machine.invokeHandle s a name args waiting) := by
  unfold Machine.invokeHandle
  split
  · exact exclusive_returned _ hheld hwaiting
  · next hfree => exact exclusive_invokeExport _ _ hheld hwaiting (hheld.fits hfree)

theorem exclusive_invokeNative (m : NativeModule) (name : String) (args : List Value)
    (hheld : Held s (waiting.flatMap Waiting.activations)) (hwaiting : WaitingBacked waiting) :
    Exclusive (Machine.invokeNative s m name args waiting) := by
  unfold Machine.invokeNative
  split
  · exact exclusive_returned _ hheld hwaiting
  · exact ⟨hheld, hwaiting, trivial⟩

theorem exclusive_callRef (call : Call) (hheld : Held s (waiting.flatMap Waiting.activations))
    (hwaiting : WaitingBacked waiting)
    (hcaller : Backed (waiting.flatMap Waiting.activations) caller) :
    Exclusive (Machine.callRef s caller call waiting) := by
  unfold Machine.callRef
  split
  · split
    · exact exclusive_returned _ hheld hwaiting
    · exact ⟨hheld, hwaiting, hcaller⟩
  · split
    · exact exclusive_returned _ hheld hwaiting
    · next hfree => exact exclusive_invokeIndex _ _ hheld hwaiting (hheld.fits hfree)

theorem exclusive_stepWasm (hheld : Held s (act :: waiting.flatMap Waiting.activations))
    (hwaiting : WaitingBacked waiting) : Exclusive (Machine.stepWasm s act waiting) := by
  unfold Machine.stepWasm
  split
  · split
    · next hrun => exact exclusive_fail _ (hheld.run_error hrun) hwaiting
    · next hrun => exact exclusive_returned _ (hheld.run_ok hrun).release hwaiting
  · split
    · next hrun => exact exclusive_fail _ (hheld.run_error hrun) hwaiting
    · next hrun => exact ⟨hheld.run_ok hrun, hwaiting, trivial⟩
    · next hrun => exact exclusive_call (hheld.run_ok hrun) hwaiting

theorem isBusy_answer (s : Store) (caller : Caller) (request : Request) (a : Address) :
    (s.answer caller request).2.isBusy a = s.isBusy a := by
  have hserved : s.Served (fun _ => True) (s.answer caller request).2 :=
    Store.served_answer caller request fun _ => trivial
  rw [Store.isBusy, Store.isBusy, Store.instance?, Store.instance?, hserved.instances]

theorem exclusive_stepHost (proc : Proc) (hheld : Held s (waiting.flatMap Waiting.activations))
    (hwaiting : WaitingBacked waiting)
    (hcaller : Backed (waiting.flatMap Waiting.activations) caller) :
    Exclusive (Machine.stepHost s caller type waiting proc) := by
  unfold Machine.stepHost
  split
  · exact exclusive_returned _ hheld hwaiting
  · split <;> exact exclusive_returned _ hheld hwaiting
  · next request next =>
    exact ⟨hheld.congr (isBusy_answer s caller request), hwaiting, hcaller⟩
  · next name args next =>
    have hwaiting' : WaitingBacked (.host caller type next :: waiting) := ⟨hcaller, hwaiting⟩
    split
    · exact exclusive_invokeExport _ _ hheld hwaiting' hcaller
    · exact exclusive_invokeNative _ _ _ hheld hwaiting'
  · next h name args next =>
    split
    · exact exclusive_invokeHandle _ _ _ hheld ⟨hcaller, hwaiting⟩
    · exact ⟨hheld, hwaiting, hcaller⟩
  · split
    · exact ⟨hheld, ⟨hcaller, hwaiting⟩, hcaller⟩
    · exact ⟨hheld, hwaiting, hcaller⟩

theorem exclusive_resumeWasm (site : Option Site) (r : Except Error (List Value))
    (hheld : Held s (act :: waiting.flatMap Waiting.activations)) (hwaiting : WaitingBacked waiting) :
    Exclusive (Machine.resumeWasm s act type site waiting r) := by
  unfold Machine.resumeWasm
  dsimp only
  split
  · exact exclusive_fail _ hheld hwaiting
  · split
    · next hrun => exact exclusive_fail _ (hheld.run_error hrun) hwaiting
    · next hrun => exact ⟨hheld.run_ok hrun, hwaiting, trivial⟩

/-- A step of a machine. -/
theorem Exclusive.step (h : Exclusive m) : Exclusive m.step := by
  obtain ⟨s, focus, waiting⟩ := m
  obtain ⟨hheld, hwaiting, hfocus⟩ := h
  cases focus with
  | wasm act => exact exclusive_stepWasm hheld hwaiting
  | host caller type proc => exact exclusive_stepHost proc hheld hwaiting hfocus
  | call caller call => exact exclusive_callRef call hheld hwaiting hfocus
  | returned r =>
    cases waiting with
    | nil => exact exclusive_returned r hheld hwaiting
    | cons w rest =>
      cases w with
      | wasm act type site => exact exclusive_resumeWasm site r hheld hwaiting
      | host caller type next => exact ⟨hheld, hwaiting.2, hwaiting.1⟩

/-- Every machine that can be reached is exclusive. -/
theorem Reachable.exclusive (h : Reachable known m) : Exclusive m := by
  induction h with
  | start => exact exclusive_returned _ (held_nil _) trivial
  | act => exact exclusive_returned _ (held_nil _) trivial
  | @call known s r m _ hcalls ih =>
    have hfree (a : Address) : Fits [] a true := (if_pos rfl).mpr nofun
    cases hcalls with
    | handle a name args => exact exclusive_invokeHandle a name args (held_nil _) trivial
    | @index a b index f hb hf args =>
      exact exclusive_invokeIndex index args (held_nil _) trivial (hfree a)
    | native hm name args => exact exclusive_invokeNative _ name args (held_nil _) trivial
    | func hm hf args => exact ⟨held_nil _, trivial, trivial⟩
  | step _ ih => exact ih.step

/-! ### The discipline -/

/-- A caller that waits is there. -/
theorem Exclusive.exists_caller (h : Exclusive m) {a : Address} {type : FuncType} {proc : Proc}
    (hfocus : m.focus = .host (.instance a) type proc) : ∃ i, m.store.instance? a = some i := by
  obtain ⟨s, focus, waiting⟩ := m
  obtain rfl : focus = .host (.instance a) type proc := hfocus
  obtain ⟨act, hact, rfl⟩ := h.focus
  have hbusy := h.held.busy act hact
  unfold Store.isBusy at hbusy
  split at hbusy
  · next i hi => exact ⟨i, hi⟩
  · cases hbusy

/-- In every machine that can be reached, an instance in which an activation has not ended refuses
whatever reaches it through a handle or a reference, and nothing changes.  A host function that
calls its caller back, or reads or sets one of its globals, is not refused, although the caller is
running. When the call of the embedder has returned, with results or with an error, nothing runs in
any instance, and every instance accepts the next call. -/
theorem busy_discipline (h : Reachable known m) :
    (∀ act ∈ m.activations, m.store.Refuses act.self) ∧
    (∀ {a : Address} {type : FuncType} {proc : Proc}, m.focus = .host (.instance a) type proc →
      (∀ {name args next e}, proc = .invoke .caller name args next →
        m.step.focus = .returned (.error e) → e.code ≠ Code.instanceUnavailable) ∧
      (∀ {name e}, (m.store.answer (.instance a) (.getGlobal .caller name)).1 = .error e →
        e.code ≠ Code.instanceUnavailable) ∧
      ∀ {name v e}, (m.store.answer (.instance a) (.setGlobal .caller name v)).1 = .error e →
        e.code ≠ Code.instanceUnavailable) ∧
    ∀ {s : Store} {r : Except Error (List Value)}, m = ⟨s, .returned r, []⟩ →
      Resting s ∧ ∀ {a : Address} {i : Instance}, s.instance? a = some i → s.Accepts a := by
  have hexclusive := h.exclusive
  refine ⟨fun act hact => refuses_of_busy (hexclusive.held.busy act hact),
    fun {a type proc} hfocus => ?_, ?_⟩
  · obtain ⟨i, hi⟩ := hexclusive.exists_caller hfocus
    have hglobal (name : String) :
        m.store.globalOf (.instance a) .caller name = i.bindings.exportedGlobal name := by
      unfold Store.globalOf
      dsimp only
      rw [hi]
    refine ⟨fun {name args next e} hproc hstep => ?_, fun {name e} hget => ?_,
      fun {name v e} hset => ?_⟩
    · subst hproc
      obtain ⟨s, focus, waiting⟩ := m
      obtain rfl : focus = .host (.instance a) type (.invoke .caller name args next) := hfocus
      exact code_ne_of_invokeExport hi hstep
    · replace hget : (m.store.globalOf (.instance a) .caller name).bind m.store.readGlobal =
        .error e := hget
      rw [hglobal] at hget
      exact code_ne_of_read hget
    · unfold Store.answer at hset
      dsimp only at hset
      rw [hglobal] at hset
      exact code_ne_of_assign hset
  · rintro s r rfl
    have hresting := h.resting
    exact ⟨hresting, fun {a i} hi => accepts_of_idle hi (hresting a i hi).2⟩

/-- A host function calls back the instance that called it.  Meanwhile the instance refuses calls
through its handle, and a call through the reference to its function `two` as well; the call back is
not refused, and in the end the instance accepts the next call. -/
theorem caller_excluded :
    (callerAfter {} callTwo 3).store.Refuses 0 ∧
    (∀ e, (callerAfter {} callTwo 4).focus = .returned (.error e) →
      e.code ≠ Code.instanceUnavailable) ∧
    ∃ s, callerAfter {} callTwo 14 = ⟨s, .returned (.ok []), []⟩ ∧ Resting s ∧ s.Accepts 0 := by
  have hwaits : ∃ act ∈ (callerAfter {} callTwo 3).activations, act.self = 0 :=
    ⟨_, List.mem_singleton_self _, rfl⟩
  have hfocus : (callerAfter {} callTwo 3).focus =
    .host (.instance 0) ⟨[], [.i32]⟩ (.invoke .caller "two" [] .done) := rfl
  have hreturned : callerAfter {} callTwo 14 =
    ⟨(callerAfter {} callTwo 14).store, .returned (.ok []), []⟩ := rfl
  obtain ⟨i, hi⟩ : ∃ i, (callerAfter {} callTwo 14).store.instance? 0 = some i := ⟨_, rfl⟩
  obtain ⟨hrefuses, hcaller, -⟩ := busy_discipline (reachable_callerAfter {} callTwo 3)
  obtain ⟨-, -, hreturns⟩ := busy_discipline (reachable_callerAfter {} callTwo 14)
  obtain ⟨act, hact, hself⟩ := hwaits
  obtain ⟨hresting, haccepts⟩ := hreturns hreturned
  refine ⟨hself ▸ hrefuses act hact, fun e he => ?_, _, hreturned, hresting, haccepts hi⟩
  exact (hcaller hfocus).1 rfl he

-- By its reference the same function of the caller cannot be called: the host function finds it
-- among the members, but its owner is running.
example :
    let callRef : Proc := .call (.member .caller "two") [] (.done (.ok [])) .done
    (callerAfter {} (fun _ => callRef) 5).focus = .returned (.error (ownerExecuting 2)) :=
  rfl

end Safety

end Wasm
