import Wasm.Proofs.Lockstep.Steps
import Wasm.Proofs.Safety.Stores

/-!
# Stores in step

Two stores with the same objects, in which the instances at each address are in step, look alike:
what an instance gives away, and what host functions are answered, is the same on both sides.  When
an activation runs in both of them they stay in step, or the failure that ends it brings them back
into step once their threads are cut back (`Store.InStep.run`).
-/

namespace Wasm

open Execution (Abreast Step)

variable {slack : Prop} {loose : Nat → Prop}

/-! ### What an instance gives away -/

namespace Bindings.InStep

variable {b b' : Bindings}

theorem exports (h : b.InStep slack b') : b'.module.exports = b.module.exports := by
  rw [h.module.same]

theorem export? (h : b.InStep slack b') (name : String) :
    b'.module.export? name = b.module.export? name := by
  rw [Module.export?, Module.export?, h.exports]

theorem exportIndex (h : b.InStep slack b') (kind : ExternKind) (name : String) :
    b'.exportIndex kind name = b.exportIndex kind name := by
  rw [Bindings.exportIndex, Bindings.exportIndex, h.export?]

theorem exportedGlobal (h : b.InStep slack b') (name : String) :
    b'.exportedGlobal name = b.exportedGlobal name := by
  rw [Bindings.exportedGlobal, Bindings.exportedGlobal, h.exportIndex, h.globals]

theorem funcRef? (h : b.InStep slack b') (index : UInt32) :
    b'.funcRef? index = b.funcRef? index := by
  have hfunc := h.getElem?_funcs index.toNat
  unfold Bindings.funcRef?
  revert hfunc
  generalize b.funcs[index.toNat]? = f
  generalize b'.funcs[index.toNat]? = f'
  intro hfunc
  cases hfunc with
  | none => rfl
  | some hf =>
    cases hf with
    | defined => exact congrArg (fun self => some (FuncRef.owned _ self index)) h.self
    | imported => rfl

theorem member? (h : b.InStep slack b') (name : String) : b'.member? name = b.member? name := by
  unfold Bindings.member?
  rw [h.export?, h.globals, h.memory, h.table]
  cases b.module.export? name with
  | none => rfl
  | some e =>
    dsimp only [Option.bind_some]
    rw [h.funcRef?]

end Bindings.InStep

/-! ### Instances -/

/-- Instances in step, of which both are running or none is. -/
structure Instance.InStep (slack : Prop) (i i' : Instance) : Prop where
  bindings : i.bindings.InStep slack i'.bindings
  thread : i.thread.InStep slack Tight i'.thread
  busy : i'.busy = i.busy

/-- The same objects, and instances in step at the same addresses. -/
structure Store.InStep (slack : Prop) (s s' : Store) : Prop where
  objects : s'.objects = s.objects
  size : s'.instances.size = s.instances.size
  instances : ∀ a : Address, Option.Rel (Instance.InStep slack) (s.instance? a) (s'.instance? a)
  handles : s'.handles = s.handles
  events : s'.events = s.events

namespace Store.InStep

variable {s s' : Store}

/-- What is found at an address. -/
theorem look (h : s.InStep slack s') (a : Address) :
    (s.instance? a = none ∧ s'.instance? a = none) ∨
      ∃ i i', s.instance? a = some i ∧ s'.instance? a = some i' ∧ i.InStep slack i' := by
  have hinstance := h.instances a
  generalize s.instance? a = i at hinstance ⊢
  generalize s'.instance? a = i' at hinstance ⊢
  cases hinstance with
  | none => exact .inl ⟨rfl, rfl⟩
  | some hii => exact .inr ⟨_, _, rfl, rfl, hii⟩

theorem isBusy (h : s.InStep slack s') (a : Address) : s'.isBusy a = s.isBusy a := by
  unfold Store.isBusy
  rcases h.look a with ⟨hi, hi'⟩ | ⟨i, i', hi, hi', hii⟩
  · rw [hi, hi']
  · rw [hi, hi']
    exact hii.busy

/-- What is found in an instance that is not running. -/
theorem lookIdle (h : s.InStep slack s') (a : Address) :
    (s.idle? a = none ∧ s'.idle? a = none) ∨
      ∃ b b', s.idle? a = some b ∧ s'.idle? a = some b' ∧ b.InStep slack b' := by
  unfold Store.idle?
  rcases h.look a with ⟨hi, hi'⟩ | ⟨i, i', hi, hi', hii⟩
  · rw [hi, hi']
    exact .inl ⟨rfl, rfl⟩
  · rw [hi, hi']
    dsimp only [Option.bind_some]
    rw [hii.busy]
    split
    · exact .inl ⟨rfl, rfl⟩
    · exact .inr ⟨_, _, rfl, rfl, hii.bindings⟩

theorem handle? (h : s.InStep slack s') (name : String) : s'.handle? name = s.handle? name := by
  rw [Store.handle?, Store.handle?, h.handles]

theorem heldGlobal (h : s.InStep slack s') (a : Address) (name : String) :
    s'.heldGlobal a name = s.heldGlobal a name := by
  unfold Store.heldGlobal
  rcases h.lookIdle a with ⟨hb, hb'⟩ | ⟨b, b', hb, hb', hbb⟩
  · rw [hb, hb']
  · rw [hb, hb']
    exact hbb.exportedGlobal name

theorem heldMember (h : s.InStep slack s') (a : Address) (name : String) :
    (s'.idle? a).bind (·.member? name) = (s.idle? a).bind (·.member? name) := by
  rcases h.lookIdle a with ⟨hb, hb'⟩ | ⟨b, b', hb, hb', hbb⟩
  · rw [hb, hb']
  · rw [hb, hb']
    exact hbb.member? name

theorem globalOf (h : s.InStep slack s') (caller : Caller) (target : Target) (name : String) :
    s'.globalOf caller target name = s.globalOf caller target name := by
  cases target with
  | caller =>
    cases caller with
    | native m => rfl
    | «instance» a =>
      unfold Store.globalOf
      dsimp only
      rcases h.look a with ⟨hi, hi'⟩ | ⟨i, i', hi, hi', hii⟩
      · rw [hi, hi']
      · rw [hi, hi']
        exact hii.bindings.exportedGlobal name
  | handle n =>
    unfold Store.globalOf
    dsimp only
    rw [h.handle?]
    cases s.handle? n with
    | none => rfl
    | some a => exact h.heldGlobal a name

theorem memberOf (h : s.InStep slack s') (caller : Caller) (target : Target) (name : String) :
    s'.memberOf caller target name = s.memberOf caller target name := by
  cases target with
  | caller =>
    cases caller with
    | native m => rfl
    | «instance» a =>
      unfold Store.memberOf
      dsimp only
      rcases h.look a with ⟨hi, hi'⟩ | ⟨i, i', hi, hi', hii⟩
      · rw [hi, hi']
      · rw [hi, hi']
        exact hii.bindings.member? name
  | handle n =>
    unfold Store.memberOf
    dsimp only
    rw [h.handle?]
    cases s.handle? n with
    | none => rfl
    | some a => exact h.heldMember a name

theorem readGlobal (h : s.InStep slack s') (a : Address) : s'.readGlobal a = s.readGlobal a := by
  rw [Store.readGlobal, Store.readGlobal, h.objects]

theorem readMemory (h : s.InStep slack s') (a : Address) (offset length : Nat) :
    s'.readMemory a offset length = s.readMemory a offset length := by
  rw [Store.readMemory, Store.readMemory, h.objects]

theorem slot (h : s.InStep slack s') (a : Address) (index : UInt32) :
    s'.slot a index = s.slot a index := by
  rw [Store.slot, Store.slot, h.objects]

theorem objectAt (h : s.InStep slack s') (caller : Caller) (pick : Member → Option Address)
    (ref : ObjectRef) : s'.objectAt caller pick ref = s.objectAt caller pick ref := by
  cases ref with
  | held a => rfl
  | member target name =>
    unfold Store.objectAt
    dsimp only
    rw [h.memberOf]

theorem funcAt (h : s.InStep slack s') (caller : Caller) (source : FuncSource) :
    s'.funcAt caller source = s.funcAt caller source := by
  cases source with
  | member target name =>
    unfold Store.funcAt
    dsimp only
    rw [h.memberOf]
  | slot table index =>
    unfold Store.funcAt
    dsimp only
    rw [h.objectAt]
    congr 1
    funext a
    rw [h.slot]

theorem provided? (h : s.InStep slack s') (p : Provider) (name : String) :
    s'.provided? p name = s.provided? p name := by
  cases p with
  | native m => rfl
  | «instance» a => exact h.heldMember a name

theorem exports (h : s.InStep slack s') (a : Address) : s'.exports a = s.exports a := by
  unfold Store.exports
  rcases h.lookIdle a with ⟨hb, hb'⟩ | ⟨b, b', hb, hb', hbb⟩
  · rw [hb, hb']
  · rw [hb, hb']
    dsimp only
    rw [hbb.exports]

theorem memory? (h : s.InStep slack s') (a : Address) : s'.memory? a = s.memory? a := by
  unfold Store.memory?
  rcases h.lookIdle a with ⟨hb, hb'⟩ | ⟨b, b', hb, hb', hbb⟩
  · rw [hb, hb']
  · rw [hb, hb']
    exact hbb.memory

/-! ### Changes -/

/-- The objects change in the same way. -/
theorem withObjects (h : s.InStep slack s') (o : Objects) :
    InStep slack { s with objects := o } { s' with objects := o } :=
  ⟨rfl, h.size, h.instances, h.handles, h.events⟩

theorem modifyInstance (h : s.InStep slack s') (a : Address) {g g' : Instance → Instance}
    (hg : ∀ {i i' : Instance}, i.InStep slack i' → (g i).InStep slack (g' i')) :
    (s.modifyInstance a g).InStep slack (s'.modifyInstance a g') := by
  refine ⟨h.objects, ?_, fun a' => ?_, h.handles, h.events⟩
  · rw [Store.modifyInstance, Store.modifyInstance, Array.size_modify, Array.size_modify, h.size]
  · rw [Safety.instance?_modifyInstance, Safety.instance?_modifyInstance]
    split
    · have hinstance := h.instances a'
      revert hinstance
      generalize s.instance? a' = i
      generalize s'.instance? a' = i'
      intro hinstance
      cases hinstance with
      | none => exact .none
      | some hi => exact .some (hg hi)
    · exact h.instances a'

/-- An instance is taken for a call from outside. -/
theorem take (h : s.InStep slack s') (a : Address) (exclusive : Bool) : InStep slack
    (if exclusive = true then s.modifyInstance a fun i => { i with busy := true } else s)
    (if exclusive = true then s'.modifyInstance a fun i => { i with busy := true } else s') := by
  split
  · exact h.modifyInstance a fun hi => ⟨hi.bindings, hi.thread, rfl⟩
  · exact h

theorem assignGlobal (h : s.InStep slack s') (a : Address) (v : Value) :
    (s'.assignGlobal a v).1 = (s.assignGlobal a v).1 ∧
      (s.assignGlobal a v).2.InStep slack (s'.assignGlobal a v).2 := by
  unfold Store.assignGlobal
  rw [h.objects]
  cases s.objects.setGlobal a v with
  | ok o => exact ⟨rfl, h.withObjects o⟩
  | error t => exact ⟨rfl, h⟩

theorem assignMemory (h : s.InStep slack s') (a : Address) (offset : Nat) (data : List UInt8) :
    (s'.assignMemory a offset data).1 = (s.assignMemory a offset data).1 ∧
      (s.assignMemory a offset data).2.InStep slack (s'.assignMemory a offset data).2 := by
  unfold Store.assignMemory
  rw [h.objects]
  cases s.objects.writeMemory a offset data with
  | ok o => exact ⟨rfl, h.withObjects o⟩
  | error t => exact ⟨rfl, h⟩

theorem growMemory (h : s.InStep slack s') (a : Address) (delta : UInt32) :
    (s'.growMemory a delta).1 = (s.growMemory a delta).1 ∧
      (s.growMemory a delta).2.InStep slack (s'.growMemory a delta).2 := by
  unfold Store.growMemory
  rw [h.objects]
  cases s.objects.memory a with
  | error t => exact ⟨rfl, h⟩
  | ok m =>
    dsimp only
    cases m.grow delta with
    | error e => exact ⟨rfl, h⟩
    | ok grown => exact ⟨rfl, h.withObjects _⟩

theorem growTable (h : s.InStep slack s') (a : Address) (delta : UInt32) :
    (s'.growTable a delta).1 = (s.growTable a delta).1 ∧
      (s.growTable a delta).2.InStep slack (s'.growTable a delta).2 := by
  unfold Store.growTable
  rw [h.objects]
  cases s.objects.table a with
  | error t => exact ⟨rfl, h⟩
  | ok t =>
    dsimp only
    cases t.grow delta with
    | error e => exact ⟨rfl, h⟩
    | ok grown => exact ⟨rfl, h.withObjects _⟩

theorem setSlot (h : s.InStep slack s') (a : Address) (index : UInt32) (f : Option FuncRef) :
    (s'.setSlot a index f).1 = (s.setSlot a index f).1 ∧
      (s.setSlot a index f).2.InStep slack (s'.setSlot a index f).2 := by
  unfold Store.setSlot
  rw [h.objects]
  cases (s.objects.table a).bind fun t => t.set index f with
  | error t => exact ⟨rfl, h⟩
  | ok t => exact ⟨rfl, h.withObjects _⟩

/-- The same is done to the same object. -/
theorem onObject {α : Type} (h : s.InStep slack s') {act act' : Address → α × Store}
    {place place' : Option Address} (hplace : place' = place)
    (hact : ∀ a, (act' a).1 = (act a).1 ∧ (act a).2.InStep slack (act' a).2) :
    (s'.onObject place' act').1 = (s.onObject place act).1 ∧
      (s.onObject place act).2.InStep slack (s'.onObject place' act').2 := by
  subst hplace
  cases place' with
  | none => exact ⟨rfl, h⟩
  | some a => exact ⟨congrArg some (hact a).1, (hact a).2⟩

/-- Host functions are given the same answers. -/
theorem answer (h : s.InStep slack s') (caller : Caller) (request : Request) :
    (s'.answer caller request).1 = (s.answer caller request).1 ∧
      (s.answer caller request).2.InStep slack (s'.answer caller request).2 := by
  cases request with
  | emit event =>
    exact ⟨rfl, h.objects, h.size, h.instances, h.handles, congrArg (event :: ·) h.events⟩
  | getGlobal target name =>
    refine ⟨?_, h⟩
    show (s'.globalOf caller target name).bind s'.readGlobal =
      (s.globalOf caller target name).bind s.readGlobal
    rw [h.globalOf, funext h.readGlobal]
  | setGlobal target name v =>
    unfold Store.answer
    dsimp only
    rw [h.globalOf]
    cases s.globalOf caller target name with
    | ok a => exact h.assignGlobal a v
    | error e => exact ⟨rfl, h⟩
  | member target name =>
    refine ⟨?_, h⟩
    show (s'.memberOf caller target name).bind s'.objects.typeOf =
      (s.memberOf caller target name).bind s.objects.typeOf
    rw [h.memberOf, h.objects]
  | writeMemory name offset data =>
    unfold Store.answer
    dsimp only
    rw [h.memberOf]
    cases s.memberOf caller .caller name with
    | none => exact ⟨rfl, h⟩
    | some member =>
      cases member with
      | memory a => exact h.assignMemory a offset data
      | _ => exact ⟨rfl, h⟩
  | exports n =>
    refine ⟨?_, h⟩
    show ((s'.handle? n).map s'.exports).getD [] = ((s.handle? n).map s.exports).getD []
    rw [h.handle?, funext h.exports]
  | hasMemory n =>
    refine ⟨?_, h⟩
    show ((s'.handle? n).bind s'.memory?).isSome = ((s.handle? n).bind s.memory?).isSome
    rw [h.handle?, funext h.memory?]
  | readCell global =>
    refine ⟨?_, h⟩
    show (s'.objectAt caller Member.global? global).map s'.readGlobal =
      (s.objectAt caller Member.global? global).map s.readGlobal
    rw [h.objectAt, funext h.readGlobal]
  | readBytes memory offset length =>
    refine ⟨?_, h⟩
    show (s'.objectAt caller Member.memory? memory).map _ =
      (s.objectAt caller Member.memory? memory).map _
    rw [h.objectAt, funext fun a => h.readMemory a offset length]
  | slotType table index =>
    refine ⟨?_, h⟩
    show (s'.objectAt caller Member.table? table).map _ =
      (s.objectAt caller Member.table? table).map _
    rw [h.objectAt, funext fun a => congrArg _ (h.slot a index)]
  | setCell global v =>
    exact h.onObject (h.objectAt ..) fun a => h.assignGlobal a v
  | putBytes memory offset data =>
    exact h.onObject (h.objectAt ..) fun a => h.assignMemory a offset data
  | growMemory memory delta =>
    exact h.onObject (h.objectAt ..) fun a => h.growMemory a delta
  | growTable table delta =>
    exact h.onObject (h.objectAt ..) fun a => h.growTable a delta
  | setSlot table index source =>
    cases source with
    | none =>
      exact h.onObject (h.objectAt ..) fun a => h.setSlot a index none
    | some source =>
      unfold Store.answer
      dsimp only
      rw [h.funcAt]
      cases s.funcAt caller source with
      | none => exact ⟨rfl, h⟩
      | some f => exact h.onObject (h.objectAt ..) fun a => h.setSlot a index (some f)

end Store.InStep

/-! ### Activations -/

/-- The same call, begun on threads in step. -/
structure Activation.InStep (slack : Prop) (act act' : Activation) : Prop where
  self : act'.self = act.self
  results : act'.results = act.results
  entry : act.entry.InStep slack Tight act'.entry
  exclusive : act'.exclusive = act.exclusive

/-- Two states that are in step once they are cut back to the beginning of the call. -/
structure Activation.Undone (slack : Prop) (act act' : Activation) (y y' : Execution) : Prop where
  objects : y'.objects = y.objects
  thread : (y.thread.cutBack act.entry).InStep slack Tight (y'.thread.cutBack act'.entry)

namespace Activation.InStep

variable {act act' : Activation} {s s' : Store}

theorem undone (hact : act.InStep slack act') {y y' : Execution} (hy : y.InStep slack loose y')
    (hloose : ∀ k, loose k → act.entry.frames.height < k) : Undone slack act act' y y' :=
  ⟨hy.objects, hy.thread.cutBack hact.entry hloose⟩

theorem release (hact : act.InStep slack act') (h : s.InStep slack s') :
    (act.release s).InStep slack (act'.release s') := by
  unfold Activation.release
  rw [hact.exclusive, hact.self]
  split
  · exact h.modifyInstance _ fun hi => ⟨hi.bindings, hi.thread, rfl⟩
  · exact h

theorem undo (hact : act.InStep slack act') (h : s.InStep slack s') :
    (act.undo s).InStep slack (act'.undo s') := by
  unfold Activation.undo
  rw [hact.self]
  exact h.modifyInstance _ fun hi =>
    ⟨hi.bindings, hi.thread.cutBack hact.entry fun _ => False.elim, hi.busy⟩

theorem isFinished (hact : act.InStep slack act') (h : s.InStep slack s') :
    act'.isFinished s' = act.isFinished s := by
  unfold Activation.isFinished
  rw [hact.self, hact.entry.height]
  rcases h.look act.self with ⟨hi, hi'⟩ | ⟨i, i', hi, hi', hii⟩
  · rw [hi, hi']
  · rw [hi, hi']
    dsimp only
    rw [hii.thread.height]

end Activation.InStep

/-- Two ends of a part of an activation: the first one has met a limit that the second one need not
meet, or the stores are in step, in case of a failure after the call has been undone. -/
inductive Activation.Ended {α : Type} (slack : Prop) (act act' : Activation) :
    EStateM.Result Error Store α → EStateM.Result Error Store α → Prop
  | exhausted {e : Error} {t : Store} {r' : EStateM.Result Error Store α} (hslack : slack)
      (he : e.Exhausted) : Ended slack act act' (.error e t) r'
  | ok {r : α} {t t' : Store} (h : t.InStep slack t') : Ended slack act act' (.ok r t) (.ok r t')
  | error {e : Error} {t t' : Store} (h : (act.undo t).InStep slack (act'.undo t')) :
      Ended slack act act' (.error e t) (.error e t')

namespace Store.InStep

variable {s s' : Store} {act act' : Activation} {a : Address} {i i' : Instance}
  {x x' : Execution}

theorem settled (h : s.InStep slack s') (hi : s.instance? a = some i)
    (hi' : s'.instance? a = some i') (hii : i.InStep slack i') (hx : x.InStep slack Tight x') :
    (Safety.settled s a i x).InStep slack (Safety.settled s' a i' x') := by
  refine ⟨hx.objects, ?_, fun a' => ?_, h.handles, h.events⟩
  · show (s'.instances.setIfInBounds a _).size = (s.instances.setIfInBounds a _).size
    rw [Array.size_setIfInBounds, Array.size_setIfInBounds, h.size]
  · rw [Safety.instance?_settled hi, Safety.instance?_settled hi']
    split
    · exact .some ⟨hii.bindings, hx.thread, hii.busy⟩
    · exact h.instances a'

/-- Cutting back a thread after a part of an execution is the same as a part that ends there. -/
theorem undo_settled (hi : s.instance? act.self = some i) (x : Execution) (a : Address) :
    (act.undo (Safety.settled s act.self i x)).instance? a =
      (Safety.settled s act.self i ⟨x.objects, x.thread.cutBack act.entry⟩).instance? a := by
  rw [Activation.undo, Safety.instance?_modifyInstance, Safety.instance?_settled hi,
    Safety.instance?_settled hi]
  split <;> rfl

theorem undo (h : s.InStep slack s') (hact : act.InStep slack act')
    (hi : s.instance? act.self = some i) (hi' : s'.instance? act'.self = some i')
    (hii : i.InStep slack i') (hx : act.Undone slack act' x x') :
    (act.undo (Safety.settled s act.self i x)).InStep slack
      (act'.undo (Safety.settled s' act'.self i' x')) := by
  have hcut : Execution.InStep slack Tight ⟨x.objects, x.thread.cutBack act.entry⟩
      ⟨x'.objects, x'.thread.cutBack act'.entry⟩ := ⟨hx.objects, hx.thread⟩
  have hsettled := h.settled hi (hact.self ▸ hi') hii hcut
  refine ⟨hx.objects, ?_, fun a => ?_, h.handles, h.events⟩
  · show ((s'.instances.setIfInBounds _ _).modify _ _).size =
      ((s.instances.setIfInBounds _ _).modify _ _).size
    rw [Array.size_modify, Array.size_setIfInBounds, Array.size_modify, Array.size_setIfInBounds,
      h.size]
  · rw [undo_settled hi, undo_settled hi', hact.self]
    exact hsettled.instances a

/-- A part of an activation runs in both stores. -/
theorem run {α : Type} (h : s.InStep slack s') (hact : act.InStep slack act')
    {part part' : Bindings → Step α}
    (hpart : ∀ {i i' : Instance}, s.instance? act.self = some i → i.InStep slack i' →
      Abreast slack (Execution.InStep slack Tight) (act.Undone slack act')
        (part i.bindings ⟨s.objects, i.thread⟩) (part' i'.bindings ⟨s'.objects, i'.thread⟩)) :
    Activation.Ended slack act act' (act.run part s) (act'.run part' s') := by
  rcases h.look act.self with ⟨hi, hi'⟩ | ⟨i, i', hi, hi', hii⟩
  · rw [← hact.self] at hi'
    unfold Activation.run
    rw [hi, hi']
    exact .error (hact.undo h)
  · rw [← hact.self] at hi'
    rw [Safety.run_eq hi, Safety.run_eq hi']
    rcases (hpart hi hii).cases with ⟨e, y, hslack, he, hrun⟩ | ⟨r, y, y', hrun, hrun', hy⟩ |
      ⟨e, y, y', hrun, hrun', hy⟩
    · rw [hrun]
      exact .exhausted hslack he
    · rw [hrun, hrun']
      rw [hact.self] at hi' ⊢
      exact .ok (h.settled hi hi' hii hy)
    · rw [hrun, hrun']
      exact .error (h.undo hact hi hi' hii hy)

/-- A part that keeps in step whatever state it starts from. -/
theorem runLockstep {α : Type} (h : s.InStep slack s') (hact : act.InStep slack act')
    {part part' : Bindings → Step α}
    (hpart : ∀ {b b' : Bindings}, b.InStep slack b' →
      Execution.Lockstep slack Tight (part b) (part' b')) :
    Activation.Ended slack act act' (act.run part s) (act'.run part' s') :=
  h.run hact fun _ hii => ((hpart hii.bindings).abreast ⟨h.objects, hii.thread⟩).mono id
    fun hy => hact.undone hy fun _ => False.elim

/-- The next instruction of a call that is not finished. -/
theorem runAdvance (h : s.InStep slack s') (hact : act.InStep slack act')
    (hopen : act.isFinished s = false) :
    Activation.Ended slack act act' (act.run Activation.advance s)
      (act'.run Activation.advance s') := by
  refine h.run hact fun {i i'} hi hii => ?_
  have hheight : act.entry.frames.height < i.thread.frames.height := by
    unfold Activation.isFinished at hopen
    rw [hi] at hopen
    simpa using hopen
  refine (Activation.abreast_advance hii.bindings ⟨h.objects, hii.thread⟩).mono id fun hy => ?_
  exact hact.undone hy fun k hk => Nat.lt_of_lt_of_le hheight hk

end Store.InStep

end Wasm
