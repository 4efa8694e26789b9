import Wasm.Proofs.Isolation.Departures
import Wasm.Proofs.Lockstep.Threads

/-!
# Executions in step

The same part of an execution, run in two instances that differ in how far their stacks may grow and
in dead code, does the same on both sides, unless a limit stops the first one (`Lockstep`).  As with
writes and with locality, nothing needs to be known about the code, nor about which frames are
loose.
-/

namespace Wasm

/-! ### Instances -/

/-- The same function, with a trimmed body if the instance owns it. -/
inductive Func.Trims : Func → Func → Prop
  | defined {type : FuncType} {localCount : Nat} {body body' : Expr} (h : Expr.Trims body body') :
      Func.Trims (.defined type localCount body) (.defined type localCount body')
  | imported (f : FuncRef) : Func.Trims (.imported f) (.imported f)

/-- The same limits, or, where there may be slack, more room on the stacks. -/
structure Config.InStep (slack : Prop) (c c' : Config) : Prop where
  maxCallDepth : Room slack c.maxCallDepth c'.maxCallDepth
  maxOperandStack : Room slack c.maxOperandStack c'.maxOperandStack
  maxMemoryPages : c'.maxMemoryPages = c.maxMemoryPages

/-- The same indices, with trimmed bodies, and limits in step. -/
structure Bindings.InStep (slack : Prop) (b b' : Bindings) : Prop where
  self : b'.self = b.self
  module : b.module.Trims b'.module
  config : b.config.InStep slack b'.config
  funcs : List.Forall₂ Func.Trims b.funcs.toList b'.funcs.toList
  globals : b'.globals = b.globals
  memory : b'.memory = b.memory
  table : b'.table = b.table

theorem Func.Trims.refl (f : Func) : f.Trims f := by
  cases f with
  | defined type localCount body => exact .defined (.refl body)
  | imported f => exact .imported f

theorem Func.Trims.type_eq {f f' : Func} (h : f.Trims f') : f'.type = f.type := by
  cases h <;> rfl

/-- The entries of two lists that are related item by item. -/
theorem getElem?_of_forall₂ {α : Type} {R : α → α → Prop} {l l' : List α}
    (h : List.Forall₂ R l l') (k : Nat) : Option.Rel R l[k]? l'[k]? := by
  induction h generalizing k with
  | nil => exact .none
  | cons hfirst _ ih =>
    cases k with
    | zero => exact .some hfirst
    | succ k => exact ih k

namespace Bindings.InStep

variable {slack : Prop} {b b' : Bindings}

theorem types (h : b.InStep slack b') : b'.module.types = b.module.types := by
  rw [h.module.same]

theorem getElem?_funcs (h : b.InStep slack b') (k : Nat) :
    Option.Rel Func.Trims b.funcs[k]? b'.funcs[k]? := by
  rw [← Array.getElem?_toList, ← Array.getElem?_toList]
  exact getElem?_of_forall₂ h.funcs k

theorem func (h : b.InStep slack b') (index : UInt32) :
    Agreeing slack Func.Trims (b.func index) (b'.func index) := by
  have hfunc := h.getElem?_funcs index.toNat
  unfold Bindings.func
  revert hfunc
  generalize b.funcs[index.toNat]? = r
  generalize b'.funcs[index.toNat]? = r'
  intro hfunc
  cases hfunc with
  | none => exact .error _
  | some hf => exact .ok hf

theorem ownIndex? (h : b.InStep slack b') (f : FuncRef) : b'.ownIndex? f = b.ownIndex? f := by
  unfold Bindings.ownIndex?
  rw [h.self]

theorem memoryAt (h : b.InStep slack b') : b'.memoryAt = b.memoryAt := by
  unfold Bindings.memoryAt
  rw [h.memory]

theorem tableAt (h : b.InStep slack b') : b'.tableAt = b.tableAt := by
  unfold Bindings.tableAt
  rw [h.table]

end Bindings.InStep

namespace Execution

/-- The same objects, and threads in step. -/
structure InStep (slack : Prop) (loose : Nat → Prop) (x x' : Execution) : Prop where
  objects : x'.objects = x.objects
  thread : x.thread.InStep slack loose x'.thread

/-- Two results: the first run has met a limit that the second one need not meet, or both have come
to the same, in states that are related. -/
inductive Abreast {α : Type} (slack : Prop) (P Q : Execution → Execution → Prop) :
    EStateM.Result Error Execution α → EStateM.Result Error Execution α → Prop
  | exhausted {e : Error} {x : Execution} {r' : EStateM.Result Error Execution α} (hslack : slack)
      (he : e.Exhausted) : Abreast slack P Q (.error e x) r'
  | ok {a : α} {x x' : Execution} (h : P x x') : Abreast slack P Q (.ok a x) (.ok a x')
  | error {e : Error} {x x' : Execution} (h : Q x x') :
      Abreast slack P Q (.error e x) (.error e x')

/-- Two parts of executions keep in step. -/
structure Lockstep {α : Type} (slack : Prop) (loose : Nat → Prop) (c c' : Step α) : Prop where
  abreast : ∀ {x x' : Execution}, x.InStep slack loose x' →
    Abreast slack (InStep slack loose) (InStep slack loose) (c x) (c' x')

section

variable {α β : Type} {slack : Prop} {loose : Nat → Prop} {c c' : Step α} {f f' : α → Step β}
  {x x' : Execution} {P Q P' Q' : Execution → Execution → Prop}
  {r r' : EStateM.Result Error Execution α} {b b' : Bindings}

theorem Abreast.cases (h : Abreast slack P Q r r') :
    (∃ e x, slack ∧ e.Exhausted ∧ r = .error e x) ∨
      (∃ a x x', r = .ok a x ∧ r' = .ok a x' ∧ P x x') ∨
      ∃ e x x', r = .error e x ∧ r' = .error e x' ∧ Q x x' := by
  cases h with
  | exhausted hslack he => exact .inl ⟨_, _, hslack, he, rfl⟩
  | ok h => exact .inr (.inl ⟨_, _, _, rfl, rfl, h⟩)
  | error h => exact .inr (.inr ⟨_, _, _, rfl, rfl, h⟩)

theorem Abreast.mono (h : Abreast slack P Q r r') (hP : ∀ {x x'}, P x x' → P' x x')
    (hQ : ∀ {x x'}, Q x x' → Q' x x') : Abreast slack P' Q' r r' := by
  cases h with
  | exhausted hslack he => exact .exhausted hslack he
  | ok h => exact .ok (hP h)
  | error h => exact .error (hQ h)

/-! ### Combining parts -/

theorem lockstep_pure (a : α) : Lockstep slack loose (pure a : Step α) (pure a) :=
  ⟨.ok⟩

theorem lockstep_throw (e : Error) : Lockstep slack loose (throw e : Step α) (throw e) :=
  ⟨.error⟩

theorem Lockstep.bind (h : Lockstep slack loose c c') (hf : ∀ a, Lockstep slack loose (f a) (f' a)) :
    Lockstep slack loose (c >>= f) (c' >>= f') := by
  refine ⟨fun {x x'} hx => ?_⟩
  rcases (h.abreast hx).cases with ⟨e, y, hslack, he, hrun⟩ | ⟨a, y, y', hrun, hrun', hy⟩ |
    ⟨e, y, y', hrun, hrun', hy⟩
  · rw [bind_error hrun]
    exact .exhausted hslack he
  · rw [bind_ok hrun, bind_ok hrun']
    exact (hf a).abreast hy
  · rw [bind_error hrun, bind_error hrun']
    exact .error hy

/-- Failures are given a context on both sides, and keep their codes. -/
theorem Lockstep.rethrown {context : Error → Error} (hcontext : ∀ e, (context e).code = e.code)
    (h : Lockstep slack loose c c') :
    Lockstep slack loose (tryCatch c fun e => throw (context e))
      (tryCatch c' fun e => throw (context e)) := by
  refine ⟨fun {x x'} hx => ?_⟩
  show Abreast _ _ _ (EStateM.tryCatch c _ x) (EStateM.tryCatch c' _ x')
  delta EStateM.tryCatch
  dsimp only
  rcases (h.abreast hx).cases with ⟨e, y, hslack, he, hrun⟩ | ⟨a, y, y', hrun, hrun', hy⟩ |
    ⟨e, y, y', hrun, hrun', hy⟩
  · rw [hrun]
    refine .exhausted hslack ?_
    rwa [Error.Exhausted, hcontext]
  · rw [hrun, hrun']
    exact .ok hy
  · rw [hrun, hrun']
    exact .error hy

theorem lockstep_get {f f' : Execution → Step β}
    (h : ∀ {x x'}, x.InStep slack loose x' → Lockstep slack loose (f x) (f' x')) :
    Lockstep slack loose (get >>= f) (get >>= f') :=
  ⟨fun hx => (h hx).abreast hx⟩

/-- A part that looks at nothing but the objects. -/
theorem lockstep_look {f : Execution → Step β}
    (heq : ∀ {x x' : Execution}, x'.objects = x.objects → f x' = f x)
    (h : ∀ x, Lockstep slack loose (f x) (f x)) : Lockstep slack loose (get >>= f) (get >>= f) := by
  refine lockstep_get fun {x x'} hx => ?_
  rw [heq hx.objects]
  exact h x

theorem lockstep_modifyThread (g g' : Thread → Thread)
    (h : ∀ {t t'}, t.InStep slack loose t' → (g t).InStep slack loose (g' t')) :
    Lockstep slack loose (modify fun x => { x with thread := g x.thread } : Step PUnit)
      (modify fun x => { x with thread := g' x.thread }) :=
  ⟨fun hx => .ok ⟨hx.objects, h hx.thread⟩⟩

theorem lockstep_modifyObjects (g : Objects → Objects) :
    Lockstep slack loose (modify fun x => { x with objects := g x.objects } : Step PUnit)
      (modify fun x => { x with objects := g x.objects }) :=
  ⟨fun hx => .ok ⟨congrArg g hx.objects, hx.thread⟩⟩

/-- The value of a computation that may trap. -/
theorem lockstep_found {R : α → α → Prop} {r r' : Except Trap α} (h : Agreeing slack R r r')
    (hf : ∀ {a a'}, R a a' → Lockstep slack loose (f a) (f' a')) :
    Lockstep slack loose (orTrap r >>= f) (orTrap r' >>= f') := by
  cases h with
  | exhausted hslack ht => exact ⟨fun _ => .exhausted hslack ht⟩
  | ok h => exact hf h
  | error t => exact lockstep_throw _

theorem lockstep_same {r : Except Trap α} (hf : ∀ a, Lockstep slack loose (f a) (f' a)) :
    Lockstep slack loose (orTrap r >>= f) (orTrap r >>= f') := by
  refine lockstep_found (agreeing_self r) fun {a a'} heq => ?_
  obtain rfl : a = a' := heq
  exact hf a

/-! ### Stacks -/

theorem lockstep_operands {f f' : OperandStack → Step β}
    (h : ∀ {s s'}, s.InStep slack s' → Lockstep slack loose (f s) (f' s')) :
    Lockstep slack loose (operands >>= f) (operands >>= f') :=
  ⟨fun hx => (h hx.thread.operands).abreast hx⟩

theorem lockstep_setOperands {s s' : OperandStack} (h : s.InStep slack s') :
    Lockstep slack loose (setOperands s) (setOperands s') :=
  lockstep_modifyThread (fun t => { t with operands := s }) (fun t => { t with operands := s' })
    fun ht => ⟨h, ht.frames, ht.localBase, ht.callDepth⟩

theorem lockstep_setFrames {frames frames' : Stack Frame}
    (h : FramesInStep loose frames.items frames'.items) :
    Lockstep slack loose (setFrames frames) (setFrames frames') :=
  lockstep_modifyThread (fun t => { t with frames := frames }) (fun t => { t with frames := frames' })
    fun ht => ⟨ht.operands, h, ht.localBase, ht.callDepth⟩

theorem lockstep_push (slot : UInt64) : Lockstep slack loose (push slot) (push slot) :=
  lockstep_operands fun hs => lockstep_found (hs.push slot) lockstep_setOperands

theorem lockstep_pop : Lockstep slack loose pop pop := by
  refine lockstep_operands fun hs => lockstep_found hs.pop fun {p p'} hp => ?_
  obtain ⟨slot, rest⟩ := p
  obtain ⟨slot', rest'⟩ := p'
  obtain rfl : slot' = slot := hp.1
  exact (lockstep_setOperands hp.2).bind fun _ => lockstep_pure _

theorem lockstep_popU32 : Lockstep slack loose popU32 popU32 :=
  lockstep_pop.bind fun _ => lockstep_pure _

theorem lockstep_exitFrame : Lockstep slack loose exitFrame exitFrame := by
  refine lockstep_get fun {x x'} hx => ?_
  have hframes := hx.thread.frames
  cases hpop : x.thread.frames.pop? with
  | none =>
    have hnil : x.thread.frames.items = [] := Stack.pop?_eq_none_iff.mp hpop
    rw [hnil] at hframes
    have hpop' : x'.thread.frames.pop? = none := by
      apply Stack.pop?_eq_none_iff.mpr
      generalize x'.thread.frames.items = frames' at hframes
      cases hframes
      rfl
    rw [hpop']
    exact lockstep_throw _
  | some popped =>
    obtain ⟨f, below⟩ := popped
    have hcons : x.thread.frames.items = f :: below.items := Stack.pop?_eq_some_iff.mp hpop
    rw [hcons] at hframes
    obtain ⟨f', below', hf, hbelow, hpop'⟩ : ∃ (f' : Frame) (below' : Stack Frame),
        f.InStep (loose (below.items.length + 1)) f' ∧
          FramesInStep loose below.items below'.items ∧
          x'.thread.frames.pop? = some (f', below') := by
      generalize hitems' : x'.thread.frames.items = frames' at hframes
      cases hframes with
      | @cons _ f' _ below' hf hbelow =>
        exact ⟨f', .ofList below', hf, hbelow, Stack.pop?_eq_some_iff.mpr hitems'⟩
    rw [hpop']
    dsimp only
    rw [hf.base, hf.results, hf.kind, hf.savedLocalBase]
    refine lockstep_operands fun hs => lockstep_found (hs.unwind _ _) fun hs' =>
      (lockstep_setOperands hs').bind fun _ => (lockstep_setFrames hbelow).bind fun _ => ?_
    split
    · let closed (t : Thread) : Thread :=
        { t with localBase := f.savedLocalBase, callDepth := t.callDepth - 1 }
      exact lockstep_modifyThread closed closed fun ht =>
        ⟨ht.operands, ht.frames, rfl, congrArg (· - 1) ht.callDepth⟩
    · exact lockstep_pure _

/-! ### Control -/

theorem lockstep_baseBelow (params : Nat) :
    Lockstep slack loose (baseBelow params) (baseBelow params) := by
  refine lockstep_operands fun {s s'} hs => ?_
  rw [hs.height]
  show Lockstep _ _ (ite _ _ _) (ite _ _ _)
  split
  · exact lockstep_throw _
  · exact lockstep_pure _

theorem lockstep_enter (hb : b.InStep slack b') (kind : FrameKind) (type : BlockType)
    {body body' : Expr} (hbody : Expr.Trims body body') :
    Lockstep slack loose (enter b kind type body) (enter b' kind type body') := by
  have htype : Lockstep slack loose (blockType b type) (blockType b' type) := by
    unfold blockType
    rw [hb.types]
    split
    · exact lockstep_pure _
    · exact lockstep_throw _
    · exact lockstep_pure _
  refine htype.bind fun t => (lockstep_baseBelow _).bind fun base => lockstep_get fun hx => ?_
  exact lockstep_setFrames (.cons (Frame.inStep_enter kind hbody ..) hx.thread.frames)

theorem lockstep_branch (depth : UInt32) : Lockstep slack loose (branch depth) (branch depth) := by
  refine lockstep_get fun {x x'} hx => ?_
  dsimp only
  rw [hx.thread.height]
  split
  · exact lockstep_throw _
  · have hdrop : FramesInStep loose (x.thread.frames.drop depth.toNat).items
        (x'.thread.frames.drop depth.toNat).items := hx.thread.frames.drop depth.toNat
    refine (lockstep_setFrames hdrop).bind fun _ => ?_
    revert hdrop
    generalize x.thread.frames.drop depth.toNat = frames
    generalize x'.thread.frames.drop depth.toNat = frames'
    intro hdrop
    generalize hitems : frames.items = items at hdrop
    generalize hitems' : frames'.items = items' at hdrop
    cases hdrop with
    | nil => exact lockstep_throw _
    | cons hf hbelow =>
      dsimp only
      rw [hf.kind, hf.base, hf.branchArity]
      show Lockstep _ _ (ite _ _ _) (ite _ _ _)
      split
      · refine lockstep_operands fun hs => lockstep_found (hs.unwind _ _) fun hs' =>
          (lockstep_setOperands hs').bind fun _ => lockstep_setFrames ?_
        rw [Stack.items_setTop hitems, Stack.items_setTop hitems']
        exact .cons hf.restart hbelow
      · exact lockstep_exitFrame

theorem lockstep_ret : Lockstep slack loose ret ret := by
  refine lockstep_get fun {x x'} hx => ?_
  rw [hx.thread.frames.findIdx?_call]
  cases x.thread.frames.items.findIdx? (·.kind = .call) with
  | none => exact lockstep_throw _
  | some depth => exact lockstep_branch _

theorem lockstep_leave (g : FuncRef) :
    Lockstep slack loose (some <$> leave g) (some <$> leave g) := by
  refine Lockstep.bind (lockstep_operands fun hs => lockstep_found (hs.popMany _) fun {p p'} hp => ?_)
    fun _ => lockstep_pure _
  obtain ⟨slots, rest⟩ := p
  obtain ⟨slots', rest'⟩ := p'
  obtain rfl : slots' = slots := hp.1
  exact (lockstep_setOperands hp.2).bind fun _ => lockstep_pure _

/-- The call depth is the other limit. -/
theorem lockstep_call (hb : b.InStep slack b') (index : UInt32) :
    Lockstep slack loose (call b index) (call b' index) := by
  refine lockstep_found (hb.func index) fun hg => ?_
  cases hg with
  | imported g => exact lockstep_leave g
  | @defined type localCount body body' hbody =>
    refine lockstep_get fun {x x'} hx => ?_
    dsimp only
    rw [hx.thread.callDepth]
    generalize x.thread.callDepth = depth
    by_cases hdepth : b.config.maxCallDepth ≤ depth
    · rw [if_pos hdepth]
      rcases hb.config.maxCallDepth with heq | ⟨hslack, -⟩
      · rw [heq, if_pos hdepth]
        exact lockstep_throw _
      · exact ⟨fun _ => .exhausted hslack (.inr rfl)⟩
    · have hdepth' : ¬ b'.config.maxCallDepth ≤ depth := by
        have := hb.config.maxCallDepth.le
        omega
      rw [if_neg hdepth, if_neg hdepth']
      refine (lockstep_baseBelow _).bind fun base =>
        lockstep_found (hx.thread.operands.pushZeros _) fun hs =>
          (lockstep_setOperands hs).bind fun _ => Lockstep.bind ?_ fun _ => lockstep_pure _
      let opened (x : Execution) (body : Expr) (t : Thread) : Thread := { t with
        frames := x.thread.frames.push { Frame.enter .call body base type.params.length
          type.results.length with savedLocalBase := x.thread.localBase }
        localBase := base
        callDepth := depth + 1 }
      refine lockstep_modifyThread (opened x body) (opened x' body') fun ht =>
        ⟨ht.operands, ?_, rfl, rfl⟩
      refine .cons ⟨rfl, rfl, rfl, rfl, hx.thread.localBase, hbody, .inr ⟨hbody, ?_⟩⟩
        hx.thread.frames
      exact Nat.add_comm ..

theorem lockstep_callIndirect (hb : b.InStep slack b') (typeIndex : UInt32) :
    Lockstep slack loose (callIndirect b typeIndex) (callIndirect b' typeIndex) := by
  unfold callIndirect
  rw [hb.tableAt, hb.types]
  refine lockstep_popU32.bind fun slot => lockstep_same fun a => lockstep_get fun hx => ?_
  rw [hx.objects]
  refine lockstep_same fun table => lockstep_same fun entry => ?_
  cases entry with
  | none => exact lockstep_throw _
  | some g =>
    dsimp only
    rw [hb.ownIndex?]
    split
    · exact lockstep_throw _
    · split
      · exact lockstep_throw _
      · split
        · exact lockstep_call hb _
        · exact lockstep_leave g

/-! ### Instructions -/

theorem lockstep_localAt {f f' : Nat → Step β} {index : UInt32}
    (h : ∀ k, Lockstep slack loose (f k) (f' k)) :
    Lockstep slack loose (localAt index >>= f) (localAt index >>= f') := by
  refine ⟨fun {x x'} hx => ?_⟩
  show Abreast _ _ _ (f (x.thread.localBase + index.toNat) x)
    (f' (x'.thread.localBase + index.toNat) x')
  rw [hx.thread.localBase]
  exact (h _).abreast hx

theorem lockstep_assign (index : UInt32) (slot : UInt64) :
    Lockstep slack loose (do setOperands (← orTrap ((← operands).set (← localAt index) slot)))
      (do setOperands (← orTrap ((← operands).set (← localAt index) slot))) :=
  lockstep_operands fun hs => lockstep_localAt fun k =>
    lockstep_found (hs.set k slot) lockstep_setOperands

theorem lockstep_operate (f : Operator) : Lockstep slack loose (operate f) (operate f) := by
  cases f with
  | unary eval => exact lockstep_pop.bind fun _ => lockstep_same fun _ => lockstep_push _
  | binary eval =>
    exact lockstep_pop.bind fun _ => lockstep_pop.bind fun _ => lockstep_same fun _ =>
      lockstep_push _

theorem lockstep_load (m : MemArg) (count : Nat) (decode : Nat → UInt64) :
    Lockstep slack loose (load b m count decode) (load b m count decode) :=
  lockstep_popU32.bind fun _ => lockstep_look (fun ho => by rw [ho]) fun _ => lockstep_same fun _ =>
    lockstep_same fun _ => lockstep_same fun _ => lockstep_push _

theorem lockstep_store (m : MemArg) (count : Nat) :
    Lockstep slack loose (store b m count) (store b m count) := by
  refine lockstep_pop.bind fun slot => lockstep_popU32.bind fun address => lockstep_same fun a =>
    lockstep_look (fun ho => by rw [ho]) fun _ => lockstep_same fun memory => ?_
  show Lockstep _ _ (ite _ _ _) (ite _ _ _)
  split
  · exact lockstep_modifyObjects fun o => o.putBytes a (effectiveAddress m address)
      (LittleEndian.encode count slot.toNat)
  · exact lockstep_throw _

theorem lockstep_memoryGrow : Lockstep slack loose (memoryGrow b) (memoryGrow b) := by
  refine lockstep_popU32.bind fun delta => lockstep_same fun a =>
    lockstep_look (fun ho => by rw [ho]) fun _ =>
    lockstep_same fun memory => ?_
  cases memory.grow delta with
  | error e => exact lockstep_push _
  | ok grown =>
    exact Lockstep.bind (lockstep_modifyObjects fun o => o.putMemory a grown.2) fun _ =>
      lockstep_push _

theorem lockstep_globalSet (index : UInt32) :
    Lockstep slack loose (globalSet b index) (globalSet b index) :=
  lockstep_pop.bind fun _ => lockstep_same fun a => lockstep_look (fun ho => by rw [ho]) fun _ =>
    lockstep_same fun _ => lockstep_same fun cell =>
      lockstep_modifyObjects fun o => o.putGlobal a cell

/-- The opcodes that neither branch nor call, in the same instance. -/
theorem lockstep_simple (b : Bindings) (i : Instr) :
    Lockstep slack loose (simple b i) (simple b i) := by
  unfold simple
  split
  · exact lockstep_pure _
  · exact lockstep_pop.bind fun _ => lockstep_pure _
  · exact lockstep_popU32.bind fun _ => lockstep_pop.bind fun _ => lockstep_pop.bind fun _ =>
      lockstep_push _
  · refine lockstep_operands fun hs => lockstep_localAt fun k => ?_
    rw [hs.get]
    exact lockstep_same fun _ => lockstep_push _
  · exact lockstep_pop.bind fun slot => lockstep_assign _ slot
  · refine lockstep_operands fun hs => ?_
    rw [hs.peek]
    exact lockstep_same fun slot => lockstep_assign _ slot
  · exact lockstep_look (fun ho => by rw [ho]) fun _ => lockstep_same fun _ =>
      lockstep_same fun _ => lockstep_push _
  · exact lockstep_globalSet _
  · exact lockstep_load ..
  · exact lockstep_load ..
  · exact lockstep_store ..
  · exact lockstep_store ..
  · exact lockstep_look (fun ho => by rw [ho]) fun _ => lockstep_same fun _ =>
      lockstep_same fun _ => lockstep_push _
  · exact lockstep_memoryGrow
  · exact lockstep_push _
  · exact lockstep_operate _
  · split
    · exact lockstep_operate _
    · exact lockstep_throw _

/-- They see nothing of an instance but its globals and its memory. -/
theorem simple_congr (hglobals : b'.globals = b.globals) (hmemory : b'.memory = b.memory)
    (i : Instr) : simple b' i = simple b i := by
  obtain ⟨self, module, config, funcs, globals, memory, table⟩ := b
  obtain ⟨self', module', config', funcs', globals', memory', table'⟩ := b'
  obtain rfl : globals' = globals := hglobals
  obtain rfl : memory' = memory := hmemory
  rfl

/-- A part after which nothing is left to be called. -/
theorem Lockstep.thenNone {c c' : Step Unit} (h : Lockstep slack loose c c') :
    Lockstep slack loose (c >>= fun _ => pure (none : Option Call))
      (c' >>= fun _ => pure none) :=
  h.bind fun _ => lockstep_pure _

theorem lockstep_plain (hb : b.InStep slack b') (i : Instr) :
    Lockstep slack loose (simple b i >>= fun _ => pure (none : Option Call))
      (simple b' i >>= fun _ => pure none) := by
  rw [simple_congr hb.globals hb.memory]
  exact (lockstep_simple b i).thenNone

theorem lockstep_execute (hb : b.InStep slack b') {i i' : Instr} (hi : Instr.Trims i i') :
    Lockstep slack loose (execute b i) (execute b' i') := by
  cases hi with
  | plain op imm =>
    cases op with
    | unreachable => exact lockstep_throw _
    | br =>
      cases imm with
      | index depth => exact (lockstep_branch depth).thenNone
      | _ => exact lockstep_plain hb _
    | brIf =>
      cases imm with
      | index depth =>
        refine lockstep_popU32.bind fun condition => ?_
        by_cases hcondition : condition ≠ 0
        · rw [if_pos hcondition]
          exact (lockstep_branch depth).thenNone
        · rw [if_neg hcondition]
          exact lockstep_pure _
      | _ => exact lockstep_plain hb _
    | brTable =>
      cases imm with
      | labels table default => exact lockstep_popU32.bind fun _ => (lockstep_branch _).thenNone
      | _ => exact lockstep_plain hb _
    | ret => exact lockstep_ret.thenNone
    | call =>
      cases imm with
      | index index => exact lockstep_call hb index
      | _ => exact lockstep_plain hb _
    | callIndirect =>
      cases imm with
      | typeIndex index => exact lockstep_callIndirect hb index
      | _ => exact lockstep_plain hb _
    | _ => exact lockstep_plain hb _
  | block op type hbody =>
    cases op with
    | unreachable => exact lockstep_throw _
    | block => exact (lockstep_enter hb .block type hbody).thenNone
    | loop => exact (lockstep_enter hb .loop type hbody).thenNone
    | ret => exact lockstep_ret.thenNone
    | _ => exact lockstep_plain hb _
  | ifElse op type hthen helse =>
    cases op with
    | unreachable => exact lockstep_throw _
    | ifElse =>
      refine lockstep_popU32.bind fun condition => ?_
      by_cases hcondition : condition ≠ 0
      · rw [if_pos hcondition, if_pos hcondition]
        exact (lockstep_enter hb .ifElse type hthen).thenNone
      · rw [if_neg hcondition, if_neg hcondition]
        exact (lockstep_enter hb .ifElse type helse).thenNone
    | ret => exact lockstep_ret.thenNone
    | _ => exact lockstep_plain hb _

end

end Execution

end Wasm
