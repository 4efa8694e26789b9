import Wasm.Machine.Activation

/-!
# Limits of a thread

Every push looks at the limit of the operand stack and every call at the number of calls that are
active, so no part of an execution leads out of the limits, whether it succeeds or fails.  Nothing
needs to be known about the code: `Bounded` is a property of the parts of an execution alone, and
it goes from parts to what is made of them.
-/

namespace Wasm

/-- An operand stack that is no higher than the configuration allows. -/
structure OperandStack.InBounds (config : Config) (s : OperandStack) : Prop where
  limit : s.limit = config.maxOperandStack
  height : s.height ≤ config.maxOperandStack

/-- A thread within the limits of the configuration. -/
structure Thread.InBounds (config : Config) (t : Thread) : Prop where
  operands : t.operands.InBounds config
  callDepth : t.callDepth ≤ config.maxCallDepth

variable {config : Config}

theorem Thread.inBounds_idle (config : Config) : (Thread.idle config).InBounds config :=
  ⟨⟨rfl, Nat.zero_le _⟩, Nat.zero_le _⟩

namespace OperandStack

variable {s s' : OperandStack}

/-- What has no more slots than a stack within bounds, and the same limit. -/
theorem InBounds.of_le (h : s.InBounds config) (hlimit : s'.limit = s.limit)
    (hheight : s'.height ≤ s.height) : s'.InBounds config :=
  ⟨hlimit.trans h.limit, Nat.le_trans hheight h.height⟩

theorem InBounds.push {slot : UInt64} (h : s.InBounds config) (hpush : s.push slot = .ok s') :
    s'.InBounds config := by
  unfold OperandStack.push at hpush
  split at hpush
  · cases hpush
  · next hroom =>
    cases hpush
    have hlimit := h.limit
    refine ⟨hlimit, ?_⟩
    show s.height + 1 ≤ _
    omega

theorem InBounds.pushAll {slots : List UInt64} (h : s.InBounds config)
    (hpush : s.pushAll slots = .ok s') : s'.InBounds config := by
  induction slots generalizing s with
  | nil =>
    cases hpush
    exact h
  | cons slot rest ih =>
    rw [OperandStack.pushAll] at hpush
    split at hpush
    · next s'' hslot => exact ih (h.push hslot) hpush
    · cases hpush

theorem InBounds.pushZeros {count : Nat} (h : s.InBounds config)
    (hpush : s.pushZeros count = .ok s') : s'.InBounds config := by
  unfold OperandStack.pushZeros at hpush
  split at hpush
  · cases hpush
  · next hroom =>
    cases hpush
    obtain ⟨hlimit, hheight⟩ := h
    refine ⟨hlimit, ?_⟩
    show s.height + count ≤ _
    omega

theorem InBounds.pop {slot : UInt64} (h : s.InBounds config) (hpop : s.pop = .ok (slot, s')) :
    s'.InBounds config := by
  unfold OperandStack.pop at hpop
  split at hpop
  · next slots hslots =>
    cases hpop
    refine h.of_le rfl ?_
    rw [Stack.pop?_eq_some_iff] at hslots
    show slots.height ≤ s.slots.height
    rw [slots.height_eq, s.slots.height_eq, hslots]
    exact Nat.le_succ _
  · cases hpop

theorem InBounds.set {position : Nat} {slot : UInt64} (h : s.InBounds config)
    (hset : s.set position slot = .ok s') : s'.InBounds config := by
  unfold OperandStack.set at hset
  split at hset
  · cases hset
    refine h.of_le rfl (Nat.le_of_eq ?_)
    show (s.slots.set position slot).height = s.slots.height
    unfold Stack.set
    split <;> rfl
  · cases hset

theorem InBounds.unwind {base keep : Nat} (h : s.InBounds config)
    (hunwind : s.unwind base keep = .ok s') : s'.InBounds config := by
  unfold OperandStack.unwind at hunwind
  split at hunwind
  · cases hunwind
  · split at hunwind
    · cases hunwind
      exact h
    · next hle _ =>
      cases hunwind
      refine h.of_le rfl ?_
      show min keep s.slots.height + (s.slots.height - (s.slots.height - base)) ≤ s.slots.height
      have : base + keep ≤ s.slots.height := Nat.le_of_not_lt hle
      omega

theorem InBounds.popMany {count : Nat} {slots : List UInt64} (h : s.InBounds config)
    (hpop : s.popMany count = .ok (slots, s')) : s'.InBounds config := by
  unfold OperandStack.popMany at hpop
  split at hpop
  · cases hpop
  · cases hpop
    exact h.of_le rfl (Nat.sub_le ..)

theorem InBounds.truncate (h : s.InBounds config) (height : Nat) :
    (s.truncate height).InBounds config :=
  h.of_le rfl (Nat.sub_le ..)

end OperandStack

/-- Cutting a thread back to one within bounds. -/
theorem Thread.InBounds.cutBack {t earlier : Thread} (h : t.InBounds config)
    (hearlier : earlier.InBounds config) : (t.cutBack earlier).InBounds config :=
  ⟨h.operands.truncate _, hearlier.callDepth⟩

namespace Execution

/-- Within limits, a part of an execution stays there, and where it succeeds its result satisfies
the condition. -/
def Bounded {α : Type} (config : Config) (c : Step α) (Q : α → Prop) : Prop :=
  ∀ x : Execution, x.thread.InBounds config → match c x with
    | .ok a y => y.thread.InBounds config ∧ Q a
    | .error _ y => y.thread.InBounds config

variable {α β : Type} {c : Step α} {f : α → Step β} {P Q : α → Prop} {R : β → Prop} {b : Bindings}

theorem bounded_pure {a : α} (h : Q a) : Bounded config (pure a) Q :=
  fun _ hx => ⟨hx, h⟩

theorem bounded_throw (e : Error) : Bounded config (throw e : Step α) Q :=
  fun _ hx => hx

theorem Bounded.bind (h : Bounded config c P) (hf : ∀ a, P a → Bounded config (f a) R) :
    Bounded config (c >>= f) R := by
  intro x hx
  have hc := h x hx
  show match EStateM.bind c f x with
    | .ok a y => y.thread.InBounds config ∧ R a
    | .error _ y => y.thread.InBounds config
  unfold EStateM.bind
  cases hrun : c x with
  | ok a y =>
    rw [hrun] at hc
    exact hf a hc.2 y hc.1
  | error e y =>
    rw [hrun] at hc
    exact hc

theorem Bounded.rethrown {context : Error → Error} (h : Bounded config c Q) :
    Bounded config (tryCatch c fun e => throw (context e)) Q := by
  intro x hx
  have hc := h x hx
  cases hrun : c x with
  | ok a y =>
    have hcatch : tryCatch c (fun e => throw (context e)) x = .ok a y := by
      show EStateM.tryCatch c _ x = _
      delta EStateM.tryCatch
      dsimp only
      rw [hrun]
    rw [hrun] at hc
    rw [hcatch]
    exact hc
  | error e y =>
    have hcatch : tryCatch c (fun e => throw (context e)) x = .error (context e) y := by
      show EStateM.tryCatch c _ x = _
      delta EStateM.tryCatch
      dsimp only
      rw [hrun]
      rfl
    rw [hrun] at hc
    rw [hcatch]
    exact hc

theorem bounded_orTrap {r : Except Trap α} : Bounded config (orTrap r) fun a => r = .ok a := by
  cases r with
  | ok a => exact bounded_pure rfl
  | error t => exact bounded_throw _

theorem bounded_get {f : Execution → Step β}
    (h : ∀ x, x.thread.InBounds config → Bounded config (f x) R) :
    Bounded config (get >>= f) R :=
  fun x hx => h x hx x hx

theorem bounded_modify {g : Execution → Execution}
    (h : ∀ x, x.thread.InBounds config → (g x).thread.InBounds config) :
    Bounded config (modify g) fun _ => True :=
  fun x hx => ⟨h x hx, trivial⟩

/-! ### Stacks -/

theorem bounded_operands : Bounded config operands (·.InBounds config) :=
  bounded_get fun _ hx => bounded_pure hx.operands

theorem bounded_setOperands {s : OperandStack} (h : s.InBounds config) :
    Bounded config (setOperands s) fun _ => True :=
  bounded_modify fun _ hx => ⟨h, hx.callDepth⟩

theorem bounded_setFrames (frames : Stack Frame) :
    Bounded config (setFrames frames) fun _ => True :=
  bounded_modify fun _ hx => ⟨hx.operands, hx.callDepth⟩

theorem bounded_push (slot : UInt64) : Bounded config (push slot) fun _ => True :=
  bounded_operands.bind fun _ hs => bounded_orTrap.bind fun _ hpush =>
    bounded_setOperands (hs.push hpush)

theorem bounded_pop : Bounded config pop fun _ => True :=
  bounded_operands.bind fun _ hs => bounded_orTrap.bind fun _ hpop =>
    (bounded_setOperands (hs.pop hpop)).bind fun _ _ => bounded_pure trivial

theorem bounded_popU32 : Bounded config popU32 fun _ => True :=
  bounded_pop.bind fun _ _ => bounded_pure trivial

theorem bounded_exitFrame : Bounded config exitFrame fun _ => True := by
  refine bounded_get fun x _ => ?_
  cases x.thread.frames.pop? with
  | none => exact bounded_throw _
  | some popped =>
    refine bounded_operands.bind fun _ hs => bounded_orTrap.bind fun _ hunwind =>
      (bounded_setOperands (hs.unwind hunwind)).bind fun _ _ =>
        (bounded_setFrames _).bind fun _ _ => ?_
    split
    · exact bounded_modify fun _ hx => ⟨hx.operands, Nat.le_trans (Nat.sub_le ..) hx.callDepth⟩
    · exact bounded_pure trivial

/-! ### Control -/

theorem bounded_baseBelow (params : Nat) : Bounded config (baseBelow params) fun _ => True := by
  refine bounded_operands.bind fun _ _ => ?_
  show Bounded config (ite _ _ _) _
  split
  · exact bounded_throw _
  · exact bounded_pure trivial

theorem bounded_enter (b : Bindings) (kind : FrameKind) (type : BlockType) (body : Expr) :
    Bounded config (enter b kind type body) fun _ => True := by
  have htype : Bounded config (blockType b type) fun _ => True := by
    unfold blockType
    split
    · exact bounded_pure trivial
    · exact bounded_throw _
    · exact bounded_pure trivial
  exact htype.bind fun _ _ => (bounded_baseBelow _).bind fun _ _ =>
    bounded_get fun _ _ => bounded_setFrames _

theorem bounded_branch (depth : UInt32) : Bounded config (branch depth) fun _ => True := by
  refine bounded_get fun x _ => ?_
  show Bounded config (ite _ _ _) _
  split
  · exact bounded_throw _
  · refine (bounded_setFrames _).bind fun _ _ => ?_
    cases (x.thread.frames.drop depth.toNat).items with
    | nil => exact bounded_throw _
    | cons f _ =>
      show Bounded config (ite _ _ _) _
      split
      · exact bounded_operands.bind fun _ hs => bounded_orTrap.bind fun _ hunwind =>
          (bounded_setOperands (hs.unwind hunwind)).bind fun _ _ => bounded_setFrames _
      · exact bounded_exitFrame

theorem bounded_ret : Bounded config ret fun _ => True := by
  refine bounded_get fun x _ => ?_
  cases x.thread.frames.items.findIdx? (·.kind = .call) with
  | none => exact bounded_throw _
  | some depth => exact bounded_branch _

theorem bounded_leave (f : FuncRef) : Bounded config (some <$> leave f) fun _ => True :=
  Bounded.bind (bounded_operands.bind fun _ hs => bounded_orTrap.bind fun _ hpop =>
    (bounded_setOperands (hs.popMany hpop)).bind fun _ _ => bounded_pure (Q := fun _ => True) trivial)
    fun _ _ => bounded_pure trivial

theorem bounded_call (b : Bindings) (index : UInt32) :
    Bounded b.config (call b index) fun _ => True := by
  refine bounded_orTrap.bind fun f _ => ?_
  cases f with
  | imported f => exact bounded_leave f
  | defined type localCount body =>
    refine bounded_get fun x hx => ?_
    show Bounded _ (ite _ _ _) _
    split
    · exact bounded_throw _
    · next hdepth =>
      refine (bounded_baseBelow _).bind fun _ _ => bounded_orTrap.bind fun _ hpush =>
        (bounded_setOperands (hx.operands.pushZeros hpush)).bind fun _ _ =>
          Bounded.bind (bounded_modify ?_) fun _ _ => bounded_pure trivial
      exact fun y hy => ⟨hy.operands, Nat.lt_of_not_le hdepth⟩

theorem bounded_callIndirect (b : Bindings) (typeIndex : UInt32) :
    Bounded b.config (callIndirect b typeIndex) fun _ => True := by
  refine bounded_popU32.bind fun _ _ => bounded_orTrap.bind fun _ _ => bounded_get fun _ _ =>
    bounded_orTrap.bind fun _ _ => bounded_orTrap.bind fun entry _ => ?_
  cases entry with
  | none => exact bounded_throw _
  | some f =>
    dsimp only
    split
    · exact bounded_throw _
    · split
      · exact bounded_throw _
      · split
        · exact bounded_call b _
        · exact bounded_leave f

/-! ### Instructions without control -/

theorem bounded_localAt (index : UInt32) : Bounded config (localAt index) fun _ => True :=
  bounded_get fun _ _ => bounded_pure trivial

theorem bounded_localGet (index : UInt32) : Bounded config (localGet index) fun _ => True :=
  bounded_operands.bind fun _ _ => (bounded_localAt index).bind fun _ _ =>
    bounded_orTrap.bind fun _ _ => bounded_push _

/-- Replacing a slot of the operand stack. -/
theorem bounded_assign (index : UInt32) (slot : UInt64) :
    Bounded config (do
      setOperands (← orTrap ((← operands).set (← localAt index) slot))) fun _ => True :=
  bounded_operands.bind fun _ hs => (bounded_localAt index).bind fun _ _ =>
    bounded_orTrap.bind fun _ hset => bounded_setOperands (hs.set hset)

theorem bounded_localSet (index : UInt32) : Bounded config (localSet index) fun _ => True :=
  bounded_pop.bind fun slot _ => bounded_assign index slot

theorem bounded_localTee (index : UInt32) : Bounded config (localTee index) fun _ => True :=
  bounded_operands.bind fun _ _ => bounded_orTrap.bind fun slot _ => bounded_assign index slot

theorem bounded_globalGet (b : Bindings) (index : UInt32) :
    Bounded config (globalGet b index) fun _ => True :=
  bounded_get fun _ _ => bounded_orTrap.bind fun _ _ => bounded_orTrap.bind fun _ _ =>
    bounded_push _

/-- Objects have no limits here. -/
theorem bounded_objects (g : Objects → Objects) :
    Bounded config (modify fun x => { x with objects := g x.objects }) fun _ => True :=
  bounded_modify fun _ hx => hx

theorem bounded_globalSet (b : Bindings) (index : UInt32) :
    Bounded config (globalSet b index) fun _ => True :=
  bounded_pop.bind fun _ _ => bounded_orTrap.bind fun a _ => bounded_get fun _ _ =>
    bounded_orTrap.bind fun _ _ => bounded_orTrap.bind fun cell _ =>
      bounded_objects (·.putGlobal a cell)

theorem bounded_select : Bounded config select fun _ => True :=
  bounded_popU32.bind fun _ _ => bounded_pop.bind fun _ _ => bounded_pop.bind fun _ _ =>
    bounded_push _

theorem bounded_load (b : Bindings) (m : MemArg) (count : Nat) (decode : Nat → UInt64) :
    Bounded config (load b m count decode) fun _ => True :=
  bounded_popU32.bind fun _ _ => bounded_get fun _ _ => bounded_orTrap.bind fun _ _ =>
    bounded_orTrap.bind fun _ _ => bounded_orTrap.bind fun _ _ => bounded_push _

theorem bounded_store (b : Bindings) (m : MemArg) (count : Nat) :
    Bounded config (store b m count) fun _ => True := by
  refine bounded_pop.bind fun slot _ => bounded_popU32.bind fun _ _ => bounded_orTrap.bind fun a _ =>
    bounded_get fun _ _ => bounded_orTrap.bind fun _ _ => ?_
  show Bounded config (ite _ _ _) _
  split
  · exact bounded_objects (·.putBytes a _ (LittleEndian.encode count slot.toNat))
  · exact bounded_throw _

theorem bounded_memorySize (b : Bindings) : Bounded config (memorySize b) fun _ => True :=
  bounded_get fun _ _ => bounded_orTrap.bind fun _ _ => bounded_orTrap.bind fun _ _ =>
    bounded_push _

theorem bounded_memoryGrow (b : Bindings) : Bounded config (memoryGrow b) fun _ => True := by
  refine bounded_popU32.bind fun delta _ => bounded_orTrap.bind fun a _ => bounded_get fun _ _ =>
    bounded_orTrap.bind fun memory _ => ?_
  cases memory.grow delta with
  | error e => exact bounded_push _
  | ok grown => exact (bounded_objects (·.putMemory a grown.2)).bind fun _ _ => bounded_push _

theorem bounded_operate (f : Operator) : Bounded config (operate f) fun _ => True := by
  cases f with
  | unary eval => exact bounded_pop.bind fun _ _ => bounded_orTrap.bind fun _ _ => bounded_push _
  | binary eval =>
    exact bounded_pop.bind fun _ _ => bounded_pop.bind fun _ _ => bounded_orTrap.bind fun _ _ =>
      bounded_push _

theorem bounded_simple (b : Bindings) (i : Instr) : Bounded config (simple b i) fun _ => True := by
  unfold simple
  split
  · exact bounded_pure trivial
  · exact bounded_pop.bind fun _ _ => bounded_pure trivial
  · exact bounded_select
  · exact bounded_localGet _
  · exact bounded_localSet _
  · exact bounded_localTee _
  · exact bounded_globalGet _ _
  · exact bounded_globalSet _ _
  · exact bounded_load _ _ _ _
  · exact bounded_load _ _ _ _
  · exact bounded_store _ _ _
  · exact bounded_store _ _ _
  · exact bounded_memorySize b
  · exact bounded_memoryGrow b
  · exact bounded_push _
  · exact bounded_operate _
  · split
    · exact bounded_operate _
    · exact bounded_throw _

/-! ### Instructions -/

/-- A part after which nothing is left to be called. -/
theorem Bounded.thenNone {c : Step Unit} (h : Bounded config c fun _ => True) :
    Bounded config (c >>= fun _ => pure (none : Option Call)) fun _ => True :=
  h.bind fun _ _ => bounded_pure trivial

theorem bounded_execute (b : Bindings) (i : Instr) :
    Bounded b.config (execute b i) fun _ => True := by
  unfold execute
  split
  · exact bounded_throw _
  · exact (bounded_enter _ _ _ _).thenNone
  · exact (bounded_enter _ _ _ _).thenNone
  · exact bounded_popU32.bind fun _ _ => (bounded_enter _ _ _ _).thenNone
  · exact (bounded_branch _).thenNone
  · refine bounded_popU32.bind fun condition _ => ?_
    by_cases hcondition : condition ≠ 0
    · rw [if_pos hcondition]
      exact (bounded_branch _).thenNone
    · rw [if_neg hcondition]
      exact bounded_pure trivial
  · exact bounded_popU32.bind fun _ _ => (bounded_branch _).thenNone
  · exact bounded_ret.thenNone
  · exact bounded_call b _
  · exact bounded_callIndirect b _
  · exact (bounded_simple b _).thenNone

end Execution

/-! ### Parts of an activation -/

namespace Activation

open Execution

theorem bounded_advance (b : Bindings) : Bounded b.config (advance b) fun _ => True := by
  refine bounded_get fun x _ => ?_
  cases x.thread.frames.items with
  | nil => exact bounded_throw _
  | cons f _ =>
    dsimp only
    cases f.rest with
    | nil => exact bounded_exitFrame.bind fun _ _ => bounded_pure trivial
    | cons i rest =>
      refine bounded_get fun _ _ => (bounded_setFrames _).bind fun _ _ => ?_
      exact (bounded_execute b i).rethrown.bind fun _ _ => bounded_pure trivial

theorem bounded_enter (b : Bindings) (index : UInt32) (args : List Value) :
    Bounded b.config (enter index args b) fun _ => True :=
  bounded_operands.bind fun _ hs => bounded_orTrap.bind fun _ hpush =>
    (bounded_setOperands (hs.pushAll hpush)).bind fun _ _ => bounded_call b index

theorem bounded_resume (type : FuncType) (values : List Value) :
    Bounded config (resume type values) fun _ => True := by
  unfold resume
  split
  · exact bounded_throw _
  · exact bounded_operands.bind fun _ hs => bounded_orTrap.bind fun _ hpush =>
      bounded_setOperands (hs.pushAll hpush)

theorem bounded_finish (types : List ValueType) : Bounded config (finish types) fun _ => True :=
  bounded_operands.bind fun _ hs => bounded_orTrap.bind fun _ hpop =>
    (bounded_setOperands (hs.popMany hpop)).bind fun _ _ => bounded_pure trivial

end Activation

end Wasm
