import Wasm.Proofs.Execution.Lists

/-!
# What instructions stop with

An instruction that finds its operands stops with a trap, or at a type index that its module does
not have.  One that does not find them stops at once, whatever the state.  An opcode without
operands ignores what it is given, and a constant is pushed whatever its type, so finding operands
is less than carrying those of the opcode: `Instr.readable` against `Instr.carries`.
-/

namespace Wasm

namespace Instr

/-- Whether an instruction opens a block. -/
def opens : Instr → Bool
  | .block .block .. | .block .loop .. | .ifElse .ifElse .. => true
  | _ => false

/-- Whether an instruction carries the operands that its opcode takes, or its opcode takes none. -/
def carries (i : Instr) : Bool :=
  i.opens || suits i.opcode .none || suits i.opcode (Execution.immediate i)

/-- Whether an instruction is a constant with a value of any type. -/
def hasValue (i : Instr) : Bool :=
  match i.opcode, Execution.immediate i with
  | .const _, .value _ => true
  | _, _ => false

/-- Whether execution finds the operands of an instruction. -/
def readable (i : Instr) : Bool :=
  i.carries || i.hasValue

end Instr

/-- A trap, or a type index that the module does not have. -/
def Error.IsStop (e : Error) : Prop :=
  (∃ t : Trap, e = t.error) ∨ ∃ i, e = Execution.unknownType i

namespace Execution

variable {α β : Type} {b : Bindings} {c : Step α} {f : α → Step β}

/-- A part of an execution that fails with stops only. -/
def Stops (c : Step α) : Prop :=
  ∀ x e y, c x = .error e y → e.IsStop

theorem code_ne_of_isStop {e : Error} (h : e.IsStop) : e.code ≠ Code.typeMismatch := by
  rcases h with ⟨t, rfl⟩ | ⟨i, rfl⟩
  · intro hcode
    have hcategory := t.ofCode_code
    rw [show t.code = Code.typeMismatch from hcode] at hcategory
    cases hcategory
  · exact (by decide : Code.typeIndex ≠ Code.typeMismatch)

/-! ### Parts -/

theorem Stops.bind (h : Stops c) (hf : ∀ a, Stops (f a)) : Stops (c >>= f) := by
  intro x e y hrun
  cases hc : c x with
  | ok a x' =>
    rw [bind_ok hc] at hrun
    exact hf a x' e y hrun
  | error e' x' =>
    rw [bind_error hc] at hrun
    cases hrun
    exact h x _ _ hc

theorem stops_pure (a : α) : Stops (pure a : Step α) :=
  fun _ _ _ hrun => nomatch hrun

theorem stops_trap (t : Trap) : Stops (trap t : Step α) := by
  intro x e y hrun
  cases hrun
  exact .inl ⟨t, rfl⟩

theorem stops_unknownType (i : UInt32) : Stops (throw (unknownType i) : Step α) := by
  intro x e y hrun
  cases hrun
  exact .inr ⟨i, rfl⟩

theorem stops_orTrap (r : Except Trap α) : Stops (orTrap r) := by
  cases r with
  | ok a => exact stops_pure a
  | error t => exact stops_trap t

theorem stops_get : Stops (get : Step Execution) :=
  fun _ _ _ hrun => nomatch hrun

theorem stops_modify (g : Execution → Execution) : Stops (modify g : Step PUnit) :=
  fun _ _ _ hrun => nomatch hrun

theorem stops_operands : Stops operands :=
  stops_get.bind fun _ => stops_pure _

theorem stops_setOperands (operands : OperandStack) : Stops (setOperands operands) :=
  stops_modify _

theorem stops_setFrames (frames : Stack Frame) : Stops (setFrames frames) :=
  stops_modify _

/-- Replaces the operand stack by what may trap. -/
theorem stops_orTrap_setOperands (r : Except Trap OperandStack) :
    Stops (orTrap r >>= setOperands) :=
  (stops_orTrap r).bind fun _ => stops_setOperands _

theorem stops_push (slot : UInt64) : Stops (push slot) :=
  stops_operands.bind fun _ => stops_orTrap_setOperands _

theorem stops_pop : Stops pop :=
  stops_operands.bind fun _ => (stops_orTrap _).bind fun _ =>
    (stops_setOperands _).bind fun _ => stops_pure _

theorem stops_popU32 : Stops popU32 :=
  stops_pop.bind fun _ => stops_pure _

theorem stops_exitFrame : Stops exitFrame := by
  refine stops_get.bind fun x => ?_
  cases x.thread.frames.pop? with
  | none => exact stops_trap _
  | some popped =>
    refine stops_operands.bind fun _ => (stops_orTrap _).bind fun _ =>
      (stops_setOperands _).bind fun _ => (stops_setFrames _).bind fun _ => ?_
    split
    · exact stops_modify _
    · exact stops_pure _

/-! ### Control -/

theorem stops_baseBelow (params : Nat) : Stops (baseBelow params) := by
  refine stops_operands.bind fun s => ?_
  show Stops (ite _ _ _)
  split
  · exact stops_trap _
  · exact stops_pure _

theorem stops_enter (kind : FrameKind) (type : BlockType) (body : Expr) :
    Stops (enter b kind type body) := by
  have htype : Stops (blockType b type) := by
    unfold blockType
    split
    · exact stops_pure _
    · exact stops_unknownType _
    · exact stops_pure _
  exact htype.bind fun _ => (stops_baseBelow _).bind fun _ =>
    stops_get.bind fun _ => stops_setFrames _

theorem stops_branch (depth : UInt32) : Stops (branch depth) := by
  refine stops_get.bind fun x => ?_
  show Stops (ite _ _ _)
  split
  · exact stops_trap _
  · refine (stops_setFrames _).bind fun _ => ?_
    cases (x.thread.frames.drop depth.toNat).items with
    | nil => exact stops_trap _
    | cons f _ =>
      show Stops (ite _ _ _)
      split
      · exact stops_operands.bind fun _ => (stops_orTrap _).bind fun _ =>
          (stops_setOperands _).bind fun _ => stops_setFrames _
      · exact stops_exitFrame

theorem stops_ret : Stops ret := by
  refine stops_get.bind fun x => ?_
  cases x.thread.frames.items.findIdx? (·.kind = .call) with
  | none => exact stops_trap _
  | some depth => exact stops_branch _

theorem stops_leave (g : FuncRef) : Stops (some <$> leave g) := by
  have hleave : Stops (leave g) := stops_operands.bind fun _ => (stops_orTrap _).bind fun _ =>
    (stops_setOperands _).bind fun _ => stops_pure _
  exact hleave.bind fun _ => stops_pure _

theorem stops_call (index : UInt32) : Stops (call b index) := by
  refine (stops_orTrap _).bind fun g => ?_
  cases g with
  | imported g => exact stops_leave g
  | defined type localCount body =>
    refine stops_get.bind fun x => ?_
    show Stops (ite _ _ _)
    split
    · exact stops_trap _
    · exact (stops_baseBelow _).bind fun _ => (stops_orTrap _).bind fun _ =>
        (stops_setOperands _).bind fun _ => (stops_modify _).bind fun _ => stops_pure _

theorem stops_callIndirect (typeIndex : UInt32) : Stops (callIndirect b typeIndex) := by
  refine stops_popU32.bind fun _ => (stops_orTrap _).bind fun _ => stops_get.bind fun _ =>
    (stops_orTrap _).bind fun _ => (stops_orTrap _).bind fun entry => ?_
  cases entry with
  | none => exact stops_trap _
  | some g =>
    dsimp only
    split
    · exact stops_unknownType _
    · split
      · exact stops_trap _
      · split
        · exact stops_call _
        · exact stops_leave g

/-! ### The other opcodes -/

theorem stops_localAt (index : UInt32) : Stops (localAt index) :=
  stops_get.bind fun _ => stops_pure _

theorem stops_localGet (index : UInt32) : Stops (localGet index) :=
  stops_operands.bind fun _ => (stops_localAt _).bind fun _ => (stops_orTrap _).bind fun _ =>
    stops_push _

theorem stops_assign (index : UInt32) (slot : UInt64) :
    Stops (do setOperands (← orTrap ((← operands).set (← localAt index) slot))) :=
  stops_operands.bind fun _ => (stops_localAt _).bind fun _ => stops_orTrap_setOperands _

theorem stops_localSet (index : UInt32) : Stops (localSet index) :=
  stops_pop.bind fun slot => stops_assign _ slot

theorem stops_localTee (index : UInt32) : Stops (localTee index) :=
  stops_operands.bind fun _ => (stops_orTrap _).bind fun slot => stops_assign _ slot

theorem stops_globalGet (index : UInt32) : Stops (globalGet b index) :=
  stops_get.bind fun _ => (stops_orTrap _).bind fun _ => (stops_orTrap _).bind fun _ =>
    stops_push _

theorem stops_globalSet (index : UInt32) : Stops (globalSet b index) :=
  stops_pop.bind fun _ => (stops_orTrap _).bind fun _ => stops_get.bind fun _ =>
    (stops_orTrap _).bind fun _ => (stops_orTrap _).bind fun _ => stops_modify _

theorem stops_select : Stops select :=
  stops_popU32.bind fun _ => stops_pop.bind fun _ => stops_pop.bind fun _ => stops_push _

theorem stops_load (m : MemArg) (count : Nat) (decode : Nat → UInt64) :
    Stops (load b m count decode) :=
  stops_popU32.bind fun _ => stops_get.bind fun _ => (stops_orTrap _).bind fun _ =>
    (stops_orTrap _).bind fun _ => (stops_orTrap _).bind fun _ => stops_push _

theorem stops_store (m : MemArg) (count : Nat) : Stops (store b m count) := by
  refine stops_pop.bind fun _ => stops_popU32.bind fun _ => (stops_orTrap _).bind fun _ =>
    stops_get.bind fun _ => (stops_orTrap _).bind fun _ => ?_
  show Stops (ite _ _ _)
  split
  · exact stops_modify _
  · exact stops_trap _

theorem stops_memorySize : Stops (memorySize b) :=
  stops_get.bind fun _ => (stops_orTrap _).bind fun _ => (stops_orTrap _).bind fun _ =>
    stops_push _

theorem stops_memoryGrow : Stops (memoryGrow b) := by
  refine stops_popU32.bind fun delta => (stops_orTrap _).bind fun _ => stops_get.bind fun _ =>
    (stops_orTrap _).bind fun memory => ?_
  cases memory.grow delta with
  | error e => exact stops_push _
  | ok grown => exact (stops_modify _).bind fun _ => stops_push _

theorem stops_operate (g : Operator) : Stops (operate g) := by
  cases g with
  | unary eval => exact stops_pop.bind fun _ => (stops_orTrap _).bind fun _ => stops_push _
  | binary eval =>
    exact stops_pop.bind fun _ => stops_pop.bind fun _ => (stops_orTrap _).bind fun _ =>
      stops_push _

/-! ### Instructions -/

theorem Stops.thenNone {c : Step PUnit} (h : Stops c) :
    Stops (c >>= fun _ => (pure none : Step (Option Call))) :=
  h.bind fun _ => stops_pure _

/-- An instruction that opens no block is executed by its opcode and its immediate alone. -/
theorem execute_eq_plain {i : Instr} (h : i.opens = false) :
    execute b i = execute b (.plain i.opcode (immediate i)) := by
  cases i with
  | plain op imm => rfl
  | block op type body => cases op <;> first | rfl | cases h
  | ifElse op type thenBody elseBody => cases op <;> first | rfl | cases h

/-- A numeric opcode ignores what it is given. -/
theorem execute_operator {op : Opcode} {g : Operator} (h : op.operator? = some g)
    (imm : Immediate) : execute b (.plain op imm) = operate g >>= fun _ => pure none := by
  cases op <;> cases h <;> rfl

theorem stops_plain {op : Opcode} {imm : Immediate} (h : (Instr.plain op imm).readable = true) :
    Stops (execute b (.plain op imm)) := by
  cases op
  case unreachable => exact stops_trap _
  case nop => exact (stops_pure _).thenNone
  case ret => exact stops_ret.thenNone
  case drop => exact (stops_pop.bind fun _ => stops_pure _).thenNone
  case select => exact stops_select.thenNone
  case memorySize => exact stops_memorySize.thenNone
  case memoryGrow => exact stops_memoryGrow.thenNone
  case intEqz | intCompare | floatCompare | intUnary | intBinary | floatUnary | floatBinary |
    conversion | extend =>
    rw [execute_operator rfl]
    exact (stops_operate _).thenNone
  all_goals cases imm <;> try (cases h; done)
  case br.index depth => exact (stops_branch depth).thenNone
  case brIf.index depth =>
    refine stops_popU32.bind fun condition => ?_
    by_cases hcondition : condition ≠ 0
    · rw [if_pos hcondition]
      exact (stops_branch _).thenNone
    · rw [if_neg hcondition]
      exact stops_pure _
  case brTable.labels => exact stops_popU32.bind fun _ => (stops_branch _).thenNone
  case call.index f => exact stops_call f
  case callIndirect.typeIndex t => exact stops_callIndirect t
  case localGet.index x => exact (stops_localGet x).thenNone
  case localSet.index x => exact (stops_localSet x).thenNone
  case localTee.index x => exact (stops_localTee x).thenNone
  case globalGet.index x => exact (stops_globalGet x).thenNone
  case globalSet.index x => exact (stops_globalSet x).thenNone
  case load.memArg | loadPart.memArg => exact Stops.thenNone (stops_load _ _ _)
  case store.memArg | storePart.memArg => exact Stops.thenNone (stops_store _ _)
  case const.value => exact (stops_push _).thenNone
  case truncSat.truncSat t => exact Stops.thenNone (stops_operate (.unary fun a => .ok (t.eval a)))

theorem execute_plain_unreadable {op : Opcode} {imm : Immediate}
    (h : (Instr.plain op imm).readable = false) (x : Execution) :
    execute b (.plain op imm) x =
      .error (.validation Code.typeMismatch
        s!"malformed immediate for {(Instr.plain op imm).name}") x := by
  cases op <;> cases imm <;> try first | rfl | cases h
  case const.value =>
    rw [Instr.readable, Bool.or_eq_false_iff] at h
    cases h.2

/-- The immediate is all that a check of the operands looks at in an instruction that opens no
block. -/
theorem readable_plain {i : Instr} (h : i.opens = false) :
    (Instr.plain i.opcode (immediate i)).readable = i.readable := by
  have hcarries : (Instr.plain i.opcode (immediate i)).carries = i.carries := by
    rw [Instr.carries, Instr.carries, h]
    rfl
  rw [Instr.readable, Instr.readable, hcarries]
  rfl

/-- An instruction that finds its operands fails with stops only. -/
theorem stops_execute {i : Instr} (h : i.readable = true) : Stops (execute b i) := by
  cases hopens : i.opens with
  | false =>
    rw [execute_eq_plain hopens]
    exact stops_plain ((readable_plain hopens).trans h)
  | true =>
    cases i with
    | plain op imm => cases hopens
    | block op type body =>
      cases op <;> try (cases hopens; done)
      all_goals exact (stops_enter _ _ _).thenNone
    | ifElse op type thenBody elseBody =>
      cases op <;> try (cases hopens; done)
      exact stops_popU32.bind fun _ => (stops_enter _ _ _).thenNone

/-- An instruction that does not find its operands stops at once. -/
theorem execute_of_unreadable {i : Instr} (h : i.readable = false) (x : Execution) :
    execute b i x =
      .error (.validation Code.typeMismatch s!"malformed immediate for {i.name}") x := by
  have hopens : i.opens = false := by
    cases hopens : i.opens with
    | false => rfl
    | true =>
      rw [Instr.readable, Instr.carries, hopens] at h
      cases h
  have hname : (Instr.plain i.opcode (immediate i)).name = i.name := by
    cases i <;> rfl
  rw [execute_eq_plain hopens, execute_plain_unreadable ((readable_plain hopens).trans h), hname]

/-- Operands that execution does not find are what it calls malformed, in any state. -/
theorem malformed_iff {i : Instr} (x : Execution) :
    (∃ e y, execute b i x = .error e y ∧ e.code = Code.typeMismatch) ↔ i.readable = false := by
  constructor
  · rintro ⟨e, y, hrun, hcode⟩
    cases h : i.readable with
    | false => rfl
    | true => exact absurd hcode (code_ne_of_isStop (stops_execute h x e y hrun))
  · intro h
    exact ⟨_, _, execute_of_unreadable h x, rfl⟩

end Execution

end Wasm
