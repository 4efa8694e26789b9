import Wasm.Proofs.Execution.Stops
import Wasm.Proofs.Numeric.Integers

/-!
# Integer instructions

An integer instruction takes its operands off the stack, the topmost one as its right operand, reads
only as many of their low bits as it works with, and pushes the number of its result; the bits above
it are zero.  What it computes is its `Arithmetic`.  Division and remainder trap at a divisor of
zero, a signed division also when its quotient is out of range, and no other integer instruction
traps.
-/

namespace Wasm

/-- The opcodes of the numeric operators from integers to an integer. -/
inductive Opcode.IsInteger : Opcode → Prop
  | eqz (w : Width) : IsInteger (.intEqz w)
  | compare (w : Width) (g : IntCompare) : IsInteger (.intCompare w g)
  | unary (w : Width) (g : IntUnary) : IsInteger (.intUnary w g)
  | binary (w : Width) (g : IntBinary) : IsInteger (.intBinary w g)
  | extend (w : Width) (p : Part w) : IsInteger (.extend w p)
  | wrap : IsInteger (.conversion .wrap)
  | widen (s : Sign) : IsInteger (.conversion (.widen s))

/-- They are the operators of the machine whose signatures have no other types than `i32` and
`i64`. -/
theorem Opcode.isInteger_iff {op : Opcode} : op.IsInteger ↔ op.operator?.isSome ∧
    ∃ t, op.signature? = some t ∧ ∀ v ∈ t.params ++ t.results, v = .i32 ∨ v = .i64 := by
  constructor
  · rintro (w | ⟨w, g⟩ | ⟨w, g⟩ | ⟨w, g⟩ | ⟨w, p⟩ | _ | s) <;> refine ⟨rfl, _, rfl, ?_⟩
    case wrap | widen => simp [Conversion.signature]
    all_goals cases w <;> decide
  · rintro ⟨hoperator, t, hsignature, htypes⟩
    have hfloat {w : Width} : ¬(ValueType.float w = .i32 ∨ ValueType.float w = .i64) := by
      cases w <;> decide
    cases op with
    | intEqz => exact .eqz _
    | intCompare => exact .compare ..
    | intUnary => exact .unary ..
    | intBinary => exact .binary ..
    | extend => exact .extend ..
    | floatCompare | floatUnary | floatBinary =>
      cases hsignature
      exact absurd (htypes _ List.mem_cons_self) hfloat
    | conversion c =>
      cases hsignature
      cases c with
      | wrap => exact .wrap
      | widen => exact .widen _
      | trunc | bitsOfFloat => exact absurd (htypes _ List.mem_cons_self) hfloat
      | convert | floatOfBits =>
        exact absurd (htypes _ (List.mem_cons_of_mem _ List.mem_cons_self)) hfloat
      | demote | promote =>
        have := htypes _ List.mem_cons_self
        simp at this
    | _ => cases hoperator

namespace Execution

variable {b : Bindings} {x : Execution} {i : Instr} {op : Opcode} {imm : Immediate}
  {rest : List UInt64} {a lhs rhs out : UInt64} {r : Except Trap UInt64} {t : Trap}

/-- The slots of the operand stack of an execution, which is not above its limit. -/
structure Holds (slots : List UInt64) (x : Execution) : Prop where
  slots : x.thread.operands.slots.items = slots
  height : x.thread.operands.height ≤ x.thread.operands.limit

/-- Executing the instruction ends in a failure with the code. -/
def Traps (b : Bindings) (i : Instr) (code : Nat) (x : Execution) : Prop :=
  ∃ e y, execute b i x = .error e y ∧ e.code = code

/-- Executing a division traps as it has to, and otherwise pushes a result of the division. -/
structure Divides (b : Bindings) (i : Instr) (rest : List UInt64) (bits : Nat) (l r result : Int)
    (overflows : Prop) (x : Execution) : Prop where
  zero_iff : x.Traps b i Code.divisionByZero ↔ r = 0
  overflow_iff : x.Traps b i Code.integerOverflow ↔ overflows
  divided : r ≠ 0 → Divided l r (l.tdiv r) (l.tmod r)
  pushes : r ≠ 0 → ¬overflows → x.Pushes b i rest (result % 2 ^ bits)

/-- Executing the instruction computes a function, whatever the operands. -/
def Computes (b : Bindings) (i : Instr) : Arithmetic → Prop
  | .unary operand result value =>
    ∀ (x : Execution) (a : UInt64) (rest : List UInt64), x.Holds (a :: rest) →
      x.Pushes b i rest (value (a.toNat % 2 ^ operand) % 2 ^ result)
  | .binary operand result value =>
    ∀ (x : Execution) (lhs rhs : UInt64) (rest : List UInt64), x.Holds (rhs :: lhs :: rest) →
      x.Pushes b i rest
        (value (lhs.toNat % 2 ^ operand) (rhs.toNat % 2 ^ operand) % 2 ^ result)
  | .quotient bits s =>
    ∀ (x : Execution) (lhs rhs : UInt64) (rest : List UInt64), x.Holds (rhs :: lhs :: rest) →
      let l := s.integer bits (lhs.toNat % 2 ^ bits)
      let r := s.integer bits (rhs.toNat % 2 ^ bits)
      x.Divides b i rest bits l r (l.tdiv r) (s.Overflows bits l r)
  | .remainder bits s =>
    ∀ (x : Execution) (lhs rhs : UInt64) (rest : List UInt64), x.Holds (rhs :: lhs :: rest) →
      let l := s.integer bits (lhs.toNat % 2 ^ bits)
      let r := s.integer bits (rhs.toNat % 2 ^ bits)
      x.Divides b i rest bits l r (l.tmod r) False

/-! ### Operands and results -/

theorem operate_unary (h : x.Holds (a :: rest)) (f : UInt64 → Except Trap UInt64) :
    operate (.unary f) x = (orTrap (f a) >>= push) (x.withSlots rest) := by
  conv_lhs => rw [← eq_withSlots h.slots]
  exact bind_ok (pop_withSlots a)

theorem operate_binary (h : x.Holds (rhs :: lhs :: rest))
    (f : UInt64 → UInt64 → Except Trap UInt64) :
    operate (.binary f) x = (orTrap (f lhs rhs) >>= push) (x.withSlots rest) := by
  conv_lhs => rw [← eq_withSlots h.slots]
  exact (bind_ok (pop_withSlots rhs)).trans (bind_ok (pop_withSlots lhs))

theorem Holds.room {slots : List UInt64} (h : x.Holds slots) (hlt : rest.length < slots.length) :
    rest.length < x.thread.operands.limit := by
  have hheight := h.height
  rw [OperandStack.height_eq, h.slots] at hheight
  exact Nat.lt_of_lt_of_le hlt hheight

/-- An operator that gives a result. -/
theorem pushes_of_ok {g : Operator} {n : Int} (hop : op.operator? = some g)
    (hrun : operate g x = (orTrap (.ok out) >>= push) (x.withSlots rest))
    (hroom : rest.length < x.thread.operands.limit) (hout : (out.toNat : Int) = n) :
    x.Pushes b (.plain op imm) rest n := by
  refine ⟨out, hout, ?_⟩
  rw [execute_operator hop, bind_ok (hrun.trans (push_withSlots hroom))]
  rfl

theorem traps_of_error {g : Operator} (hop : op.operator? = some g)
    (hrun : operate g x = (orTrap (.error t) >>= push) (x.withSlots rest)) (code : Nat) :
    x.Traps b (.plain op imm) code ↔ t.code = code := by
  have hexecute : execute b (.plain op imm) x = .error t.error (x.withSlots rest) := by
    rw [execute_operator hop]
    exact bind_error hrun
  constructor
  · rintro ⟨e, y, h, hcode⟩
    rw [hexecute] at h
    cases h
    exact hcode
  · intro hcode
    exact ⟨_, _, hexecute, hcode⟩

theorem Pushes.not_traps {n : Int} (h : x.Pushes b i rest n) (code : Nat) :
    ¬x.Traps b i code := by
  obtain ⟨slot, -, hrun⟩ := h
  rintro ⟨e, y, herror, -⟩
  rw [hrun] at herror
  cases herror

theorem computes_unary {f : UInt64 → Except Trap UInt64} {operand result : Nat}
    {value : Nat → Int} (hop : op.operator? = some (.unary f))
    (h : ∀ a, ∃ out, f a = .ok out ∧
      (out.toNat : Int) = value (a.toNat % 2 ^ operand) % 2 ^ result) :
    Computes b (.plain op imm) (.unary operand result value) := by
  intro x a rest hx
  obtain ⟨out, hok, hout⟩ := h a
  have hrun := operate_unary hx f
  rw [hok] at hrun
  exact pushes_of_ok hop hrun (hx.room (Nat.lt_succ_self _)) hout

theorem computes_binary {f : UInt64 → UInt64 → Except Trap UInt64} {operand result : Nat}
    {value : Nat → Nat → Int} (hop : op.operator? = some (.binary f))
    (h : ∀ lhs rhs, ∃ out, f lhs rhs = .ok out ∧
      (out.toNat : Int) =
        value (lhs.toNat % 2 ^ operand) (rhs.toNat % 2 ^ operand) % 2 ^ result) :
    Computes b (.plain op imm) (.binary operand result value) := by
  intro x lhs rhs rest hx
  obtain ⟨out, hok, hout⟩ := h lhs rhs
  have hrun := operate_binary hx f
  rw [hok] at hrun
  exact pushes_of_ok hop hrun (hx.room (Nat.lt_succ_of_lt (Nat.lt_succ_self _))) hout

/-- What an operator gives in each of the three cases of a division is what executing it does. -/
theorem divides_of_eval {f : UInt64 → UInt64 → Except Trap UInt64} {bits : Nat}
    {l r result : Int} {overflows : Prop} (hop : op.operator? = some (.binary f))
    (hx : x.Holds (rhs :: lhs :: rest))
    (hzero : r = 0 → f lhs rhs = .error .divisionByZero)
    (hoverflow : overflows → f lhs rhs = .error .integerOverflow)
    (hok : r ≠ 0 → ¬overflows →
      ∃ out, f lhs rhs = .ok out ∧ (out.toNat : Int) = result % 2 ^ bits) :
    x.Divides b (.plain op imm) rest bits l r result overflows := by
  have hrun := operate_binary hx f
  have hpushes (hr : r ≠ 0) (hov : ¬overflows) :
      x.Pushes b (.plain op imm) rest (result % 2 ^ bits) := by
    obtain ⟨out, hf, hout⟩ := hok hr hov
    rw [hf] at hrun
    exact pushes_of_ok hop hrun (hx.room (Nat.lt_succ_of_lt (Nat.lt_succ_self _))) hout
  have htraps {t : Trap} (hf : f lhs rhs = .error t) (code : Nat) :
      x.Traps b (.plain op imm) code ↔ t.code = code := by
    rw [hf] at hrun
    exact traps_of_error hop hrun code
  -- A trap has one code, so each cause is looked for in the other cases too.
  refine ⟨?zero, ?overflow, divided_tdiv, hpushes⟩
  case zero =>
    by_cases hr : r = 0
    · rw [htraps (hzero hr)]
      exact ⟨fun _ => hr, fun _ => rfl⟩
    · refine iff_of_false ?_ hr
      by_cases hov : overflows
      · rw [htraps (hoverflow hov)]
        decide
      · exact (hpushes hr hov).not_traps _
  case overflow =>
    by_cases hov : overflows
    · rw [htraps (hoverflow hov)]
      exact ⟨fun _ => hov, fun _ => rfl⟩
    · refine iff_of_false ?_ hov
      by_cases hr : r = 0
      · rw [htraps (hzero hr)]
        decide
      · exact (hpushes hr hov).not_traps _

/-! ### The opcodes -/

theorem toNat_word (w : Width) (slot : UInt64) : (w.word slot).toNat = slot.toNat % 2 ^ w.bits :=
  BitVec.toNat_setWidth w.bits slot.toBitVec

theorem integer_slot (s : Sign) (w : Width) (slot : UInt64) :
    s.integer w.bits (slot.toNat % 2 ^ w.bits) = s.read (w.word slot) := by
  rw [← toNat_word, Sign.integer_toNat]

/-- The slot of a word is the number of the word. -/
theorem toNat_slot_ofInt (w : Width) (n : Int) :
    ((w.slot (BitVec.ofInt w.bits n)).toNat : Int) = n % 2 ^ w.bits := by
  rw [Width.toNat_slot, toNat_ofInt]

theorem toNat_boolSlot (p : Bool) :
    ((boolSlot p).toNat : Int) = (if p then 1 else 0) % 2 ^ 32 := by
  cases p <;> rfl

theorem computes_quotient (w : Width) (s : Sign) :
    Computes b (.plain (.intBinary w (.div s)) imm) (.quotient w.bits s) := by
  intro x lhs rhs rest hx
  dsimp only
  rw [integer_slot, integer_slot]
  apply divides_of_eval rfl hx
  · intro hr
    exact congrArg (Except.map w.slot) (IntBinary.quotient_of_zero hr)
  · intro hov
    exact congrArg (Except.map w.slot) (IntBinary.quotient_of_overflows w.bits_pos hov)
  · intro hr hov
    have hok := IntBinary.quotient_of_ne w.bits_pos hr hov
    exact ⟨_, congrArg (Except.map w.slot) hok, toNat_slot_ofInt w _⟩

theorem computes_remainder (w : Width) (s : Sign) :
    Computes b (.plain (.intBinary w (.rem s)) imm) (.remainder w.bits s) := by
  intro x lhs rhs rest hx
  dsimp only
  rw [integer_slot, integer_slot]
  apply divides_of_eval rfl hx
  · intro hr
    exact congrArg (Except.map w.slot) (IntBinary.remainder_of_zero hr)
  · exact False.elim
  · intro hr _
    have hok := IntBinary.remainder_of_ne (a := w.word lhs) hr
    exact ⟨_, congrArg (Except.map w.slot) hok, toNat_slot_ofInt w _⟩

theorem computes_total {w : Width} {g : IntBinary} {operand result : Nat}
    {value : Nat → Nat → Int} (h : g.arithmetic w.bits = .binary operand result value) :
    Computes b (.plain (.intBinary w g) imm) (.binary operand result value) := by
  apply computes_binary rfl
  intro lhs rhs
  obtain ⟨rfl, rfl, heval⟩ :=
    IntBinary.eval_of_binary (a := w.word lhs) (b := w.word rhs) w.bits_pos h
  refine ⟨_, congrArg (Except.map w.slot) heval, ?_⟩
  rw [← toNat_word, ← toNat_word]
  exact toNat_slot_ofInt w _

theorem computes_intBinary (w : Width) (g : IntBinary) :
    Computes b (.plain (.intBinary w g) imm) (g.arithmetic w.bits) := by
  cases g with
  | div s => exact computes_quotient w s
  | rem s => exact computes_remainder w s
  | _ => exact computes_total rfl

/-- Every integer instruction computes its function: it pops its operands, the topmost one as its
right operand, and pushes the number of the result with zeros above, and a division traps exactly if
its divisor is zero or its quotient out of range. -/
theorem integer_instructions_exact {b : Bindings} {op : Opcode} (h : op.IsInteger)
    (imm : Immediate) :
    ∃ f, op.arithmetic? = some f ∧ Computes b (.plain op imm) f := by
  cases h with
  | eqz w =>
    refine ⟨_, rfl, computes_unary rfl fun a => ⟨_, rfl, ?_⟩⟩
    have hzero : (w.word a == 0) = decide (a.toNat % 2 ^ w.bits = 0) := by
      rw [Bool.eq_iff_iff, beq_iff_eq, decide_eq_true_eq, ← toNat_word, ← BitVec.toNat_inj]
      rfl
    rw [toNat_boolSlot, hzero]
    simp only [decide_eq_true_eq]
  | compare w g =>
    refine ⟨_, rfl, computes_binary rfl fun lhs rhs => ⟨_, rfl, ?_⟩⟩
    rw [toNat_boolSlot, IntCompare.holds_eq, toNat_word, toNat_word]
  | unary w g =>
    refine ⟨_, rfl, computes_unary rfl fun a => ⟨_, rfl, ?_⟩⟩
    rw [Width.toNat_slot, ← toNat_word, ← IntUnary.toNat_eval]
    exact_mod_cast (Nat.mod_eq_of_lt (g.eval (w.word a)).isLt).symm
  | binary w g => exact ⟨_, rfl, computes_intBinary w g⟩
  | extend w p =>
    refine ⟨_, rfl, computes_unary rfl fun a => ⟨_, rfl, ?_⟩⟩
    rw [signExtendLow_eq, toNat_slot_ofInt, toNat_word, Nat.mod_mod_of_dvd]
    exact Nat.pow_dvd_pow 2 p.bits_le
  | wrap =>
    refine ⟨_, rfl, computes_unary rfl fun a => ⟨_, rfl, ?_⟩⟩
    rw [Width.toNat_slot, toNat_word, Nat.mod_eq_of_lt (a := a.toNat) a.toNat_lt]
    rfl
  | widen s =>
    refine ⟨_, rfl, computes_unary rfl fun a => ⟨_, rfl, ?_⟩⟩
    have hread := integer_slot s .w32 a
    exact (toNat_slot_ofInt .w64 _).trans (congrArg (· % 2 ^ 64) hread.symm)

/-- The least 32-bit integer by `-1` has a remainder, but no quotient; the upper halves of the slots
do not count.  A count of `2 ^ 32 + 1` shifts a 64-bit integer by one. -/
theorem remainder_of_least :
    let b : Bindings := { self := 0, module := {}, config := {} }
    let x : Execution := ⟨{}, .ofLists [0x7ffffffff, 0x180000000] 8 [] 0 0⟩
    let y : Execution := ⟨{}, .ofLists [0x100000001, 3] 8 [] 0 0⟩
    (Opcode.intBinary .w32 (.rem .signed)).IsInteger ∧
      x.Pushes b (.plain (.intBinary .w32 (.rem .signed)) .none) [] 0 ∧
      x.Traps b (.plain (.intBinary .w32 (.div .signed)) .none) Code.integerOverflow ∧
      y.Pushes b (.plain (.intBinary .w64 .shl) .none) [] 6 := by
  intro b x y
  have hx : x.Holds [0x7ffffffff, 0x180000000] := ⟨rfl, by decide⟩
  have hy : y.Holds [0x100000001, 3] := ⟨rfl, by decide⟩
  obtain ⟨_, hrem, hremainder⟩ :=
    integer_instructions_exact (b := b) (.binary .w32 (.rem .signed)) .none
  obtain ⟨_, hdiv, hquotient⟩ :=
    integer_instructions_exact (b := b) (.binary .w32 (.div .signed)) .none
  obtain ⟨_, hshl, hshift⟩ := integer_instructions_exact (b := b) (.binary .w64 .shl) .none
  cases hrem
  cases hdiv
  cases hshl
  refine ⟨.binary .., ?_, ?_, hshift y 3 0x100000001 [] hy⟩
  · exact (hremainder x 0x180000000 0x7ffffffff [] hx).pushes (by decide) not_false
  · exact (hquotient x 0x180000000 0x7ffffffff [] hx).overflow_iff.mpr ⟨rfl, by decide, by decide⟩

end Execution

end Wasm
