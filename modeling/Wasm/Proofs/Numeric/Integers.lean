import Mathlib.Data.Nat.Size
import Wasm.Proofs.Memory.Accesses
import Wasm.Proofs.Numeric.Words

/-!
# Integer operators as functions on numbers

An integer instruction reads numbers off its words, computes with integers of any size, and leaves
the number of its result modulo a power of two.  `Arithmetic` is such a function with the number of
bits of its operands and of its result; the operators on words are shown to compute the functions
given here, with `BitVec.ofInt` for the way back from integers.  Division stands apart, since it can
trap: of its quotient and remainder the equations are stated (`Divided`).
-/

namespace Wasm

/-- What an integer instruction computes. -/
inductive Arithmetic where
  /-- A function of the number of an operand, modulo a power of two. -/
  | unary (operand result : Nat) (value : Nat → Int)
  /-- A function of the numbers of two operands, the one pushed first on the left. -/
  | binary (operand result : Nat) (value : Nat → Nat → Int)
  /-- The quotient, toward zero. -/
  | quotient (bits : Nat) (s : Sign)
  /-- The remainder that goes with the quotient. -/
  | remainder (bits : Nat) (s : Sign)

/-- Whether a comparison holds between the integers that two numbers stand for. -/
def IntCompare.test (op : IntCompare) (bits l r : Nat) : Bool :=
  match op with
  | eq => l = r
  | ne => l ≠ r
  | lt s => s.integer bits l < s.integer bits r
  | gt s => s.integer bits l > s.integer bits r
  | le s => s.integer bits l ≤ s.integer bits r
  | ge s => s.integer bits l ≥ s.integer bits r

/-- How many zeros stand above the highest one of a number, how many below the lowest one, and how
many ones there are. -/
def IntUnary.count (op : IntUnary) (bits n : Nat) : Nat :=
  match op with
  | clz => bits - n.size
  | ctz => (List.range bits).findIdx n.testBit
  | popcnt => (List.range bits).countP n.testBit

/-- The function of an operator of two operands. -/
def IntBinary.arithmetic (op : IntBinary) (bits : Nat) : Arithmetic :=
  match op with
  | add => .binary bits bits fun l r => l + r
  | sub => .binary bits bits fun l r => l - r
  | mul => .binary bits bits fun l r => l * r
  | div s => .quotient bits s
  | rem s => .remainder bits s
  | and => .binary bits bits fun l r => ↑(l &&& r)
  | or => .binary bits bits fun l r => ↑(l ||| r)
  | xor => .binary bits bits fun l r => ↑(l ^^^ r)
  | shl => .binary bits bits fun l r => l * 2 ^ (r % bits)
  | shr s => .binary bits bits fun l r => s.integer bits l / 2 ^ (r % bits)
  | rotl => .binary bits bits fun l r => ↑(l * 2 ^ (r % bits) + l / 2 ^ (bits - r % bits))
  | rotr => .binary bits bits fun l r => ↑(l / 2 ^ (r % bits) + l * 2 ^ (bits - r % bits))

/-- The function of an integer opcode. -/
def Opcode.arithmetic? : Opcode → Option Arithmetic
  | intEqz w => some (.unary w.bits 32 fun n => if n = 0 then 1 else 0)
  | intCompare w op => some (.binary w.bits 32 fun l r => if op.test w.bits l r then 1 else 0)
  | intUnary w op => some (.unary w.bits w.bits fun n => op.count w.bits n)
  | intBinary w op => some (op.arithmetic w.bits)
  | conversion .wrap => some (.unary 64 32 fun n => n)
  | conversion (.widen s) => some (.unary 32 64 fun n => s.integer 32 n)
  | extend w p =>
    some (.unary w.bits w.bits fun n => Sign.signed.integer p.bits (n % 2 ^ p.bits))
  | _ => none

/-- A quotient of two integers with its remainder, which is smaller than the divisor and zero or of
the sign of the dividend. -/
structure Divided (l r q m : Int) : Prop where
  eq : l = q * r + m
  lt : |m| < |r|
  sign : m = 0 ∨ m.sign = l.sign

theorem divided_tdiv {l r : Int} (h : r ≠ 0) : Divided l r (l.tdiv r) (l.tmod r) := by
  refine ⟨(Int.tdiv_mul_add_tmod l r).symm, ?_, ?_⟩
  · rw [Int.abs_eq_natAbs, Int.abs_eq_natAbs, Int.natAbs_tmod]
    exact_mod_cast Nat.mod_lt _ (Int.natAbs_pos.mpr h)
  · rw [Int.sign_tmod]
    split
    case isTrue hdvd => exact .inl (Int.tmod_eq_zero_of_dvd hdvd)
    case isFalse => exact .inr rfl

/-! ### Words and integers -/

section

variable {n : Nat} {a b : BitVec n}

theorem Sign.integer_toNat (s : Sign) (a : BitVec n) : s.integer n a.toNat = s.read a := by
  cases s with
  | unsigned => rfl
  | signed =>
    show (if 2 * a.toNat < 2 ^ n then (a.toNat : Int) else a.toNat - 2 ^ n) = a.toInt
    rw [BitVec.toInt_eq_toNat_cond]
    push_cast
    rfl

theorem toNat_ofInt (i : Int) : ((BitVec.ofInt n i).toNat : Int) = i % 2 ^ n := by
  rw [BitVec.toNat_ofInt, Int.toNat_of_nonneg (Int.emod_nonneg _ (by positivity))]
  push_cast
  rfl

theorem ofInt_toNat (a : BitVec n) : BitVec.ofInt n a.toNat = a := by
  rw [BitVec.ofInt_natCast, BitVec.ofNat_toNat, BitVec.setWidth_eq]

/-- A word is the word of a number if both are the same modulo the power of two. -/
theorem eq_ofInt_natCast {k : Nat} (h : a.toNat = k % 2 ^ n) : a = BitVec.ofInt n k := by
  rw [BitVec.ofInt_natCast]
  exact BitVec.eq_of_toNat_eq (h.trans (BitVec.toNat_ofNat k n).symm)

theorem eq_ofInt_of_toNat {k : Nat} (h : a.toNat = k) : a = BitVec.ofInt n k := by
  rw [← h, ofInt_toNat]

/-! ### Comparisons -/

theorem IntCompare.holds_eq (op : IntCompare) : op.holds a b = op.test n a.toNat b.toNat := by
  rw [Bool.eq_iff_iff]
  cases op with
  | eq => simp [holds, test, BitVec.toNat_inj]
  | ne => simp [holds, test, BitVec.toNat_inj]
  | lt s | gt s | le s | ge s =>
    simp only [test, Sign.integer_toNat, decide_eq_true_eq]
    cases s <;>
      simp [holds, Sign.read, BitVec.slt_iff_toInt_lt, BitVec.sle_iff_toInt_le,
        BitVec.ult_iff_toNat_lt, BitVec.ule_iff_toNat_le]

/-! ### Counts -/

/-- A word can hold its own width. -/
theorem toNat_natCast_width : (n : BitVec n).toNat = n := by
  rw [BitVec.natCast_eq_ofNat, BitVec.toNat_ofNat, Nat.mod_eq_of_lt Nat.lt_two_pow_self]

theorem toNat_clz_of_eq_zero (h : a = 0) : a.clz.toNat = n := by
  rw [BitVec.clz_eq_iff_eq_zero.mpr h, toNat_natCast_width]

theorem toNat_clz : a.clz.toNat = n - a.toNat.size := by
  by_cases hzero : a = 0
  · rw [toNat_clz_of_eq_zero hzero, hzero]
    simp
  · have hlt : a.clz.toNat < n := by
      have h := BitVec.lt_def.mp (BitVec.clz_lt_iff_ne_zero.mpr hzero)
      rwa [toNat_natCast_width] at h
    have hle : a.toNat.size ≤ n - a.clz.toNat := Nat.size_le.mpr BitVec.toNat_lt_two_pow_sub_clz
    have hgt : n - 1 - a.clz.toNat < a.toNat.size :=
      Nat.lt_size.mpr (BitVec.two_pow_sub_clz_le_toNat_of_ne_zero (by omega) hzero)
    omega

theorem toNat_ctz : a.ctz.toNat = (List.range n).findIdx a.toNat.testBit := by
  symm
  by_cases hzero : a = 0
  · have hnone : ∀ i ∈ List.range n, a.toNat.testBit i = false := by
      intro i _
      rw [hzero]
      exact Nat.zero_testBit i
    rw [List.findIdx_eq_length.mpr hnone, List.length_range]
    exact (toNat_clz_of_eq_zero (BitVec.reverse_eq_zero_iff.mpr hzero)).symm
  · have hlt : a.ctz.toNat < n := by
      have h := BitVec.lt_def.mp (BitVec.ctz_lt_iff_ne_zero.mpr hzero)
      rwa [toNat_natCast_width] at h
    rw [List.findIdx_eq (by rwa [List.length_range])]
    simp only [List.getElem_range]
    exact ⟨BitVec.getLsbD_true_ctz_of_ne_zero hzero, fun _ => BitVec.getLsbD_false_of_lt_ctz⟩

theorem cpopNatRec_eq_countP (a : BitVec n) (k : Nat) :
    a.cpopNatRec k 0 = (List.range k).countP a.toNat.testBit := by
  induction k with
  | zero => rfl
  | succ k ih =>
    rw [BitVec.cpopNatRec_succ, BitVec.cpopNatRec_eq, ih, List.range_succ, List.countP_append,
      List.countP_singleton, Nat.zero_add, BitVec.testBit_toNat]
    cases a.getLsbD k <;> rfl

theorem IntUnary.toNat_eval (op : IntUnary) : (op.eval a).toNat = op.count n a.toNat := by
  cases op with
  | clz => exact toNat_clz
  | ctz => exact toNat_ctz
  | popcnt => exact (BitVec.toNat_cpop a).trans (cpopNatRec_eq_countP a n)

/-! ### Operators of two operands -/

/-- The parts of a rotated number do not overlap. -/
theorem or_eq_add_mod {m k j : Nat} (h : m < 2 ^ (k + j)) :
    m <<< k % 2 ^ (k + j) ||| m >>> j = (m * 2 ^ k + m / 2 ^ j) % 2 ^ (k + j) := by
  have hhigh : m * 2 ^ k % 2 ^ (k + j) = 2 ^ k * (m % 2 ^ j) := by
    rw [Nat.pow_add, Nat.mul_comm m, Nat.mul_mod_mul_left]
  have hlow : m / 2 ^ j < 2 ^ k := by
    rw [Nat.div_lt_iff_lt_mul (Nat.two_pow_pos j), ← Nat.pow_add]
    exact h
  have hsum : 2 ^ k * (m % 2 ^ j) + m / 2 ^ j < 2 ^ (k + j) := by
    have hmod : m % 2 ^ j + 1 ≤ 2 ^ j := Nat.mod_lt m (Nat.two_pow_pos j)
    calc 2 ^ k * (m % 2 ^ j) + m / 2 ^ j < 2 ^ k * (m % 2 ^ j) + 2 ^ k := by omega
      _ = 2 ^ k * (m % 2 ^ j + 1) := by rw [Nat.mul_add, Nat.mul_one]
      _ ≤ 2 ^ k * 2 ^ j := Nat.mul_le_mul_left _ hmod
      _ = 2 ^ (k + j) := (Nat.pow_add 2 k j).symm
  rw [Nat.shiftLeft_eq, Nat.shiftRight_eq_div_pow, hhigh, ← Nat.two_pow_add_eq_or_of_lt hlow,
    Nat.add_mod, hhigh, Nat.add_mod_mod, Nat.mod_eq_of_lt hsum]

theorem rotateLeft_eq {k : Nat} (h : k < n) :
    a.rotateLeft k = BitVec.ofInt n ↑(a.toNat * 2 ^ k + a.toNat / 2 ^ (n - k)) := by
  refine eq_ofInt_natCast ?_
  have hn : k + (n - k) = n := by omega
  have hlt : a.toNat < 2 ^ (k + (n - k)) := by
    rw [hn]
    exact a.isLt
  have hor := or_eq_add_mod hlt
  rw [hn] at hor
  rw [BitVec.toNat_rotateLeft, Nat.mod_eq_of_lt h, hor]

theorem rotateRight_eq {k : Nat} (h : k < n) :
    a.rotateRight k = BitVec.ofInt n ↑(a.toNat / 2 ^ k + a.toNat * 2 ^ (n - k)) := by
  refine eq_ofInt_natCast ?_
  have hn : n - k + k = n := by omega
  have hlt : a.toNat < 2 ^ (n - k + k) := by
    rw [hn]
    exact a.isLt
  have hor := or_eq_add_mod hlt
  rw [hn] at hor
  rw [BitVec.toNat_rotateRight, Nat.mod_eq_of_lt h, Nat.or_comm, hor, Nat.add_comm]

theorem shiftLeft_eq (k : Nat) : a <<< k = BitVec.ofInt n (a.toNat * 2 ^ k) := by
  have h : (a <<< k).toNat = a.toNat * 2 ^ k % 2 ^ n := by
    rw [BitVec.toNat_shiftLeft, Nat.shiftLeft_eq]
  exact_mod_cast eq_ofInt_natCast h

theorem ushiftRight_eq (k : Nat) : a >>> k = BitVec.ofInt n (a.toNat / 2 ^ k) := by
  have h : (a >>> k).toNat = a.toNat / 2 ^ k := by
    rw [BitVec.toNat_ushiftRight, Nat.shiftRight_eq_div_pow]
  exact_mod_cast eq_ofInt_of_toNat h

theorem sshiftRight_eq (k : Nat) : a.sshiftRight k = BitVec.ofInt n (a.toInt / 2 ^ k) := by
  rw [BitVec.sshiftRight, Int.shiftRight_eq_div_pow]
  push_cast
  rfl

theorem sub_eq : a - b = BitVec.ofInt n (a.toNat - b.toNat) := by
  rw [Int.sub_eq_add_neg, BitVec.ofInt_add, BitVec.ofInt_neg, ofInt_toNat, ofInt_toNat,
    BitVec.sub_eq_add_neg]

/-- An operator that cannot trap gives the word of its function. -/
theorem IntBinary.eval_of_binary {op : IntBinary} {operand result : Nat} {value : Nat → Nat → Int}
    (hn : 0 < n) (h : op.arithmetic n = .binary operand result value) :
    operand = n ∧ result = n ∧
      op.eval a b = .ok (BitVec.ofInt n (value a.toNat b.toNat)) := by
  have hk : b.toNat % n < n := Nat.mod_lt _ hn
  cases op <;> cases h
  case shr.refl s =>
    refine ⟨rfl, rfl, ?_⟩
    simp only [Sign.integer_toNat]
    cases s with
    | signed => exact congrArg Except.ok (sshiftRight_eq _)
    | unsigned => exact congrArg Except.ok (ushiftRight_eq _)
  all_goals refine ⟨rfl, rfl, congrArg Except.ok ?_⟩
  case add.refl => rw [BitVec.ofInt_add, ofInt_toNat, ofInt_toNat]
  case sub.refl => exact sub_eq
  case mul.refl => rw [BitVec.ofInt_mul, ofInt_toNat, ofInt_toNat]
  case and.refl => exact eq_ofInt_of_toNat (BitVec.toNat_and a b)
  case or.refl => exact eq_ofInt_of_toNat (BitVec.toNat_or a b)
  case xor.refl => exact eq_ofInt_of_toNat (BitVec.toNat_xor a b)
  case shl.refl => exact shiftLeft_eq _
  case rotl.refl => exact rotateLeft_eq hk
  case rotr.refl => exact rotateRight_eq hk

/-! ### Division -/

/-- Whether a quotient is beyond the integers of its width. -/
def Sign.Overflows (s : Sign) (bits : Nat) (l r : Int) : Prop :=
  s = .signed ∧ l = -2 ^ (bits - 1) ∧ r = -1

variable {s : Sign}

theorem Sign.read_zero : s.read (0 : BitVec n) = 0 := by
  cases s <;> simp [read]

theorem Sign.read_eq_zero_iff : s.read b = 0 ↔ b = 0 := by
  constructor
  · intro h
    exact read_injective (h.trans read_zero.symm)
  · intro h
    rw [h, read_zero]

theorem overflows_iff (hn : 0 < n) :
    Sign.signed.Overflows n a.toInt b.toInt ↔ a = BitVec.intMin n ∧ b = BitVec.allOnes n := by
  have hones : (BitVec.allOnes n).toInt = -1 := BitVec.toInt_allOnes.trans (if_pos hn)
  rw [Sign.Overflows, ← BitVec.toInt_intMin_of_pos hn, ← hones, BitVec.toInt_inj, BitVec.toInt_inj]
  exact and_iff_right rfl

theorem IntBinary.quotient_of_zero (h : s.read b = 0) :
    quotient s a b = .error .divisionByZero :=
  if_pos (Sign.read_eq_zero_iff.mp h)

theorem IntBinary.quotient_of_overflows (hn : 0 < n) (h : s.Overflows n (s.read a) (s.read b)) :
    quotient s a b = .error .integerOverflow := by
  obtain rfl := h.1
  have hne : b ≠ 0 := by
    intro hzero
    have hone := h.2.2
    rw [hzero, Sign.read_zero] at hone
    cases hone
  exact (if_neg hne).trans (if_pos ((overflows_iff hn).mp h))

theorem IntBinary.quotient_of_ne (hn : 0 < n) (hzero : s.read b ≠ 0)
    (h : ¬s.Overflows n (s.read a) (s.read b)) :
    quotient s a b = .ok (BitVec.ofInt n ((s.read a).tdiv (s.read b))) := by
  refine (if_neg (Sign.read_eq_zero_iff.not.mp hzero)).trans ?_
  cases s with
  | unsigned =>
    refine congrArg Except.ok (eq_ofInt_of_toNat (k := a.toNat / b.toNat) ?_)
    exact BitVec.toNat_udiv
  | signed =>
    have hne := (overflows_iff hn).not.mp h
    refine (if_neg hne).trans (congrArg Except.ok ?_)
    have hor : a ≠ BitVec.intMin n ∨ b ≠ -1#n := by
      rw [BitVec.neg_one_eq_allOnes]
      exact not_and_or.mp hne
    rw [Sign.read, Sign.read, ← BitVec.toInt_sdiv_of_ne_or_ne a b hor, BitVec.ofInt_toInt]

theorem IntBinary.remainder_of_zero (h : s.read b = 0) :
    remainder s a b = .error .divisionByZero :=
  if_pos (Sign.read_eq_zero_iff.mp h)

theorem IntBinary.remainder_of_ne (hzero : s.read b ≠ 0) :
    remainder s a b = .ok (BitVec.ofInt n ((s.read a).tmod (s.read b))) := by
  refine (if_neg (Sign.read_eq_zero_iff.not.mp hzero)).trans ?_
  cases s with
  | unsigned =>
    refine congrArg Except.ok (eq_ofInt_of_toNat (k := a.toNat % b.toNat) ?_)
    exact BitVec.toNat_umod
  | signed => rw [Sign.read, Sign.read, ← BitVec.toInt_srem, BitVec.ofInt_toInt]

/-! ### Sign extension -/

theorem signExtendLow_eq (bits : Nat) :
    signExtendLow bits a = BitVec.ofInt n (Sign.signed.integer bits (a.toNat % 2 ^ bits)) := by
  rw [← BitVec.toNat_setWidth, Sign.integer_toNat]
  rfl

end

end Wasm
