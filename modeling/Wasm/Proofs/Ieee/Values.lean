import Mathlib.Algebra.Order.Floor.Ring
import Mathlib.Algebra.Order.Field.Power
import Mathlib.Data.Rat.Floor
import Mathlib.Order.Monotone.Basic
import Mathlib.Tactic.FieldSimp
import Mathlib.Tactic.Linarith
import Mathlib.Tactic.Positivity
import Wasm.Ieee.Arithmetic

/-!
The number that a bit pattern stands for.  A pattern has a sign, a biased exponent and a fraction,
and the standard gives the number as a formula in the three.  Decoding agrees with that formula.
The number grows with the bits below the sign, so that patterns are compared as integers; the
formula is taken for infinities as well, where it gives a number beyond all finite ones, and order
needs no case of its own for them.
-/

namespace Wasm.Ieee.Format

variable (f : Format)

/-- The biased exponent, between the sign and the fraction. -/
def exponentField (a : Nat) : Nat :=
  a / 2 ^ f.fractionBits % 2 ^ f.exponentBits

/-- The fraction, which takes the lowest bits. -/
def fractionField (a : Nat) : Nat :=
  a % 2 ^ f.fractionBits

/-- What the biased exponent exceeds the exponent by. -/
def bias : Int :=
  2 ^ (f.exponentBits - 1) - 1

/-- A pattern for no number: the largest exponent with a fraction. -/
def IsNan (a : Nat) : Prop :=
  f.exponentField a = 2 ^ f.exponentBits - 1 ∧ f.fractionField a ≠ 0

/-- A pattern for an infinity: the largest exponent without a fraction. -/
def IsInfinite (a : Nat) : Prop :=
  f.exponentField a = 2 ^ f.exponentBits - 1 ∧ f.fractionField a = 0

/-- A pattern for a number. -/
def IsFinite (a : Nat) : Prop :=
  f.exponentField a ≠ 2 ^ f.exponentBits - 1

/-- The absolute value of a finite pattern, subnormal or normal. -/
def absValue (a : Nat) : ℚ :=
  if f.exponentField a = 0 then
    f.fractionField a / 2 ^ f.fractionBits * 2 ^ (1 - f.bias)
  else
    (1 + f.fractionField a / 2 ^ f.fractionBits) * 2 ^ ((f.exponentField a : Int) - f.bias)

/-- A number under the sign of a pattern. -/
def signedValue (negative : Bool) (x : ℚ) : ℚ :=
  if negative then -x else x

/-- The exact number of a finite pattern. -/
def value (a : Nat) : ℚ :=
  signedValue (f.isNegative a) (f.absValue a)

variable {f} {a b : Nat}

theorem signedValue_natCast (negative : Bool) (m : Nat) :
    signedValue negative (m : ℚ) = (signed negative m : Int) := by
  cases negative with
  | false => rfl
  | true => exact (Int.cast_neg (m : Int)).symm

theorem signedValue_mul (negative : Bool) (x y : ℚ) :
    signedValue negative (x * y) = signedValue negative x * y := by
  cases negative with
  | false => rfl
  | true => exact (neg_mul x y).symm

/-! ### Fields -/

theorem signBit_eq : f.signBit = 2 ^ f.fractionBits * 2 ^ f.exponentBits := by
  rw [signBit, Nat.one_shiftLeft, Nat.add_comm, Nat.pow_add]

theorem infinity_eq : f.infinity = (2 ^ f.exponentBits - 1) * 2 ^ f.fractionBits := by
  rw [infinity, Nat.one_shiftLeft, Nat.shiftLeft_eq]

theorem minExponent_eq : f.minExponent = 1 - f.bias - f.fractionBits := by
  rw [minExponent, bias, Nat.one_shiftLeft]
  push_cast
  ring

theorem magnitude_div : f.magnitude a / 2 ^ f.fractionBits = f.exponentField a := by
  rw [magnitude, signBit_eq, Nat.mod_mul_right_div_self]
  rfl

theorem magnitude_mod : f.magnitude a % 2 ^ f.fractionBits = f.fractionField a := by
  rw [magnitude, signBit_eq, Nat.mod_mul_right_mod]
  rfl

theorem exponentField_lt : f.exponentField a < 2 ^ f.exponentBits :=
  Nat.mod_lt _ (Nat.two_pow_pos _)

theorem fractionField_lt : f.fractionField a < 2 ^ f.fractionBits :=
  Nat.mod_lt _ (Nat.two_pow_pos _)

/-! ### Kinds of patterns -/

/-- The magnitudes of finite patterns are those below the infinity. -/
theorem isFinite_iff : f.IsFinite a ↔ f.magnitude a < f.infinity := by
  have hlt : f.exponentField a < 2 ^ f.exponentBits := exponentField_lt
  have hfraction : f.fractionField a < 2 ^ f.fractionBits := fractionField_lt
  rw [IsFinite, infinity_eq, ← Nat.div_lt_iff_lt_mul (Nat.two_pow_pos _), magnitude_div]
  omega

theorem isInfinite_iff : f.IsInfinite a ↔ f.magnitude a = f.infinity := by
  rw [IsInfinite, infinity_eq, ← magnitude_div, ← magnitude_mod]
  constructor
  · rintro ⟨hdiv, hmod⟩
    rw [← Nat.div_add_mod (f.magnitude a) (2 ^ f.fractionBits), hdiv, hmod, Nat.add_zero,
      Nat.mul_comm]
  · intro h
    rw [h, Nat.mul_div_cancel _ (Nat.two_pow_pos _), Nat.mul_mod_left]
    exact ⟨rfl, rfl⟩

theorem isNan_iff : f.IsNan a ↔ f.infinity < f.magnitude a := by
  have hfinite : f.exponentField a = 2 ^ f.exponentBits - 1 ↔ ¬f.magnitude a < f.infinity := by
    rw [← isFinite_iff, IsFinite, not_not]
  have hinfinite := isInfinite_iff (f := f) (a := a)
  rw [IsInfinite, hfinite] at hinfinite
  rw [IsNan, hfinite]
  omega

theorem isNan_eq_true_iff : f.isNan a = true ↔ f.IsNan a := by
  rw [isNan, decide_eq_true_iff, isNan_iff]

/-! ### Decoding -/

variable (f) in
/-- The absolute value of a biased exponent and a fraction, in units of the last place. -/
def ofFields (exponent fraction : Nat) : ℚ :=
  if exponent = 0 then fraction * 2 ^ f.minExponent
  else (fraction + 2 ^ f.fractionBits : ℕ) * 2 ^ (f.minExponent + exponent - 1)

theorem absValue_eq : f.absValue a = f.ofFields (f.exponentField a) (f.fractionField a) := by
  have hne : (2 : ℚ) ^ f.fractionBits ≠ 0 := by positivity
  rw [absValue, ofFields, minExponent_eq]
  by_cases hzero : f.exponentField a = 0
  · rw [if_pos hzero, if_pos hzero, zpow_sub₀ two_ne_zero _ (f.fractionBits : Int), zpow_natCast]
    field_simp
  · have hexponent : 1 - f.bias - (f.fractionBits : Int) + f.exponentField a - 1 =
        (f.exponentField a : Int) - f.bias - f.fractionBits := by omega
    rw [if_neg hzero, if_neg hzero, hexponent, zpow_sub₀ two_ne_zero _ (f.fractionBits : Int),
      zpow_natCast]
    push_cast
    field_simp
    ring

theorem decode_of_isNan (h : f.IsNan a) : f.decode a = .nan := by
  rw [isNan_iff] at h
  exact if_pos h

theorem decode_of_isInfinite (h : f.IsInfinite a) :
    f.decode a = .infinity (f.isNegative a) := by
  rw [isInfinite_iff] at h
  exact (if_neg (by omega)).trans (if_pos h)

/-- A finite pattern decodes to its number. -/
theorem decode_of_isFinite (h : f.IsFinite a) :
    ∃ m e, f.decode a = .finite (f.isNegative a) m e ∧ f.absValue a = m * 2 ^ e := by
  rw [isFinite_iff] at h
  have hdecode : f.decode a =
      if f.exponentField a = 0 then
        .finite (f.isNegative a) (f.fractionField a) f.minExponent
      else
        .finite (f.isNegative a) (f.fractionField a + 2 ^ f.fractionBits)
          (f.minExponent + f.exponentField a - 1) := by
    refine (if_neg (by omega)).trans ((if_neg (by omega)).trans ?_)
    rw [Nat.shiftRight_eq_div_pow, magnitude_div, Nat.one_shiftLeft, magnitude_mod]
  rw [hdecode, absValue_eq, ofFields]
  by_cases hzero : f.exponentField a = 0
  · rw [if_pos hzero, if_pos hzero]
    exact ⟨_, _, rfl, rfl⟩
  · rw [if_neg hzero, if_neg hzero]
    exact ⟨_, _, rfl, rfl⟩

/-- What decodes to a number is a pattern of that number. -/
theorem isFinite_of_decode {negative : Bool} {m : Nat} {e : Int}
    (h : f.decode a = .finite negative m e) :
    f.IsFinite a ∧ f.value a = signedValue negative (m * 2 ^ e) := by
  by_cases hfinite : f.IsFinite a
  · obtain ⟨m', e', hdecode, habs⟩ := decode_of_isFinite hfinite
    cases hdecode.symm.trans h
    exact ⟨hfinite, by rw [value, habs]⟩
  · rw [IsFinite, not_not] at hfinite
    by_cases hfraction : f.fractionField a = 0
    · cases (decode_of_isInfinite ⟨hfinite, hfraction⟩).symm.trans h
    · cases (decode_of_isNan ⟨hfinite, hfraction⟩).symm.trans h

/-! ### Order -/

theorem ofFields_lt {q r r' : Nat} (h : r < r') : f.ofFields q r < f.ofFields q r' := by
  have hcast : (r : ℚ) < r' := by exact_mod_cast h
  rw [ofFields, ofFields]
  split
  · exact mul_lt_mul_of_pos_right hcast (zpow_pos two_pos _)
  · push_cast
    exact mul_lt_mul_of_pos_right (add_lt_add_left hcast _) (zpow_pos two_pos _)

/-- A fraction that overflows is the next exponent. -/
theorem ofFields_carry (q : Nat) : f.ofFields q (2 ^ f.fractionBits) = f.ofFields (q + 1) 0 := by
  rw [ofFields, ofFields, if_neg (Nat.succ_ne_zero q)]
  split
  case isTrue h =>
    subst h
    simp
  case isFalse h =>
    have hexponent : f.minExponent + ((q + 1 : ℕ) : Int) - 1 = f.minExponent + q - 1 + 1 := by
      push_cast
      ring
    rw [hexponent, zpow_add_one₀ two_ne_zero]
    push_cast
    ring

variable (f) in
/-- The absolute value of the bits below a sign. -/
def ofMagnitude (k : Nat) : ℚ :=
  f.ofFields (k / 2 ^ f.fractionBits) (k % 2 ^ f.fractionBits)

theorem absValue_eq_ofMagnitude : f.absValue a = f.ofMagnitude (f.magnitude a) := by
  rw [absValue_eq, ofMagnitude, magnitude_div, magnitude_mod]

theorem ofMagnitude_add_mul {q r : Nat} (h : r < 2 ^ f.fractionBits) :
    f.ofMagnitude (r + 2 ^ f.fractionBits * q) = f.ofFields q r := by
  rw [ofMagnitude, Nat.add_mul_div_left _ _ (Nat.two_pow_pos _), Nat.add_mul_mod_self_left,
    Nat.div_eq_of_lt h, Nat.mod_eq_of_lt h, Nat.zero_add]

/-- One more in the bits below the sign is one more in the last place. -/
theorem ofMagnitude_succ (k : Nat) :
    f.ofMagnitude (k + 1) =
      f.ofFields (k / 2 ^ f.fractionBits) (k % 2 ^ f.fractionBits + 1) := by
  have hlt : k % 2 ^ f.fractionBits < 2 ^ f.fractionBits := Nat.mod_lt _ (Nat.two_pow_pos _)
  have hk := Nat.mod_add_div k (2 ^ f.fractionBits)
  generalize k / 2 ^ f.fractionBits = q at *
  generalize k % 2 ^ f.fractionBits = r at *
  subst hk
  by_cases hcarry : r + 1 = 2 ^ f.fractionBits
  · rw [Nat.add_right_comm, hcarry, Nat.add_comm, ← Nat.mul_succ, ofFields_carry]
    exact (congrArg f.ofMagnitude (Nat.zero_add _).symm).trans
      (ofMagnitude_add_mul (Nat.two_pow_pos _))
  · rw [Nat.add_right_comm]
    exact ofMagnitude_add_mul (by omega)

theorem strictMono_ofMagnitude : StrictMono f.ofMagnitude := by
  apply strictMono_nat_of_lt_succ
  intro k
  rw [ofMagnitude_succ]
  exact ofFields_lt (Nat.lt_succ_self _)

@[simp] theorem ofMagnitude_zero : f.ofMagnitude 0 = 0 := by
  simp [ofMagnitude, ofFields]

/-- Integers under a sign are in the order of any numbers that grow with them from zero. -/
theorem signed_le_signed_iff {v : Nat → ℚ} (hmono : StrictMono v) (hzero : v 0 = 0)
    (s t : Bool) (m n : Nat) :
    signed s m ≤ signed t n ↔ signedValue s (v m) ≤ signedValue t (v n) := by
  have hm : 0 ≤ v m := hzero ▸ hmono.monotone (Nat.zero_le m)
  have hn : 0 ≤ v n := hzero ▸ hmono.monotone (Nat.zero_le n)
  cases s <;> cases t <;> simp only [signed, signedValue, if_true, if_false, Bool.false_eq_true]
  case false.false => rw [hmono.le_iff_le, Int.ofNat_le]
  case false.true =>
    have hm' : v m = 0 ↔ m = 0 := by rw [← hzero, hmono.injective.eq_iff]
    have hn' : v n = 0 ↔ n = 0 := by rw [← hzero, hmono.injective.eq_iff]
    constructor
    · intro h
      rw [hm'.mpr (by omega), hn'.mpr (by omega), neg_zero]
    · intro h
      have := hm'.mp (by linarith)
      have := hn'.mp (by linarith)
      omega
  case true.false =>
    constructor
    · intro h
      linarith
    · intro h
      omega
  case true.true => rw [neg_le_neg_iff, neg_le_neg_iff, hmono.le_iff_le, Int.ofNat_le]

theorem value_eq : f.value a = signedValue (f.isNegative a) (f.ofMagnitude (f.magnitude a)) := by
  rw [value, absValue_eq_ofMagnitude]

/-- The place of a pattern is the place of its number. -/
theorem rank_le_rank_iff : f.rank a ≤ f.rank b ↔ f.value a ≤ f.value b := by
  rw [rank, rank, value_eq, value_eq]
  exact signed_le_signed_iff strictMono_ofMagnitude ofMagnitude_zero _ _ _ _

theorem rank_lt_rank_iff : f.rank a < f.rank b ↔ f.value a < f.value b := by
  rw [← not_le, ← not_le, rank_le_rank_iff]

/-- Comparison is that of the numbers, and never holds of what is no number. -/
theorem le_iff : f.le a b = true ↔ ¬f.IsNan a ∧ ¬f.IsNan b ∧ f.value a ≤ f.value b := by
  simp [le, ← isNan_eq_true_iff, rank_le_rank_iff, and_assoc]

end Wasm.Ieee.Format
