import Wasm.Numeric.Operator
import Wasm.Proofs.Ieee.Values
import Wasm.Proofs.Numeric.Words

/-!
# From floats to integers

A trapping truncation compares its operand with two numbers of the source format and only then drops
the fraction.  The comparison is right because no number of the format lies between the lower end
and the predecessor of the least integer (`Bounds`): the two are the same, or the next number of the
format above the lower end is the least integer itself.  A saturating truncation gives the same
integer, or the end of the range on the side of its operand.
-/

namespace Wasm

/-- The integer part of a number. -/
def towardZero (x : ℚ) : Int :=
  if x < 0 then ⌈x⌉ else ⌊x⌋

/-! ### Integer parts -/

section

variable {x : ℚ} {n : Int}

theorem towardZero_neg (x : ℚ) : towardZero (-x) = -towardZero x := by
  rcases lt_trichotomy x 0 with h | h | h
  · rw [towardZero, towardZero, if_pos h, if_neg (by linarith), Int.floor_neg]
  · rw [h, neg_zero, towardZero, if_neg (lt_irrefl _), Int.floor_zero, neg_zero]
  · rw [towardZero, towardZero, if_pos (by linarith), if_neg (by linarith), Int.ceil_neg]

/-- From zero on, the integer part is below a bound if the number does not reach the next one. -/
theorem towardZero_le_iff (hn : 0 ≤ n) : towardZero x ≤ n ↔ x < n + 1 := by
  have hn' : (0 : ℚ) ≤ n := by exact_mod_cast hn
  rw [towardZero]
  split
  case isTrue h =>
    have hceil : ⌈x⌉ ≤ n := Int.ceil_le.mpr (by linarith)
    exact ⟨fun _ => by linarith, fun _ => hceil⟩
  case isFalse => rw [← Int.lt_add_one_iff, Int.floor_lt, Int.cast_add, Int.cast_one]

theorem le_towardZero_iff (hn : n ≤ 0) : n ≤ towardZero x ↔ (n : ℚ) - 1 < x := by
  rw [← neg_le_neg_iff, ← towardZero_neg, towardZero_le_iff (by omega), Int.cast_neg]
  constructor
  · intro h
    linarith
  · intro h
    linarith

/-- A significand shifted by its exponent is the integer part of the number. -/
theorem natCast_shift (m : Nat) (e : Int) :
    ((m <<< e.toNat >>> (-e).toNat : Nat) : Int) = ⌊(m : ℚ) * 2 ^ e⌋ := by
  rw [Nat.shiftRight_eq_div_pow, Nat.shiftLeft_eq]
  obtain ⟨k, rfl | rfl⟩ := Int.eq_nat_or_neg e
  · rw [Int.toNat_natCast, Int.toNat_neg_natCast, Nat.pow_zero, Nat.div_one, zpow_natCast]
    exact_mod_cast (Int.floor_natCast (R := ℚ) (m * 2 ^ k)).symm
  · rw [Int.toNat_neg_natCast, neg_neg, Int.toNat_natCast, Nat.pow_zero, Nat.mul_one, zpow_neg,
      zpow_natCast, ← div_eq_mul_inv]
    exact_mod_cast (Rat.floor_natCast_div_natCast m (2 ^ k)).symm

theorem truncateFinite_eq (negative : Bool) (m : Nat) (e : Int) :
    Ieee.Datum.truncateFinite negative m e =
      towardZero (Ieee.Format.signedValue negative (m * 2 ^ e)) := by
  have hpos : towardZero ((m : ℚ) * 2 ^ e) = ⌊(m : ℚ) * 2 ^ e⌋ :=
    if_neg (not_lt.mpr (by positivity))
  cases negative with
  | false => exact (natCast_shift m e).trans hpos.symm
  | true =>
    refine (congrArg Neg.neg ((natCast_shift m e).trans hpos.symm)).trans ?_
    exact (towardZero_neg _).symm

end

/-! ### The ends of the ranges -/

namespace Ieee.Format

variable {f : Format} {a b : Nat} {s : Sign} {bits : Nat} {range : OpenRange}

/-- Whether an integer is a number of a format. -/
def Holds (f : Format) (n : Int) : Prop :=
  f.IsFinite (f.ofInt n) ∧ f.value (f.ofInt n) = n

/-- Whether a datum is an integer. -/
def isInteger (d : Datum) (n : Int) : Bool :=
  match d with
  | .finite negative m e => signed negative (m <<< e.toNat) == n * 2 ^ (-e).toNat
  | _ => false

/-- The pattern nearest to an integer stands for it if decoding gives the integer back. -/
theorem holds_of_isInteger {n : Int} (h : isInteger (f.decode (f.ofInt n)) n = true) :
    f.Holds n := by
  cases hdecode : f.decode (f.ofInt n) with
  | nan | infinity negative =>
    rw [hdecode] at h
    cases h
  | finite negative m e =>
    rw [hdecode] at h
    obtain ⟨hfinite, hvalue⟩ := isFinite_of_decode hdecode
    have hcast : ((signed negative (m <<< e.toNat) : Int) : ℚ) = (n * 2 ^ (-e).toNat : Int) :=
      congrArg Int.cast (beq_iff_eq.mp h)
    refine ⟨hfinite, hvalue.trans ?_⟩
    rw [← signedValue_natCast, Nat.shiftLeft_eq] at hcast
    push_cast at hcast
    rw [signedValue_mul] at hcast ⊢
    obtain ⟨k, rfl | rfl⟩ := Int.eq_nat_or_neg e
    · simpa using hcast
    · rw [Int.toNat_neg_natCast, neg_neg, Int.toNat_natCast, pow_zero, mul_one] at hcast
      rw [hcast, zpow_neg, zpow_natCast, mul_assoc, mul_inv_cancel₀ (by positivity), mul_one]

/-- An infinity is beyond every finite number. -/
theorem rank_of_isInfinite (ha : f.IsInfinite a) (hb : f.IsFinite b) :
    if f.isNegative a then f.rank a ≤ f.rank b else f.rank b ≤ f.rank a := by
  rw [isInfinite_iff] at ha
  rw [isFinite_iff] at hb
  simp only [rank, signed, ha]
  split <;> split <;> omega

/-- What a trapping truncation needs of its range: the upper end follows the greatest integer, and
no number of the format lies between the lower end and the predecessor of the least one. -/
structure Bounds (f : Format) (s : Sign) (bits : Nat) (range : OpenRange) : Prop where
  lower : f.Holds range.lower
  upper : f.Holds range.upper
  upper_eq : range.upper = s.greatest bits + 1
  lower_lt : ∀ a, range.lower < f.value a ↔ (s.least bits : ℚ) - 1 < f.value a

theorem lower_lt_of_adjacent {n l : Int} (hn : f.Holds n) (hl : f.Holds l) (hle : n < l)
    (hrank : f.rank (f.ofInt n) + 1 = f.rank (f.ofInt l)) (a : Nat) :
    n < f.value a ↔ (l : ℚ) - 1 < f.value a := by
  constructor
  · intro h
    rw [← hn.2, ← rank_lt_rank_iff] at h
    have hle : f.value (f.ofInt l) ≤ f.value a := rank_le_rank_iff.mp (by omega)
    rw [hl.2] at hle
    linarith
  · intro h
    have : (n : ℚ) + 1 ≤ l := by exact_mod_cast hle
    linarith

theorem Bounds.of_pred (hlower : f.Holds range.lower) (hupper : f.Holds range.upper)
    (heq : range.upper = s.greatest bits + 1) (hpred : range.lower = s.least bits - 1) :
    f.Bounds s bits range := by
  refine ⟨hlower, hupper, heq, fun a => ?_⟩
  rw [hpred, Int.cast_sub, Int.cast_one]

theorem Bounds.of_adjacent (hlower : f.Holds range.lower) (hupper : f.Holds range.upper)
    (heq : range.upper = s.greatest bits + 1) (hleast : f.Holds (s.least bits))
    (hlt : range.lower < s.least bits)
    (hrank : f.rank (f.ofInt range.lower) + 1 = f.rank (f.ofInt (s.least bits))) :
    f.Bounds s bits range :=
  ⟨hlower, hupper, heq, lower_lt_of_adjacent hlower hleast hlt hrank⟩

/-! ### The two truncations, by kind of operand -/

theorem IsFinite.not_isNan (h : f.IsFinite a) : ¬f.IsNan a :=
  fun hnan => h hnan.1

theorem IsInfinite.not_isNan (h : f.IsInfinite a) : ¬f.IsNan a :=
  fun hnan => hnan.2 h.2

theorem truncate_of_isNan (h : f.IsNan a) :
    f.truncate range s bits a = .error .invalidConversion :=
  if_pos (isNan_eq_true_iff.mpr h)

theorem truncate_of_not_isNan (h : ¬f.IsNan a) :
    f.truncate range s bits a =
      if f.le a (f.ofInt range.lower) || f.le (f.ofInt range.upper) a then .error .integerOverflow
      else .ok (f.truncateSat s bits a) :=
  if_neg (isNan_eq_true_iff.not.mpr h)

/-- The comparisons with the ends decide whether the integer part is in range. -/
theorem outside_iff (hbounds : f.Bounds s bits range) (hbits : 0 < bits) (h : f.IsFinite a) :
    (f.le a (f.ofInt range.lower) || f.le (f.ofInt range.upper) a) = true ↔
      towardZero (f.value a) ∉ s.range bits := by
  have hlower := hbounds.lower_lt a
  have hupper : (range.upper : ℚ) = s.greatest bits + 1 := by
    rw [hbounds.upper_eq, Int.cast_add, Int.cast_one]
  rw [Sign.mem_range_iff hbits, le_towardZero_iff Sign.least_le_zero,
    towardZero_le_iff (Sign.zero_le_greatest hbits), ← hlower, ← hupper, Bool.or_eq_true, le_iff,
    le_iff, hbounds.lower.2, hbounds.upper.2, not_and_or, not_lt, not_lt]
  simp only [h.not_isNan, hbounds.lower.1.not_isNan, hbounds.upper.1.not_isNan, not_false_eq_true,
    true_and]

theorem truncate_of_isInfinite (hbounds : f.Bounds s bits range) (h : f.IsInfinite a) :
    f.truncate range s bits a = .error .integerOverflow := by
  rw [truncate_of_not_isNan h.not_isNan]
  refine if_pos ?_
  have hlower := rank_of_isInfinite h hbounds.lower.1
  have hupper := rank_of_isInfinite h hbounds.upper.1
  rw [Bool.or_eq_true, le_iff, le_iff, ← rank_le_rank_iff, ← rank_le_rank_iff]
  by_cases hnegative : f.isNegative a = true
  · rw [if_pos hnegative] at hlower
    exact .inl ⟨h.not_isNan, hbounds.lower.1.not_isNan, hlower⟩
  · rw [if_neg hnegative] at hupper
    exact .inr ⟨hbounds.upper.1.not_isNan, h.not_isNan, hupper⟩

theorem truncateSat_of_isNan (h : f.IsNan a) : f.truncateSat s bits a = 0 := by
  rw [truncateSat, decode_of_isNan h]

theorem truncateSat_of_isInfinite (h : f.IsInfinite a) :
    f.truncateSat s bits a =
      BitVec.ofInt bits (if f.isNegative a then s.least bits else s.greatest bits) := by
  rw [truncateSat, decode_of_isInfinite h]

theorem truncateSat_of_isFinite (h : f.IsFinite a) :
    f.truncateSat s bits a =
      BitVec.ofInt bits
        (if towardZero (f.value a) < s.least bits then s.least bits
         else if s.greatest bits < towardZero (f.value a) then s.greatest bits
         else towardZero (f.value a)) := by
  obtain ⟨m, e, hdecode, habs⟩ := decode_of_isFinite h
  rw [value, habs, ← truncateFinite_eq, truncateSat, hdecode]

theorem truncateSat_of_mem (hbits : 0 < bits) (h : f.IsFinite a)
    (hmem : towardZero (f.value a) ∈ s.range bits) :
    f.truncateSat s bits a = BitVec.ofInt bits (towardZero (f.value a)) := by
  rw [Sign.mem_range_iff hbits] at hmem
  rw [truncateSat_of_isFinite h, if_neg (by omega), if_neg (by omega)]

/-- Out of range, the integer part is beyond the end on the side of the number. -/
theorem truncateSat_of_notMem (hbits : 0 < bits) (h : f.IsFinite a)
    (hmem : towardZero (f.value a) ∉ s.range bits) :
    f.truncateSat s bits a =
      BitVec.ofInt bits (if f.value a < 0 then s.least bits else s.greatest bits) := by
  have hleast : s.least bits ≤ 0 := Sign.least_le_zero
  have hgreatest := Sign.zero_le_greatest (s := s) hbits
  rw [Sign.mem_range_iff hbits] at hmem
  rw [truncateSat_of_isFinite h]
  by_cases hneg : f.value a < 0
  · have hle : towardZero (f.value a) ≤ 0 := by
      rw [towardZero_le_iff le_rfl, Int.cast_zero]
      linarith
    rw [if_pos hneg, if_pos (by omega)]
  · have hle : 0 ≤ towardZero (f.value a) := by
      rw [le_towardZero_iff le_rfl, Int.cast_zero]
      linarith
    rw [if_neg hneg, if_neg (by omega), if_pos (by omega)]

theorem truncate_of_mem (hbounds : f.Bounds s bits range) (hbits : 0 < bits) (h : f.IsFinite a)
    (hmem : towardZero (f.value a) ∈ s.range bits) :
    f.truncate range s bits a = .ok (BitVec.ofInt bits (towardZero (f.value a))) := by
  have hinside := (outside_iff hbounds hbits h).not.mpr (not_not.mpr hmem)
  rw [truncate_of_not_isNan h.not_isNan, if_neg hinside, truncateSat_of_mem hbits h hmem]

theorem truncate_of_notMem (hbounds : f.Bounds s bits range) (hbits : 0 < bits)
    (h : f.IsFinite a) (hmem : towardZero (f.value a) ∉ s.range bits) :
    f.truncate range s bits a = .error .integerOverflow := by
  rw [truncate_of_not_isNan h.not_isNan, if_pos ((outside_iff hbounds hbits h).mpr hmem)]

/-- What the two truncations of a pattern have to give, by the number of the pattern. -/
structure Truncates (f : Format) (s : Sign) (bits a : Nat)
    (trapping : Except Trap (BitVec bits)) (saturating : BitVec bits) : Prop where
  ok_iff : ∀ r, trapping = .ok r ↔ f.IsFinite a ∧ s.read r = towardZero (f.value a)
  exists_ok_iff : (∃ r, trapping = .ok r) ↔
    f.IsFinite a ∧ towardZero (f.value a) ∈ s.range bits
  invalidConversion_iff : trapping = .error .invalidConversion ↔ f.IsNan a
  integerOverflow_iff : trapping = .error .integerOverflow ↔
    f.IsInfinite a ∨ f.IsFinite a ∧ towardZero (f.value a) ∉ s.range bits
  saturating_of_ok : ∀ r, trapping = .ok r → saturating = r
  saturating_of_isNan : f.IsNan a → saturating = 0
  saturating_of_isInfinite : f.IsInfinite a →
    if f.isNegative a then IsLeast (s.range bits) (s.read saturating)
    else IsGreatest (s.range bits) (s.read saturating)
  saturating_of_notMem : f.IsFinite a → towardZero (f.value a) ∉ s.range bits →
    if f.value a < 0 then IsLeast (s.range bits) (s.read saturating)
    else IsGreatest (s.range bits) (s.read saturating)

/-- A bit decides between the two ends of the range. -/
theorem isEnd_of_eq {saturating : BitVec bits} {p : Prop} [Decidable p] (hbits : 0 < bits)
    (h : saturating = BitVec.ofInt bits (if p then s.least bits else s.greatest bits)) :
    if p then IsLeast (s.range bits) (s.read saturating)
    else IsGreatest (s.range bits) (s.read saturating) := by
  subst h
  by_cases hp : p
  · rw [if_pos hp, if_pos hp, Sign.read_ofInt hbits (Sign.isLeast_least hbits).1]
    exact Sign.isLeast_least hbits
  · rw [if_neg hp, if_neg hp, Sign.read_ofInt hbits (Sign.isGreatest_greatest hbits).1]
    exact Sign.isGreatest_greatest hbits

theorem truncates_of_isNan (h : f.IsNan a) :
    f.Truncates s bits a (f.truncate range s bits a) (f.truncateSat s bits a) := by
  have hfinite : ¬f.IsFinite a := fun hfinite => hfinite h.1
  have hinfinite : ¬f.IsInfinite a := fun hinfinite => h.2 hinfinite.2
  rw [truncate_of_isNan h, truncateSat_of_isNan h]
  constructor <;> simp [h, hfinite, hinfinite]

theorem truncates_of_isInfinite (hbounds : f.Bounds s bits range) (hbits : 0 < bits)
    (h : f.IsInfinite a) :
    f.Truncates s bits a (f.truncate range s bits a) (f.truncateSat s bits a) := by
  have hfinite : ¬f.IsFinite a := fun hfinite => hfinite h.1
  have hend := isEnd_of_eq hbits (truncateSat_of_isInfinite (s := s) h)
  rw [truncate_of_isInfinite hbounds h]
  constructor <;> simp [h, h.not_isNan, hfinite, hend]

theorem truncates_of_mem (hbounds : f.Bounds s bits range) (hbits : 0 < bits) (h : f.IsFinite a)
    (hmem : towardZero (f.value a) ∈ s.range bits) :
    f.Truncates s bits a (f.truncate range s bits a) (f.truncateSat s bits a) := by
  have hinfinite : ¬f.IsInfinite a := fun hinfinite => h hinfinite.1
  have hread : ∀ r, BitVec.ofInt bits (towardZero (f.value a)) = r ↔
      s.read r = towardZero (f.value a) := by
    intro r
    constructor
    · rintro rfl
      exact Sign.read_ofInt hbits hmem
    · intro hr
      exact Sign.read_injective ((Sign.read_ofInt hbits hmem).trans hr.symm)
  have hexists : ∃ r : BitVec bits, s.read r = towardZero (f.value a) :=
    ⟨_, Sign.read_ofInt hbits hmem⟩
  rw [truncate_of_mem hbounds hbits h hmem, truncateSat_of_mem hbits h hmem]
  constructor <;> simp [h, h.not_isNan, hinfinite, hmem, hread, hexists]

theorem truncates_of_notMem (hbounds : f.Bounds s bits range) (hbits : 0 < bits)
    (h : f.IsFinite a) (hmem : towardZero (f.value a) ∉ s.range bits) :
    f.Truncates s bits a (f.truncate range s bits a) (f.truncateSat s bits a) := by
  have hinfinite : ¬f.IsInfinite a := fun hinfinite => h hinfinite.1
  have hend := isEnd_of_eq hbits (truncateSat_of_notMem hbits h hmem)
  have hread : ∀ r, ¬s.read r = towardZero (f.value a) :=
    fun r hr => hmem (hr ▸ Sign.read_mem_range r)
  rw [truncate_of_notMem hbounds hbits h hmem]
  constructor <;> simp [h, h.not_isNan, hinfinite, hmem, hend, hread]

end Ieee.Format

open Ieee.Format

/-- Where the predecessor of the least signed integer is no number of the format, the lower end is
the number before the least integer. -/
theorem bounds_truncRange (target source : Width) (s : Sign) :
    Bounds source.format s target.bits (target.truncRange source s) := by
  cases target <;> cases source <;> cases s
  case w32.w32.signed | w64.w32.signed | w64.w64.signed =>
    refine .of_adjacent ?_ ?_ ?_ ?_ ?_ ?_
    iterate 2 exact holds_of_isInteger (by decide +kernel)
    · decide +kernel
    · exact holds_of_isInteger (by decide +kernel)
    iterate 2 decide +kernel
  all_goals
    refine .of_pred ?_ ?_ ?_ ?_
    iterate 2 exact holds_of_isInteger (by decide +kernel)
    iterate 2 decide +kernel

/-- **Truncation is exact.**  For each integer type, float type and sign, the two truncations of any
pattern give what its exact number asks for. -/
theorem truncation_exact (target source : Width) (s : Sign) (a : BitVec source.bits) :
    source.format.Truncates s target.bits a.toNat
      (source.format.truncate (target.truncRange source s) s target.bits a.toNat)
      (source.format.truncateSat s target.bits a.toNat) := by
  have hbounds := bounds_truncRange target source s
  have hbits := target.bits_pos
  by_cases hfinite : source.format.IsFinite a.toNat
  · by_cases hmem : towardZero (source.format.value a.toNat) ∈ s.range target.bits
    · exact truncates_of_mem hbounds hbits hfinite hmem
    · exact truncates_of_notMem hbounds hbits hfinite hmem
  · have hfield := not_not.mp hfinite
    by_cases hfraction : source.format.fractionField a.toNat = 0
    · exact truncates_of_isInfinite hbounds hbits ⟨hfield, hfraction⟩
    · exact truncates_of_isNan ⟨hfield, hfraction⟩

-- The number next to `-2 ^ 31` in single precision is 256 less.
example : truncate .binary32 (Width.truncRange .w32 .w32 .signed) .signed 32 0xcf000000 =
      .ok 0x80000000 ∧
    truncate .binary32 (Width.truncRange .w32 .w32 .signed) .signed 32 0xcf000001 =
      .error .integerOverflow :=
  ⟨rfl, rfl⟩

end Wasm
