import Mathlib.Algebra.Order.Ring.Int
import Mathlib.Order.Bounds.Basic
import Mathlib.Tactic.Positivity
import Wasm.Numeric.Float

/-!
The integers that words stand for.  Read with a sign, the words of a width are in one-to-one
correspondence with the integers of an interval; `Sign.least` and `Sign.greatest` are its ends.
-/

namespace Wasm

theorem Width.bits_pos (w : Width) : 0 < w.bits := by
  cases w <;> decide

namespace Sign

/-- The integers that words of `bits` bits stand for. -/
def range (s : Sign) (bits : Nat) : Set Int :=
  match s with
  | signed => {t | -2 ^ (bits - 1) ≤ t ∧ t < 2 ^ (bits - 1)}
  | unsigned => {t | 0 ≤ t ∧ t < 2 ^ bits}

variable {s : Sign} {bits : Nat} {t : Int}

theorem read_mem_range (a : BitVec bits) : s.read a ∈ s.range bits := by
  cases s with
  | signed => exact ⟨BitVec.le_toInt a, BitVec.toInt_lt⟩
  | unsigned =>
    have hlt : ((a.toNat : Nat) : Int) < 2 ^ bits := by exact_mod_cast a.isLt
    exact ⟨Int.natCast_nonneg _, hlt⟩

theorem read_injective {a b : BitVec bits} (h : s.read a = s.read b) : a = b := by
  cases s with
  | signed => exact BitVec.eq_of_toInt_eq h
  | unsigned => exact BitVec.eq_of_toNat_eq (Int.ofNat.inj h)

theorem read_ofInt (hbits : 0 < bits) (h : t ∈ s.range bits) :
    s.read (BitVec.ofInt bits t) = t := by
  cases s with
  | signed => exact BitVec.toInt_ofInt_eq_self hbits h.1 h.2
  | unsigned =>
    obtain ⟨n, rfl⟩ := Int.eq_ofNat_of_zero_le h.1
    have hlt : n < 2 ^ bits := by exact_mod_cast h.2
    show ((BitVec.ofInt bits (n : Int)).toNat : Int) = n
    rw [BitVec.ofInt_natCast, BitVec.toNat_ofNat, Nat.mod_eq_of_lt hlt]

theorem mem_range_iff (hbits : 0 < bits) :
    t ∈ s.range bits ↔ s.least bits ≤ t ∧ t ≤ s.greatest bits := by
  cases s with
  | signed =>
    have hcast : ((2 ^ (bits - 1) : Nat) : Int) = 2 ^ (bits - 1) := by push_cast; rfl
    show -2 ^ (bits - 1) ≤ t ∧ t < 2 ^ (bits - 1) ↔
      (BitVec.intMin bits).toInt ≤ t ∧ t ≤ (BitVec.intMax bits).toInt
    rw [BitVec.toInt_intMin_of_pos hbits, BitVec.toInt_intMax]
    omega
  | unsigned =>
    have hcast : ((2 ^ bits : Nat) : Int) = 2 ^ bits := by push_cast; rfl
    have hpos : 0 < 2 ^ bits := Nat.two_pow_pos bits
    show 0 ≤ t ∧ t < 2 ^ bits ↔ 0 ≤ t ∧ t ≤ ((BitVec.allOnes bits).toNat : Int)
    rw [BitVec.toNat_allOnes]
    omega

theorem least_le_zero : s.least bits ≤ 0 := by
  cases s with
  | signed =>
    show (BitVec.intMin bits).toInt ≤ 0
    rw [BitVec.toInt_intMin]
    omega
  | unsigned => exact Int.le_refl 0

theorem zero_le_greatest (hbits : 0 < bits) : 0 ≤ s.greatest bits := by
  have hzero : (0 : Int) ∈ s.range bits := by
    cases s with
    | signed => exact ⟨by simp, by positivity⟩
    | unsigned => exact ⟨le_refl 0, by positivity⟩
  exact ((mem_range_iff hbits).mp hzero).2

theorem isLeast_least (hbits : 0 < bits) : IsLeast (s.range bits) (s.least bits) := by
  have hle : s.least bits ≤ s.greatest bits := least_le_zero.trans (zero_le_greatest hbits)
  exact ⟨(mem_range_iff hbits).mpr ⟨le_rfl, hle⟩, fun _ h => ((mem_range_iff hbits).mp h).1⟩

theorem isGreatest_greatest (hbits : 0 < bits) : IsGreatest (s.range bits) (s.greatest bits) := by
  have hle : s.least bits ≤ s.greatest bits := least_le_zero.trans (zero_le_greatest hbits)
  exact ⟨(mem_range_iff hbits).mpr ⟨hle, le_rfl⟩, fun _ h => ((mem_range_iff hbits).mp h).2⟩

end Sign

end Wasm
