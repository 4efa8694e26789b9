import Mathlib.Data.Prod.Lex
import Mathlib.Order.Bounds.Basic
import Mathlib.Order.WithBot
import Wasm.Numeric.Float
import Wasm.Proofs.Ieee.Values
import Wasm.Value

/-!
# Minimum and maximum

The patterns that stand for numbers are in a total order, that of the extended rational numbers with
`-0` below `+0`, and `min` and `max` are the meet and the join of this order.  An integer says the
place of a pattern in it (`key`): the rank, with the negative patterns moved down by one so that the
zeros come apart.  No two patterns of a format share their key, so that every law of `min` and `max`
is a law of integers; both are treated at once, as operations that pick one of two keys (`Picks`).
What is not a number is absorbed, whichever side it is on, and leaves the canonical pattern.
-/

namespace Wasm

namespace Ieee.Format

variable {f : Format} {a b c : Nat}

instance (a : Nat) : Decidable (f.IsInfinite a) :=
  inferInstanceAs (Decidable (_ ∧ _))

variable (f) in
/-- The extended rational number of a pattern that is not NaN. -/
def extended (a : Nat) : WithBot (WithTop ℚ) :=
  if f.IsInfinite a then if f.isNegative a then ⊥ else ⊤ else (f.value a : WithTop ℚ)

variable (f) in
/-- The place of a pattern among the extended rational numbers, where a number with two patterns,
zero, has the negative one first. -/
def place (a : Nat) : WithBot (WithTop ℚ) ×ₗ Bool :=
  toLex (f.extended a, !f.isNegative a)

variable (f) in
/-- The place of a pattern as an integer. -/
def key (a : Nat) : Int :=
  if f.isNegative a then -(f.magnitude a : Int) - 1 else f.magnitude a

/-- A pattern of a format, and not NaN. -/
structure IsNumber (f : Format) (a : Nat) : Prop where
  lt : a < 2 * f.signBit
  not_isNan : ¬f.IsNan a

/-! ### Keys -/

theorem signBit_pos : 0 < f.signBit := by
  rw [signBit, Nat.one_shiftLeft]
  exact Nat.two_pow_pos _

theorem eq_withSign (h : a < 2 * f.signBit) : a = f.withSign (f.isNegative a) (f.magnitude a) := by
  have hdiv : a / f.signBit < 2 := by rwa [Nat.div_lt_iff_lt_mul signBit_pos]
  have hadd := Nat.div_add_mod a f.signBit
  rw [withSign, isNegative, magnitude, Nat.mod_eq_of_lt hdiv]
  generalize a / f.signBit = q at *
  obtain rfl | rfl : q = 0 ∨ q = 1 := by omega
  · simp only [Nat.mul_zero, Nat.zero_add] at hadd
    exact hadd.symm
  · simp only [Nat.mul_one] at hadd
    exact hadd.symm

/-- Different patterns have different keys. -/
theorem key_injective (ha : a < 2 * f.signBit) (hb : b < 2 * f.signBit) (h : f.key a = f.key b) :
    a = b := by
  rw [eq_withSign ha, eq_withSign hb]
  rw [key, key] at h
  cases hsa : f.isNegative a <;> cases hsb : f.isNegative b <;>
    simp only [hsa, hsb, Bool.false_eq_true, if_true, if_false] at h
  case false.false | true.true => rw [show f.magnitude a = f.magnitude b by omega]
  case false.true | true.false => omega

theorem infinity_pos (hf : 0 < f.exponentBits) : 0 < f.infinity := by
  have hexponent := Nat.one_lt_two_pow (Nat.pos_iff_ne_zero.mp hf)
  rw [infinity_eq]
  exact Nat.mul_pos (by omega) (Nat.two_pow_pos _)

theorem isInfinite_or_isFinite (h : ¬f.IsNan a) : f.IsInfinite a ∨ f.IsFinite a := by
  rw [isNan_iff] at h
  rw [isInfinite_iff, isFinite_iff]
  omega

theorem IsFinite.not_isInfinite (h : f.IsFinite a) : ¬f.IsInfinite a :=
  fun hinfinite => h hinfinite.1

/-- Extended numbers are in the order of the ranks. -/
theorem extended_le_extended_iff (hf : 0 < f.exponentBits) (ha : ¬f.IsNan a) (hb : ¬f.IsNan b) :
    f.extended a ≤ f.extended b ↔ f.rank a ≤ f.rank b := by
  have hpos := infinity_pos hf
  rcases isInfinite_or_isFinite ha with ha' | ha' <;>
    rcases isInfinite_or_isFinite hb with hb' | hb'
  · have hma := isInfinite_iff.mp ha'
    have hmb := isInfinite_iff.mp hb'
    rw [extended, extended, if_pos ha', if_pos hb', rank, rank, hma, hmb]
    cases f.isNegative a <;> cases f.isNegative b <;> simp [signed]
    omega
  · have hma := isInfinite_iff.mp ha'
    have hmb := isFinite_iff.mp hb'
    rw [extended, extended, if_pos ha', if_neg hb'.not_isInfinite, rank, rank, hma]
    cases f.isNegative a <;> cases f.isNegative b <;> simp [signed] <;> omega
  · have hma := isFinite_iff.mp ha'
    have hmb := isInfinite_iff.mp hb'
    rw [extended, extended, if_neg ha'.not_isInfinite, if_pos hb', rank, rank, hmb]
    cases f.isNegative a <;> cases f.isNegative b <;> simp [signed] <;> omega
  · rw [extended, extended, if_neg ha'.not_isInfinite, if_neg hb'.not_isInfinite,
      WithBot.coe_le_coe, WithTop.coe_le_coe, rank_le_rank_iff]

/-- Places are in the order of the keys. -/
theorem place_le_place_iff (hf : 0 < f.exponentBits) (ha : ¬f.IsNan a) (hb : ¬f.IsNan b) :
    f.place a ≤ f.place b ↔ f.key a ≤ f.key b := by
  have hlt := lt_iff_lt_of_le_iff_le (extended_le_extended_iff hf hb ha)
  have heq : f.extended a = f.extended b ↔ f.rank a = f.rank b := by
    rw [le_antisymm_iff, le_antisymm_iff, extended_le_extended_iff hf ha hb,
      extended_le_extended_iff hf hb ha]
  have hzeros : ¬(true : Bool) ≤ false := by decide
  rw [place, place, Prod.Lex.toLex_le_toLex, hlt, heq, rank, rank, key, key]
  cases f.isNegative a <;> cases f.isNegative b <;> simp [signed, hzeros] <;> omega

/-- Different patterns have different places. -/
theorem place_injective (hf : 0 < f.exponentBits) (ha : f.IsNumber a) (hb : f.IsNumber b)
    (h : f.place a = f.place b) : a = b := by
  apply key_injective ha.lt hb.lt
  rw [le_antisymm_iff, place_le_place_iff hf ha.not_isNan hb.not_isNan,
    place_le_place_iff hf hb.not_isNan ha.not_isNan] at h
  exact le_antisymm h.1 h.2

/-! ### The operations by the order of keys -/

/-- Two patterns share a rank only as the two zeros. -/
theorem eq_or_zeros_of_rank_eq (ha : a < 2 * f.signBit) (hb : b < 2 * f.signBit)
    (h : f.rank a = f.rank b) : a = b ∨ a = 0 ∧ b = f.signBit ∨ a = f.signBit ∧ b = 0 := by
  have ha' := eq_withSign ha
  have hb' := eq_withSign hb
  rw [rank, rank] at h
  cases hsa : f.isNegative a <;> cases hsb : f.isNegative b <;>
    simp only [hsa, hsb, signed, withSign, Bool.false_eq_true, if_true, if_false] at h ha' hb' <;>
    omega

@[simp] theorem key_zero : f.key 0 = 0 := by
  simp [key, isNegative, magnitude]

@[simp] theorem key_signBit : f.key f.signBit = -1 := by
  simp [key, isNegative, magnitude, Nat.div_self signBit_pos]

theorem rank_lt_of_key_lt (h : f.rank a ≠ f.rank b) (hkey : f.key a ≤ f.key b) :
    f.rank a < f.rank b := by
  rw [rank, rank] at *
  rw [key, key] at hkey
  cases hsa : f.isNegative a <;> cases hsb : f.isNegative b <;>
    simp only [hsa, hsb, signed, Bool.false_eq_true, if_true, if_false] at h hkey ⊢ <;>
    omega

theorem isNan_eq_false (h : ¬f.IsNan a) : f.isNan a = false :=
  Bool.eq_false_iff.mpr (isNan_eq_true_iff.not.mpr h)

/-- Of two numbers the minimum is the one with the smaller key, and the maximum the other one. -/
theorem min_max_eq (ha : f.IsNumber a) (hb : f.IsNumber b) :
    f.min a b = (if f.key a ≤ f.key b then a else b) ∧
      f.max a b = if f.key a ≤ f.key b then b else a := by
  simp only [min, max, eq, lt, isNan_eq_false ha.not_isNan, isNan_eq_false hb.not_isNan]
  by_cases heq : f.rank a = f.rank b
  · obtain rfl | ⟨rfl, rfl⟩ | ⟨rfl, rfl⟩ := eq_or_zeros_of_rank_eq ha.lt hb.lt heq
    · simp
    · simp [heq]
    · simp [heq]
  · by_cases hkey : f.key a ≤ f.key b
    · have hlt := rank_lt_of_key_lt heq hkey
      simp [heq, hkey, hlt, hlt.not_gt]
    · have hlt := rank_lt_of_key_lt (Ne.symm heq) (Int.le_of_not_le hkey)
      simp [heq, hkey, hlt, hlt.not_gt]

/-! ### Picking one of two keys -/

/-- An operation that picks one of two keys, and gives the canonical pattern for what is not a
number. -/
structure Picks (f : Format) (op : Nat → Nat → Nat) (pick : Int → Int → Int) : Prop where
  of_isNan : ∀ {a b}, f.IsNan a ∨ f.IsNan b → op a b = f.canonicalNan
  isNumber : ∀ {a b}, f.IsNumber a → f.IsNumber b → f.IsNumber (op a b)
  key_eq : ∀ {a b}, f.IsNumber a → f.IsNumber b → f.key (op a b) = pick (f.key a) (f.key b)

theorem isNan_or {a b : Nat} (h : f.IsNan a ∨ f.IsNan b) : (f.isNan a || f.isNan b) = true := by
  rw [Bool.or_eq_true, isNan_eq_true_iff, isNan_eq_true_iff]
  exact h

theorem picks_min (f : Format) : f.Picks f.min Min.min := by
  refine ⟨fun h => if_pos (isNan_or h), ?_, ?_⟩
  · intro a b ha hb
    rw [(min_max_eq ha hb).1]
    split
    · exact ha
    · exact hb
  · intro a b ha hb
    rw [(min_max_eq ha hb).1, min_def, apply_ite f.key]

theorem picks_max (f : Format) : f.Picks f.max Max.max := by
  refine ⟨fun h => if_pos (isNan_or h), ?_, ?_⟩
  · intro a b ha hb
    rw [(min_max_eq ha hb).2]
    split
    · exact hb
    · exact ha
  · intro a b ha hb
    rw [(min_max_eq ha hb).2, max_def, apply_ite f.key]

namespace Picks

variable {op : Nat → Nat → Nat} {pick : Int → Int → Int}

theorem comm [hpick : Std.Commutative pick] (h : f.Picks op pick) (ha : a < 2 * f.signBit)
    (hb : b < 2 * f.signBit) : op a b = op b a := by
  by_cases hnan : f.IsNan a ∨ f.IsNan b
  · rw [h.of_isNan hnan, h.of_isNan hnan.symm]
  · rw [not_or] at hnan
    have ha' : f.IsNumber a := ⟨ha, hnan.1⟩
    have hb' : f.IsNumber b := ⟨hb, hnan.2⟩
    apply key_injective (h.isNumber ha' hb').lt (h.isNumber hb' ha').lt
    rw [h.key_eq ha' hb', h.key_eq hb' ha', hpick.comm]

/-- What is not a number on either side is passed on as the canonical pattern. -/
theorem assoc [hpick : Std.Associative pick] (h : f.Picks op pick) (hnan : f.IsNan f.canonicalNan)
    (ha : a < 2 * f.signBit) (hb : b < 2 * f.signBit) (hc : c < 2 * f.signBit) :
    op (op a b) c = op a (op b c) := by
  by_cases hab : f.IsNan a ∨ f.IsNan b
  · rw [h.of_isNan hab, h.of_isNan (.inl hnan)]
    rcases hab with ha' | hb'
    · rw [h.of_isNan (.inl ha')]
    · rw [h.of_isNan (.inl hb'), h.of_isNan (.inr hnan)]
  · rw [not_or] at hab
    by_cases hc' : f.IsNan c
    · rw [h.of_isNan (.inr hc'), h.of_isNan (.inr hc'), h.of_isNan (.inr hnan)]
    · have hna : f.IsNumber a := ⟨ha, hab.1⟩
      have hnb : f.IsNumber b := ⟨hb, hab.2⟩
      have hnc : f.IsNumber c := ⟨hc, hc'⟩
      have hleft := h.isNumber hna hnb
      have hright := h.isNumber hnb hnc
      apply key_injective (h.isNumber hleft hnc).lt (h.isNumber hna hright).lt
      rw [h.key_eq hleft hnc, h.key_eq hna hnb, h.key_eq hna hright, h.key_eq hnb hnc,
        hpick.assoc]

/-- The operation gives one of its operands. -/
theorem eq_or_eq (h : f.Picks op pick) (hpick : ∀ x y, pick x y = x ∨ pick x y = y)
    (ha : f.IsNumber a) (hb : f.IsNumber b) : op a b = a ∨ op a b = b := by
  have hlt := (h.isNumber ha hb).lt
  rcases hpick (f.key a) (f.key b) with hkey | hkey
  · exact .inl (key_injective hlt ha.lt ((h.key_eq ha hb).trans hkey))
  · exact .inr (key_injective hlt hb.lt ((h.key_eq ha hb).trans hkey))

/-- Two operations absorb each other if they do so on keys. -/
theorem absorb {op' : Nat → Nat → Nat} {pick' : Int → Int → Int} (h : f.Picks op pick)
    (h' : f.Picks op' pick') (hpick : ∀ x y, pick x (pick' x y) = x) (ha : f.IsNumber a)
    (hb : f.IsNumber b) : op a (op' a b) = a := by
  have hb' := h'.isNumber ha hb
  apply key_injective (h.isNumber ha hb').lt ha.lt
  rw [h.key_eq ha hb', h'.key_eq ha hb, hpick]

end Picks

/-- The smaller of two patterns has the lower of their places. -/
theorem place_min (hf : 0 < f.exponentBits) (ha : f.IsNumber a) (hb : f.IsNumber b) :
    f.place (f.min a b) = Min.min (f.place a) (f.place b) := by
  rw [(min_max_eq ha hb).1, min_def, apply_ite f.place]
  simp only [place_le_place_iff hf ha.not_isNan hb.not_isNan]

theorem place_max (hf : 0 < f.exponentBits) (ha : f.IsNumber a) (hb : f.IsNumber b) :
    f.place (f.max a b) = Max.max (f.place a) (f.place b) := by
  rw [(min_max_eq ha hb).2, max_def, apply_ite f.place]
  simp only [place_le_place_iff hf ha.not_isNan hb.not_isNan]

/-- The negative zero comes before the positive one. -/
theorem place_signBit_lt (hf : 0 < f.exponentBits) : f.place f.signBit < f.place 0 := by
  have hzero : ¬f.IsNan 0 := by simp [isNan_iff, magnitude]
  have hsign : ¬f.IsNan f.signBit := by simp [isNan_iff, magnitude]
  rw [← not_le, place_le_place_iff hf hzero hsign, key_zero, key_signBit]
  omega

/-! ### The laws -/

/-- What a meet and a join of patterns have to satisfy at three patterns: the laws of a lattice in
the order of places, which tells all numbers apart, and one answer for what is not a number. -/
structure LatticeLaws (f : Format) (nan : Nat) (meet join : Nat → Nat → Nat) (a b c : Nat) :
    Prop where
  meet_comm : meet a b = meet b a
  join_comm : join a b = join b a
  meet_assoc : meet (meet a b) c = meet a (meet b c)
  join_assoc : join (join a b) c = join a (join b c)
  meet_of_isNan : f.IsNan a ∨ f.IsNan b → meet a b = nan
  join_of_isNan : f.IsNan a ∨ f.IsNan b → join a b = nan
  place_inj : ¬f.IsNan a → ¬f.IsNan b → f.place a = f.place b → a = b
  place_zeros : f.place f.signBit < f.place 0
  isGLB : ¬f.IsNan a → ¬f.IsNan b → IsGLB {f.place a, f.place b} (f.place (meet a b))
  isLUB : ¬f.IsNan a → ¬f.IsNan b → IsLUB {f.place a, f.place b} (f.place (join a b))
  meet_self : ¬f.IsNan a → meet a a = a
  join_self : ¬f.IsNan a → join a a = a
  meet_eq_or_eq : ¬f.IsNan a → ¬f.IsNan b → meet a b = a ∨ meet a b = b
  join_eq_or_eq : ¬f.IsNan a → ¬f.IsNan b → join a b = a ∨ join a b = b
  meet_join : ¬f.IsNan a → ¬f.IsNan b → meet a (join a b) = a
  join_meet : ¬f.IsNan a → ¬f.IsNan b → join a (meet a b) = a

end Ieee.Format

namespace Width

/-- The canonical pattern for what is not a number. -/
def nan : Width → Nat
  | w32 => 0x7fc00000
  | w64 => 0x7ff8000000000000

theorem exponentBits_pos (w : Width) : 0 < w.format.exponentBits := by
  cases w <;> decide

theorem canonicalNan_format (w : Width) : w.format.canonicalNan = w.nan := by
  cases w <;> decide

theorem isNan_nan (w : Width) : w.format.IsNan w.nan := by
  cases w <;> exact ⟨by decide, by decide⟩

theorem toNat_lt_format (w : Width) (a : BitVec w.bits) : a.toNat < 2 * w.format.signBit := by
  cases w <;> exact a.isLt

end Width

/-- **Minimum and maximum form a lattice.**  On the patterns of either format they are commutative
and associative, answer with the canonical pattern if an operand is not a number, and on numbers are
the meet and the join. -/
theorem min_max_lattice (w : Width) (a b c : BitVec w.bits) :
    w.format.LatticeLaws w.nan (FloatBinary.min.eval w.format) (FloatBinary.max.eval w.format)
      a.toNat b.toNat c.toNat := by
  have hf := w.exponentBits_pos
  have hnan : w.format.IsNan w.format.canonicalNan := by
    rw [w.canonicalNan_format]
    exact w.isNan_nan
  have ha := w.toNat_lt_format a
  have hb := w.toNat_lt_format b
  have hc := w.toNat_lt_format c
  have hmin := Ieee.Format.picks_min w.format
  have hmax := Ieee.Format.picks_max w.format
  exact {
    meet_comm := hmin.comm ha hb
    join_comm := hmax.comm ha hb
    meet_assoc := hmin.assoc hnan ha hb hc
    join_assoc := hmax.assoc hnan ha hb hc
    meet_of_isNan := fun h => (hmin.of_isNan h).trans w.canonicalNan_format
    join_of_isNan := fun h => (hmax.of_isNan h).trans w.canonicalNan_format
    place_inj := fun ha' hb' => Ieee.Format.place_injective hf ⟨ha, ha'⟩ ⟨hb, hb'⟩
    place_zeros := Ieee.Format.place_signBit_lt hf
    isGLB := fun ha' hb' => by
      show IsGLB _ (w.format.place (w.format.min a.toNat b.toNat))
      rw [Ieee.Format.place_min hf ⟨ha, ha'⟩ ⟨hb, hb'⟩]
      exact isGLB_pair
    isLUB := fun ha' hb' => by
      show IsLUB _ (w.format.place (w.format.max a.toNat b.toNat))
      rw [Ieee.Format.place_max hf ⟨ha, ha'⟩ ⟨hb, hb'⟩]
      exact isLUB_pair
    meet_self := fun ha' => or_self_iff.mp (hmin.eq_or_eq min_choice ⟨ha, ha'⟩ ⟨ha, ha'⟩)
    join_self := fun ha' => or_self_iff.mp (hmax.eq_or_eq max_choice ⟨ha, ha'⟩ ⟨ha, ha'⟩)
    meet_eq_or_eq := fun ha' hb' => hmin.eq_or_eq min_choice ⟨ha, ha'⟩ ⟨hb, hb'⟩
    join_eq_or_eq := fun ha' hb' => hmax.eq_or_eq max_choice ⟨ha, ha'⟩ ⟨hb, hb'⟩
    meet_join := fun ha' hb' =>
      hmin.absorb hmax (fun _ _ => inf_sup_self) ⟨ha, ha'⟩ ⟨hb, hb'⟩
    join_meet := fun ha' hb' =>
      hmax.absorb hmin (fun _ _ => sup_inf_self) ⟨ha, ha'⟩ ⟨hb, hb'⟩ }

-- A zero against the other zero, and a signalling NaN.
example : FloatBinary.min.eval .binary32 0 0x80000000 = 0x80000000 ∧
    FloatBinary.max.eval .binary32 0x80000000 0 = 0 ∧
    FloatBinary.max.eval .binary64 1 0x7ff0000000000001 = 0x7ff8000000000000 :=
  ⟨rfl, rfl, rfl⟩

end Wasm
