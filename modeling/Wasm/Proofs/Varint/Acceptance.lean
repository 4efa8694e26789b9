import Mathlib.Algebra.Order.Floor.Div
import Mathlib.Algebra.Order.Ring.Int
import Mathlib.Data.Nat.Digits.Lemmas
import Mathlib.Data.Set.Defs
import Wasm.Binary.Reader

/-!
# What the readers of variable-length integers accept

A byte string starts with a number if one of its bytes is the last of a number, and then the bytes
up to this one are its numeral.  A reader of at most so many bits gives the value of the numeral if
the numeral has no more bytes than the bits need and its value is in range.  Otherwise it fails, and
one of two codes says why: the input has ended, while more bytes might have made a number of it, or
it is too long.  Signed and unsigned decoders go from byte to byte in the same way (`Steps`), so
that one induction settles both; the values differ in the last byte only, and the ranges shrink with
the groups of seven bits that have been read.
-/

namespace Wasm

namespace Varint

/-- The numeral that a byte string starts with: the bytes up to the first one whose highest bit is
not set. -/
def numeral? : List UInt8 → Option (List UInt8)
  | [] => none
  | b :: rest => if 128 ≤ b.toNat then (numeral? rest).map (b :: ·) else some [b]

/-- The bytes of one number: the highest bit is set in all but the last one. -/
inductive IsNumeral : List UInt8 → Prop
  | last {b : UInt8} : ¬128 ≤ b.toNat → IsNumeral [b]
  | more {b : UInt8} {numeral : List UInt8} : 128 ≤ b.toNat → IsNumeral numeral →
      IsNumeral (b :: numeral)

/-- The value of a numeral: its groups of seven bits are digits, the lowest first. -/
def unsignedValue (numeral : List UInt8) : Nat :=
  (numeral.mapIdx fun i b => b.toNat % 128 * 128 ^ i).sum

/-- The value of a numeral whose bits are a two's complement number. -/
def signedValue (numeral : List UInt8) : Int :=
  (BitVec.ofNat (7 * numeral.length) (unsignedValue numeral)).toInt

/-- The natural numbers of `bits` bits. -/
def unsignedRange (bits : Nat) : Set Nat :=
  {n | n < 2 ^ bits}

/-- The two's complement numbers of `bits` bits. -/
def signedRange (bits : Nat) : Set Int :=
  {n | -2 ^ (bits - 1) ≤ n ∧ n < 2 ^ (bits - 1)}

variable {b : UInt8} {bytes numeral rest : List UInt8} {bits : Nat}

/-! ### Numerals -/

/-- Another byte follows one whose highest bit is set. -/
theorem continues_iff (b : UInt8) : continues b = true ↔ 128 ≤ b.toNat :=
  decide_eq_true_iff

theorem numeral?_cons_of_continues (h : 128 ≤ b.toNat) :
    numeral? (b :: bytes) = (numeral? bytes).map (b :: ·) :=
  if_pos h

theorem numeral?_cons_of_not_continues (h : ¬128 ≤ b.toNat) : numeral? (b :: bytes) = some [b] :=
  if_neg h

theorem IsNumeral.numeral?_append (h : IsNumeral numeral) (rest : List UInt8) :
    numeral? (numeral ++ rest) = some numeral := by
  induction h with
  | last hb => exact numeral?_cons_of_not_continues hb
  | more hb _ ih => rw [List.cons_append, numeral?_cons_of_continues hb, ih, Option.map_some]

theorem IsNumeral.ne_nil (h : IsNumeral numeral) : numeral ≠ [] := by
  cases h <;> simp

/-- What a byte string starts with is one number at most. -/
theorem numeral?_eq_some_iff :
    numeral? bytes = some numeral ↔ IsNumeral numeral ∧ numeral <+: bytes := by
  constructor
  · intro h
    induction bytes generalizing numeral with
    | nil => cases h
    | cons b bytes ih =>
      by_cases hb : 128 ≤ b.toNat
      · rw [numeral?_cons_of_continues hb, Option.map_eq_some_iff] at h
        obtain ⟨numeral', hnumeral, rfl⟩ := h
        obtain ⟨hnumeral', hprefix⟩ := ih hnumeral
        exact ⟨.more hb hnumeral', (List.prefix_cons_inj b).mpr hprefix⟩
      · rw [numeral?_cons_of_not_continues hb] at h
        cases h
        exact ⟨.last hb, by simp⟩
  · rintro ⟨h, rest, rfl⟩
    exact h.numeral?_append rest

/-- There is no numeral where all bytes continue one. -/
theorem numeral?_eq_none_iff : numeral? bytes = none ↔ ∀ b ∈ bytes, 128 ≤ b.toNat := by
  induction bytes with
  | nil => simp [numeral?]
  | cons b bytes ih =>
    by_cases hb : 128 ≤ b.toNat
    · rw [numeral?_cons_of_continues hb]
      simp [hb, ih]
    · rw [numeral?_cons_of_not_continues hb]
      simp [hb]

theorem numeral?_append (h : numeral? bytes = some numeral) (more : List UInt8) :
    numeral? (bytes ++ more) = some numeral := by
  obtain ⟨hnumeral, rest, rfl⟩ := numeral?_eq_some_iff.mp h
  rw [List.append_assoc]
  exact hnumeral.numeral?_append (rest ++ more)

/-- Bytes that each continue a number are in front of every numeral. -/
theorem numeral?_append_of_none (h : numeral? bytes = none) (more : List UInt8) :
    numeral? (bytes ++ more) = (numeral? more).map (bytes ++ ·) := by
  rw [numeral?_eq_none_iff] at h
  induction bytes with
  | nil => simp
  | cons b bytes ih =>
    rw [List.cons_append, numeral?_cons_of_continues (h b (by simp)),
      ih fun b' hb' => h b' (List.mem_cons_of_mem b hb'), Option.map_map]
    rfl

/-! ### Values -/

theorem unsignedValue_eq (numeral : List UInt8) :
    unsignedValue numeral = Nat.ofDigits 128 (numeral.map group) := by
  rw [Nat.ofDigits_eq_sum_mapIdx, List.mapIdx_eq_zipIdx_map, List.zipIdx_map, List.map_map]
  rw [unsignedValue, List.mapIdx_eq_zipIdx_map]
  rfl

theorem unsignedValue_cons (b : UInt8) (numeral : List UInt8) :
    unsignedValue (b :: numeral) = group b + 128 * unsignedValue numeral := by
  simp only [unsignedValue_eq, List.map_cons, Nat.ofDigits_cons]

theorem unsignedValue_singleton (b : UInt8) : unsignedValue [b] = group b := by
  simp [unsignedValue, group]

theorem group_lt (b : UInt8) : group b < 128 :=
  Nat.mod_lt _ (by omega)

theorem unsignedValue_lt (numeral : List UInt8) :
    unsignedValue numeral < 2 ^ (7 * numeral.length) := by
  have hdigits : ∀ d ∈ numeral.map group, d < 128 := by
    intro d hd
    obtain ⟨b, -, rfl⟩ := List.mem_map.mp hd
    exact group_lt b
  have hlt := Nat.ofDigits_lt_base_pow_length (by omega) hdigits
  rw [List.length_map, ← unsignedValue_eq, show 128 = 2 ^ 7 from rfl, ← Nat.pow_mul] at hlt
  exact hlt

/-- The highest bit says whether a two's complement number is negative. -/
theorem signedValue_eq (numeral : List UInt8) :
    signedValue numeral =
      if 2 * unsignedValue numeral < 2 ^ (7 * numeral.length) then (unsignedValue numeral : Int)
      else unsignedValue numeral - (2 ^ (7 * numeral.length) : Nat) := by
  rw [signedValue, BitVec.toInt_eq_toNat_cond, BitVec.toNat_ofNat,
    Nat.mod_eq_of_lt (unsignedValue_lt numeral)]

theorem signedValue_singleton (b : UInt8) : signedValue [b] = signedGroup b := by
  rw [signedValue_eq, unsignedValue_singleton, signedGroup, List.length_singleton]
  split <;> split <;> omega

/-- A byte in front does not change the sign. -/
theorem signedValue_cons (b : UInt8) (h : numeral ≠ []) :
    signedValue (b :: numeral) = group b + 128 * signedValue numeral := by
  have hb := group_lt b
  have hlength := List.length_pos_iff.mpr h
  have hhalf : 2 ^ (7 * numeral.length) = 2 * 2 ^ (7 * numeral.length - 1) := by
    rw [← Nat.pow_succ', Nat.succ_eq_add_one, Nat.sub_add_cancel (by omega)]
  rw [signedValue_eq, signedValue_eq, unsignedValue_cons, List.length_cons, Nat.mul_succ,
    Nat.pow_add, hhalf]
  split <;> split <;> push_cast <;> omega

theorem signedGroup_mem (b : UInt8) : -64 ≤ signedGroup b ∧ signedGroup b < 64 := by
  have hb := group_lt b
  rw [signedGroup]
  split <;> omega

/-! ### Ranges -/

theorem mem_unsignedRange_of_lt {n : Nat} (hbits : 7 ≤ bits) (h : n < 128) :
    n ∈ unsignedRange bits :=
  Nat.lt_of_lt_of_le h (Nat.pow_le_pow_right (show 0 < 2 by omega) hbits)

theorem mem_unsignedRange_step {n : Nat} (hbits : 7 < bits) :
    group b + 128 * n ∈ unsignedRange bits ↔ n ∈ unsignedRange (bits - 7) := by
  have hb := group_lt b
  have hpow : 2 ^ bits = 128 * 2 ^ (bits - 7) := by
    rw [show 128 = 2 ^ 7 from rfl, ← Nat.pow_add, Nat.add_sub_cancel' (by omega)]
  show group b + 128 * n < 2 ^ bits ↔ n < 2 ^ (bits - 7)
  omega

theorem mem_signedRange_of_lt {n : Int} (hbits : 7 ≤ bits) (hlo : -64 ≤ n) (hhi : n < 64) :
    n ∈ signedRange bits := by
  have hpow : (2 : Int) ^ 6 ≤ 2 ^ (bits - 1) := by
    exact_mod_cast Nat.pow_le_pow_right (show 0 < 2 by omega) (show 6 ≤ bits - 1 by omega)
  exact ⟨by omega, by omega⟩

theorem mem_signedRange_step {n : Int} (hbits : 7 < bits) :
    (group b : Int) + 128 * n ∈ signedRange bits ↔ n ∈ signedRange (bits - 7) := by
  have hb := group_lt b
  have hpow : (2 : Int) ^ (bits - 1) = 128 * 2 ^ (bits - 7 - 1) := by
    rw [show bits - 1 = 7 + (bits - 7 - 1) by omega, Int.pow_add]
    rfl
  show -2 ^ (bits - 1) ≤ _ ∧ _ < 2 ^ (bits - 1) ↔ -2 ^ (bits - 7 - 1) ≤ n ∧ n < 2 ^ (bits - 7 - 1)
  rw [hpow]
  omega

/-! ### One byte at a time -/

open Classical in
/-- What there is to say about the number that a byte string starts with: its value and length, if
it has at most `most` bytes and is in range, and otherwise what is wrong with it. -/
noncomputable def answer {α : Type} (value : List UInt8 → α) (range : Set α) (most : Nat)
    (bytes : List UInt8) : Except Fault (α × Nat) :=
  match numeral? bytes with
  | some numeral =>
    if numeral.length ≤ most ∧ value numeral ∈ range then .ok (value numeral, numeral.length)
    else .error .tooLong
  | none => .error (if bytes.length < most then .ended else .tooLong)

/-- How a decoder goes on from byte to byte, and how values and ranges go with it. -/
structure Steps {α : Type} (decode : Nat → List UInt8 → Except Fault (α × Nat))
    (value : List UInt8 → α) (range : Nat → Set α) (extend : UInt8 → α → α) : Prop where
  nil : ∀ bits, decode bits [] = .error .ended
  last : ∀ {bits b rest}, ¬128 ≤ b.toNat → value [b] ∈ range bits →
    decode bits (b :: rest) = .ok (value [b], 1)
  last_error : ∀ {bits b rest}, ¬128 ≤ b.toNat → value [b] ∉ range bits →
    decode bits (b :: rest) = .error .tooLong
  more : ∀ {bits b rest}, 7 < bits → 128 ≤ b.toNat →
    decode bits (b :: rest) = (decode (bits - 7) rest).map fun p => (extend b p.1, p.2 + 1)
  more_error : ∀ {bits b rest}, bits ≤ 7 → 128 ≤ b.toNat →
    decode bits (b :: rest) = .error .tooLong
  value_cons : ∀ {b numeral}, numeral ≠ [] → value (b :: numeral) = extend b (value numeral)
  mem_step : ∀ {bits b a}, 7 < bits → (extend b a ∈ range bits ↔ a ∈ range (bits - 7))

section

variable {α : Type} {decode : Nat → List UInt8 → Except Fault (α × Nat)} {value : List UInt8 → α}
  {range : Nat → Set α} {extend : UInt8 → α → α}

/-- The bytes that the bits behind a group need. -/
theorem ceilDiv_step (h : 7 < bits) : bits ⌈/⌉ 7 = (bits - 7) ⌈/⌉ 7 + 1 := by
  rw [Nat.ceilDiv_eq_add_pred_div, Nat.ceilDiv_eq_add_pred_div]
  omega

theorem ceilDiv_eq_one (hpos : 0 < bits) (h : bits ≤ 7) : bits ⌈/⌉ 7 = 1 := by
  rw [Nat.ceilDiv_eq_add_pred_div]
  omega

/-- A byte that continues a number is too much for the last one. -/
theorem answer_more_error {most : Set α} (h : 128 ≤ b.toNat) :
    answer value most 1 (b :: rest) = .error .tooLong := by
  rw [answer, numeral?_cons_of_continues h]
  cases hrest : numeral? rest with
  | none => simp
  | some numeral =>
    have hpos := List.length_pos_iff.mpr (numeral?_eq_some_iff.mp hrest).1.ne_nil
    refine if_neg fun h => ?_
    have hle := h.1
    rw [List.length_cons] at hle
    omega

theorem Steps.answer_more (h : Steps decode value range extend) (hbits : 7 < bits)
    (hb : 128 ≤ b.toNat) (most : Nat) :
    answer value (range bits) (most + 1) (b :: rest) =
      (answer value (range (bits - 7)) most rest).map fun p => (extend b p.1, p.2 + 1) := by
  rw [answer, answer, numeral?_cons_of_continues hb]
  cases hrest : numeral? rest with
  | none => simp [Except.map]
  | some numeral =>
    have hvalue : value (b :: numeral) = extend b (value numeral) :=
      h.value_cons (numeral?_eq_some_iff.mp hrest).1.ne_nil
    have hiff : (b :: numeral).length ≤ most + 1 ∧ value (b :: numeral) ∈ range bits ↔
        numeral.length ≤ most ∧ value numeral ∈ range (bits - 7) := by
      rw [List.length_cons, Nat.add_le_add_iff_right, hvalue, h.mem_step hbits]
    simp only [Option.map_some]
    by_cases hc : numeral.length ≤ most ∧ value numeral ∈ range (bits - 7)
    · rw [if_pos (hiff.mpr hc), if_pos hc, hvalue]
      rfl
    · rw [if_neg (hiff.not.mpr hc), if_neg hc]
      rfl

/-- A decoder that goes from byte to byte accepts what there is to accept. -/
theorem Steps.decode_eq (h : Steps decode value range extend) (hbits : 0 < bits)
    (bytes : List UInt8) :
    decode bits bytes = answer value (range bits) (bits ⌈/⌉ 7) bytes := by
  have hmost : 0 < bits ⌈/⌉ 7 := by
    rw [Nat.ceilDiv_eq_add_pred_div]
    omega
  induction bytes generalizing bits with
  | nil => simp [h.nil, answer, numeral?, hmost]
  | cons b rest ih =>
    by_cases hb : 128 ≤ b.toNat
    · by_cases hle : bits ≤ 7
      · rw [h.more_error hle hb, ceilDiv_eq_one hbits hle, answer_more_error hb]
      · have hmore : 7 < bits := by omega
        have hpos : 0 < (bits - 7) ⌈/⌉ 7 := by
          rw [Nat.ceilDiv_eq_add_pred_div]
          omega
        rw [h.more hmore hb, ih (by omega) hpos, ceilDiv_step hmore, h.answer_more hmore hb]
    · rw [answer, numeral?_cons_of_not_continues hb]
      by_cases hmem : value [b] ∈ range bits
      · simp [h.last hb hmem, hmem, Nat.succ_le_iff, hmost]
      · simp [h.last_error hb hmem, hmem]

end

theorem steps_unsigned :
    Steps decodeUnsigned unsignedValue unsignedRange fun b n => group b + 128 * n := by
  refine ⟨fun _ => rfl, ?_, ?_, ?_, ?_, fun _ => unsignedValue_cons _ _, mem_unsignedRange_step⟩ <;>
    intro bits b rest
  · intro hb hmem
    rw [← continues_iff] at hb
    rw [unsignedValue_singleton] at hmem ⊢
    have hlt : ¬1 <<< bits ≤ group b := by
      rw [Nat.one_shiftLeft]
      exact Nat.not_le.mpr hmem
    simp [decodeUnsigned, hb, hlt]
  · intro hb hmem
    rw [unsignedValue_singleton] at hmem
    have hbits : bits ≤ 7 := by
      by_contra hbits
      exact hmem (mem_unsignedRange_of_lt (by omega) (group_lt b))
    have hle : 1 <<< bits ≤ group b := by
      rw [Nat.one_shiftLeft]
      exact Nat.not_lt.mp hmem
    simp [decodeUnsigned, hbits, hle]
  · intro hbits hb
    rw [decodeUnsigned, if_neg (by omega), if_pos ((continues_iff b).mpr hb)]
    cases decodeUnsigned (bits - 7) rest <;> rfl
  · intro hbits hb
    simp [decodeUnsigned, hbits, (continues_iff b).mpr hb]

theorem steps_signed :
    Steps decodeSigned signedValue signedRange fun b n => group b + 128 * n := by
  have hbound : ∀ bits b, ¬(signedGroup b < -((1 <<< (bits - 1) : Nat) : Int) ∨
      ((1 <<< (bits - 1) : Nat) : Int) ≤ signedGroup b) ↔ signedGroup b ∈ signedRange bits := by
    intro bits b
    show _ ↔ -2 ^ (bits - 1) ≤ signedGroup b ∧ signedGroup b < 2 ^ (bits - 1)
    rw [Nat.one_shiftLeft, Nat.cast_pow, Nat.cast_ofNat]
    omega
  refine ⟨fun _ => rfl, ?_, ?_, ?_, ?_, signedValue_cons _, mem_signedRange_step⟩ <;>
    intro bits b rest
  · intro hb hmem
    rw [← continues_iff] at hb
    rw [signedValue_singleton] at hmem ⊢
    simp only [decodeSigned, hb, false_or, if_neg ((hbound bits b).mpr hmem), ite_self, if_false,
      Bool.false_eq_true]
  · intro hb hmem
    rw [signedValue_singleton] at hmem
    have hbits : bits ≤ 7 := by
      by_contra hbits
      have hgroup := signedGroup_mem b
      exact hmem (mem_signedRange_of_lt (by omega) hgroup.1 hgroup.2)
    have hout := not_not.mp ((hbound bits b).not.mpr hmem)
    simp only [decodeSigned, if_pos hbits, hout, or_true, if_true]
  · intro hbits hb
    rw [decodeSigned, if_neg (by omega), if_pos ((continues_iff b).mpr hb)]
    cases decodeSigned (bits - 7) rest <;> rfl
  · intro hbits hb
    simp [decodeSigned, hbits, (continues_iff b).mpr hb]

/-! ### The three answers -/

/-- A byte string starts with a numeral of at most `most` bytes that is in range: its value is `a`
and its length is `size`. -/
def Starts {α : Type} (value : List UInt8 → α) (range : Set α) (most : Nat) (bytes : List UInt8)
    (a : α) (size : Nat) : Prop :=
  ∃ numeral, numeral? bytes = some numeral ∧ size = numeral.length ∧ size ≤ most ∧
    a = value numeral ∧ a ∈ range

/-- A byte string ends before a number does, and before it has `most` bytes. -/
def Ended (most : Nat) (bytes : List UInt8) : Prop :=
  bytes.length < most ∧ ∀ b ∈ bytes, 128 ≤ b.toNat

section

variable {α : Type} {value : List UInt8 → α} {range : Set α} {most : Nat}

theorem answer_eq_ok_iff {a : α} {size : Nat} :
    answer value range most bytes = .ok (a, size) ↔ Starts value range most bytes a size := by
  rw [answer, Starts]
  cases numeral? bytes with
  | none => simp
  | some numeral =>
    by_cases hc : numeral.length ≤ most ∧ value numeral ∈ range
    · simp only [if_pos hc, Except.ok.injEq, Prod.mk.injEq, Option.some.injEq, exists_eq_left']
      constructor
      · rintro ⟨rfl, rfl⟩
        exact ⟨rfl, hc.1, rfl, hc.2⟩
      · rintro ⟨rfl, -, rfl, -⟩
        exact ⟨rfl, rfl⟩
    · simp only [if_neg hc, reduceCtorEq, Option.some.injEq, exists_eq_left', false_iff]
      rintro ⟨rfl, hle, rfl, hmem⟩
      exact hc ⟨hle, hmem⟩

theorem answer_eq_ended_iff (value : List UInt8 → α) (range : Set α) :
    answer value range most bytes = .error .ended ↔ Ended most bytes := by
  rw [answer, Ended, ← numeral?_eq_none_iff]
  cases numeral? bytes with
  | none =>
    by_cases hlt : bytes.length < most
    · simp [hlt]
    · simp [hlt]
  | some numeral =>
    by_cases hc : numeral.length ≤ most ∧ value numeral ∈ range
    · simp [hc]
    · simp [hc]

/-- What is neither a number nor the beginning of one is too long. -/
theorem answer_eq_tooLong_iff :
    answer value range most bytes = .error .tooLong ↔
      (¬∃ a size, Starts value range most bytes a size) ∧ ¬Ended most bytes := by
  simp only [← answer_eq_ok_iff, ← answer_eq_ended_iff value range]
  cases answer value range most bytes with
  | ok p =>
    obtain ⟨a, size⟩ := p
    simp
  | error fault => cases fault <;> simp

/-- The number that a byte string starts with is that of its first bytes alone. -/
theorem Starts.take {a : α} {size : Nat} (h : Starts value range most bytes a size) :
    size ≤ bytes.length ∧ ∀ rest, Starts value range most (bytes.take size ++ rest) a size := by
  obtain ⟨numeral, hnumeral, rfl, hle, ha, hmem⟩ := h
  obtain ⟨hnumeral', rest, rfl⟩ := numeral?_eq_some_iff.mp hnumeral
  refine ⟨by simp, fun rest' => ?_⟩
  rw [List.take_left]
  exact ⟨numeral, hnumeral'.numeral?_append rest', rfl, hle, ha, hmem⟩

/-- Bytes that are too long for a number stay so in front of more bytes. -/
theorem tooLong_append (hstarts : ¬∃ a size, Starts value range most bytes a size)
    (hended : ¬Ended most bytes) (more : List UInt8) :
    (¬∃ a size, Starts value range most (bytes ++ more) a size) ∧ ¬Ended most (bytes ++ more) := by
  constructor
  · rintro ⟨a, size, numeral, hnumeral, rfl, hle, ha, hmem⟩
    cases hbytes : numeral? bytes with
    | some numeral' =>
      cases (numeral?_append hbytes more).symm.trans hnumeral
      exact hstarts ⟨a, _, numeral, hbytes, rfl, hle, ha, hmem⟩
    | none =>
      rw [numeral?_append_of_none hbytes, Option.map_eq_some_iff] at hnumeral
      obtain ⟨numeral', hmore, rfl⟩ := hnumeral
      have hpos := List.length_pos_iff.mpr (numeral?_eq_some_iff.mp hmore).1.ne_nil
      rw [List.length_append] at hle
      exact hended ⟨by omega, numeral?_eq_none_iff.mp hbytes⟩
  · rintro ⟨hlength, hall⟩
    rw [List.length_append] at hlength
    exact hended ⟨by omega, fun b hb => hall b (List.mem_append_left more hb)⟩

end

end Varint

namespace Binary

open Varint

/-- A reader gives the value and the length of the numeral it finds, if the numeral has at most
`most` bytes and is in range, and fails otherwise, for one of two reasons. -/
structure ReadsNumber {α : Type} (read : Reader α) (value : List UInt8 → α) (range : Set α)
    (most : Nat) (c : Cursor) : Prop where
  ok_iff : ∀ a c', read c = .ok (a, c') ↔
    ∃ size, Starts value range most c.rest a size ∧ c' = ⟨c.offset + size, c.rest.drop size⟩
  unexpectedEnd_iff : (∃ e, read c = .error e ∧ e.code = Code.unexpectedEnd) ↔ Ended most c.rest
  varintOverflow_iff : (∃ e, read c = .error e ∧ e.code = Code.varintOverflow) ↔
    (¬∃ a size, Starts value range most c.rest a size) ∧ ¬Ended most c.rest

/-- A decoder whose answers are right makes a reader whose answers are right. -/
theorem readsNumber_of_decode {α : Type} {decode : List UInt8 → Except Fault (α × Nat)}
    {read : Reader α} {value : List UInt8 → α} {range : Set α} {most bits : Nat}
    {kind letter : String} {c : Cursor}
    (hdecode : ∀ bytes, decode bytes = answer value range most bytes)
    (hok : ∀ {p : α × Nat}, decode c.rest = .ok p →
      read c = .ok (p.1, ⟨c.offset + p.2, c.rest.drop p.2⟩))
    (herror : ∀ {fault : Fault}, decode c.rest = .error fault →
      read c = .error (Reader.varintError fault kind letter bits c.offset)) :
    ReadsNumber read value range most c := by
  have hrest := hdecode c.rest
  refine ⟨?_, ?_, ?_⟩
  · intro a c'
    simp only [← answer_eq_ok_iff]
    cases hanswer : answer value range most c.rest with
    | ok p =>
      rw [hok (hrest.trans hanswer)]
      constructor
      · intro h
        cases h
        exact ⟨p.2, rfl, rfl⟩
      · rintro ⟨size, h, rfl⟩
        cases h
        rfl
    | error fault =>
      rw [herror (hrest.trans hanswer)]
      simp
  · rw [← answer_eq_ended_iff value range]
    cases hanswer : answer value range most c.rest with
    | ok p =>
      rw [hok (hrest.trans hanswer)]
      simp
    | error fault =>
      rw [herror (hrest.trans hanswer)]
      cases fault <;>
        simp [Reader.varintError, unexpectedEnd, Error.parse, Code.unexpectedEnd, Code.varintOverflow]
  · rw [← answer_eq_tooLong_iff]
    cases hanswer : answer value range most c.rest with
    | ok p =>
      rw [hok (hrest.trans hanswer)]
      simp
    | error fault =>
      rw [herror (hrest.trans hanswer)]
      cases fault <;>
        simp [Reader.varintError, unexpectedEnd, Error.parse, Code.unexpectedEnd, Code.varintOverflow]

/-- A reader of numbers fails for one of two reasons. -/
theorem ReadsNumber.code_of_error {α : Type} {read : Reader α} {value : List UInt8 → α}
    {range : Set α} {most : Nat} {c : Cursor} {e : Error}
    (hread : ReadsNumber read value range most c) (h : read c = .error e) :
    e.code = Code.unexpectedEnd ∨ e.code = Code.varintOverflow ∧
      (¬∃ a size, Starts value range most c.rest a size) ∧ ¬Ended most c.rest := by
  by_cases hended : Ended most c.rest
  · left
    obtain ⟨e', h', hcode⟩ := hread.unexpectedEnd_iff.mpr hended
    cases h.symm.trans h'
    exact hcode
  · right
    have hstarts : ¬∃ a size, Starts value range most c.rest a size := by
      rintro ⟨a, size, hstarts⟩
      cases h.symm.trans ((hread.ok_iff a _).mpr ⟨size, hstarts, rfl⟩)
    obtain ⟨e', h', hcode⟩ := hread.varintOverflow_iff.mpr ⟨hstarts, hended⟩
    cases h.symm.trans h'
    exact ⟨hcode, hstarts, hended⟩

variable {bits : Nat}

theorem readsNumber_unsigned (h : 0 < bits) (c : Cursor) :
    ReadsNumber (Reader.unsigned bits) unsignedValue (unsignedRange bits) (bits ⌈/⌉ 7) c :=
  readsNumber_of_decode (steps_unsigned.decode_eq h) (fun h => by rw [Reader.unsigned, h])
    (fun h => by rw [Reader.unsigned, h])

theorem readsNumber_signed (h : 0 < bits) (c : Cursor) :
    ReadsNumber (Reader.signed bits) signedValue (signedRange bits) (bits ⌈/⌉ 7) c :=
  readsNumber_of_decode (steps_signed.decode_eq h) (fun h => by rw [Reader.signed, h])
    (fun h => by rw [Reader.signed, h])

/-- **The readers of variable-length integers are exact.**  For every number of bits and at every
place of an input they accept the numerals of as few bytes as the bits need whose value the bits can
hold, signed or unsigned. -/
theorem varint_readers_exact (h : 0 < bits) (bytes : List UInt8) (pos : Nat) :
    ReadsNumber (Reader.unsigned bits) unsignedValue (unsignedRange bits) (bits ⌈/⌉ 7)
        (.at bytes pos) ∧
      ReadsNumber (Reader.signed bits) signedValue (signedRange bits) (bits ⌈/⌉ 7)
        (.at bytes pos) :=
  ⟨readsNumber_unsigned h _, readsNumber_signed h _⟩

/-- The last byte of a signed number of eight bits has one bit to itself. -/
theorem varint_of_eight_bits : 0 < 8 ∧
    Reader.signed 8 (.at [0xff, 0x80, 0x7f] 1) = .ok (-128, .at [0xff, 0x80, 0x7f] 3) := by
  have h := (varint_readers_exact (show 0 < 8 by decide) [0xff, 0x80, 0x7f] 1).2
  refine ⟨by decide, (h.ok_iff _ _).mpr ⟨2, ⟨[0x80, 0x7f], ?_, ?_, ?_, ?_, ?_⟩, ?_⟩⟩
  · decide
  · decide
  · decide
  · decide
  · exact ⟨by decide, by decide⟩
  · decide

end Binary

end Wasm
