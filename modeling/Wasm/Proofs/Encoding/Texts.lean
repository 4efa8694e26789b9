import Wasm.Text.Utf8

/-!
# Texts read back

`decode_encode`: the UTF-8 bytes of a text read back as the text.  There is one lemma for each
length of a sequence, which says under which bounds on its bytes it is read; the bytes of a
character are within them because a character is no surrogate and not above the last code point.
-/

namespace Wasm.Utf8

/-! ### The bytes of a text -/

theorem toList_loop (bytes : ByteArray) (i : Nat) (r : List UInt8) :
    ByteArray.toList.loop bytes i r = r.reverse ++ bytes.data.toList.drop i := by
  induction i, r using ByteArray.toList.loop.induct bytes with
  | case1 i r hi ih =>
    have hsize : i < bytes.data.toList.length := hi
    rw [ByteArray.toList.loop, if_pos hi, ih, List.drop_eq_getElem_cons hsize, List.reverse_cons,
      List.append_assoc, List.singleton_append, ByteArray.get!]
    have hget : bytes.data[i]! = bytes.data.toList[i] := getElem!_pos bytes.data i hi
    simp [hget]
  | case2 i r hi =>
    have hsize : bytes.data.toList.length ≤ i := Nat.not_lt.mp hi
    rw [ByteArray.toList.loop, if_neg hi, List.drop_eq_nil_of_le hsize, List.append_nil]

theorem toList_eq_data (bytes : ByteArray) : bytes.toList = bytes.data.toList := by
  rw [ByteArray.toList, toList_loop]
  rfl

theorem encode_eq_flatMap (s : String) : encode s = s.toList.flatMap String.utf8EncodeChar := by
  rw [encode, String.toUTF8_eq_toByteArray, ← String.utf8Encode_toList, toList_eq_data,
    List.utf8Encode, List.toList_data_toByteArray]

/-! ### Sequences -/

theorem isContinuation_of {b : UInt8} (h : 0x80 ≤ b.toNat ∧ b.toNat ≤ 0xbf) :
    isContinuation b = true := by
  simpa [isContinuation, UInt8.le_iff_toNat_le] using h

theorem decodeFrom_one {index : Nat} {a : UInt8} {rest : List UInt8} (ha : a.toNat < 0x80) :
    decodeFrom index (a :: rest) = (decodeFrom (index + 1) rest).map (Char.ofNat a.toNat :: ·) := by
  have h1 : a < 0x80 := UInt8.lt_iff_toNat_lt.mpr ha
  rw [decodeFrom.eq_def]
  simp only [h1, if_true]

theorem decodeFrom_two {index : Nat} {a b : UInt8} {rest : List UInt8}
    (ha : 0xc2 ≤ a.toNat ∧ a.toNat ≤ 0xdf) (hb : 0x80 ≤ b.toNat ∧ b.toNat ≤ 0xbf) :
    decodeFrom index (a :: b :: rest) =
      (decodeFrom (index + 2) rest).map
        (Char.ofNat (a.toNat % 32 * 64 + b.toNat % 64) :: ·) := by
  have h1 : ¬ a < 0x80 := by
    simp [UInt8.le_iff_toNat_le]
    omega
  have h2 : (decide (0xc2 ≤ a) && decide (a ≤ 0xdf)) = true := by
    simpa [UInt8.le_iff_toNat_le] using ha
  rw [decodeFrom.eq_def]
  dsimp only
  rw [if_neg h1, if_pos h2, if_pos (isContinuation_of hb)]
  rfl

theorem isSecondOfThree_of {a b : UInt8} (hb : 0x80 ≤ b.toNat ∧ b.toNat ≤ 0xbf)
    (hlong : a.toNat = 0xe0 → 0xa0 ≤ b.toNat) (hsurrogate : a.toNat = 0xed → b.toNat ≤ 0x9f) :
    isSecondOfThree a b = true := by
  simp only [isSecondOfThree, beq_iff_eq, ← UInt8.toNat_inj, UInt8.le_iff_toNat_le]
  split
  · next h => simpa using ⟨hlong h, hb.2⟩
  · split
    · next h => simpa using ⟨hb.1, hsurrogate h⟩
    · exact isContinuation_of hb

theorem decodeFrom_three {index : Nat} {a b c : UInt8} {rest : List UInt8}
    (ha : 0xe0 ≤ a.toNat ∧ a.toNat ≤ 0xef) (hb : isSecondOfThree a b = true)
    (hc : 0x80 ≤ c.toNat ∧ c.toNat ≤ 0xbf) :
    decodeFrom index (a :: b :: c :: rest) =
      (decodeFrom (index + 3) rest).map
        (Char.ofNat (a.toNat % 16 * 4096 + b.toNat % 64 * 64 + c.toNat % 64) :: ·) := by
  have h1 : ¬ a < 0x80 := by
    simp [UInt8.le_iff_toNat_le]
    omega
  have h2 : (decide (0xc2 ≤ a) && decide (a ≤ 0xdf)) = false := by
    simp [UInt8.le_iff_toNat_le]
    omega
  have h3 : (decide (0xe0 ≤ a) && decide (a ≤ 0xef)) = true := by
    simpa [UInt8.le_iff_toNat_le] using ha
  rw [decodeFrom.eq_def]
  dsimp only
  rw [if_neg h1, if_neg (by simp [h2]), if_pos h3, if_pos hb, if_pos (isContinuation_of hc)]
  rfl

theorem isSecondOfFour_of {a b : UInt8} (hb : 0x80 ≤ b.toNat ∧ b.toNat ≤ 0xbf)
    (hlong : a.toNat = 0xf0 → 0x90 ≤ b.toNat) (hlast : a.toNat = 0xf4 → b.toNat ≤ 0x8f) :
    isSecondOfFour a b = true := by
  simp only [isSecondOfFour, beq_iff_eq, ← UInt8.toNat_inj, UInt8.le_iff_toNat_le]
  split
  · next h => simpa using ⟨hlong h, hb.2⟩
  · split
    · next h => simpa using ⟨hb.1, hlast h⟩
    · exact isContinuation_of hb

theorem decodeFrom_four {index : Nat} {a b c d : UInt8} {rest : List UInt8}
    (ha : 0xf0 ≤ a.toNat ∧ a.toNat ≤ 0xf4) (hb : isSecondOfFour a b = true)
    (hc : 0x80 ≤ c.toNat ∧ c.toNat ≤ 0xbf) (hd : 0x80 ≤ d.toNat ∧ d.toNat ≤ 0xbf) :
    decodeFrom index (a :: b :: c :: d :: rest) =
      (decodeFrom (index + 4) rest).map
        (Char.ofNat (a.toNat % 8 * 262144 + b.toNat % 64 * 4096 + c.toNat % 64 * 64 +
          d.toNat % 64) :: ·) := by
  have h1 : ¬ a < 0x80 := by
    simp [UInt8.le_iff_toNat_le]
    omega
  have h2 : (decide (0xc2 ≤ a) && decide (a ≤ 0xdf)) = false := by
    simp [UInt8.le_iff_toNat_le]
    omega
  have h3 : (decide (0xe0 ≤ a) && decide (a ≤ 0xef)) = false := by
    simp [UInt8.le_iff_toNat_le]
    omega
  have h4 : (decide (0xf0 ≤ a) && decide (a ≤ 0xf4)) = true := by
    simpa [UInt8.le_iff_toNat_le] using ha
  rw [decodeFrom.eq_def]
  dsimp only
  rw [if_neg h1, if_neg (by simp [h2]), if_neg (by simp [h3]), if_pos h4, if_pos hb,
    if_pos (isContinuation_of hc), if_pos (isContinuation_of hd)]
  rfl

theorem toNat_ofNat {n : Nat} (h : n < 256) : (UInt8.ofNat n).toNat = n := by
  rw [UInt8.toNat_ofNat']
  omega

/-- A character that is written in front of other bytes is the first one that is read. -/
theorem decodeFrom_utf8EncodeChar (index : Nat) (c : Char) (rest : List UInt8) :
    decodeFrom index (String.utf8EncodeChar c ++ rest) =
      (decodeFrom (index + (String.utf8EncodeChar c).length) rest).map (c :: ·) := by
  have hvalid : c.toNat < 0xd800 ∨ 0xdfff < c.toNat ∧ c.toNat < 0x110000 := c.valid
  have hunfold : String.utf8EncodeChar c =
      if c.toNat ≤ 0x7f then [.ofNat c.toNat]
      else if c.toNat ≤ 0x7ff then
        [.ofNat (c.toNat / 64 % 32 + 0xc0), .ofNat (c.toNat % 64 + 0x80)]
      else if c.toNat ≤ 0xffff then
        [.ofNat (c.toNat / 4096 % 16 + 0xe0), .ofNat (c.toNat / 64 % 64 + 0x80),
          .ofNat (c.toNat % 64 + 0x80)]
      else
        [.ofNat (c.toNat / 262144 % 8 + 0xf0), .ofNat (c.toNat / 4096 % 64 + 0x80),
          .ofNat (c.toNat / 64 % 64 + 0x80), .ofNat (c.toNat % 64 + 0x80)] := rfl
  have hc : ∀ n, n = c.toNat → Char.ofNat n = c := by
    rintro _ rfl
    exact Char.ofNat_toNat c
  rw [hunfold]
  by_cases h1 : c.toNat ≤ 0x7f
  · have ha := @toNat_ofNat c.toNat (by omega)
    rw [if_pos h1]
    refine (decodeFrom_one (by omega)).trans ?_
    rw [hc _ ha]
    rfl
  by_cases h2 : c.toNat ≤ 0x7ff
  · have ha := @toNat_ofNat (c.toNat / 64 % 32 + 0xc0) (by omega)
    have hb := @toNat_ofNat (c.toNat % 64 + 0x80) (by omega)
    rw [if_neg h1, if_pos h2]
    refine (decodeFrom_two (by omega) (by omega)).trans ?_
    rw [ha, hb, hc _ (by omega)]
    rfl
  by_cases h3 : c.toNat ≤ 0xffff
  · have ha := @toNat_ofNat (c.toNat / 4096 % 16 + 0xe0) (by omega)
    have hb := @toNat_ofNat (c.toNat / 64 % 64 + 0x80) (by omega)
    have hc' := @toNat_ofNat (c.toNat % 64 + 0x80) (by omega)
    rw [if_neg h1, if_neg h2, if_pos h3]
    refine (decodeFrom_three (by omega)
      (isSecondOfThree_of (by omega) (by omega) (by omega)) (by omega)).trans ?_
    rw [ha, hb, hc', hc _ (by omega)]
    rfl
  · have ha := @toNat_ofNat (c.toNat / 262144 % 8 + 0xf0) (by omega)
    have hb := @toNat_ofNat (c.toNat / 4096 % 64 + 0x80) (by omega)
    have hc' := @toNat_ofNat (c.toNat / 64 % 64 + 0x80) (by omega)
    have hd := @toNat_ofNat (c.toNat % 64 + 0x80) (by omega)
    rw [if_neg h1, if_neg h2, if_neg h3]
    refine (decodeFrom_four (by omega) (isSecondOfFour_of (by omega) (by omega) (by omega))
      (by omega) (by omega)).trans ?_
    rw [ha, hb, hc', hd, hc _ (by omega)]
    rfl

/-! ### Texts -/

theorem decodeFrom_flatMap (index : Nat) (cs : List Char) :
    decodeFrom index (cs.flatMap String.utf8EncodeChar) = .ok cs := by
  induction cs generalizing index with
  | nil => rfl
  | cons c cs ih =>
    rw [List.flatMap_cons, decodeFrom_utf8EncodeChar, ih]
    rfl

/-- A text reads back from its bytes. -/
theorem decode_encode (s : String) : decode (encode s) = .ok s := by
  rw [decode, encode_eq_flatMap, decodeFrom_flatMap]
  show Except.ok (String.ofList s.toList) = _
  rw [String.ofList_toList]

end Wasm.Utf8
