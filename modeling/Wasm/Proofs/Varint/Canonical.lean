import Wasm.Proofs.Encoding.Reads
import Wasm.Proofs.Varint.Acceptance

/-!
# The shortest form of a number

What the writers of variable-length integers make of a number is a numeral with its value, and every
other numeral with this value is longer (`Shortest`).  For unsigned numbers a longer one ends in
groups that are zero; for signed numbers in groups that repeat the sign.  So a reader gives back
what was written, and gives it for no other bytes unless there are more of them; numbers that are
out of its range it finds too long, wherever the excess bits are.
-/

namespace Wasm

namespace Varint

/-- The writer of numbers makes a numeral of each that has its value, and that is shorter than any
other numeral with this value. -/
structure Shortest {α : Type} (encode : α → List UInt8) (value : List UInt8 → α) : Prop where
  isNumeral : ∀ a, IsNumeral (encode a)
  value_encode : ∀ a, value (encode a) = a
  eq_or_lt : ∀ {numeral}, IsNumeral numeral →
    numeral = encode (value numeral) ∨ (encode (value numeral)).length < numeral.length

variable {b : UInt8} {numeral : List UInt8}

/-- A byte is its group, and the mark that another byte follows. -/
theorem ofNat_group (b : UInt8) :
    .ofNat (if 128 ≤ b.toNat then group b + 128 else group b) = b := by
  have hb : b.toNat < 256 := b.toNat_lt
  rw [← UInt8.toNat_inj, UInt8.toNat_ofNat', group]
  split <;> omega

/-! ### Unsigned numbers -/

theorem encodeUnsigned_last (h : ¬128 ≤ b.toNat) : encodeUnsigned (group b) = [b] := by
  have hgroup := ofNat_group b
  rw [if_neg h] at hgroup
  rw [encodeUnsigned, if_pos (group_lt b), hgroup]

theorem encodeUnsigned_more (h : 128 ≤ b.toNat) {n : Nat} (hn : 0 < n) :
    encodeUnsigned (group b + 128 * n) = b :: encodeUnsigned n := by
  have hb := group_lt b
  have hgroup := ofNat_group b
  rw [if_pos h] at hgroup
  rw [encodeUnsigned, if_neg (by omega), show (group b + 128 * n) % 128 = group b by omega,
    show (group b + 128 * n) / 128 = n by omega, hgroup]

theorem length_encodeUnsigned_of_lt {n : Nat} (h : n < 128) : (encodeUnsigned n).length = 1 := by
  rw [encodeUnsigned, if_pos h, List.length_singleton]

theorem isNumeral_encodeUnsigned (n : Nat) : IsNumeral (encodeUnsigned n) := by
  induction n using encodeUnsigned.induct with
  | case1 n hlast =>
    rw [encodeUnsigned, if_pos hlast]
    refine .last ?_
    rw [UInt8.toNat_ofNat']
    omega
  | case2 n hmore ih =>
    rw [encodeUnsigned, if_neg hmore]
    exact .more ((continues_iff _).mp (continues_inner (Nat.mod_lt n (by omega))).1) ih

theorem unsignedValue_encodeUnsigned (n : Nat) : unsignedValue (encodeUnsigned n) = n := by
  induction n using encodeUnsigned.induct with
  | case1 n hlast =>
    rw [encodeUnsigned, if_pos hlast, unsignedValue_singleton, (continues_last hlast).2]
  | case2 n hmore ih =>
    rw [encodeUnsigned, if_neg hmore, unsignedValue_cons, ih,
      (continues_inner (Nat.mod_lt n (by omega))).2]
    omega

/-- A longer numeral of the same number ends in groups that are zero. -/
theorem shortest_unsigned : Shortest encodeUnsigned unsignedValue := by
  refine ⟨isNumeral_encodeUnsigned, unsignedValue_encodeUnsigned, ?_⟩
  intro numeral h
  induction h with
  | last hb =>
    left
    rw [unsignedValue_singleton, encodeUnsigned_last hb]
  | @more b numeral hb hnumeral ih =>
    rw [unsignedValue_cons]
    obtain hzero | hpos := Nat.eq_zero_or_pos (unsignedValue numeral)
    · right
      have hlength := List.length_pos_iff.mpr hnumeral.ne_nil
      rw [hzero, Nat.mul_zero, Nat.add_zero, length_encodeUnsigned_of_lt (group_lt b),
        List.length_cons]
      omega
    · rw [encodeUnsigned_more hb hpos]
      simpa using ih

/-! ### Signed numbers -/

theorem encodeSigned_last (h : ¬128 ≤ b.toNat) : encodeSigned (signedGroup b) = [b] := by
  have hb := group_lt b
  have hgroup := ofNat_group b
  rw [if_neg h] at hgroup
  have hmod : (signedGroup b % 128).toNat = group b := by
    rw [signedGroup]
    split <;> omega
  rw [encodeSigned, if_pos (signedGroup_mem b), hmod, hgroup]

theorem encodeSigned_more (h : 128 ≤ b.toNat) {n : Int}
    (hn : ¬(-64 ≤ group b + 128 * n ∧ group b + 128 * n < 64)) :
    encodeSigned (group b + 128 * n) = b :: encodeSigned n := by
  have hb := group_lt b
  have hgroup := ofNat_group b
  rw [if_pos h] at hgroup
  rw [encodeSigned, if_neg hn, show ((group b + 128 * n) % 128).toNat = group b by omega,
    show (group b + 128 * n) / 128 = n by omega, hgroup]

theorem length_encodeSigned_of_mem {n : Int} (h : -64 ≤ n ∧ n < 64) :
    (encodeSigned n).length = 1 := by
  rw [encodeSigned, if_pos h, List.length_singleton]

theorem isNumeral_encodeSigned (n : Int) : IsNumeral (encodeSigned n) := by
  induction n using encodeSigned.induct with
  | case1 n hlast =>
    rw [encodeSigned, if_pos hlast]
    refine .last ?_
    rw [UInt8.toNat_ofNat']
    omega
  | case2 n hmore ih =>
    rw [encodeSigned, if_neg hmore]
    exact .more ((continues_iff _).mp (continues_inner (by omega)).1) ih

theorem signedValue_encodeSigned (n : Int) : signedValue (encodeSigned n) = n := by
  induction n using encodeSigned.induct with
  | case1 n hlast =>
    rw [encodeSigned, if_pos hlast, signedValue_singleton, (signedGroup_last hlast.1 hlast.2).2]
  | case2 n hmore ih =>
    have hgroup := (@continues_inner (n % 128).toNat (by omega)).2
    rw [encodeSigned, if_neg hmore, signedValue_cons _ (isNumeral_encodeSigned _).ne_nil, ih,
      hgroup]
    omega

/-- A longer numeral of the same number ends in groups that repeat the sign. -/
theorem shortest_signed : Shortest encodeSigned signedValue := by
  refine ⟨isNumeral_encodeSigned, signedValue_encodeSigned, ?_⟩
  intro numeral h
  induction h with
  | last hb =>
    left
    rw [signedValue_singleton, encodeSigned_last hb]
  | @more b numeral hb hnumeral ih =>
    rw [signedValue_cons b hnumeral.ne_nil]
    by_cases hsmall : -64 ≤ group b + 128 * signedValue numeral ∧
        group b + 128 * signedValue numeral < 64
    · right
      have hlength := List.length_pos_iff.mpr hnumeral.ne_nil
      rw [length_encodeSigned_of_mem hsmall, List.length_cons]
      omega
    · rw [encodeSigned_more hb hsmall]
      simpa using ih

end Varint

namespace Binary

open Varint

/-- A writer and its reader.  The reader gives back what was written and leaves what follows; what
else it takes for the same value is longer than what was written; and no value is written as the
beginning of another one. -/
structure Canonical {α : Type} (read : Reader α) (write : α → List UInt8) : Prop where
  reads : ∀ a, Reads read (write a) a
  eq_or_lt : ∀ {a c c'}, read c = .ok (a, c') → ∃ bytes, c.rest = bytes ++ c'.rest ∧
    c'.offset = c.offset + bytes.length ∧
    (bytes = write a ∨ (write a).length < bytes.length)
  prefixFree : ∀ {a b}, write a <+: write b → a = b

/-- The reader finds the bytes too long for a number, whatever follows them. -/
def Overflows {α : Type} (read : Reader α) (bytes : List UInt8) : Prop :=
  ∀ offset rest, ∃ e, read ⟨offset, bytes ++ rest⟩ = .error e ∧ e.code = Code.varintOverflow

section

variable {α β : Type} {read : Reader β} {encode : β → List UInt8} {value : List UInt8 → β}
  {range : Set β} {most : Nat}

theorem map_eq_ok {f : β → α} {c c' : Cursor} {a : α} (h : (f <$> read) c = .ok (a, c')) :
    ∃ b, read c = .ok (b, c') ∧ a = f b := by
  rw [map_eq_pure_bind] at h
  obtain ⟨b, c₁, hread, hpure⟩ := bind_eq_ok h
  cases hpure
  exact ⟨b, hread, rfl⟩

theorem ReadsNumber.eq_or_lt {c c' : Cursor} {b : β} (hread : ReadsNumber read value range most c)
    (hencode : Shortest encode value) (h : read c = .ok (b, c')) :
    b ∈ range ∧ ∃ bytes, c.rest = bytes ++ c'.rest ∧ c'.offset = c.offset + bytes.length ∧
      (bytes = encode b ∨ (encode b).length < bytes.length) := by
  obtain ⟨size, ⟨numeral, hnumeral, rfl, -, rfl, hmem⟩, rfl⟩ := (hread.ok_iff b c').mp h
  obtain ⟨hnumeral', rest, hrest⟩ := numeral?_eq_some_iff.mp hnumeral
  refine ⟨hmem, numeral, ?_, rfl, hencode.eq_or_lt hnumeral'⟩
  simp only [← hrest, List.drop_left]

/-- A reader of numbers that takes them for the values of another type, of which each has one
number. -/
theorem canonical_map (hread : ∀ c, ReadsNumber read value range most c)
    (hencode : Shortest encode value) {f : β → α} {g : α → β} (hback : ∀ b ∈ range, g (f b) = b)
    (hreads : ∀ a, Reads (f <$> read) (encode (g a)) a) :
    Canonical (f <$> read) fun a => encode (g a) := by
  refine ⟨hreads, ?_, ?_⟩
  · intro a c c' h
    obtain ⟨b, hb, rfl⟩ := map_eq_ok h
    obtain ⟨hmem, hbytes⟩ := (hread c).eq_or_lt hencode hb
    rwa [hback b hmem]
  · rintro a b ⟨rest, happend⟩
    rw [← List.append_nil (encode (g b))] at happend
    exact ((hreads a).unique (hreads b) happend).2.2

/-- Out of range the shortest form is too long. -/
theorem overflows_of_notMem (hread : ∀ c, ReadsNumber read value range most c)
    (hencode : Shortest encode value) {b : β} (h : b ∉ range) : Overflows read (encode b) := by
  intro offset rest
  have hnumeral := (hencode.isNumeral b).numeral?_append rest
  refine (hread ⟨offset, encode b ++ rest⟩).varintOverflow_iff.mpr ⟨?_, ?_⟩
  · rintro ⟨a, size, numeral, hnumeral', -, -, rfl, hmem⟩
    cases hnumeral.symm.trans hnumeral'
    rw [hencode.value_encode] at hmem
    exact h hmem
  · rintro ⟨-, hall⟩
    cases hnumeral.symm.trans (numeral?_eq_none_iff.mpr hall)

theorem Overflows.map {bytes : List UInt8} (h : Overflows read bytes) (f : β → α) :
    Overflows (f <$> read) bytes := by
  intro offset rest
  obtain ⟨e, hread, hcode⟩ := h offset rest
  refine ⟨e, ?_, hcode⟩
  show (read _).bind _ = _
  rw [hread]
  rfl

end

/-! ### The readers and writers of integers -/

theorem reads_u64 (n : UInt64) : Reads Reader.u64 (Writer.u64 n) n := by
  have h := (@reads_unsigned 64 n.toNat n.toNat_lt).map UInt64.ofNat
  rwa [UInt64.ofNat_toNat] at h

theorem canonical_u32 : Canonical Reader.u32 Writer.u32 :=
  canonical_map (readsNumber_unsigned (by decide)) shortest_unsigned
    (fun _ h => UInt32.toNat_ofNat_of_lt' h) reads_u32

theorem canonical_u64 : Canonical Reader.u64 Writer.u64 :=
  canonical_map (readsNumber_unsigned (by decide)) shortest_unsigned
    (fun _ h => UInt64.toNat_ofNat_of_lt' h) reads_u64

theorem canonical_i32 : Canonical Reader.i32 Writer.i32 := by
  refine canonical_map (readsNumber_signed (by decide)) shortest_signed ?_ reads_i32
  intro n hn
  have hlo : -2 ^ 31 ≤ n := hn.1
  have hhi : n < 2 ^ 31 := hn.2
  have hbits : (UInt32.ofNat (n % 4294967296).toNat).toNat = (n % 4294967296).toNat :=
    UInt32.toNat_ofNat_of_lt' (show _ < 4294967296 by omega)
  rw [toInt_toInt32, hbits]
  split <;> omega

theorem canonical_i64 : Canonical Reader.i64 Writer.i64 := by
  refine canonical_map (readsNumber_signed (by decide)) shortest_signed ?_ reads_i64
  intro n hn
  have hlo : -2 ^ 63 ≤ n := hn.1
  have hhi : n < 2 ^ 63 := hn.2
  have hbits : (UInt64.ofNat (n % 18446744073709551616).toNat).toNat =
      (n % 18446744073709551616).toNat :=
    UInt64.toNat_ofNat_of_lt' (show _ < 18446744073709551616 by omega)
  rw [toInt_toInt64, hbits]
  split <;> omega

/-- **The writers of variable-length integers are canonical.**  Each gives the one shortest form
that its reader reads back, whatever follows it.  A reader of fewer bits reads what was written for
more bits if its range has the number, and finds it too long otherwise. -/
theorem varint_writers_canonical :
    (Canonical Reader.u32 Writer.u32 ∧ Canonical Reader.u64 Writer.u64 ∧
        Canonical Reader.i32 Writer.i32 ∧ Canonical Reader.i64 Writer.i64) ∧
      (∀ n : UInt64, 2 ^ 32 ≤ n.toNat → Overflows Reader.u32 (Writer.u64 n)) ∧
      (∀ bits : UInt64, bits.toInt64.toInt ∉ signedRange 32 →
        Overflows Reader.i32 (Writer.i64 bits)) ∧
      (∀ bits : UInt64, bits.toInt64.toInt ∈ signedRange 33 →
        Reads (Reader.signed 33) (Writer.i64 bits) bits.toInt64.toInt) ∧
      ∀ bits : UInt64, bits.toInt64.toInt ∉ signedRange 33 →
        Overflows (Reader.signed 33) (Writer.i64 bits) := by
  refine ⟨⟨canonical_u32, canonical_u64, canonical_i32, canonical_i64⟩, ?_, ?_, ?_, ?_⟩
  · intro n hn
    have hrange : n.toNat ∉ unsignedRange 32 := Nat.not_lt.mpr hn
    exact (overflows_of_notMem (readsNumber_unsigned (by decide)) shortest_unsigned hrange).map _
  · intro bits hbits
    exact (overflows_of_notMem (readsNumber_signed (by decide)) shortest_signed hbits).map _
  · intro bits hbits
    exact reads_signed (by decide) hbits.1 hbits.2
  · intro bits hbits
    exact overflows_of_notMem (readsNumber_signed (by decide)) shortest_signed hbits

/-- The first number that 32 bits cannot hold has its excess bit in the last byte allowed. -/
theorem too_long_by_one_bit : Writer.u64 4294967296 = [0x80, 0x80, 0x80, 0x80, 0x10] ∧
    Overflows Reader.u32 (Writer.u64 4294967296) :=
  ⟨by simp [Writer.u64, encodeUnsigned], varint_writers_canonical.2.1 4294967296 (by decide)⟩

end Binary

end Wasm
