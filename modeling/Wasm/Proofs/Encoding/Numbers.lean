import Mathlib.Algebra.Order.Ring.Int
import Wasm.Binary.Varint
import Wasm.LittleEndian

/-!
# Numbers read back

The round trips of variable-length integers and of fixed-width numbers.  A variable-length integer
says itself where it ends, so it is read back from in front of any other bytes.
-/

namespace Wasm

/-! ### Variable-length integers -/

namespace Varint

theorem encodeUnsigned_ne_nil (n : Nat) : encodeUnsigned n ≠ [] := by
  rw [encodeUnsigned]
  split <;> simp

/-- The last byte of a number. -/
theorem continues_last {n : Nat} (h : n < 128) :
    continues (.ofNat n) = false ∧ group (.ofNat n) = n := by
  have hn : (UInt8.ofNat n).toNat = n := by
    rw [UInt8.toNat_ofNat']
    omega
  rw [continues, group, hn]
  exact ⟨by simp [h], by omega⟩

/-- A byte that another one follows. -/
theorem continues_inner {n : Nat} (h : n < 128) :
    continues (.ofNat (n + 128)) = true ∧ group (.ofNat (n + 128)) = n := by
  have hn : (UInt8.ofNat (n + 128)).toNat = n + 128 := by
    rw [UInt8.toNat_ofNat']
    omega
  rw [continues, group, hn]
  exact ⟨by simp, by omega⟩

theorem decodeUnsigned_encodeUnsigned {bits n : Nat} (h : n < 2 ^ bits) (rest : List UInt8) :
    decodeUnsigned bits (encodeUnsigned n ++ rest) = .ok (n, (encodeUnsigned n).length) := by
  induction n using encodeUnsigned.induct generalizing bits with
  | case1 n hlast =>
    obtain ⟨hc, hg⟩ := continues_last hlast
    rw [encodeUnsigned, if_pos hlast, List.singleton_append, decodeUnsigned, hc, hg,
      Nat.one_shiftLeft]
    simp [h]
  | case2 n hmore ih =>
    obtain ⟨hc, hg⟩ := continues_inner (Nat.mod_lt n (show 128 > 0 by omega))
    have hbits : 7 < bits := by
      by_cases hle : bits ≤ 7
      · have := Nat.pow_le_pow_right (show 0 < 2 by omega) hle
        omega
      · omega
    have hsmall : n / 128 < 2 ^ (bits - 7) := by
      rw [Nat.div_lt_iff_lt_mul (by omega), show 128 = 2 ^ 7 from rfl, ← Nat.pow_add]
      rwa [show bits - 7 + 7 = bits by omega]
    rw [encodeUnsigned, if_neg hmore, List.cons_append, decodeUnsigned, if_neg (by omega), hc, hg,
      ih hsmall]
    simp [Nat.mod_add_div]

theorem signedGroup_last {n : Int} (hlo : -64 ≤ n) (hhi : n < 64) :
    continues (.ofNat (n % 128).toNat) = false ∧ signedGroup (.ofNat (n % 128).toNat) = n := by
  obtain ⟨hc, hg⟩ := @continues_last (n % 128).toNat (by omega)
  refine ⟨hc, ?_⟩
  rw [signedGroup, hg]
  split <;> omega

theorem decodeSigned_encodeSigned {bits : Nat} {n : Int} (hpos : 0 < bits)
    (hlo : -2 ^ (bits - 1) ≤ n) (hhi : n < 2 ^ (bits - 1)) (rest : List UInt8) :
    decodeSigned bits (encodeSigned n ++ rest) = .ok (n, (encodeSigned n).length) := by
  induction n using encodeSigned.induct generalizing bits with
  | case1 n hlast =>
    obtain ⟨hc, hg⟩ := signedGroup_last hlast.1 hlast.2
    have hrange :
        ¬ (n < -((1 <<< (bits - 1) : Nat) : Int) ∨ ((1 <<< (bits - 1) : Nat) : Int) ≤ n) := by
      rw [Nat.one_shiftLeft, Nat.cast_pow, Nat.cast_ofNat]
      omega
    rw [encodeSigned, if_pos hlast, List.singleton_append, decodeSigned, hc, hg]
    dsimp only
    simp only [hrange, Bool.false_eq_true, false_or, if_false, ite_self, List.length_singleton]
  | case2 n hmore ih =>
    obtain ⟨hc, hg⟩ := @continues_inner (n % 128).toNat (by omega)
    have hbits : 7 < bits := by
      by_cases hle : bits ≤ 7
      · have hpow := Nat.pow_le_pow_right (show 0 < 2 by omega) (show bits - 1 ≤ 6 by omega)
        have : (2 : Int) ^ (bits - 1) ≤ 2 ^ 6 := by exact_mod_cast hpow
        omega
      · omega
    have hpow : (2 : Int) ^ (bits - 1) = 128 * 2 ^ (bits - 7 - 1) := by
      rw [show bits - 1 = 7 + (bits - 7 - 1) by omega, Int.pow_add]
      rfl
    rw [encodeSigned, if_neg hmore, List.cons_append, decodeSigned, if_neg (by omega), hc, hg,
      ih (by omega) (by omega) (by omega)]
    simp only [if_true, List.length_cons, Except.ok.injEq, Prod.mk.injEq, and_true]
    omega

end Varint

/-! ### Fixed-width numbers -/

theorem LittleEndian.decode_encode {count n : Nat} (h : n < 256 ^ count) :
    decode (encode count n) = n := by
  induction count generalizing n with
  | zero =>
    rw [Nat.pow_zero] at h
    rw [encode, decode]
    omega
  | succ count ih =>
    rw [Nat.pow_succ] at h
    rw [encode, decode, ih (by omega), UInt8.toNat_ofNat']
    omega

theorem LittleEndian.decode_lt (bytes : List UInt8) : decode bytes < 256 ^ bytes.length := by
  induction bytes with
  | nil => exact Nat.one_pos
  | cons b bytes ih =>
    have hb : b.toNat < 256 := b.toNat_lt
    rw [decode, List.length_cons, Nat.pow_succ]
    omega

theorem LittleEndian.encode_decode (bytes : List UInt8) :
    encode bytes.length (decode bytes) = bytes := by
  induction bytes with
  | nil => rfl
  | cons b bytes ih =>
    have hb : b.toNat < 256 := b.toNat_lt
    have hdiv : (b.toNat + 256 * decode bytes) / 256 = decode bytes := by omega
    have hmod : UInt8.ofNat (b.toNat + 256 * decode bytes) = b := by
      rw [← UInt8.toNat_inj, UInt8.toNat_ofNat']
      omega
    rw [decode, List.length_cons, encode, hdiv, hmod, ih]

end Wasm
