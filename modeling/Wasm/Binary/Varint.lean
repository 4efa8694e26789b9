/-!
Variable-length integers.  A number is written in groups of seven bits, the lowest first, each byte
but the last with its high bit set.  A reader knows how many bits the number may have; the last byte
that this allows must end the number and must not hold more bits than are left.  `encodeUnsigned`
and `encodeSigned` write the shortest form.
-/

namespace Wasm.Varint

/-- Why bytes do not start with a number. -/
inductive Fault where
  /-- The input ends inside the number. -/
  | ended
  /-- The number does not fit its width, or takes more bytes than the width allows. -/
  | tooLong
deriving Repr, DecidableEq

/-- The seven payload bits of a byte. -/
def group (b : UInt8) : Nat :=
  b.toNat % 128

/-- The seven payload bits of a byte as a two's complement number. -/
def signedGroup (b : UInt8) : Int :=
  if group b < 64 then group b else (group b : Int) - 128

/-- Whether another byte of the same number follows. -/
def continues (b : UInt8) : Bool :=
  128 ≤ b.toNat

/-- The unsigned number of at most `bits` bits at the start of a byte string, and its length. -/
def decodeUnsigned (bits : Nat) : List UInt8 → Except Fault (Nat × Nat)
  | [] => .error .ended
  | b :: rest =>
    if bits ≤ 7 then
      if continues b ∨ 1 <<< bits ≤ group b then .error .tooLong else .ok (group b, 1)
    else if continues b then
      match decodeUnsigned (bits - 7) rest with
      | .ok (n, size) => .ok (group b + 128 * n, size + 1)
      | .error e => .error e
    else .ok (group b, 1)

/-- The signed number of at most `bits` bits at the start of a byte string, and its length. -/
def decodeSigned (bits : Nat) : List UInt8 → Except Fault (Int × Nat)
  | [] => .error .ended
  | b :: rest =>
    if bits ≤ 7 then
      let n := signedGroup b
      let bound : Nat := 1 <<< (bits - 1)
      if continues b ∨ n < -bound ∨ bound ≤ n then .error .tooLong
      else .ok (n, 1)
    else if continues b then
      match decodeSigned (bits - 7) rest with
      | .ok (n, size) => .ok (group b + 128 * n, size + 1)
      | .error e => .error e
    else .ok (signedGroup b, 1)

/-- The shortest unsigned form of a number. -/
def encodeUnsigned (n : Nat) : List UInt8 :=
  if n < 128 then [.ofNat n] else .ofNat (n % 128 + 128) :: encodeUnsigned (n / 128)
termination_by n

/-- The shortest signed form of a number: it ends as soon as the bits that are left repeat the sign
of the last group. -/
def encodeSigned (n : Int) : List UInt8 :=
  if -64 ≤ n ∧ n < 64 then [.ofNat (n % 128).toNat]
  else .ofNat ((n % 128).toNat + 128) :: encodeSigned (n / 128)
termination_by n.natAbs

end Wasm.Varint
