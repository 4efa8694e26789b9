/-!
Little-endian numbers: the bytes of a natural number in base 256, least significant first.
-/

namespace Wasm.LittleEndian

/-- The number that bytes write. -/
def decode : List UInt8 → Nat
  | [] => 0
  | b :: rest => b.toNat + 256 * decode rest

/-- The lowest `count` bytes of a number. -/
def encode : (count n : Nat) → List UInt8
  | 0, _ => []
  | count + 1, n => UInt8.ofNat n :: encode count (n / 256)

@[simp] theorem length_encode (count n : Nat) : (encode count n).length = count := by
  induction count generalizing n with
  | zero => rfl
  | succ count ih => simp [encode, ih]

end Wasm.LittleEndian
