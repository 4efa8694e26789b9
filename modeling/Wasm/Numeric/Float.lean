import Wasm.Opcode
import Wasm.Trap
import Wasm.Ieee.Arithmetic

/-!
Float operators, as functions on the bit patterns of a format, and the two ways from a float to an
integer: truncation, which traps on what has no integer part in range, and saturating truncation,
which goes to the end of the range instead.
-/

namespace Wasm

/-- Whether a comparison holds between two numbers; with NaN only `ne` does. -/
def FloatCompare.holds (op : FloatCompare) (f : Ieee.Format) (a b : Nat) : Bool :=
  match op with
  | eq => f.eq a b
  | ne => !f.eq a b
  | lt => f.lt a b
  | gt => f.lt b a
  | le => f.le a b
  | ge => f.le b a

/-- The value of an operator of one operand. -/
def FloatUnary.eval (op : FloatUnary) (f : Ieee.Format) (a : Nat) : Nat :=
  match op with
  | abs => f.abs a
  | neg => f.neg a
  | ceil => f.roundToIntegral .ceil a
  | floor => f.roundToIntegral .floor a
  | trunc => f.roundToIntegral .trunc a
  | nearest => f.roundToIntegral .nearest a
  | sqrt => f.sqrt a

/-- The value of an operator of two operands. -/
def FloatBinary.eval (op : FloatBinary) (f : Ieee.Format) (a b : Nat) : Nat :=
  match op with
  | add => f.add a b
  | sub => f.sub a b
  | mul => f.mul a b
  | div => f.div a b
  | min => f.min a b
  | max => f.max a b
  | copysign => f.copysign a b

namespace Sign

/-- The least integer of `bits` bits. -/
def least (s : Sign) (bits : Nat) : Int :=
  match s with
  | signed => (BitVec.intMin bits).toInt
  | unsigned => 0

/-- The greatest integer of `bits` bits. -/
def greatest (s : Sign) (bits : Nat) : Int :=
  match s with
  | signed => (BitVec.intMax bits).toInt
  | unsigned => (BitVec.allOnes bits).toNat

/-- The integer that a word stands for. -/
def read {n : Nat} (s : Sign) (a : BitVec n) : Int :=
  match s with
  | signed => a.toInt
  | unsigned => a.toNat

end Sign

/-- The numbers that a trapping truncation accepts: those between two integers, without the two. -/
structure OpenRange where
  lower : Int
  upper : Int
deriving Repr, DecidableEq

namespace Width

/-- The range of a trapping truncation.  The ends are numbers of the source format, so that an
operand is compared with them as it is. -/
def truncRange (target source : Width) (s : Sign) : OpenRange :=
  match target, source, s with
  | w32, w32, .signed => ⟨-2147483904, 2147483648⟩
  | w32, w32, .unsigned => ⟨-1, 4294967296⟩
  | w32, w64, .signed => ⟨-2147483649, 2147483648⟩
  | w32, w64, .unsigned => ⟨-1, 4294967296⟩
  | w64, w32, .signed => ⟨-9223373136366403584, 9223372036854775808⟩
  | w64, w32, .unsigned => ⟨-1, 18446744073709551616⟩
  | w64, w64, .signed => ⟨-9223372036854777856, 9223372036854775808⟩
  | w64, w64, .unsigned => ⟨-1, 18446744073709551616⟩

end Width

namespace Ieee.Format

/-- The integer of `bits` bits nearest to the integer part of a float, and zero for NaN. -/
def truncateSat (f : Format) (s : Sign) (bits : Nat) (a : Nat) : BitVec bits :=
  match f.decode a with
  | .nan => 0
  | .infinity negative =>
    BitVec.ofInt bits (if negative then s.least bits else s.greatest bits)
  | .finite negative m e =>
    let t := Datum.truncateFinite negative m e
    BitVec.ofInt bits
      (if t < s.least bits then s.least bits
       else if s.greatest bits < t then s.greatest bits
       else t)

/-- The integer part of a float within a range. -/
def truncate (f : Format) (range : OpenRange) (s : Sign) (bits : Nat) (a : Nat) :
    Except Trap (BitVec bits) :=
  if f.isNan a then .error .invalidConversion
  else if f.le a (f.ofInt range.lower) || f.le (f.ofInt range.upper) a then
    .error .integerOverflow
  else .ok (f.truncateSat s bits a)

end Ieee.Format

end Wasm
