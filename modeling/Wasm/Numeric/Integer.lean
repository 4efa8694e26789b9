import Wasm.Opcode
import Wasm.Trap

/-!
Integer operators, as functions on bit vectors of any width.  Two's complement gives one addition
for signed and unsigned numbers; where the two readings differ, the operator carries a `Sign`.
Shift and rotate counts are taken modulo the width.  Only division and remainder can trap.
-/

namespace Wasm

/-- Whether a comparison holds between two words. -/
def IntCompare.holds {n : Nat} (op : IntCompare) (a b : BitVec n) : Bool :=
  match op with
  | eq => a == b
  | ne => a != b
  | lt .signed => a.slt b
  | lt .unsigned => a.ult b
  | gt .signed => b.slt a
  | gt .unsigned => b.ult a
  | le .signed => a.sle b
  | le .unsigned => a.ule b
  | ge .signed => b.sle a
  | ge .unsigned => b.ule a

/-- The value of an operator of one operand. -/
def IntUnary.eval {n : Nat} (op : IntUnary) (a : BitVec n) : BitVec n :=
  match op with
  | clz => a.clz
  | ctz => a.ctz
  | popcnt => a.cpop

/-- The quotient, toward zero; the signed quotient of the least number by `-1` is out of range. -/
def IntBinary.quotient {n : Nat} (s : Sign) (a b : BitVec n) : Except Trap (BitVec n) :=
  if b = 0 then .error .divisionByZero
  else match s with
    | .unsigned => .ok (a.udiv b)
    | .signed =>
      if a = BitVec.intMin n ∧ b = BitVec.allOnes n then .error .integerOverflow
      else .ok (a.sdiv b)

/-- The remainder that goes with the quotient: it has the sign of the dividend. -/
def IntBinary.remainder {n : Nat} (s : Sign) (a b : BitVec n) : Except Trap (BitVec n) :=
  if b = 0 then .error .divisionByZero
  else match s with
    | .unsigned => .ok (a.umod b)
    | .signed => .ok (a.srem b)

/-- The value of an operator of two operands. -/
def IntBinary.eval {n : Nat} (op : IntBinary) (a b : BitVec n) : Except Trap (BitVec n) :=
  match op with
  | add => .ok (a + b)
  | sub => .ok (a - b)
  | mul => .ok (a * b)
  | div s => quotient s a b
  | rem s => remainder s a b
  | and => .ok (a &&& b)
  | or => .ok (a ||| b)
  | xor => .ok (a ^^^ b)
  | shl => .ok (a <<< (b.toNat % n))
  | shr .signed => .ok (a.sshiftRight (b.toNat % n))
  | shr .unsigned => .ok (a >>> (b.toNat % n))
  | rotl => .ok (a.rotateLeft (b.toNat % n))
  | rotr => .ok (a.rotateRight (b.toNat % n))

/-- The low `bits` bits of a word, read as a signed number. -/
def signExtendLow {n : Nat} (bits : Nat) (a : BitVec n) : BitVec n :=
  (a.setWidth bits).signExtend n

end Wasm
