import Wasm.Types
import Wasm.Ieee.Arithmetic
import Wasm.Ieee.Decimal
import Wasm.Text.Quoted

/-!
Values.  A value is a type and a bit pattern of that type's width, so equality is equality of bits;
`Value.numericEq` is the comparison that the numbers themselves have.  `toSlot` and `ofSlot` move
values in and out of the 64-bit slots of the operand stack.
-/

namespace Wasm

/-- A value of one of the four types, by its bits. -/
inductive Value where
  | i32 (bits : UInt32)
  | i64 (bits : UInt64)
  | f32 (bits : UInt32)
  | f64 (bits : UInt64)
deriving Repr, DecidableEq

namespace Width

/-- The floating-point format of a width. -/
def format : Width → Ieee.Format
  | w32 => .binary32
  | w64 => .binary64

end Width

namespace Value

/-- The type of a value. -/
def type : Value → ValueType
  | i32 _ => .i32
  | i64 _ => .i64
  | f32 _ => .f32
  | f64 _ => .f64

/-- The slot of a value: its bits, filled with zeros. -/
def toSlot : Value → UInt64
  | i32 b | f32 b => b.toUInt64
  | i64 b | f64 b => b

/-- The value of a type in a slot; a 32-bit type takes the low half. -/
def ofSlot (t : ValueType) (slot : UInt64) : Value :=
  match t with
  | .i32 => i32 slot.toUInt32
  | .i64 => i64 slot
  | .f32 => f32 slot.toUInt32
  | .f64 => f64 slot

@[simp] theorem type_ofSlot (t : ValueType) (slot : UInt64) : (ofSlot t slot).type = t := by
  cases t <;> rfl

@[simp] theorem ofSlot_toSlot (v : Value) : ofSlot v.type v.toSlot = v := by
  cases v <;> simp [ofSlot, toSlot, type]

/-- The value zero of a type. -/
def zero (t : ValueType) : Value :=
  ofSlot t 0

/-- Equality as numbers: by value for floats, so that NaN differs from itself. -/
def numericEq : Value → Value → Bool
  | i32 a, i32 b => a == b
  | i64 a, i64 b => a == b
  | f32 a, f32 b => Ieee.Format.binary32.eq a.toNat b.toNat
  | f64 a, f64 b => Ieee.Format.binary64.eq a.toNat b.toNat
  | _, _ => false

/-- The number alone, integers signed. -/
def numberText : Value → String
  | i32 b => toString b.toInt32.toInt
  | i64 b => toString b.toInt64.toInt
  | f32 b => Ieee.Format.binary32.text b.toNat
  | f64 b => Ieee.Format.binary64.text b.toNat

/-- The text of a value, as `-7:i32`. -/
def text (v : Value) : String :=
  v.numberText ++ ":" ++ v.type.name

/-- The bits of an integer that is in range as a signed or as an unsigned number of that width. -/
def intBits? (width : Width) (s : List Char) : Option Nat :=
  (Text.integer? s).bind fun n =>
    if -((width.modulus / 2 : Nat) : Int) ≤ n ∧ n < width.modulus then
      some (n % width.modulus).toNat
    else none

/-- The value of a type that a text names. -/
def ofText? (t : ValueType) (s : List Char) : Option Value :=
  match t with
  | .i32 => (intBits? .w32 s).map fun n => i32 (.ofNat n)
  | .i64 => (intBits? .w64 s).map fun n => i64 (.ofNat n)
  | .f32 => (Ieee.Format.binary32.ofText? s).map fun n => f32 (.ofNat n)
  | .f64 => (Ieee.Format.binary64.ofText? s).map fun n => f64 (.ofNat n)

/-- The value of a type that a text names, or the complaint that it names none. -/
def parse (t : ValueType) (s : String) : Except Error Value :=
  match ofText? t s.toList with
  | some v => .ok v
  | none => .error (.runtime Code.argumentMismatch s!"cannot parse {Text.quoted s} as {t.name}")

end Value

end Wasm
