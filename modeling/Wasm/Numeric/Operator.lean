import Wasm.Numeric.Integer
import Wasm.Numeric.Float
import Wasm.Validation.Signature
import Wasm.Value

/-!
Numeric operators on slots.  A slot is a 64-bit word of the operand stack; a 32-bit operand is the
low half of its slot, and a 32-bit result fills the high half with zeros.  `Opcode.operator?` gives
what each numeric opcode computes, with the operand that was pushed first on the left.
-/

namespace Wasm

namespace Width

/-- The word of a width in a slot. -/
def word (w : Width) (slot : UInt64) : BitVec w.bits :=
  slot.toBitVec.setWidth w.bits

/-- The slot of a word. -/
def slot (w : Width) (a : BitVec w.bits) : UInt64 :=
  ⟨a.setWidth 64⟩

/-- The bit pattern of a float in a slot. -/
def pattern (w : Width) (slot : UInt64) : Nat :=
  (w.word slot).toNat

/-- The slot of a bit pattern. -/
def ofPattern (w : Width) (bits : Nat) : UInt64 :=
  w.slot (BitVec.ofNat w.bits bits)

end Width

/-- The slot of a truth value. -/
def boolSlot (b : Bool) : UInt64 :=
  if b then 1 else 0

/-- What a numeric operator computes. -/
inductive Operator where
  | unary (eval : UInt64 → Except Trap UInt64)
  | binary (eval : UInt64 → UInt64 → Except Trap UInt64)

/-- The value of a conversion. -/
def Conversion.eval (c : Conversion) (a : UInt64) : Except Trap UInt64 :=
  match c with
  | wrap => .ok (Width.slot .w32 (Width.word .w32 a))
  | widen s => .ok (Width.slot .w64 (BitVec.ofInt 64 (s.read (Width.word .w32 a))))
  | trunc target source s =>
    (source.format.truncate (target.truncRange source s) s target.bits (source.pattern a)).map
      target.slot
  | convert target source s => .ok (target.ofPattern (target.format.ofInt (s.read (source.word a))))
  | demote =>
    .ok (Width.ofPattern .w32 (Ieee.Format.convert .binary64 .binary32 (Width.pattern .w64 a)))
  | promote =>
    .ok (Width.ofPattern .w64 (Ieee.Format.convert .binary32 .binary64 (Width.pattern .w32 a)))
  | bitsOfFloat w | floatOfBits w => .ok (w.slot (w.word a))

/-- The value of a saturating truncation. -/
def TruncSat.eval (t : TruncSat) (a : UInt64) : UInt64 :=
  t.target.slot (t.source.format.truncateSat t.sign t.target.bits (t.source.pattern a))

namespace Opcode

/-- What a numeric opcode computes. -/
def operator? : Opcode → Option Operator
  | intEqz w => some (.unary fun a => .ok (boolSlot (w.word a == 0)))
  | intCompare w op => some (.binary fun a b => .ok (boolSlot (op.holds (w.word a) (w.word b))))
  | floatCompare w op =>
    some (.binary fun a b => .ok (boolSlot (op.holds w.format (w.pattern a) (w.pattern b))))
  | intUnary w op => some (.unary fun a => .ok (w.slot (op.eval (w.word a))))
  | intBinary w op => some (.binary fun a b => (op.eval (w.word a) (w.word b)).map w.slot)
  | floatUnary w op => some (.unary fun a => .ok (w.ofPattern (op.eval w.format (w.pattern a))))
  | floatBinary w op =>
    some (.binary fun a b => .ok (w.ofPattern (op.eval w.format (w.pattern a) (w.pattern b))))
  | conversion c => some (.unary c.eval)
  | extend w p => some (.unary fun a => .ok (w.slot (signExtendLow p.bits (w.word a))))
  | _ => none

/-- The opcode with a mnemonic. -/
def ofName? (name : String) : Option Opcode :=
  all.find? (·.name == name)

/-- The value of a numeric opcode at values of its operand types. -/
def evalValues? (op : Opcode) (args : List Value) : Option (Except Trap Value) :=
  match op.operator?, op.signature?, args with
  | some (.unary f), some ⟨_, [t]⟩, [a] => some ((f a.toSlot).map (Value.ofSlot t))
  | some (.binary f), some ⟨_, [t]⟩, [a, b] => some ((f a.toSlot b.toSlot).map (Value.ofSlot t))
  | _, _, _ => none

end Opcode

namespace TruncSat

/-- All saturating truncations. -/
def all : List TruncSat :=
  (List.range 8).filterMap fun n => ofCode? (UInt32.ofNat n)

/-- The saturating truncation with a mnemonic. -/
def ofName? (name : String) : Option TruncSat :=
  all.find? (·.name == name)

/-- The value of a saturating truncation at a value of its operand type. -/
def evalValue (t : TruncSat) (a : Value) : Value :=
  Value.ofSlot (.int t.target) (t.eval a.toSlot)

end TruncSat

end Wasm
