import Wasm.Opcode

/-!
The fixed signatures of operators: what a load, a store or a numeric operator takes from the operand
stack and what it leaves there, and how wide its access to memory is.
-/

namespace Wasm

/-- The types that a conversion takes and gives. -/
def Conversion.signature : Conversion → FuncType
  | wrap => ⟨[.i64], [.i32]⟩
  | widen _ => ⟨[.i32], [.i64]⟩
  | trunc target source _ => ⟨[.float source], [.int target]⟩
  | convert target source _ => ⟨[.int source], [.float target]⟩
  | demote => ⟨[.f64], [.f32]⟩
  | promote => ⟨[.f32], [.f64]⟩
  | bitsOfFloat w => ⟨[.float w], [.int w]⟩
  | floatOfBits w => ⟨[.int w], [.float w]⟩

/-- The types that a saturating truncation takes and gives. -/
def TruncSat.signature (t : TruncSat) : FuncType :=
  ⟨[.float t.source], [.int t.target]⟩

namespace Opcode

/-- The signature of an operator that always has the same one. -/
def signature? : Opcode → Option FuncType
  | load t => some ⟨[.i32], [t]⟩
  | loadPart w _ _ => some ⟨[.i32], [.int w]⟩
  | store t => some ⟨[.i32, t], []⟩
  | storePart w _ => some ⟨[.i32, .int w], []⟩
  | intEqz w => some ⟨[.int w], [.i32]⟩
  | intCompare w _ => some ⟨[.int w, .int w], [.i32]⟩
  | floatCompare w _ => some ⟨[.float w, .float w], [.i32]⟩
  | intUnary w _ => some ⟨[.int w], [.int w]⟩
  | intBinary w _ => some ⟨[.int w, .int w], [.int w]⟩
  | floatUnary w _ => some ⟨[.float w], [.float w]⟩
  | floatBinary w _ => some ⟨[.float w, .float w], [.float w]⟩
  | conversion c => some c.signature
  | extend w _ => some ⟨[.int w], [.int w]⟩
  | _ => none

/-- The number of bytes that a load or store touches. -/
def accessBytes? : Opcode → Option Nat
  | load t | store t => some t.bytes
  | loadPart _ p _ | storePart _ p => some p.bytes
  | _ => none

end Opcode

end Wasm
