import Wasm.Instr
import Wasm.Binary.Reader

/-!
Reading instructions.  A sequence runs up to the byte that closes it; structured instructions read
the sequences they own.  It is read in rounds, each of which takes one instruction or the byte that
closes the sequence.  `Reader.expr` reads a whole sequence with its `end`.
-/

namespace Wasm.Binary

/-- How a sequence of instructions stopped. -/
inductive Terminator where
  | endByte
  | elseByte
deriving Repr, DecidableEq

/-- A code that is no opcode. -/
def unknownOpcode (b : UInt8) (offset : Nat) : Error :=
  .parse Code.unknownOpcode s!"unknown opcode 0x{Text.hexPadded 2 b.toNat} at offset {offset}"

/-- A second code that is no saturating truncation. -/
def unknownTruncSat (code : UInt32) (offset : Nat) : Error :=
  .parse Code.unknownOpcode s!"unknown opcode 0xfc {code.toNat} at offset {offset}"

/-- An `else` that belongs to no `if`. -/
def strayElse (start : Nat) : Error :=
  .parse Code.unknownOpcode s!"`else` without matching `if` in sequence starting at offset {start}"

/-- A number that is no block type. -/
def invalidBlockType (n : Int) (offset : Nat) : Error :=
  .parse Code.invalidBlockType s!"invalid block type {n} at offset {offset}"

namespace Reader

open Recorder (noted)

variable {M : Type → Type} [Monad M] [MonadExcept Error M] [MonadLiftT Reader M] [Recorder M]

/-- A byte that has to be zero. -/
def zeroByte (what : String) : M Unit := do
  let start ← offset
  let b ← byte
  if b ≠ 0 then throw (invalidTag Code.zeroByteExpected what b start)

/-- A block type: the byte for no type, or a signed 33-bit number, which is a type index if it is
not negative and otherwise has the low seven bits of a type byte. -/
def blockType : M BlockType := do
  let start ← offset
  if (← peek) = 0x40 then
    let _ ← byte
    return .empty
  let n ← signed 33
  if 0 ≤ n then return .index (.ofNat n.toNat)
  if n = -0x40 then return .empty
  match ValueType.ofByte? (.ofNat (n + 0x80).toNat) with
  | some t => return .value t
  | none => throw (invalidBlockType n start)

/-- The operands of an instruction without a body. -/
def immediate (op : Opcode) : M Immediate :=
  match op with
  | .br | .brIf | .call | .localGet | .localSet | .localTee | .globalGet | .globalSet =>
    return .index (← u32)
  | .brTable => return .labels (← list (liftM u32)) (← u32)
  | .callIndirect => do
    let type ← u32
    zeroByte "call_indirect table index"
    return .typeIndex type
  | .memorySize | .memoryGrow => do
    zeroByte "memory index"
    return .none
  | .const .i32 => return .value (.i32 (← i32))
  | .const .i64 => return .value (.i64 (← i64))
  | .const .f32 => return .value (.f32 (← f32))
  | .const .f64 => return .value (.f64 (← f64))
  | .truncSat => do
    let start ← offset
    let code ← u32
    match TruncSat.ofCode? code with
    | some t => return .truncSat t
    | none => throw (unknownTruncSat code start)
  | .load _ | .loadPart .. | .store _ | .storePart .. => return .memArg ⟨← u32, ← u32⟩
  | _ => return .none

/-- A sequence that only an `end` may close. -/
def closedBy (sequence : M (Expr × Terminator)) : M Expr := do
  let start ← offset
  match ← sequence with
  | (e, .endByte) => return e
  | (_, .elseByte) => throw (strayElse start)

/-- An instruction after its opcode, where `sequence` reads the sequences that it owns. -/
def instrAfter (sequence : M (Expr × Terminator)) (op : Opcode) : M Instr :=
  match op with
  | .block | .loop => do
    let type ← blockType
    let body ← closedBy sequence
    pure (Instr.block op type body)
  | .ifElse => do
    let type ← blockType
    let (thenBody, terminator) ← sequence
    let elseBody ← match terminator with
      | .elseByte => closedBy sequence
      | .endByte => pure []
    pure (Instr.ifElse op type thenBody elseBody)
  | op => Instr.plain op <$> immediate op

/-- The byte that closes a sequence, or an instruction. -/
def round (sequence : M (Expr × Terminator)) : M (Terminator ⊕ Instr) := do
  let start ← offset
  let b ← byte
  if b = Opcode.endByte then return .inl .endByte
  if b = Opcode.elseByte then return .inl .elseByte
  let some op := Opcode.ofByte? b | throw (unknownOpcode b start)
  return .inr (← instrAfter sequence op)

/-- Instructions up to the byte that closes them.  Every round takes at least one byte, so `fuel`
need not exceed the number of bytes that are left. -/
def instrs : (fuel : Nat) → M (Expr × Terminator)
  | 0 => do throw (unexpectedEnd "byte" (← offset))
  | fuel + 1 => do
    match ← noted (round (instrs fuel)) with
    | .inl terminator => return ([], terminator)
    | .inr instr => do
      let (rest, terminator) ← instrs fuel
      return (instr :: rest, terminator)

/-- A sequence of instructions and the `end` that closes it. -/
def closedSequence : M Expr := do
  closedBy (instrs ((← remaining) + 1))

/-- The same, in the monad that runs. -/
def expr : Reader Expr :=
  closedSequence

@[simp] theorem closedSequence_eq : closedSequence = expr := rfl

end Reader

end Wasm.Binary
