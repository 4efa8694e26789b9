import Wasm.Module
import Wasm.Recorder
import Wasm.Instr.Structure
import Wasm.Validation.Signature

/-!
Validation of function bodies.  One pass over a body keeps the types of the operands and a frame for
each open block.  A frame remembers how many operands there were when it was entered; below that
height nothing may be popped.  After a branch the rest of a frame cannot be reached, and pops at the
frame's height then give operands of unknown type.

What looks at the state, or changes it once, is a single check.  The checks of frames and of
instructions are put together from these, in any monad that they lift into.
-/

namespace Wasm.Validation

/-- The type of an operand; unknown in code that cannot be reached. -/
abbrev Operand := Option ValueType

/-- An open block, or the body itself. -/
structure Frame where
  /-- What opened the frame. -/
  opcode : Opcode
  startTypes : List ValueType
  endTypes : List ValueType
  /-- The number of operands on entry, parameters not counted. -/
  height : Nat
  unreachable : Bool
deriving Repr, DecidableEq

/-- The types that a branch to the frame supplies. -/
def Frame.labelTypes (f : Frame) : List ValueType :=
  if f.opcode = .loop then f.startTypes else f.endTypes

/-- The operands and frames at a point of a body, the innermost first. -/
structure State where
  operands : List Operand
  frames : List Frame
deriving Repr, DecidableEq

/-- What is known throughout a body. -/
structure Scope where
  module : Module
  locals : List ValueType

/-- A check that changes the state. -/
abbrev Check (α : Type) := StateT State (Except Error) α

/-! ### Failures -/

def typeMismatch (expected actual : ValueType) : Error :=
  .validation Code.typeMismatch s!"type mismatch: expected {expected.name}, found {actual.name}"

def noFrame : Error :=
  .validation Code.stackHeight "control stack is empty"

def underflow : Error :=
  .validation Code.stackHeight "type mismatch: operand stack underflow"

def leftover (count : Nat) (opcode : Opcode) : Error :=
  .validation Code.stackHeight
    s!"type mismatch: {count} values left on the operand stack at end of {opcode.name}"

def unknownLabel (depth : UInt32) : Error :=
  .validation Code.labelIndex s!"unknown label {depth.toNat}"

def unknownBlockType (type : BlockType) : Error :=
  .validation Code.typeIndex s!"unknown block type {type.text}"

/-- An index that is beyond its index space. -/
def unknownIndex (code : Nat) (what : String) (i : UInt32) : Error :=
  .validation code s!"unknown {what} {i.toNat}"

def unknownType (i : UInt32) : Error :=
  unknownIndex Code.typeIndex "type" i

def immutableGlobal (i : UInt32) : Error :=
  .validation Code.immutableGlobal s!"global {i.toNat} is immutable"

def invalidAlignment (align : UInt32) (width : Nat) : Error :=
  .validation Code.invalidAlignment
    s!"alignment 2^{align.toNat} must not be larger than natural ({width} bytes)"

def branchTableArity (label : UInt32) (arity expected : Nat) : Error :=
  .validation Code.branchTableArity
    s!"br_table label {label.toNat} has arity {arity}, default has {expected}"

def branchTableTypes (label : UInt32) : Error :=
  .validation Code.typeMismatch
    s!"type mismatch: br_table label {label.toNat} disagrees with the default label"

def malformedOperands (i : Instr) : Error :=
  .validation Code.typeMismatch s!"malformed operands for {i.opcode.name}: {i.operandsText}"

/-- An entry of a list, or a failure. -/
def orThrow {α : Type} (a : Option α) (e : Error) : Check α :=
  match a with
  | some a => pure a
  | none => throw e

/-! ### Operands -/

/-- Pushes an operand. -/
def push (t : Operand) : Check Unit :=
  modify fun s => { s with operands := t :: s.operands }

/-- Pushes operands of known types, the first of them first. -/
def pushAll (types : List ValueType) : Check Unit :=
  modify fun s => { s with operands := types.reverse.map some ++ s.operands }

/-- The innermost frame. -/
def current : Check Frame := do
  orThrow (← get).frames.head? noFrame

/-- Pops an operand of any type. -/
def pop : Check Operand := do
  let frame ← current
  let s ← get
  if s.operands.length = frame.height then
    if frame.unreachable then return none else throw underflow
  match s.operands with
  | [] => return none
  | t :: rest =>
    set { s with operands := rest }
    return t

/-- The number of operands. -/
def operandCount : Check Nat := do
  return (← get).operands.length

/-! ### Frames -/

/-- Puts a frame inside the others. -/
def enter (frame : Frame) : Check Unit :=
  modify fun s => { s with frames := frame :: s.frames }

/-- Takes the innermost frame away. -/
def leave : Check Unit :=
  modify fun s => { s with frames := s.frames.tail }

/-- Gives up the operands of the innermost frame, whose rest cannot be reached. -/
def setUnreachable : Check Unit := do
  let frame ← current
  modify fun s => {
    operands := s.operands.drop (s.operands.length - frame.height)
    frames := { frame with unreachable := true } :: s.frames.tail }

/-- The types that a branch out of `depth` frames supplies. -/
def labelTypes (depth : UInt32) : Check (List ValueType) := do
  let frame ← orThrow (← get).frames[depth.toNat]? (unknownLabel depth)
  return frame.labelTypes

/-- The types that a return supplies. -/
def returnTypes : Check (List ValueType) := do
  return ((← get).frames.getLast?.map Frame.endTypes).getD []

/-! ### What an instruction refers to -/

namespace Scope

/-- The full signature of a block type. -/
def blockSignature (c : Scope) (type : BlockType) : Check FuncType :=
  orThrow (type.resolve? c.module.types) (unknownBlockType type)

/-- The type of a local. -/
def localType (c : Scope) (i : UInt32) : Check ValueType :=
  orThrow c.locals[i.toNat]? (unknownIndex Code.localIndex "local" i)

/-- The type of a global. -/
def globalType (c : Scope) (i : UInt32) : Check GlobalType :=
  orThrow (c.module.globalType? i) (unknownIndex Code.globalIndex "global" i)

/-- There has to be a memory. -/
def needsMemory (c : Scope) : Check Unit := do
  if c.module.count .memory = 0 then throw (unknownIndex Code.memoryIndex "memory" 0)

/-- There has to be a memory, and an access may not ask for more alignment than it is wide. -/
def memoryAccess (c : Scope) (opcode : Opcode) (arg : MemArg) : Check Unit := do
  c.needsMemory
  match opcode.accessBytes? with
  | some width =>
    if 32 ≤ arg.align.toNat ∨ width < 1 <<< arg.align.toNat then
      throw (invalidAlignment arg.align width)
  | none => return

/-- A label of a branch table has to supply the types that the default label supplies. -/
def labelAgrees (expected : List ValueType) (label : UInt32) : Check Unit := do
  let types ← labelTypes label
  if types.length ≠ expected.length then
    throw (branchTableArity label types.length expected.length)
  if types ≠ expected then throw (branchTableTypes label)

end Scope

/-! ### Operands and frames of an instruction -/

section

variable {M : Type → Type} [Monad M] [MonadExcept Error M] [MonadLiftT Check M]

/-- Pops an operand that has to be of the given type. -/
def popExpect (expected : ValueType) : M Unit := do
  match ← pop with
  | some actual => if actual ≠ expected then throw (typeMismatch expected actual)
  | none => return

/-- Pops operands of the given types, the last of them first. -/
def popAll (types : List ValueType) : M Unit :=
  types.reverse.forM popExpect

/-- Enters a block whose parameters have been popped. -/
def pushFrame (opcode : Opcode) (type : FuncType) : M Unit := do
  let height ← operandCount
  pushAll type.params
  enter ⟨opcode, type.params, type.results, height, false⟩

/-- Leaves the innermost block, which has to end with exactly its results. -/
def popFrame : M Unit := do
  popAll (← current).endTypes
  let frame ← current
  let count ← operandCount
  if count ≠ frame.height then throw (leftover (count - frame.height) frame.opcode)
  leave

end

/-! ### Instructions -/

namespace Scope

open Recorder (within)

variable {M : Type → Type} [Monad M] [MonadExcept Error M] [MonadLiftT Check M]

/-- A branch table: all labels supply the same types. -/
def branchTable (labels : List UInt32) (default : UInt32) : M Unit := do
  popExpect .i32
  let expected ← labelTypes default
  labels.forM fun label => labelAgrees expected label
  popAll expected
  setUnreachable

/-- A selection between two operands of one type. -/
def selection : M Unit := do
  popExpect .i32
  let first ← pop
  let second ← pop
  match first, second with
  | some a, some b => if a ≠ b then throw (typeMismatch a b)
  | _, _ => pure ()
  push (first.or second)

/-- An operator, which has the signature of its opcode. -/
def operator (c : Scope) (i : Instr) (imm : Immediate) : M Unit := do
  let signature ← orThrow i.opcode.signature? (malformedOperands i)
  match imm with
  | .memArg arg => c.memoryAccess i.opcode arg
  | _ => pure ()
  popAll signature.params
  pushAll signature.results

/-- An instruction that opens no block. -/
def flat (c : Scope) (i : Instr) : M Unit :=
  let immediate := match i with
    | .plain _ imm => imm
    | _ => .none
  match i.opcode, immediate with
  | .unreachable, _ => setUnreachable
  | .nop, _ => return
  | .br, .index depth => do
    popAll (← labelTypes depth)
    setUnreachable
  | .brIf, .index depth => do
    popExpect .i32
    let types ← labelTypes depth
    popAll types
    pushAll types
  | .brTable, .labels labels default => branchTable labels default
  | .ret, _ => do
    popAll (← returnTypes)
    setUnreachable
  | .call, .index f => do
    let type ← orThrow (c.module.funcType? f) (unknownIndex Code.functionIndex "function" f)
    popAll type.params
    pushAll type.results
  | .callIndirect, .typeIndex t => do
    if c.module.count .table = 0 then throw (unknownIndex Code.tableIndex "table" 0)
    let type ← orThrow c.module.types[t.toNat]? (unknownType t)
    popExpect .i32
    popAll type.params
    pushAll type.results
  | .drop, _ => discard pop
  | .select, _ => selection
  | .localGet, .index x => do push (← c.localType x)
  | .localSet, .index x => do popExpect (← c.localType x)
  | .localTee, .index x => do
    let type ← c.localType x
    popExpect type
    push type
  | .globalGet, .index x => do push (← c.globalType x).valueType
  | .globalSet, .index x => do
    let type ← c.globalType x
    if !type.isMutable then throw (immutableGlobal x)
    popExpect type.valueType
  | .memorySize, _ => do
    c.needsMemory
    push ValueType.i32
  | .memoryGrow, _ => do
    c.needsMemory
    popExpect .i32
    push ValueType.i32
  | .const t, _ => push t
  | .truncSat, .truncSat t => do
    popAll t.signature.params
    pushAll t.signature.results
  | _, imm => c.operator i imm

variable [Recorder M]

mutual
/-- One instruction. -/
def instr (c : Scope) : Instr → M Unit
  | .block .block type body => do
    let signature ← c.blockSignature type
    popAll signature.params
    pushFrame .block signature
    c.sequence 0 body
    popFrame
    pushAll signature.results
  | .block .loop type body => do
    let signature ← c.blockSignature type
    popAll signature.params
    pushFrame .loop signature
    c.sequence 0 body
    popFrame
    pushAll signature.results
  | .ifElse .ifElse type thenBody elseBody => do
    let signature ← c.blockSignature type
    popExpect .i32
    popAll signature.params
    pushFrame .ifElse signature
    c.sequence 0 thenBody
    popFrame
    pushFrame .ifElse signature
    within (fun _ => "else") (c.sequence 0 elseBody)
    popFrame
    pushAll signature.results
  | i => c.flat i

/-- A sequence of instructions, numbered from `index` on. -/
def sequence (c : Scope) (index : Nat) : List Instr → M Unit
  | [] => return
  | i :: rest => do
    within (fun _ => s!"instruction {index} ({i.name})") (c.instr i)
    c.sequence (index + 1) rest
end

end Scope

/-- A body of a function with the given type.  Its parameters are locals. -/
def body {M : Type → Type} [Monad M] [MonadExcept Error M] [MonadLiftT Check M] [Recorder M]
    (m : Module) (typeIndex : UInt32) (code : Code) : M Unit := do
  let type ← orThrow m.types[typeIndex.toNat]? (unknownType typeIndex)
  let scope : Scope := ⟨m, type.params ++ code.localTypes⟩
  pushFrame .call { results := type.results }
  scope.sequence 0 code.body
  popFrame

/-- The same, from the start, where there are no operands and no frames. -/
def function (m : Module) (typeIndex : UInt32) (code : Code) : Except Error Unit :=
  ((body m typeIndex code : Check Unit) ⟨[], []⟩).map Prod.fst

end Wasm.Validation
