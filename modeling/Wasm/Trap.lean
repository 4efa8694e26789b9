import Wasm.Types

/-!
Traps.  A `Trap` is one cause for which execution stops, with what its message mentions.  The code
and the wording of each cause stand here and nowhere else.
-/

namespace Wasm

/-- Why execution stopped. -/
inductive Trap where
  /-- The instruction `unreachable`. -/
  | unreachable
  | divisionByZero
  | integerOverflow
  /-- A float that is not a number was to become an integer. -/
  | invalidConversion
  /-- An access of `length` bytes at `offset` to a memory of `size` bytes. -/
  | memoryOutOfBounds (length offset size : Nat)
  | tableOutOfBounds (index : UInt32) (size : Nat)
  /-- An element segment of `length` entries at `offset` does not fit a table of `size`. -/
  | elementOutOfBounds (segment length : Nat) (offset size : UInt32)
  /-- An empty slot of a table was called. -/
  | uninitializedElement (index : UInt32)
  | indirectCallType (expected found : FuncType)
  | stackUnderflow
  | stackOverflow
  /-- A branch to more frames out than there are. -/
  | branchDepth (depth : UInt32)
  | callStackExhausted (depth : Nat)
  | undefinedFunction (index : UInt32)
  | unknownGlobal (index : UInt32)
  /-- A constant expression read a global that does not exist yet. -/
  | uninitializedGlobal (index : UInt32)
  | immutableGlobal
  | globalType (given expected : ValueType)
  /-- The instance has no memory, no table, or no frame where one is needed. -/
  | missing (what : String)
deriving Repr, DecidableEq

namespace Trap

/-- The code of a trap. -/
def code : Trap → Nat
  | unreachable => Code.unreachable
  | divisionByZero => Code.divisionByZero
  | integerOverflow => Code.integerOverflow
  | invalidConversion => Code.invalidConversion
  | memoryOutOfBounds .. => Code.memoryOutOfBounds
  | tableOutOfBounds .. | elementOutOfBounds .. => Code.tableOutOfBounds
  | uninitializedElement _ => Code.uninitializedElement
  | indirectCallType .. => Code.indirectCallType
  | stackUnderflow | branchDepth _ => Code.stackUnderflow
  | stackOverflow => Code.stackOverflow
  | callStackExhausted _ => Code.callStackExhausted
  | undefinedFunction _ => Code.undefinedFunction
  | unknownGlobal _ | uninitializedGlobal _ => Code.invalidGlobalAccess
  | immutableGlobal | globalType .. => Code.invalidGlobalAccess
  | missing _ => Code.missingInstance

/-- The wording of a trap. -/
def message : Trap → String
  | unreachable => "unreachable executed"
  | divisionByZero => "integer divide by zero"
  | integerOverflow => "integer overflow"
  | invalidConversion => "invalid conversion to integer"
  | memoryOutOfBounds length offset size =>
    s!"out of bounds memory access: {length} bytes at {offset} in memory of {size} bytes"
  | tableOutOfBounds index size =>
    s!"table index {index.toNat} out of bounds for table of size {size}"
  | elementOutOfBounds segment length offset size =>
    s!"element[{segment}]: {length} entries at offset {offset.toNat} exceed table size {size.toNat}"
  | uninitializedElement index => s!"uninitialized element {index.toNat}"
  | indirectCallType expected found =>
    s!"indirect call type mismatch: expected {expected.text}, found {found.text}"
  | stackUnderflow => "operand stack underflow"
  | stackOverflow => "operand stack overflow"
  | branchDepth depth => s!"branch depth {depth.toNat} exceeds control stack"
  | callStackExhausted depth => s!"call stack exhausted at depth {depth}"
  | undefinedFunction index => s!"undefined function {index.toNat}"
  | unknownGlobal index => s!"unknown global {index.toNat}"
  | uninitializedGlobal index => s!"global {index.toNat} is not initialized yet"
  | immutableGlobal => "global is immutable"
  | globalType given expected => s!"cannot store {given.name} in global of type {expected.name}"
  | missing what => s!"no {what} in this instance"

/-- A trap as a failure. -/
def error (t : Trap) : Error :=
  .trap t.code t.message

@[simp] theorem category_error (t : Trap) : t.error.category = .trap := rfl

/-- Every trap has a code of the traps' range. -/
theorem ofCode_code (t : Trap) : Category.ofCode t.code = .trap := by
  cases t <;> simp only [code] <;> decide

end Trap

end Wasm
