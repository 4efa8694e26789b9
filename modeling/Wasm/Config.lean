import Wasm.Validation.Module

/-!
Resource limits of an instance.
-/

namespace Wasm

/-- The limits that execution in one instance observes. -/
structure Config where
  /-- The most calls that may be active at once. -/
  maxCallDepth : Nat := 1024
  /-- The most slots of the operand stack, locals among them. -/
  maxOperandStack : Nat := 1048576
  /-- The most pages of a memory that the instance defines. -/
  maxMemoryPages : UInt32 := Validation.maxPages
deriving Repr, DecidableEq

/-- Sets the bound on pages, which no memory can exceed in any case. -/
def Config.withMaxMemoryPages (c : Config) (pages : UInt32) : Config :=
  { c with maxMemoryPages := min pages Validation.maxPages }

end Wasm
