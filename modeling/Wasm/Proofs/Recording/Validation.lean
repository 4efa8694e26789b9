import Wasm.Proofs.Recording.Recorded
import Wasm.Validation.Function

/-!
# The states that a check passes through

A `Passage` is a check of a body that records every state that it passes through.  Whatever changes
the state once, or only looks at it, is a step, which records the state after it; what is put
together from such checks is written for any monad that they lift into, so it can be run as a
passage as well.
-/

namespace Wasm.Validation

/-- A check that records the states that it passes through. -/
abbrev Passage (α : Type) := Recorded State State α

instance : MonadLift Check Passage := ⟨Recorded.step id⟩

/-- Only states are recorded. -/
instance : Recorder Passage := ⟨Recorded.within, id⟩

namespace Passage

/-- Leaves the innermost block. -/
abbrev popFrame : Passage Unit :=
  Validation.popFrame

/-- One instruction. -/
abbrev instr (scope : Scope) (i : Instr) : Passage Unit :=
  scope.instr i

/-- A body of a function with the given type, from the start. -/
def function (m : Module) (typeIndex : UInt32) (code : Code) : List State × Except Error Unit :=
  let check : Passage Unit := body m typeIndex code
  (check.record ⟨[], []⟩, (check.result ⟨[], []⟩).map Prod.fst)

end Passage

end Wasm.Validation
