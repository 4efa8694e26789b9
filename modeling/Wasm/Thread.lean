import Wasm.Config
import Wasm.Thread.Frame
import Wasm.Thread.OperandStack

/-!
Threads.  The thread of an instance is what changes while its functions run: the operand stack, the
control frames, where the locals of the running call begin, and how many calls are active.
-/

namespace Wasm

/-- The state of execution in an instance. -/
structure Thread where
  operands : OperandStack
  frames : Stack Frame
  /-- The position of the first local of the running call. -/
  localBase : Nat
  callDepth : Nat

namespace Thread

/-- The thread of an instance in which nothing runs. -/
def idle (config : Config) : Thread :=
  ⟨.empty config.maxOperandStack, .empty, 0, 0⟩

/-- The thread cut back to what another one, further back in time, had on its stacks. -/
def cutBack (t earlier : Thread) : Thread :=
  { operands := t.operands.truncate earlier.operands.height
    frames := t.frames.truncate earlier.frames.height
    localBase := earlier.localBase
    callDepth := earlier.callDepth }

end Thread

end Wasm
