import Wasm.Thread.Stack
import Wasm.Trap

/-!
The operand stack.  Every value takes one slot of 64 bits; the parameters and locals of the running
calls lie on the same stack.  Its height is limited: what would exceed the limit overflows, and what
needs more slots than there are underflows.
-/

namespace Wasm

/-- A stack of slots with a limit on its height. -/
structure OperandStack where
  slots : Stack UInt64
  limit : Nat

namespace OperandStack

/-- The stack without slots. -/
def empty (limit : Nat) : OperandStack :=
  ⟨Stack.empty, limit⟩

/-- The number of slots. -/
def height (s : OperandStack) : Nat :=
  s.slots.height

def push (s : OperandStack) (slot : UInt64) : Except Trap OperandStack :=
  if s.limit ≤ s.height then .error .stackOverflow
  else .ok { s with slots := s.slots.push slot }

/-- Pushes slots one after another. -/
def pushAll (s : OperandStack) : List UInt64 → Except Trap OperandStack
  | [] => .ok s
  | slot :: rest =>
    match s.push slot with
    | .ok s => s.pushAll rest
    | .error t => .error t

/-- Pushes `count` slots that hold zero. -/
def pushZeros (s : OperandStack) (count : Nat) : Except Trap OperandStack :=
  if s.limit - s.height < count then .error .stackOverflow
  else .ok { s with slots := s.slots.pushMany count 0 }

def pop (s : OperandStack) : Except Trap (UInt64 × OperandStack) :=
  match s.slots.pop? with
  | some (slot, slots) => .ok (slot, { s with slots := slots })
  | none => .error .stackUnderflow

/-- The top slot. -/
def peek (s : OperandStack) : Except Trap UInt64 :=
  match s.slots.pop? with
  | some (slot, _) => .ok slot
  | none => .error .stackUnderflow

/-- The slot at a position counted from the bottom. -/
def get (s : OperandStack) (position : Nat) : Except Trap UInt64 :=
  match s.slots.get? position with
  | some slot => .ok slot
  | none => .error .stackUnderflow

/-- Replaces the slot at a position counted from the bottom. -/
def set (s : OperandStack) (position : Nat) (slot : UInt64) : Except Trap OperandStack :=
  if position < s.height then .ok { s with slots := s.slots.set position slot }
  else .error .stackUnderflow

/-- Keeps the top `keep` slots and, below them, only what is under height `base`. -/
def unwind (s : OperandStack) (base keep : Nat) : Except Trap OperandStack :=
  if s.height < base + keep then .error .stackUnderflow
  else if s.height = base + keep then .ok s
  else .ok { s with slots := s.slots.unwind base keep }

/-- Takes off everything above a height. -/
def truncate (s : OperandStack) (height : Nat) : OperandStack :=
  { s with slots := s.slots.truncate height }

/-- Takes off the top `count` slots and gives them in the order of their pushing. -/
def popMany (s : OperandStack) (count : Nat) : Except Trap (List UInt64 × OperandStack) :=
  if s.height < count then .error .stackUnderflow
  else .ok ((s.slots.items.take count).reverse, { s with slots := s.slots.drop count })

end OperandStack

end Wasm
