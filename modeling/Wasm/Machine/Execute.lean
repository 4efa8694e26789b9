import Wasm.Numeric.Operator
import Wasm.Store

/-!
Execution of single instructions.  An instruction works on the thread of its instance and on the
objects that the instance is bound to.  A call of a function that the instance owns opens a frame; a
call of any other function is left to the machine around the instance, as a `Call`.
-/

namespace Wasm

/-- What an instruction can change. -/
structure Execution where
  objects : Objects
  thread : Thread

/-- A call that leaves the instance. -/
structure Call where
  func : FuncRef
  args : List Value

namespace Execution

/-- A part of an execution, which may fail; a failure keeps what has been changed so far. -/
abbrev Step (α : Type) := EStateM Error Execution α

/-- Stops with a trap. -/
def trap {α : Type} (t : Trap) : Step α :=
  throw t.error

/-- The value of a computation that may trap. -/
def orTrap {α : Type} : Except Trap α → Step α
  | .ok a => pure a
  | .error t => trap t

/-- Stops at an instruction whose operands do not suit its opcode. -/
def malformed {α : Type} (i : Instr) : Step α :=
  throw (.validation Code.typeMismatch s!"malformed immediate for {i.name}")

/-! ### Stacks -/

/-- Replaces the operand stack. -/
def setOperands (operands : OperandStack) : Step Unit :=
  modify fun x => { x with thread := { x.thread with operands := operands } }

/-- The operand stack. -/
def operands : Step OperandStack := do
  return (← get).thread.operands

def push (slot : UInt64) : Step Unit := do
  setOperands (← orTrap ((← operands).push slot))

def pop : Step UInt64 := do
  let (slot, rest) ← orTrap (← operands).pop
  setOperands rest
  return slot

/-- Pops a 32-bit integer. -/
def popU32 : Step UInt32 := do
  return (← pop).toUInt32

/-- Replaces the control frames. -/
def setFrames (frames : Stack Frame) : Step Unit :=
  modify fun x => { x with thread := { x.thread with frames := frames } }

/-- Closes the top frame: its results stay on the operand stack, what they stood on goes. -/
def exitFrame : Step Unit := do
  match (← get).thread.frames.pop? with
  | none => trap (.missing "control frame")
  | some (f, below) =>
    setOperands (← orTrap ((← operands).unwind f.base f.results))
    setFrames below
    if f.kind = .call then
      modify fun x => { x with thread := { x.thread with
        localBase := f.savedLocalBase, callDepth := x.thread.callDepth - 1 } }

/-! ### Control -/

/-- A type index beyond the types of the module. -/
def unknownType (i : UInt32) : Error :=
  .validation Code.typeIndex s!"unknown type {i.toNat}"

/-- The signature of a block. -/
def blockType (b : Bindings) (type : BlockType) : Step FuncType :=
  match type.resolve? b.module.types, type with
  | some t, _ => pure t
  | none, .index i => throw (unknownType i)
  | none, _ => pure {}

/-- The height of the operand stack below the top `params` slots. -/
def baseBelow (params : Nat) : Step Nat := do
  let height := (← operands).height
  if height < params then trap .stackUnderflow else return height - params

/-- Opens the frame of a block, a loop or an arm. -/
def enter (b : Bindings) (kind : FrameKind) (type : BlockType) (body : Expr) : Step Unit := do
  let t ← blockType b type
  let base ← baseBelow t.params.length
  setFrames ((← get).thread.frames.push
    (.enter kind body base t.params.length t.results.length))

/-- Branches to the frame `depth` frames out.  A loop starts over with its parameters; any other
frame ends with its results. -/
def branch (depth : UInt32) : Step Unit := do
  let frames := (← get).thread.frames
  if frames.height ≤ depth.toNat then trap (.branchDepth depth)
  else
    let frames := frames.drop depth.toNat
    setFrames frames
    match frames.items with
    | [] => trap (.missing "control frame")
    | f :: _ =>
      if f.kind = .loop then
        setOperands (← orTrap ((← operands).unwind f.base f.branchArity))
        setFrames (frames.setTop f.restart)
      else exitFrame

/-- Branches out of the running call. -/
def ret : Step Unit := do
  match (← get).thread.frames.items.findIdx? (·.kind = .call) with
  | some depth => branch (UInt32.ofNat depth)
  | none => trap (.missing "call frame")

/-- Takes the arguments of a call that leaves the instance from the operand stack. -/
def leave (func : FuncRef) : Step Call := do
  let (slots, rest) ← orTrap ((← operands).popMany func.type.params.length)
  setOperands rest
  return ⟨func, (func.type.params.zip slots).map fun (t, slot) => Value.ofSlot t slot⟩

/-- Calls a function by its index, with the arguments on the operand stack. -/
def call (b : Bindings) (index : UInt32) : Step (Option Call) := do
  match ← orTrap (b.func index) with
  | .imported f => some <$> leave f
  | .defined type localCount body =>
    let t := (← get).thread
    if b.config.maxCallDepth ≤ t.callDepth then trap (.callStackExhausted t.callDepth)
    else
      let base ← baseBelow type.params.length
      setOperands (← orTrap (t.operands.pushZeros localCount))
      modify fun x => { x with thread := { x.thread with
        frames := t.frames.push { Frame.enter .call body base type.params.length type.results.length
          with savedLocalBase := t.localBase }
        localBase := base
        callDepth := t.callDepth + 1 } }
      return none

/-- Calls the function in a slot of the table, if it has the expected signature. -/
def callIndirect (b : Bindings) (typeIndex : UInt32) : Step (Option Call) := do
  let slot ← popU32
  let a ← orTrap b.tableAt
  let table ← orTrap ((← get).objects.table a)
  match ← orTrap (table.get slot) with
  | none => trap (.uninitializedElement slot)
  | some f =>
    match b.module.types[typeIndex.toNat]? with
    | none => throw (unknownType typeIndex)
    | some expected =>
      if f.type ≠ expected then trap (.indirectCallType expected f.type)
      else
        match b.ownIndex? f with
        | some index => call b index
        | none => some <$> leave f

/-! ### Locals and globals -/

/-- The position of a local of the running call. -/
def localAt (index : UInt32) : Step Nat := do
  return (← get).thread.localBase + index.toNat

def localGet (index : UInt32) : Step Unit := do
  push (← orTrap ((← operands).get (← localAt index)))

def localSet (index : UInt32) : Step Unit := do
  let slot ← pop
  setOperands (← orTrap ((← operands).set (← localAt index) slot))

def localTee (index : UInt32) : Step Unit := do
  let slot ← orTrap (← operands).peek
  setOperands (← orTrap ((← operands).set (← localAt index) slot))

def globalGet (b : Bindings) (index : UInt32) : Step Unit := do
  let cell ← orTrap ((← get).objects.global (← orTrap (b.globalAt index)))
  push cell.value.toSlot

def globalSet (b : Bindings) (index : UInt32) : Step Unit := do
  let slot ← pop
  let a ← orTrap (b.globalAt index)
  let cell ← orTrap ((← get).objects.global a)
  let cell ← orTrap (cell.set (Value.ofSlot cell.value.type slot))
  modify fun x => { x with objects := x.objects.putGlobal a cell }

/-- Keeps the first of two operands if the condition on top of them is not zero. -/
def select : Step Unit := do
  let condition ← popU32
  let second ← pop
  let first ← pop
  push (if condition ≠ 0 then first else second)

/-! ### Memory -/

/-- The address of an access, which does not wrap around. -/
def effectiveAddress (m : MemArg) (address : UInt32) : Nat :=
  m.offset.toNat + address.toNat

/-- Loads `count` bytes and pushes what `decode` makes of their number. -/
def load (b : Bindings) (m : MemArg) (count : Nat) (decode : Nat → UInt64) : Step Unit := do
  let address ← popU32
  let memory ← orTrap ((← get).objects.memory (← orTrap b.memoryAt))
  let data ← orTrap (memory.read (effectiveAddress m address) count)
  push (decode (LittleEndian.decode data))

/-- Stores the lowest `count` bytes of the popped slot. -/
def store (b : Bindings) (m : MemArg) (count : Nat) : Step Unit := do
  let slot ← pop
  let address ← popU32
  let a ← orTrap b.memoryAt
  let memory ← orTrap ((← get).objects.memory a)
  let offset := effectiveAddress m address
  if memory.inBounds offset count then
    modify fun x => { x with
      objects := x.objects.putBytes a offset (LittleEndian.encode count slot.toNat) }
  else trap (memory.outOfBounds offset count)

/-- The slot that a narrow load gives for the number it read. -/
def extendPart {w : Width} (p : Part w) (s : Sign) (n : Nat) : UInt64 :=
  match s with
  | .unsigned => w.slot (BitVec.ofNat w.bits n)
  | .signed => w.slot ((BitVec.ofNat p.bits n).signExtend w.bits)

def memorySize (b : Bindings) : Step Unit := do
  let memory ← orTrap ((← get).objects.memory (← orTrap b.memoryAt))
  push memory.size.toUInt64

/-- Grows the memory and pushes the old size, or the greatest 32-bit number if it cannot grow. -/
def memoryGrow (b : Bindings) : Step Unit := do
  let delta ← popU32
  let a ← orTrap b.memoryAt
  let memory ← orTrap ((← get).objects.memory a)
  match memory.grow delta with
  | .ok (old, memory) =>
    modify fun x => { x with objects := x.objects.putMemory a memory }
    push old.toUInt64
  | .error _ => push 0xffffffff

/-! ### Numbers -/

/-- Applies a numeric operator to the top of the operand stack. -/
def operate : Operator → Step Unit
  | .unary eval => do
    let a ← pop
    push (← orTrap (eval a))
  | .binary eval => do
    let b ← pop
    let a ← pop
    push (← orTrap (eval a b))

/-! ### Dispatch -/

/-- The operands of an instruction; those of one with a body are its body. -/
def immediate : Instr → Immediate
  | .plain _ imm => imm
  | _ => .none

/-- Executes the opcodes that neither branch nor call. -/
def simple (b : Bindings) (i : Instr) : Step Unit :=
  match i.opcode, immediate i with
  | .nop, _ => pure ()
  | .drop, _ => discard pop
  | .select, _ => select
  | .localGet, .index n => localGet n
  | .localSet, .index n => localSet n
  | .localTee, .index n => localTee n
  | .globalGet, .index n => globalGet b n
  | .globalSet, .index n => globalSet b n
  | .load t, .memArg m => load b m t.bytes UInt64.ofNat
  | .loadPart _ p s, .memArg m => load b m p.bytes (extendPart p s)
  | .store t, .memArg m => store b m t.bytes
  | .storePart _ p, .memArg m => store b m p.bytes
  | .memorySize, _ => memorySize b
  | .memoryGrow, _ => memoryGrow b
  | .const _, .value v => push v.toSlot
  | .truncSat, .truncSat t => operate (.unary fun a => .ok (t.eval a))
  | op, _ =>
    match op.operator? with
    | some f => operate f
    | none => malformed i

/-- Executes one instruction of the top frame. -/
def execute (b : Bindings) (i : Instr) : Step (Option Call) :=
  match i.opcode, i with
  | .unreachable, _ => trap .unreachable
  | .block, .block _ type body => do
    enter b .block type body
    return none
  | .loop, .block _ type body => do
    enter b .loop type body
    return none
  | .ifElse, .ifElse _ type thenBody elseBody => do
    let condition ← popU32
    enter b .ifElse type (if condition ≠ 0 then thenBody else elseBody)
    return none
  | .br, .plain _ (.index depth) => do
    branch depth
    return none
  | .brIf, .plain _ (.index depth) => do
    if (← popU32) ≠ 0 then branch depth
    return none
  | .brTable, .plain _ (.labels table default) => do
    branch (table[(← popU32).toNat]?.getD default)
    return none
  | .ret, _ => do
    ret
    return none
  | .call, .plain _ (.index index) => call b index
  | .callIndirect, .plain _ (.typeIndex index) => callIndirect b index
  | _, i => do
    simple b i
    return none

end Execution

end Wasm
