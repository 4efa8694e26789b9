import Wasm.Machine.Execute

/-!
# A structured semantics of bodies

The reference for what the functions of an instance compute.  Every activation has its own locals,
blocks are run recursively on their parameters, and a run of a sequence ends in one of four ways: it
comes to its end, it branches out of some blocks, it returns, or it traps.  A branch to a loop runs
the body of the loop again on its parameters.  There are no frames, no shared stack of slots and no
limits.

The operands of a block are a list of their own; what lies below them is put back when the block
is left.  `body` and `loop` are given fuel for nested bodies and for repetitions, and answer `none`
only if it does not suffice.
-/

namespace Wasm.Structured

/-- What a running activation can change. -/
structure State where
  /-- The operands of the innermost block, the top first. -/
  operands : List UInt64
  locals : List UInt64
  objects : Objects

/-- A part of a run, which may trap. -/
abbrev Step (α : Type) := EStateM Trap State α

/-- The value of a computation that may trap. -/
def orTrap {α : Type} : Except Trap α → Step α
  | .ok a => pure a
  | .error t => throw t

/-! ### Operands, locals and globals -/

def push (slot : UInt64) : Step Unit :=
  modify fun σ => { σ with operands := slot :: σ.operands }

def pop : Step UInt64 := do
  match (← get).operands with
  | [] => throw .stackUnderflow
  | slot :: rest =>
    modify fun σ => { σ with operands := rest }
    return slot

def localGet (x : UInt32) : Step Unit := do
  match (← get).locals[x.toNat]? with
  | some slot => push slot
  | none => throw .stackUnderflow

/-- Replaces a local. -/
def assign (x : UInt32) (slot : UInt64) : Step Unit := do
  if x.toNat < (← get).locals.length then
    modify fun σ => { σ with locals := σ.locals.set x.toNat slot }
  else throw .stackUnderflow

def localSet (x : UInt32) : Step Unit := do
  assign x (← pop)

def localTee (x : UInt32) : Step Unit := do
  let slot ← pop
  push slot
  assign x slot

def globalGet (b : Bindings) (x : UInt32) : Step Unit := do
  let cell ← orTrap ((← get).objects.global (← orTrap (b.globalAt x)))
  push cell.value.toSlot

def globalSet (b : Bindings) (x : UInt32) : Step Unit := do
  let slot ← pop
  let a ← orTrap (b.globalAt x)
  let cell ← orTrap ((← get).objects.global a)
  let cell ← orTrap (cell.set (Value.ofSlot cell.value.type slot))
  modify fun σ => { σ with objects := σ.objects.putGlobal a cell }

def select : Step Unit := do
  let condition ← pop
  let second ← pop
  let first ← pop
  push (if condition.toUInt32 ≠ 0 then first else second)

/-! ### Memory -/

/-- The first byte of an access. -/
def address (m : MemArg) (slot : UInt64) : Nat :=
  m.offset.toNat + slot.toUInt32.toNat

/-- The memory of the instance and its address. -/
def memory (b : Bindings) : Step (Address × Memory) := do
  let a ← orTrap b.memoryAt
  return (a, ← orTrap ((← get).objects.memory a))

def load (b : Bindings) (m : MemArg) (count : Nat) (decode : Nat → UInt64) : Step Unit := do
  let slot ← pop
  let (_, memory) ← memory b
  push (decode (LittleEndian.decode (← orTrap (memory.read (address m slot) count))))

def store (b : Bindings) (m : MemArg) (count : Nat) : Step Unit := do
  let slot ← pop
  let position := address m (← pop)
  let (a, memory) ← memory b
  if memory.inBounds position count then
    modify fun σ => { σ with
      objects := σ.objects.putBytes a position (LittleEndian.encode count slot.toNat) }
  else throw (memory.outOfBounds position count)

def memorySize (b : Bindings) : Step Unit := do
  push (← memory b).2.size.toUInt64

/-- A memory that cannot grow answers with the greatest 32-bit number. -/
def memoryGrow (b : Bindings) : Step Unit := do
  let delta ← pop
  let (a, memory) ← memory b
  match memory.grow delta.toUInt32 with
  | .ok (old, memory) =>
    modify fun σ => { σ with objects := σ.objects.putMemory a memory }
    push old.toUInt64
  | .error _ => push 0xffffffff

/-! ### Instructions without control -/

def operate : Operator → Step Unit
  | .unary eval => do
    push (← orTrap (eval (← pop)))
  | .binary eval => do
    let right ← pop
    let left ← pop
    push (← orTrap (eval left right))

/-- An instruction that neither branches nor calls. -/
def simple (b : Bindings) (op : Opcode) (imm : Immediate) : Step Unit :=
  match op, imm with
  | .nop, _ => pure ()
  | .drop, _ => discard pop
  | .select, _ => select
  | .localGet, .index x => localGet x
  | .localSet, .index x => localSet x
  | .localTee, .index x => localTee x
  | .globalGet, .index x => globalGet b x
  | .globalSet, .index x => globalSet b x
  | .load t, .memArg m => load b m t.bytes UInt64.ofNat
  | .loadPart _ p s, .memArg m => load b m p.bytes (Execution.extendPart p s)
  | .store t, .memArg m => store b m t.bytes
  | .storePart _ p, .memArg m => store b m p.bytes
  | .memorySize, _ => memorySize b
  | .memoryGrow, _ => memoryGrow b
  | .const _, .value v => push v.toSlot
  | .truncSat, .truncSat t => operate (.unary fun a => .ok (t.eval a))
  | op, _ =>
    match op.operator? with
    | some f => operate f
    | none => throw .stackUnderflow

/-! ### Outcomes -/

/-- How a sequence ends. -/
inductive Outcome where
  | normal (σ : State)
  /-- A branch to the label `depth` blocks out. -/
  | branch (depth : Nat) (σ : State)
  | ret (σ : State)
  | trap (t : Trap) (o : Objects)

/-- What the end of a function is for its caller. -/
abbrev Result := Except Trap (List UInt64) × Objects

namespace Outcome

/-- The outcome seen from outside a block with the given number of results: a branch to the block is
its end. -/
def caught (results : Nat) : Outcome → Outcome
  | branch 0 σ => normal { σ with operands := σ.operands.take results }
  | branch (depth + 1) σ => branch depth σ
  | outcome => outcome

/-- Puts back the operands below a block that has come to its end. -/
def onto (below : List UInt64) : Outcome → Outcome
  | normal σ => normal { σ with operands := σ.operands ++ below }
  | outcome => outcome

/-- The outcome of a part of a run. -/
def ofStep {α : Type} (next : α → State → Option Outcome) : EStateM.Result Trap State α →
    Option Outcome
  | .ok a σ => next a σ
  | .error t σ => some (trap t σ.objects)

/-- What the outcome of the body of a function is for its caller: a branch out of the body returns,
and the results are on top. -/
def result (results : Nat) : Outcome → Result
  | normal σ | branch 0 σ | ret σ => (.ok (σ.operands.take results), σ.objects)
  | branch (_ + 1) σ => (.error .stackUnderflow, σ.objects)
  | trap t o => (.error t, o)

end Outcome

/-! ### Control -/

section Control

variable (b : Bindings) (body : Expr → State → Option Outcome)

/-- Runs the inside of a block on its parameters. -/
def block (type : BlockType) (inside : FuncType → State → Option Outcome) (σ : State) :
    Option Outcome :=
  match type.resolve? b.module.types with
  | none => some (.trap .stackUnderflow σ.objects)
  | some sig =>
    let params := sig.params.length
    (inside sig { σ with operands := σ.operands.take params }).map
      (.onto (σ.operands.drop params))

/-- Calls a function of the instance; the arguments are the first of its locals, and the others are
zero. -/
def function (f : Func) (args : List UInt64) (o : Objects) : Option Result :=
  match f with
  | .defined type localCount e =>
    (body e ⟨[], args ++ List.replicate localCount 0, o⟩).map (Outcome.result type.results.length)
  | .imported _ => some (.error (.missing "function"), o)

/-- Calls a function with the arguments on top of the operands. -/
def call (index : UInt32) (σ : State) : Option Outcome :=
  match b.func index with
  | .error t => some (.trap t σ.objects)
  | .ok f =>
    let params := f.type.params.length
    (function body f (σ.operands.take params).reverse σ.objects).map fun
      | (.ok results, o) => .normal ⟨results ++ σ.operands.drop params, σ.locals, o⟩
      | (.error t, o) => .trap t o

/-- The function that an indirect call finds in the table. -/
def selected (typeIndex : UInt32) : Step FuncRef := do
  let slot ← pop
  let a ← orTrap b.tableAt
  let table ← orTrap ((← get).objects.table a)
  match ← orTrap (table.get slot.toUInt32) with
  | none => throw (.uninitializedElement slot.toUInt32)
  | some f =>
    match b.module.types[typeIndex.toNat]? with
    | none => throw .stackUnderflow
    | some expected =>
      if f.type ≠ expected then throw (.indirectCallType expected f.type) else return f

/-- Calls a function that the instance owns; there are no others here. -/
def callRef (f : FuncRef) (σ : State) : Option Outcome :=
  match b.ownIndex? f with
  | some index => call b body index σ
  | none => some (.trap (.missing "function") σ.objects)

/-- An instruction without a body. -/
def plain (op : Opcode) (imm : Immediate) (σ : State) : Option Outcome :=
  match op, imm with
  | .unreachable, _ => some (.trap .unreachable σ.objects)
  | .br, .index depth => some (.branch depth.toNat σ)
  | .brIf, .index depth => Outcome.ofStep (fun condition σ =>
      some (if condition.toUInt32 ≠ 0 then .branch depth.toNat σ else .normal σ)) (pop σ)
  | .brTable, .labels table default => Outcome.ofStep (fun slot σ =>
      some (.branch (table[slot.toUInt32.toNat]?.getD default).toNat σ)) (pop σ)
  | .ret, _ => some (.ret σ)
  | .call, .index index => call b body index σ
  | .callIndirect, .typeIndex index => Outcome.ofStep (callRef b body) (selected b index σ)
  | op, imm => Outcome.ofStep (fun _ σ => some (.normal σ)) (simple b op imm σ)

/-- An instruction. -/
def instr (loop : Nat → Expr → State → Option Outcome) (i : Instr) (σ : State) : Option Outcome :=
  match i with
  | .plain op imm => plain b body op imm σ
  | .block op type e => block b type (fun sig σ =>
      if op = .loop then loop sig.params.length e σ
      else (body e σ).map (.caught sig.results.length)) σ
  | .ifElse _ type thenBody elseBody => Outcome.ofStep (fun condition =>
      block b type fun sig σ =>
        (body (if condition.toUInt32 ≠ 0 then thenBody else elseBody) σ).map
          (.caught sig.results.length)) (pop σ)

end Control

/-- A sequence of instructions, each of which is run by `step`. -/
def sequence (step : Instr → State → Option Outcome) : Expr → State → Option Outcome
  | [], σ => some (.normal σ)
  | i :: rest, σ =>
    match step i σ with
    | some (.normal σ) => sequence step rest σ
    | outcome => outcome

mutual
/-- The body of a block or a function. -/
def body (b : Bindings) : (fuel : Nat) → Expr → State → Option Outcome
  | 0, _, _ => none
  | fuel + 1, e, σ => sequence (instr b (body b fuel) (loop b fuel)) e σ

/-- The body of a loop with the given number of parameters. -/
def loop (b : Bindings) : (fuel params : Nat) → Expr → State → Option Outcome
  | 0, _, _, _ => none
  | fuel + 1, params, e, σ =>
    match sequence (instr b (body b fuel) (loop b fuel)) e σ with
    | some (.branch 0 σ) => loop b fuel params e { σ with operands := σ.operands.take params }
    | some (.branch (depth + 1) σ) => some (.branch depth σ)
    | outcome => outcome
end

/-- Calls a function by its index with arguments of any types: what it returns, or why it fails, and
the objects afterwards. -/
def invoke (fuel : Nat) (b : Bindings) (index : UInt32) (args : List Value) (o : Objects) :
    Option (Except Error (List Value) × Objects) :=
  match b.func index with
  | .error t => some (.error t.error, o)
  | .ok f =>
    match f.type.checkArgs (args.map Value.type) with
    | .error e => some (.error e, o)
    | .ok () => (function (body b fuel) f (args.map Value.toSlot) o).map fun
      | (.ok results, o) =>
        (.ok ((f.type.results.zip results.reverse).map fun (t, slot) => Value.ofSlot t slot), o)
      | (.error t, o) => (.error t.error, o)

end Wasm.Structured
