import Wasm.Machine.Answer
import Wasm.Machine.Execute

/-!
Activations.  An activation is one call into an instance from outside: from the embedder, from a
host function, or from another instance.  It remembers the thread as it found it, so that a failure
can cut the thread back to that point.
-/

namespace Wasm

/-- A call into an instance that has not returned. -/
structure Activation where
  self : Address
  /-- The result types of the called function. -/
  results : List ValueType
  /-- The thread at the time of the call. -/
  entry : Thread
  /-- Whether the call took the instance for itself, so that its end sets the instance free. -/
  exclusive : Bool

/-- The instruction at which wasm code is. -/
structure Site where
  position : Nat
  name : String
deriving Repr, DecidableEq

/-- The site of an instruction that a frame is about to execute. -/
def Frame.site (f : Frame) (i : Instr) : Site :=
  ⟨f.position, i.name⟩

/-- A failure seen from the instruction that caused it. -/
def Error.at (e : Error) (site : Site) : Error :=
  e.context s!"instruction {site.position} ({site.name})"

namespace Activation

/-- Sets the instance free again, if the call took it. -/
def release (act : Activation) (s : Store) : Store :=
  if act.exclusive then s.modifyInstance act.self fun i => { i with busy := false } else s

/-- Cuts the thread back to the time of the call. -/
def undo (act : Activation) (s : Store) : Store :=
  s.modifyInstance act.self fun i => { i with thread := i.thread.cutBack act.entry }

/-- Runs a part of an execution in the instance of the activation. -/
def run {α : Type} (act : Activation) (step : Bindings → Execution.Step α) :
    EStateM Error Store α := fun s =>
  match s.instance? act.self, s with
  | none, s => .error ownerDropped s
  | some i, ⟨objects, instances, handles, events⟩ =>
    let rebuild (x : Execution) : Store :=
      ⟨x.objects, instances.setIfInBounds act.self (some { i with thread := x.thread }),
        handles, events⟩
    match step i.bindings ⟨objects, i.thread⟩ with
    | .ok a x => .ok a (rebuild x)
    | .error e x => .error e (rebuild x)

/-- Takes the next instruction of the top frame, or closes the frame if nothing is left of it.  The
answer is the call to make outside of the instance, with its site, if the instruction is one. -/
def advance (b : Bindings) : Execution.Step (Option (Call × Site)) := do
  match (← get).thread.frames.items with
  | [] => Execution.trap (.missing "control frame")
  | f :: _ =>
    match f.rest with
    | [] =>
      Execution.exitFrame
      return none
    | i :: rest =>
      Execution.setFrames ((← get).thread.frames.setTop { f with rest := rest })
      let call ← tryCatch (Execution.execute b i) fun e => throw (e.at (f.site i))
      return call.map (·, f.site i)

/-- Puts arguments on the operand stack and calls a function by its index. -/
def enter (index : UInt32) (args : List Value) (b : Bindings) :
    Execution.Step (Option Call) := do
  Execution.setOperands
    (← Execution.orTrap ((← Execution.operands).pushAll (args.map Value.toSlot)))
  Execution.call b index

/-- Puts what an outside call returned on the operand stack. -/
def resume (type : FuncType) (values : List Value) : Execution.Step Unit := do
  match type.checkResults (values.map Value.type) with
  | .error e => throw e
  | .ok () =>
    Execution.setOperands
      (← Execution.orTrap ((← Execution.operands).pushAll (values.map Value.toSlot)))

/-- Takes the results of a finished call from the operand stack. -/
def finish (types : List ValueType) : Execution.Step (List Value) := do
  let (slots, rest) ← Execution.orTrap ((← Execution.operands).popMany types.length)
  Execution.setOperands rest
  return (types.zip slots).map fun (t, slot) => Value.ofSlot t slot

/-- Whether the frames of the call are all closed. -/
def isFinished (act : Activation) (s : Store) : Bool :=
  match s.instance? act.self with
  | none => false
  | some i => i.thread.frames.height ≤ act.entry.frames.height

end Activation

end Wasm
