import Wasm.Instr

/-!
Control frames.  A frame is one scope that is being executed: a block, a loop, the chosen arm of an
`if`, or the body of a called function.  It holds what is left of its body, and where on the operand
stack its parameters began.
-/

namespace Wasm

/-- What opened a frame. -/
inductive FrameKind where
  | block
  | loop
  | ifElse
  | call
deriving Repr, DecidableEq

/-- A scope that is being executed. -/
structure Frame where
  kind : FrameKind
  body : Expr
  /-- The end of the body that is still to be executed. -/
  rest : Expr
  /-- The height of the operand stack below the parameters; for a call, where its locals begin. -/
  base : Nat
  params : Nat
  results : Nat
  /-- For a call, where the locals of the caller begin. -/
  savedLocalBase : Nat := 0
deriving Repr

namespace Frame

/-- The frame at the start of a body. -/
def enter (kind : FrameKind) (body : Expr) (base params results : Nat) : Frame :=
  { kind, body, rest := body, base, params, results }

/-- The number of instructions that have been taken from the body. -/
def position (f : Frame) : Nat :=
  f.body.length - f.rest.length

/-- The number of values that a branch to the frame carries: a loop starts over with its parameters,
any other frame ends with its results. -/
def branchArity (f : Frame) : Nat :=
  if f.kind = .loop then f.params else f.results

/-- Whether nothing is left of the body. -/
def isFinished (f : Frame) : Bool :=
  f.rest.isEmpty

/-- The frame back at the start of its body. -/
def restart (f : Frame) : Frame :=
  { f with rest := f.body }

end Frame

end Wasm
