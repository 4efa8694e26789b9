import Wasm.Error

/-!
Computations on states that can fail.  What reads a module and what checks a body is written once,
in any monad into which its single steps lift; a `Recorder` is what else such a monad offers.  In
the monad that runs nothing is recorded.  A proof that has to see where a computation goes chooses
another one.
-/

namespace Wasm

/-- A monad that is told about the parts of a computation. -/
class Recorder (M : Type → Type) where
  /-- Puts a context in front of every failure of a part. -/
  within {α : Type} : (Unit → String) → M α → M α
  /-- Notes where a part begins and where it ends. -/
  noted {α : Type} : M α → M α

/-- Nothing is recorded. -/
instance {σ : Type} : Recorder (StateT σ (Except Error)) where
  within outer c s := withContext outer (c s)
  noted c := c

end Wasm
