import Wasm.Trap
import Wasm.Value

/-!
Global cells.  A cell keeps a value; its type is that of its value, and a value of another type is
refused, so the type of a cell never changes.
-/

namespace Wasm

/-- The storage of a global. -/
structure Cell where
  isMutable : Bool
  value : Value
deriving Repr, DecidableEq

namespace Cell

/-- The type of a cell. -/
def type (c : Cell) : GlobalType :=
  ⟨c.value.type, c.isMutable⟩

/-- Replaces the value, if the cell is mutable and the types agree. -/
def set (c : Cell) (v : Value) : Except Trap Cell :=
  if c.isMutable = false then .error .immutableGlobal
  else if v.type ≠ c.value.type then .error (.globalType v.type c.value.type)
  else .ok { c with value := v }

theorem type_of_set {c d : Cell} {v : Value} (h : c.set v = .ok d) : d.type = c.type := by
  unfold set at h
  split at h
  · cases h
  · split at h
    · cases h
    · next ht =>
      cases h
      simp only [ne_eq, Decidable.not_not] at ht
      simp [type, ht]

end Cell

end Wasm
