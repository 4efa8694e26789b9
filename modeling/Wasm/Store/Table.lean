import Wasm.Store.Reference
import Wasm.Trap

/-!
Tables of function references.  A slot may be empty.  A table grows up to its declared maximum, with
empty slots, and never shrinks.
-/

namespace Wasm

/-- A table. -/
structure Table where
  type : TableType
  slots : Array (Option FuncRef)

namespace Table

/-- A new table of the declared minimal size, all slots empty. -/
def allocate (type : TableType) : Table :=
  ⟨type, Array.replicate type.limits.min.toNat none⟩

/-- The number of slots. -/
def size (t : Table) : UInt32 :=
  UInt32.ofNat t.slots.size

/-- The most slots that the table can have. -/
def bound (t : Table) : UInt32 :=
  t.type.limits.max.getD 4294967295

/-- Grows by `delta` empty slots, if the bound allows it, and gives the old size. -/
def grow (t : Table) (delta : UInt32) : Except Error (UInt32 × Table) :=
  if t.size.toNat + delta.toNat ≤ t.bound.toNat then
    .ok (t.size, { t with slots := t.slots ++ Array.replicate delta.toNat none })
  else
    .error (.runtime Code.resourceLimit
      s!"cannot grow table from {t.size.toNat} by {delta.toNat}, maximum is {t.bound.toNat}")

/-- What a slot holds. -/
def get (t : Table) (index : UInt32) : Except Trap (Option FuncRef) :=
  match t.slots[index.toNat]? with
  | some slot => .ok slot
  | none => .error (.tableOutOfBounds index t.slots.size)

/-- Replaces what a slot holds. -/
def set (t : Table) (index : UInt32) (f : Option FuncRef) : Except Trap Table :=
  if index.toNat < t.slots.size then .ok { t with slots := t.slots.setIfInBounds index.toNat f }
  else .error (.tableOutOfBounds index t.slots.size)

/-- Puts functions in a row, from `offset` on. -/
def put (t : Table) (offset : Nat) : List FuncRef → Table
  | [] => t
  | f :: rest => put { t with slots := t.slots.setIfInBounds offset (some f) } (offset + 1) rest

end Table

end Wasm
