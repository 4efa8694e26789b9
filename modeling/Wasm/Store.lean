import Wasm.Store.Cell
import Wasm.Store.Instance
import Wasm.Store.Memory
import Wasm.Store.Table

/-!
The store.  Memories, tables and global cells are shared: instances and the host know them by their
addresses.  Instances are known by address too; an address whose instance is gone holds nothing, and
is never used again.
-/

namespace Wasm

/-- What instances can share. -/
structure Objects where
  memories : Array Memory := #[]
  tables : Array Table := #[]
  globals : Array Cell := #[]

namespace Objects

/-- The memory at an address. -/
def memory (o : Objects) (a : Address) : Except Trap Memory :=
  match o.memories[a]? with
  | some m => .ok m
  | none => .error (.missing "memory")

/-- The table at an address. -/
def table (o : Objects) (a : Address) : Except Trap Table :=
  match o.tables[a]? with
  | some t => .ok t
  | none => .error (.missing "table")

/-- The global cell at an address. -/
def global (o : Objects) (a : Address) : Except Trap Cell :=
  match o.globals[a]? with
  | some c => .ok c
  | none => .error (.missing "global")

/-- Replaces the memory at an address. -/
def putMemory (o : Objects) (a : Address) (m : Memory) : Objects :=
  { o with memories := o.memories.setIfInBounds a m }

/-- Replaces the table at an address. -/
def putTable (o : Objects) (a : Address) (t : Table) : Objects :=
  { o with tables := o.tables.setIfInBounds a t }

/-- Replaces the cell at an address. -/
def putGlobal (o : Objects) (a : Address) (c : Cell) : Objects :=
  { o with globals := o.globals.setIfInBounds a c }

/-- Replaces bytes of the memory at an address. -/
def putBytes (o : Objects) (a : Address) (offset : Nat) (data : List UInt8) : Objects :=
  { o with memories := o.memories.modify a (·.put offset data) }

/-- Puts functions into slots of the table at an address. -/
def putSlots (o : Objects) (a : Address) (offset : Nat) (funcs : List FuncRef) : Objects :=
  { o with tables := o.tables.modify a (·.put offset funcs) }

/-- Writes into a memory, if the bytes are within it. -/
def writeMemory (o : Objects) (a : Address) (offset : Nat) (data : List UInt8) :
    Except Trap Objects := do
  let m ← o.memory a
  if m.inBounds offset data.length then return o.putBytes a offset data
  else throw (m.outOfBounds offset data.length)

/-- Sets a global. -/
def setGlobal (o : Objects) (a : Address) (v : Value) : Except Trap Objects := do
  let c ← o.global a
  return o.putGlobal a (← c.set v)

/-- The type of a member. -/
def typeOf (o : Objects) : Member → Option ExternType
  | .func f => some (.func f.type)
  | .table a => (o.tables[a]?).map fun t => .table t.type
  | .memory a => (o.memories[a]?).map fun m => .memory m.limits
  | .global a => (o.globals[a]?).map fun c => .global c.type

end Objects

/-- All objects and instances, with what the host keeps about them. -/
structure Store where
  objects : Objects := {}
  instances : Array (Option Instance) := #[]
  /-- The instances for which the embedder holds a named handle. -/
  handles : List (String × Address) := []
  /-- What host functions have left behind, the last first. -/
  events : List Event := []

namespace Store

/-- The instance at an address, if it still exists. -/
def instance? (s : Store) (a : Address) : Option Instance :=
  (s.instances[a]?).join

/-- Replaces the instance at an address. -/
def setInstance (s : Store) (a : Address) (i : Option Instance) : Store :=
  { s with instances := s.instances.setIfInBounds a i }

/-- Changes the instance at an address. -/
def modifyInstance (s : Store) (a : Address) (f : Instance → Instance) : Store :=
  { s with instances := s.instances.modify a (·.map f) }

/-- The address behind a handle. -/
def handle? (s : Store) (name : String) : Option Address :=
  s.handles.lookup name

/-- Leaves an event behind. -/
def emit (s : Store) (e : Event) : Store :=
  { s with events := e :: s.events }

end Store

end Wasm
