import Wasm.Value

/-!
Host functions.  What a host function does between its call and its return is a `Proc`: a finite
series of requests to the modules around it, each with a continuation for the answer, that ends in
results or a failure.  A host function can turn to its caller, or to an instance for which the
embedder holds a named handle.

Globals, memories and tables are found among the members of these, or the host function holds one
itself.  It does not hold references to functions: it takes them from where they are when it needs
them, and one that it wants to keep it puts in a table of its own.
-/

namespace Wasm

/-- A place in one of the lists of the store. -/
abbrev Address := Nat

/-- Whom a host function turns to. -/
inductive Target where
  /-- The module that called it. -/
  | caller
  /-- The instance behind a handle. -/
  | handle (name : String)
deriving Repr, DecidableEq

/-- A reference to a global, a memory or a table. -/
inductive ObjectRef where
  /-- One that the host function holds. -/
  | held (a : Address)
  | member (target : Target) (name : String)
deriving Repr, DecidableEq

/-- Where a reference to a function is taken from. -/
inductive FuncSource where
  | member (target : Target) (name : String)
  | slot (table : ObjectRef) (index : UInt32)
deriving Repr, DecidableEq

/-- What a host function leaves behind for the embedder. -/
inductive Event where
  /-- Text for the output of the program. -/
  | printed (text : String)
  /-- A line for the log of the host. -/
  | noted (text : String)
deriving Repr, DecidableEq

/-- A request that is answered at once. -/
inductive Request where
  | emit (event : Event)
  | getGlobal (target : Target) (name : String)
  | setGlobal (target : Target) (name : String) (value : Value)
  /-- The type of a member. -/
  | member (target : Target) (name : String)
  /-- Writes into a memory that the caller exports; without such a memory nothing happens. -/
  | writeMemory (name : String) (offset : Nat) (data : List UInt8)
  /-- The names and kinds of the exports of the instance behind a handle. -/
  | exports (handle : String)
  /-- Whether the instance behind a handle has a memory. -/
  | hasMemory (handle : String)
  | readCell (global : ObjectRef)
  | setCell (global : ObjectRef) (value : Value)
  /-- The bytes of a part of a memory. -/
  | readBytes (memory : ObjectRef) (offset length : Nat)
  | putBytes (memory : ObjectRef) (offset : Nat) (data : List UInt8)
  | growMemory (memory : ObjectRef) (delta : UInt32)
  | growTable (table : ObjectRef) (delta : UInt32)
  /-- The type of the function in a slot of a table. -/
  | slotType (table : ObjectRef) (index : UInt32)
  /-- Puts a function in a slot of a table, or empties the slot. -/
  | setSlot (table : ObjectRef) (index : UInt32) (source : Option FuncSource)
deriving Repr, DecidableEq

/-- What a request is answered with; nothing, if there is no such object or function. -/
def Request.Answer : Request → Type
  | emit _ => Unit
  | getGlobal .. => Except Error Value
  | setGlobal .. => Except Error Unit
  | member .. => Option ExternType
  | writeMemory .. => Except Error Unit
  | exports _ => List (String × ExternKind)
  | hasMemory _ => Bool
  | readCell _ => Option (Except Error Value)
  | setCell .. => Option (Except Error Unit)
  | readBytes .. => Option (Except Error (List UInt8))
  | putBytes .. => Option (Except Error Unit)
  | growMemory .. => Option (Except Error UInt32)
  | growTable .. => Option (Except Error UInt32)
  | slotType .. => Option (Except Error (Option FuncType))
  | setSlot .. => Option (Except Error Unit)

/-- What a host function does. -/
inductive Proc where
  /-- Returns. -/
  | done (result : Except Error (List Value))
  /-- Makes a request and goes on with the answer. -/
  | ask (request : Request) (next : request.Answer → Proc)
  /-- Calls an exported function and goes on with what it returned. -/
  | invoke (target : Target) (name : String) (args : List Value)
      (next : Except Error (List Value) → Proc)
  /-- Calls a function by a reference and goes on with what it returned, or otherwise if there is
  no function. -/
  | call (source : FuncSource) (args : List Value) (otherwise : Proc)
      (next : Except Error (List Value) → Proc)

/-- Leaves an event behind and goes on. -/
def Proc.emit (event : Event) (next : Proc) : Proc :=
  .ask (.emit event) fun _ => next

end Wasm
