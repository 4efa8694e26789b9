import Wasm.Instantiate

/-!
What an embedder does with a store: it calls functions, reads and sets globals, and creates objects.
On the memories and tables that it finds among the members of modules it works as host functions do.
Every operation gives its answer together with the store after it; a failed operation on an object
leaves the object as it was.
-/

namespace Wasm

/-- More steps than any computation takes that is worth waiting for. -/
def Machine.ample : Nat := 1152921504606846976

namespace Store

/-! ### Calls -/

/-- Calls an exported function of an instance. -/
def invoke (fuel : Nat) (s : Store) (a : Address) (name : String) (args : List Value) :
    Option (Except Error (List Value) × Store) :=
  (Machine.invokeHandle s a name args []).run fuel

/-- Calls a function of an instance by its index. -/
def invokeIndex (fuel : Nat) (s : Store) (a : Address) (index : UInt32) (args : List Value) :
    Option (Except Error (List Value) × Store) :=
  (Machine.invokeIndex s a true index args []).run fuel

/-- Calls a function of a provider. -/
def invokeProvided (fuel : Nat) (s : Store) (p : Provider) (name : String) (args : List Value) :
    Option (Except Error (List Value) × Store) :=
  match p with
  | .native m => (Machine.invokeNative s m name args []).run fuel
  | .instance a => s.invoke fuel a name args

/-- Calls a function on behalf of a native module. -/
def callFunc (fuel : Nat) (s : Store) (caller : NativeModule) (f : FuncRef) (args : List Value) :
    Option (Except Error (List Value) × Store) :=
  (Machine.mk s (.call (.native caller) ⟨f, args⟩) []).run fuel

/-! ### Globals -/

/-- The address of a global of a provider. -/
def providedGlobal (s : Store) (p : Provider) (name : String) : Except Error Address :=
  match p with
  | .native m => m.globalAt name
  | .instance a => s.heldGlobal a name

/-- The value of a global of a provider. -/
def getGlobal (s : Store) (p : Provider) (name : String) : Except Error Value :=
  (s.providedGlobal p name).bind s.readGlobal

/-- Sets a global of a provider. -/
def setGlobal (s : Store) (p : Provider) (name : String) (v : Value) : Except Error Unit × Store :=
  match s.providedGlobal p name with
  | .ok a => s.assignGlobal a v
  | .error e => (.error e, s)

/-- Creates a global cell. -/
def addGlobal (s : Store) (c : Cell) : Address × Store :=
  (s.objects.globals.size,
    { s with objects := { s.objects with globals := s.objects.globals.push c } })

/-! ### Memories -/

/-- Creates a memory. -/
def addMemory (s : Store) (m : Memory) : Address × Store :=
  (s.objects.memories.size,
    { s with objects := { s.objects with memories := s.objects.memories.push m } })

/-! ### Tables -/

/-- Creates a table. -/
def addTable (s : Store) (t : Table) : Address × Store :=
  (s.objects.tables.size,
    { s with objects := { s.objects with tables := s.objects.tables.push t } })

end Store

end Wasm
