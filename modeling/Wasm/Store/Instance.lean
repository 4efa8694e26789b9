import Wasm.Store.Reference
import Wasm.Thread

/-!
Instances.  An instance is a module with its indices bound to functions and to places in the store,
and the thread that runs its functions.
-/

namespace Wasm

/-- An entry of the function index space of an instance. -/
inductive Func where
  /-- A function of the module, with the number of its locals and its body. -/
  | defined (type : FuncType) (localCount : Nat) (body : Expr)
  /-- An imported function. -/
  | imported (f : FuncRef)

/-- The signature of a function. -/
def Func.type : Func → FuncType
  | defined type .. => type
  | imported f => f.type

/-- What the indices of a module stand for in one of its instances. -/
structure Bindings where
  /-- The instance itself. -/
  self : Address
  module : Module
  config : Config
  funcs : Array Func := #[]
  globals : Array Address := #[]
  memory : Option Address := none
  table : Option Address := none

namespace Bindings

/-- A function by its index. -/
def func (b : Bindings) (index : UInt32) : Except Trap Func :=
  match b.funcs[index.toNat]? with
  | some f => .ok f
  | none => .error (.undefinedFunction index)

/-- The reference under which a function is known outside the instance. -/
def funcRef? (b : Bindings) (index : UInt32) : Option FuncRef :=
  b.funcs[index.toNat]?.map fun
    | .defined type .. => .owned type b.self index
    | .imported f => f

/-- The index of a function that the instance itself owns. -/
def ownIndex? (b : Bindings) : FuncRef → Option UInt32
  | .owned _ owner index => if owner = b.self then some index else none
  | .host .. => none

/-- The address of a global by its index. -/
def globalAt (b : Bindings) (index : UInt32) : Except Trap Address :=
  match b.globals[index.toNat]? with
  | some a => .ok a
  | none => .error (.unknownGlobal index)

/-- The address of the memory. -/
def memoryAt (b : Bindings) : Except Trap Address :=
  match b.memory with
  | some a => .ok a
  | none => .error (.missing "memory")

/-- The address of the table. -/
def tableAt (b : Bindings) : Except Trap Address :=
  match b.table with
  | some a => .ok a
  | none => .error (.missing "table")

/-- The index of an export of a kind. -/
def exportIndex (b : Bindings) (kind : ExternKind) (name : String) : Except Error UInt32 :=
  match b.module.export? name with
  | some e => if e.kind = kind then .ok e.index else .error (exportNotFound kind.name name)
  | none => .error (exportNotFound kind.name name)

/-- The address of an exported global. -/
def exportedGlobal (b : Bindings) (name : String) : Except Error Address := do
  let index ← b.exportIndex .global name
  match b.globals[index.toNat]? with
  | some a => return a
  | none => throw (Trap.missing "global").error

/-- What the instance provides under a name. -/
def member? (b : Bindings) (name : String) : Option Member :=
  (b.module.export? name).bind fun e =>
    match e.kind with
    | .func => (b.funcRef? e.index).map .func
    | .global => (b.globals[e.index.toNat]?).map .global
    | .memory => b.memory.map .memory
    | .table => b.table.map .table

end Bindings

/-- A module that has been instantiated. -/
structure Instance where
  bindings : Bindings
  thread : Thread
  /-- Whether a call from outside is running in the instance. -/
  busy : Bool := false

end Wasm
