import Wasm.Instr

/-!
Modules.  A `Module` is the syntax tree of a binary module.  Functions, tables, memories and globals
have index spaces: first what is imported of that kind, in the order of the imports, then what the
module defines.  `funcTypeIndices` and `globalTypes` are these spaces as lists; `funcTypeIndex?` and
`globalType?` find one entry without building the list.
-/

namespace Wasm

/-- What a module expects of an import. -/
inductive ImportDesc where
  | func (typeIndex : UInt32)
  | table (type : TableType)
  | memory (limits : Limits)
  | global (type : GlobalType)
deriving Repr, DecidableEq

/-- The kind of an import. -/
def ImportDesc.kind : ImportDesc → ExternKind
  | func _ => .func
  | table _ => .table
  | memory _ => .memory
  | global _ => .global

/-- The type index of an imported function. -/
def ImportDesc.funcTypeIndex? : ImportDesc → Option UInt32
  | func t => some t
  | _ => none

/-- The type of an imported global. -/
def ImportDesc.globalType? : ImportDesc → Option GlobalType
  | global t => some t
  | _ => none

/-- An import, by the names of a module and of a member. -/
structure Import where
  module : String
  name : String
  desc : ImportDesc
deriving Repr, DecidableEq

/-- An export: a name for an entry of an index space. -/
structure Export where
  name : String
  kind : ExternKind
  index : UInt32
deriving Repr, DecidableEq

/-- A global that a module defines. -/
structure Global where
  type : GlobalType
  init : Expr
deriving Repr

/-- An element segment: functions to be placed in a table. -/
structure Element where
  table : UInt32
  offset : Expr
  funcs : List UInt32
deriving Repr

/-- A run of locals of one type. -/
structure Locals where
  count : UInt32
  type : ValueType
deriving Repr, DecidableEq

/-- The number of locals in all runs together. -/
def Locals.total : List Locals → Nat
  | [] => 0
  | l :: rest => l.count.toNat + total rest

/-- The body of a function. -/
structure Code where
  locals : List Locals
  body : Expr
deriving Repr

namespace Code

/-- The number of declared locals. -/
def localCount (c : Code) : Nat :=
  Locals.total c.locals

/-- The type of each declared local. -/
def localTypes (c : Code) : List ValueType :=
  c.locals.flatMap fun l => List.replicate l.count.toNat l.type

end Code

/-- A data segment: bytes to be placed in a memory. -/
structure Data where
  memory : UInt32
  offset : Expr
  bytes : List UInt8
deriving Repr

/-- A section that carries a name and opaque bytes. -/
structure Custom where
  name : String
  bytes : List UInt8
deriving Repr, DecidableEq

/-- A module. -/
structure Module where
  types : List FuncType := []
  imports : List Import := []
  /-- The type indices of the defined functions. -/
  functions : List UInt32 := []
  tables : List TableType := []
  memories : List Limits := []
  globals : List Global := []
  exports : List Export := []
  start : Option UInt32 := none
  elements : List Element := []
  /-- The bodies of the defined functions. -/
  codes : List Code := []
  data : List Data := []
  customs : List Custom := []
deriving Repr

namespace Module

/-- The number of imports of a kind. -/
def importCount (m : Module) (kind : ExternKind) : Nat :=
  m.imports.countP fun i => i.desc.kind = kind

/-- The size of the index space of a kind. -/
def count (m : Module) : ExternKind → Nat
  | .func => m.importCount .func + m.functions.length
  | .table => m.importCount .table + m.tables.length
  | .memory => m.importCount .memory + m.memories.length
  | .global => m.importCount .global + m.globals.length

/-- The type indices of the imported functions. -/
def importedFuncs (m : Module) : List UInt32 :=
  m.imports.filterMap fun i => i.desc.funcTypeIndex?

/-- The types of the imported globals. -/
def importedGlobals (m : Module) : List GlobalType :=
  m.imports.filterMap fun i => i.desc.globalType?

/-- The type index of each function. -/
def funcTypeIndices (m : Module) : List UInt32 :=
  m.importedFuncs ++ m.functions

/-- The type of each global. -/
def globalTypes (m : Module) : List GlobalType :=
  m.importedGlobals ++ m.globals.map Global.type

/-- Entry `i` of an index space: the imports that `select` picks come first, then what is
`defined`. -/
def entry? {α : Type} (select : ImportDesc → Option α) (defined : Nat → Option α) :
    List Import → Nat → Option α
  | [], i => defined i
  | imp :: rest, i =>
    match select imp.desc, i with
    | none, i => entry? select defined rest i
    | some a, 0 => some a
    | some _, i + 1 => entry? select defined rest i

/-- The type index of a function. -/
def funcTypeIndex? (m : Module) (i : UInt32) : Option UInt32 :=
  entry? ImportDesc.funcTypeIndex? (fun k => m.functions[k]?) m.imports i.toNat

/-- The signature of a function. -/
def funcType? (m : Module) (i : UInt32) : Option FuncType :=
  (m.funcTypeIndex? i).bind fun t => m.types[t.toNat]?

/-- The type of a global. -/
def globalType? (m : Module) (i : UInt32) : Option GlobalType :=
  entry? ImportDesc.globalType? (fun k => m.globals[k]?.map Global.type) m.imports i.toNat

/-- The export with a name. -/
def export? (m : Module) (name : String) : Option Export :=
  m.exports.find? fun e => e.name = name

end Module

end Wasm
