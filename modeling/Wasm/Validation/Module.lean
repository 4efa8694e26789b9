import Wasm.Validation.Function

/-!
Validation of modules: index spaces, limits, constant expressions, exports, the start function and
the segments, and then each body.  Checks run in a fixed order, and the first failure is the answer.
-/

namespace Wasm.Validation

/-- The most pages that a memory can have. -/
def maxPages : UInt32 := 65536

/-- Runs a check on each item of a list, numbered from `index` on. -/
def eachFrom {α : Type} (check : Nat → α → Except Error Unit) : Nat → List α → Except Error Unit
  | _, [] => .ok ()
  | index, a :: rest => do
    check index a
    eachFrom check (index + 1) rest

/-- An index has to be below the size of its space. -/
def indexBelow (code : Nat) (what : String) (i : UInt32) (count : Nat) : Except Error Unit :=
  if i.toNat < count then .ok () else .error (unknownIndex code what i)

/-- The code for an index that is beyond the space of a kind. -/
def indexCode : ExternKind → Nat
  | .func => Code.functionIndex
  | .table => Code.tableIndex
  | .memory => Code.memoryIndex
  | .global => Code.globalIndex

/-- The word for an entry of the space of a kind. -/
def indexWord : ExternKind → String
  | .func => "function"
  | kind => kind.name

/-- An index into the space of a kind. -/
def indexOf (m : Module) (kind : ExternKind) (i : UInt32) : Except Error Unit :=
  indexBelow (indexCode kind) (indexWord kind) i (m.count kind)

/-- A type index. -/
def typeIndex (m : Module) (i : UInt32) : Except Error Unit :=
  indexBelow Code.typeIndex "type" i m.types.length

/-- Limits have to be ordered, and within a bound if there is one. -/
def limits (what : String) (bound : Option UInt32) (l : Limits) : Except Error Unit := do
  if let some bound := bound then
    if bound < l.min ∨ l.max.any (bound < ·) then
      throw (.validation Code.invalidLimits s!"{what} size must be at most {bound.toNat} pages")
  if l.max.any (· < l.min) then
    throw (.validation Code.invalidLimits s!"{what} minimum {l.min.toNat} exceeds maximum")

/-! ### Constant expressions -/

/-- An expression that is not constant, for the given reason. -/
def constantRequired (why : String) : Error :=
  .validation Code.constantRequired ("constant expression required" ++ why)

/-- The type of a constant instruction: a constant, or an immutable global among the first
`visible`. -/
def constantType (m : Module) (visible : Nat) (i : Instr) : Except Error ValueType :=
  match i.opcode, i with
  | .const t, _ => .ok t
  | .globalGet, .plain _ (.index x) => do
    indexBelow Code.globalIndex "global" x visible
    match m.globalType? x with
    | none => throw (unknownIndex Code.globalIndex "global" x)
    | some type =>
      if type.isMutable then throw (constantRequired s!": global {x.toNat} is mutable")
      return type.valueType
  | _, i => .error (constantRequired s!", found {i.name}")

/-- A constant expression of the expected type: one constant instruction. -/
def constant (m : Module) (expected : ValueType) (visible : Nat) : Expr → Except Error Unit
  | [i] => do
    let actual ← constantType m visible i
    if actual ≠ expected then
      throw (.validation Code.typeMismatch (s!"type mismatch in constant expression: expected " ++
        s!"{expected.name}, found {actual.name}"))
  | e => .error (constantRequired s!", found {e.length} instructions")

/-! ### Parts of a module -/

def imports (m : Module) : Except Error Unit :=
  eachFrom (fun index i =>
    withContext (fun _ => s!"import[{index}] {i.module}.{i.name}") <|
      match i.desc with
      | .func t => typeIndex m t
      | .table t => limits "table" none t.limits
      | .memory l => limits "memory" (some maxPages) l
      | .global _ => .ok ()) 0 m.imports

def functions (m : Module) : Except Error Unit :=
  eachFrom (fun index t => withContext (fun _ => s!"function[{index}]") (typeIndex m t)) 0
    m.functions

/-- There is at most one table and one memory. -/
def singleTableAndMemory (m : Module) : Except Error Unit := do
  if 1 < m.count .table then throw (.validation Code.multipleTables "multiple tables")
  if 1 < m.count .memory then throw (.validation Code.multipleMemories "multiple memories")

def tables (m : Module) : Except Error Unit :=
  m.tables.forM fun t => limits "table" none t.limits

def memories (m : Module) : Except Error Unit :=
  m.memories.forM (limits "memory" (some maxPages))

/-- The initial values of globals, each of which sees the globals before it. -/
def globals (m : Module) : Except Error Unit :=
  eachFrom (fun index g =>
    withContext (fun _ => s!"global[{index}]") (constant m g.type.valueType index g.init))
    (m.importCount .global) m.globals

/-- Exports, of which those in `seen` have come before. -/
def exportsAfter (m : Module) (seen : List String) : List Export → Except Error Unit
  | [] => .ok ()
  | e :: rest => do
    withContext (fun _ => s!"export {Text.quoted e.name}") (indexOf m e.kind e.index)
    if e.name ∈ seen then
      throw (.validation Code.duplicateExport s!"duplicate export name {Text.quoted e.name}")
    exportsAfter m (e.name :: seen) rest

def exports (m : Module) : Except Error Unit :=
  exportsAfter m [] m.exports

/-- The start function takes nothing and gives nothing. -/
def start (m : Module) : Except Error Unit :=
  match m.start with
  | none => .ok ()
  | some f =>
    match m.funcType? f with
    | none => .error (unknownIndex Code.functionIndex "start function" f)
    | some type =>
      if type.params = [] ∧ type.results = [] then .ok ()
      else .error (.validation Code.invalidStart
        s!"start function {f.toNat} must have type ()->(), found {type.text}")

/-- An element segment. -/
def element (m : Module) (e : Element) : Except Error Unit := do
  indexOf m .table e.table
  constant m .i32 (m.count .global) e.offset
  e.funcs.forM (indexOf m .func)

/-- A data segment. -/
def data (m : Module) (d : Data) : Except Error Unit := do
  indexOf m .memory d.memory
  constant m .i32 (m.count .global) d.offset

def segments (m : Module) : Except Error Unit := do
  eachFrom (fun index e => withContext (fun _ => s!"element[{index}]") (element m e)) 0 m.elements
  eachFrom (fun index d => withContext (fun _ => s!"data[{index}]") (data m d)) 0 m.data

/-- Each defined function has one body. -/
def bodyCount (m : Module) : Except Error Unit :=
  if m.functions.length = m.codes.length then .ok ()
  else .error (.validation Code.functionCodeMismatch
    (s!"function and code section have inconsistent lengths: {m.functions.length} declared, " ++
      s!"{m.codes.length} bodies"))

/-- Everything but the bodies. -/
def structureOf (m : Module) : Except Error Unit := do
  imports m
  functions m
  singleTableAndMemory m
  tables m
  memories m
  globals m
  exports m
  start m
  segments m
  bodyCount m

/-- The bodies, numbered in the index space of functions. -/
def bodies (m : Module) : Except Error Unit :=
  eachFrom (fun index (type, code) =>
    withContext (fun _ => s!"func[{index}]") (function m type code))
    (m.importCount .func) (m.functions.zip m.codes)

/-- A whole module. -/
def module (m : Module) : Except Error Unit := do
  structureOf m
  bodies m

end Wasm.Validation
