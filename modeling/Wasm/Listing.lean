import Wasm.Module

/-!
Listings.  The listing of a module names the entries of every section, one a line, with the numbers
that they have in their index spaces, and the bodies with their nesting.
-/

namespace Wasm

/-- A constant expression on one line. -/
def Expr.inlineText (e : Expr) : String :=
  "; ".intercalate (e.map Instr.text)

/-- A block type in a listing: an index is replaced by the signature it stands for. -/
def BlockType.resolvedText (types : List FuncType) : BlockType → String
  | index i => ((types[i.toNat]?).map FuncType.text).getD (BlockType.index i).text
  | b => b.text

namespace Listing

mutual
/-- The lines of an instruction. -/
def instr (types : List FuncType) (indent : String) : Instr → List String
  | i@(.plain ..) => [indent ++ i.text]
  | .block op type body =>
    (indent ++ op.name ++ " " ++ type.resolvedText types) ::
      (sequence types (indent ++ "  ") body ++ [indent ++ "end"])
  | .ifElse _ type thenBody elseBody =>
    (indent ++ "if " ++ type.resolvedText types) ::
      (sequence types (indent ++ "  ") thenBody ++
        (if elseBody.isEmpty then []
         else (indent ++ "else") :: sequence types (indent ++ "  ") elseBody) ++
        [indent ++ "end"])

/-- The lines of a sequence of instructions. -/
def sequence (types : List FuncType) (indent : String) : List Instr → List String
  | [] => []
  | i :: rest => instr types indent i ++ sequence types indent rest
end

/-- A heading with the number of entries, and the lines of each entry. -/
def entries {α : Type} (title : String) (items : List α) (lines : Nat → α → List String) :
    List String :=
  s!"{title}[{items.length}]:" :: (items.zipIdx.flatMap fun (a, i) => lines i a)

/-- What an import has to be. -/
def importDetail : ImportDesc → String
  | .func t => s!"sig={t.toNat}"
  | .table t => t.limits.text
  | .memory l => l.text
  | .global t => t.text

/-- The lines of imports, each numbered among those of its kind; `before` has come already. -/
def imports (before : List ExternKind) : List Import → List String
  | [] => []
  | i :: rest =>
    let kind := i.desc.kind
    s!"  {kind.name}[{before.count kind}]: {i.module}.{i.name}, {importDetail i.desc}" ::
      imports (kind :: before) rest

/-- The lines of a function body. -/
def code (m : Module) (index : Nat) (c : Code) : List String :=
  let runs := ", ".intercalate (c.locals.map fun l => s!"{l.type.name} x {l.count.toNat}")
  s!"  func[{index}]: locals=[{runs}]" :: sequence m.types "    " c.body

/-- The lines of a module. -/
def lines (m : Module) : List String :=
  let funcs := m.importCount .func
  let tables := m.importCount .table
  let memories := m.importCount .memory
  let globals := m.importCount .global
  ["Version: 0x01"] ++
  entries "Type" m.types (fun i t => [s!"  type[{i}]: {t.text}"]) ++
  s!"Import[{m.imports.length}]:" :: imports [] m.imports ++
  entries "Function" m.functions (fun i t => [s!"  func[{funcs + i}]: sig={t.toNat}"]) ++
  entries "Table" m.tables (fun i t => [s!"  table[{tables + i}]: {t.limits.text}"]) ++
  entries "Memory" m.memories (fun i l => [s!"  memory[{memories + i}]: {l.text}"]) ++
  entries "Global" m.globals (fun i g =>
    [s!"  global[{globals + i}]: {g.type.text}, init={Expr.inlineText g.init}"]) ++
  entries "Export" m.exports (fun _ e => [s!"  {e.kind.name}[{e.index.toNat}]: name={e.name}"]) ++
  "Start:" :: (m.start.toList.map fun f => s!"  func={f.toNat}") ++
  entries "Element" m.elements (fun i e =>
    [s!"  elem[{i}]: table={e.table.toNat}, offset={Expr.inlineText e.offset}, " ++
      s!"funcs={indicesText e.funcs}"]) ++
  entries "Code" m.codes (fun i c => code m (funcs + i) c) ++
  entries "Data" m.data (fun i d =>
    [s!"  data[{i}]: mem={d.memory.toNat}, offset={Expr.inlineText d.offset}, " ++
      s!"len={d.bytes.length}"]) ++
  entries "Custom" m.customs (fun i c =>
    [s!"  custom[{i}]: name={c.name}, size={c.bytes.length}"])

end Listing

/-- The listing of a module, every line with its line end. -/
def Module.listing (m : Module) : String :=
  String.join ((Listing.lines m).map (· ++ "\n"))

end Wasm
