import Wasm.Module
import Wasm.Binary.Instr

/-!
Reading modules.  A binary module is a header and a sequence of sections.  Sections with content
come at most once and in the order of their ids; custom sections may stand anywhere between them.
Each section says how many bytes it has, and its content must take exactly that many.
-/

namespace Wasm.Binary

/-- The first four bytes of a module, as a number. -/
def magic : UInt32 := 0x6d736100

/-- The version of the format. -/
def version : UInt32 := 1

/-- The id of custom sections. -/
def customId : UInt8 := 0

/-- The largest section id. -/
def lastId : UInt8 := 11

/-- The most locals that one body may declare. -/
def maxLocals : Nat := 50000

/-- The name of a section id in messages. -/
def sectionName (id : UInt8) : String :=
  match id.toNat with
  | 0 => "custom"
  | 1 => "type"
  | 2 => "import"
  | 3 => "function"
  | 4 => "table"
  | 5 => "memory"
  | 6 => "global"
  | 7 => "export"
  | 8 => "start"
  | 9 => "element"
  | 10 => "code"
  | 11 => "data"
  | _ => "unknown"

/-! ### Failures -/

/-- The input is no module. -/
def badMagic (found : UInt32) : Error :=
  .parse Code.badMagic
    (s!"magic header not detected: expected 0x{Text.hexPadded 8 magic.toNat}, " ++
      s!"found 0x{Text.hexPadded 8 found.toNat}")

/-- The module has a version of its own. -/
def badVersion (found : UInt32) : Error :=
  .parse Code.badVersion s!"unknown binary version: {found.toNat}"

/-- A section id above all others. -/
def unknownSection (id : UInt8) (offset : Nat) : Error :=
  .parse Code.unknownSection s!"unknown section id {id.toNat} at offset {offset}"

/-- A section that comes too late. -/
def sectionOrder (previous id : UInt8) (offset : Nat) : Error :=
  .parse Code.sectionOrder
    (s!"malformed section order: {sectionName id} section (id {id.toNat}) after " ++
      s!"{sectionName previous} section (id {previous.toNat}) at offset {offset}")

/-- A section whose content is longer or shorter than it says. -/
def sectionSize (id : UInt8) (declared consumed : Nat) : Error :=
  .parse Code.sectionSize
    (s!"section size mismatch in {sectionName id} section: declared {declared} bytes, " ++
      s!"consumed {consumed}")

/-- A function body that is longer or shorter than it says. -/
def bodySize (declared consumed : Nat) : Error :=
  .parse Code.sectionSize (s!"function body size mismatch: declared {declared} bytes, " ++
    s!"consumed {consumed}")

/-- A body with more locals than are allowed. -/
def tooManyLocals (total : Nat) : Error :=
  .parse Code.tooManyLocals s!"too many locals: {total} declared, at most {maxLocals} allowed"

namespace Reader

open Recorder (within)

variable {M : Type → Type} [Monad M] [MonadExcept Error M] [MonadLiftT Reader M] [Recorder M]

/-! ### Entries of sections -/

/-- A function type. -/
def funcType : M FuncType := do
  let start ← offset
  let tag ← byte
  if tag ≠ 0x60 then throw (invalidTag Code.invalidFuncType "function type tag" tag start)
  return ⟨← list valueType, ← list valueType⟩

/-- Limits: a flag, the minimum, and the maximum if the flag says so. -/
def limits : M Limits := do
  let start ← offset
  match (← byte) with
  | 0x00 => return ⟨← u32, none⟩
  | 0x01 => return ⟨← u32, some (← u32)⟩
  | flag => throw (invalidTag Code.malformedLimits "limits flag" flag start)

/-- A table type; the elements have to be function references. -/
def tableType : M TableType := do
  let start ← offset
  let element ← byte
  if element ≠ 0x70 then
    throw (invalidTag Code.invalidElementType "table element type" element start)
  return ⟨← limits⟩

/-- A global type. -/
def globalType : M GlobalType := do
  let type ← valueType
  let start ← offset
  match (← byte) with
  | 0x00 => return ⟨type, false⟩
  | 0x01 => return ⟨type, true⟩
  | flag => throw (invalidTag Code.invalidMutability "mutability" flag start)

/-- An import. -/
def imported : M Import := do
  let module ← name
  let member ← name
  let start ← offset
  let desc ← match (← byte) with
    | 0x00 => ImportDesc.func <$> (liftM u32 : M UInt32)
    | 0x01 => ImportDesc.table <$> tableType
    | 0x02 => ImportDesc.memory <$> limits
    | 0x03 => ImportDesc.global <$> globalType
    | kind => throw (invalidTag Code.invalidExternalKind "import kind" kind start)
  return ⟨module, member, desc⟩

/-- An export. -/
def exported : M Export := do
  let member ← name
  let start ← offset
  let kind ← match (← byte) with
    | 0x00 => pure ExternKind.func
    | 0x01 => pure ExternKind.table
    | 0x02 => pure ExternKind.memory
    | 0x03 => pure ExternKind.global
    | kind => throw (invalidTag Code.invalidExternalKind "export kind" kind start)
  return ⟨member, kind, ← u32⟩

/-- A global with its initial value. -/
def global : M Global := do
  let type ← globalType
  let init ← within (fun _ => "global initializer") closedSequence
  return ⟨type, init⟩

/-- An element segment. -/
def element : M Element := do
  let table ← u32
  let start ← within (fun _ => "element offset") closedSequence
  return ⟨table, start, ← list (liftM u32)⟩

/-- A data segment. -/
def data : M Data := do
  let memory ← u32
  let start ← within (fun _ => "data offset") closedSequence
  let length ← u32
  return ⟨memory, start, ← bytes length.toNat⟩

/-- A run of locals. -/
def locals : M Locals :=
  return ⟨← u32, ← valueType⟩

/-- A function body, which says how many bytes it has. -/
def code : M Code := do
  let size ← u32
  let start ← offset
  if (← remaining) < size.toNat then throw (unexpectedEnd "function body" start)
  let runs ← list locals
  let total := Locals.total runs
  if maxLocals < total then throw (tooManyLocals total)
  let body ← closedSequence
  let consumed := (← offset) - start
  if consumed ≠ size.toNat then throw (bodySize size.toNat consumed)
  return ⟨runs, body⟩

/-! ### Sections -/

/-- The content of a section, put into the module read so far. -/
def sectionContent (id : UInt8) (m : Module) : M Module :=
  match id.toNat with
  | 1 => return { m with types := ← list funcType }
  | 2 => return { m with imports := ← list imported }
  | 3 => return { m with functions := ← list (liftM u32) }
  | 4 => return { m with tables := ← list tableType }
  | 5 => return { m with memories := ← list limits }
  | 6 => return { m with globals := ← list global }
  | 7 => return { m with exports := ← list exported }
  | 8 => return { m with start := some (← u32) }
  | 9 => return { m with elements := ← list element }
  | 10 => return { m with
      codes := ← numberedList fun index => within (fun _ => s!"code[{index}]") code }
  | 11 => return { m with data := ← list data }
  | _ => do throw (unknownSection id (← offset))

/-- The content of a custom section of `size` bytes: a name, and opaque bytes to its end. -/
def custom (size : Nat) : M Custom := do
  let start ← offset
  let title ← within (fun _ => "custom section name") name
  let length := (← offset) - start
  if size < length then throw (sectionSize customId size length)
  return ⟨title, ← bytes (size - length)⟩

/-- One section: the id of the last section with content before it is `last`. -/
def oneSection (last : UInt8) (m : Module) : M (UInt8 × Module) := do
  let header ← offset
  let id ← byte
  if lastId < id then throw (unknownSection id header)
  if id ≠ customId ∧ id ≤ last then throw (sectionOrder last id header)
  let size ← u32
  let start ← offset
  if (← remaining) < size.toNat then throw (unexpectedEnd (sectionName id) start)
  let m ← if id = customId then do
      let c ← custom size.toNat
      pure { m with customs := m.customs ++ [c] }
    else
      within (fun _ => s!"{sectionName id} section at offset {start}") (sectionContent id m)
  let consumed := (← offset) - start
  if consumed ≠ size.toNat then throw (sectionSize id size.toNat consumed)
  return (if id = customId then last else id, m)

/-- Sections up to the end of the input.  Each takes at least two bytes, so `fuel` need not exceed
the number of bytes that are left. -/
def sections : (fuel : Nat) → (last : UInt8) → Module → M Module
  | 0, _, m => pure m
  | fuel + 1, last, m => do
    if (← remaining) = 0 then return m
    let (last, m) ← oneSection last m
    sections fuel last m

/-- A module, up to the end of the input. -/
def module : M Module := do
  let found ← u32Fixed
  if found ≠ magic then throw (badMagic found)
  let found ← u32Fixed
  if found ≠ version then throw (badVersion found)
  sections (← remaining) customId {}

end Reader

/-- The module that a byte string holds. -/
def decode (input : List UInt8) : Except Error Module :=
  ((Reader.module : Reader Module) (Cursor.start input)).map Prod.fst

end Wasm.Binary
