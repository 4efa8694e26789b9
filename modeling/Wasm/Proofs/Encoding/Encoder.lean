import Wasm.Module
import Wasm.Binary.Module
import Wasm.Binary.Writer

/-!
# The binary form of a module

The reference encoder: for everything that `Wasm.Binary.Reader` reads, the bytes that stand for it.
Numbers are written in their shortest form.  A section is written only if it has content, and the
sections with content come in the order of their ids.  Where the custom sections stand between them
is left open: `Encodes m bytes` holds of every way to place them that keeps their order.
-/

namespace Wasm.Binary

namespace Writer

/-! ### Numbers, types and lists -/

/-- An index, count or bound. -/
def u32 (n : UInt32) : List UInt8 :=
  Varint.encodeUnsigned n.toNat

/-- A 64-bit unsigned integer. -/
def u64 (n : UInt64) : List UInt8 :=
  Varint.encodeUnsigned n.toNat

/-- A 32-bit signed integer, given its bits. -/
def i32 (bits : UInt32) : List UInt8 :=
  Varint.encodeSigned bits.toInt32.toInt

/-- A 64-bit signed integer, given its bits. -/
def i64 (bits : UInt64) : List UInt8 :=
  Varint.encodeSigned bits.toInt64.toInt

/-- A count and that many items. -/
def list {α : Type} (write : α → List UInt8) (items : List α) : List UInt8 :=
  size items.length ++ items.flatMap write

def valueType (t : ValueType) : List UInt8 :=
  [t.byte]

def funcType (t : FuncType) : List UInt8 :=
  0x60 :: list valueType t.params ++ list valueType t.results

def limits (l : Limits) : List UInt8 :=
  match l.max with
  | none => 0x00 :: u32 l.min
  | some max => 0x01 :: u32 l.min ++ u32 max

def tableType (t : TableType) : List UInt8 :=
  0x70 :: limits t.limits

def globalType (t : GlobalType) : List UInt8 :=
  valueType t.valueType ++ [if t.isMutable then 0x01 else 0x00]

/-! ### Instructions -/

/-- A block type: a byte for none or one result, and a signed number for an index. -/
def blockType : BlockType → List UInt8
  | .empty => [0x40]
  | .value t => [t.byte]
  | .index i => Varint.encodeSigned i.toNat

/-- A constant: integers as signed numbers, floats by their bits. -/
def value : Value → List UInt8
  | .i32 bits => Varint.encodeSigned bits.toInt32.toInt
  | .i64 bits => Varint.encodeSigned bits.toInt64.toInt
  | .f32 bits => LittleEndian.encode 4 bits.toNat
  | .f64 bits => LittleEndian.encode 8 bits.toNat

/-- The operands of an instruction without a body.  Where one memory or table only is possible, a
zero stands for its index. -/
def immediate (op : Opcode) : Immediate → List UInt8
  | .none => if op = .memorySize ∨ op = .memoryGrow then [0x00] else []
  | .index i => u32 i
  | .typeIndex i => u32 i ++ [0x00]
  | .value v => value v
  | .memArg arg => u32 arg.align ++ u32 arg.offset
  | .labels table default => list u32 table ++ u32 default
  | .truncSat t => u32 t.code

mutual
/-- An instruction.  The `else` of an empty arm is left out. -/
def instr : Instr → List UInt8
  | .plain op imm => op.byte :: immediate op imm
  | .block op type body => op.byte :: blockType type ++ instrs body ++ [Opcode.endByte]
  | .ifElse op type thenBody [] => op.byte :: blockType type ++ instrs thenBody ++ [Opcode.endByte]
  | .ifElse op type thenBody (i :: rest) =>
    op.byte :: blockType type ++ instrs thenBody ++ Opcode.elseByte :: (instr i ++ instrs rest) ++
      [Opcode.endByte]

/-- Instructions without the byte that closes them. -/
def instrs : Expr → List UInt8
  | [] => []
  | i :: rest => instr i ++ instrs rest
end

/-- A sequence of instructions and the `end` that closes it. -/
def expr (e : Expr) : List UInt8 :=
  instrs e ++ [Opcode.endByte]

/-! ### Entries of sections -/

def importDesc : ImportDesc → List UInt8
  | .func type => 0x00 :: u32 type
  | .table type => 0x01 :: tableType type
  | .memory type => 0x02 :: limits type
  | .global type => 0x03 :: globalType type

def imported (i : Import) : List UInt8 :=
  name i.module ++ name i.name ++ importDesc i.desc

def externKind : ExternKind → UInt8
  | .func => 0x00
  | .table => 0x01
  | .memory => 0x02
  | .global => 0x03

def exported (e : Export) : List UInt8 :=
  name e.name ++ externKind e.kind :: u32 e.index

def global (g : Global) : List UInt8 :=
  globalType g.type ++ expr g.init

def element (e : Element) : List UInt8 :=
  u32 e.table ++ expr e.offset ++ list u32 e.funcs

def data (d : Data) : List UInt8 :=
  u32 d.memory ++ expr d.offset ++ size d.bytes.length ++ d.bytes

def locals (l : Locals) : List UInt8 :=
  u32 l.count ++ valueType l.type

/-- What a function body holds behind its size. -/
def codeContent (c : Code) : List UInt8 :=
  list locals c.locals ++ expr c.body

def code (c : Code) : List UInt8 :=
  size (codeContent c).length ++ codeContent c

/-! ### Sections -/

/-- A section for a list, if there is anything in it: its id and its content. -/
def filled {α : Type} (id : UInt8) (write : α → List UInt8) : List α → List (UInt8 × List UInt8)
  | [] => []
  | items => [(id, list write items)]

/-- The sections with content, in the order of their ids. -/
def contents (m : Module) : List (UInt8 × List UInt8) :=
  filled 1 funcType m.types ++ filled 2 imported m.imports ++ filled 3 u32 m.functions ++
    filled 4 tableType m.tables ++ filled 5 limits m.memories ++ filled 6 global m.globals ++
    filled 7 exported m.exports ++ m.start.toList.map (fun f => (8, u32 f)) ++
    filled 9 element m.elements ++ filled 10 code m.codes ++ filled 11 data m.data

/-- What a custom section holds. -/
def customContent (c : Custom) : List UInt8 :=
  name c.name ++ c.bytes

/-- A custom section: its id and its content. -/
def custom (c : Custom) : UInt8 × List UInt8 :=
  (customId, customContent c)

/-- Sections one after another, each with its size. -/
def sections (ss : List (UInt8 × List UInt8)) : List UInt8 :=
  ss.flatMap fun s => sectionWith s.1 s.2

end Writer

/-- All of two lists, each in its order. -/
inductive Interleaves {α : Type} : List α → List α → List α → Prop where
  | nil : Interleaves [] [] []
  | left {x : α} {xs ys zs : List α} (h : Interleaves xs ys zs) :
      Interleaves (x :: xs) ys (x :: zs)
  | right {y : α} {xs ys zs : List α} (h : Interleaves xs ys zs) :
      Interleaves xs (y :: ys) (y :: zs)

theorem interleaves_append {α : Type} (xs ys : List α) : Interleaves xs ys (xs ++ ys) := by
  induction xs with
  | nil =>
    induction ys with
    | nil => exact .nil
    | cons y ys ih => exact .right ih
  | cons x xs ih => exact .left ih

/-- The magic number and the version. -/
def header : List UInt8 :=
  LittleEndian.encode 4 magic.toNat ++ LittleEndian.encode 4 version.toNat

/-- The bytes are a binary form of the module: the header and its sections, the custom ones anywhere
between those with content. -/
def Encodes (m : Module) (bytes : List UInt8) : Prop :=
  ∃ sections, Interleaves (Writer.contents m) (m.customs.map Writer.custom) sections ∧
    bytes = header ++ Writer.sections sections

/-- Every module has a binary form, with the custom sections at the end for one. -/
theorem exists_encodes (m : Module) : ∃ bytes, Encodes m bytes :=
  ⟨_, _, interleaves_append _ _, rfl⟩

/-- What a module has to satisfy to have a binary form that is read back: instructions carry the
operands that their opcodes ask for, no body declares too many locals, and sizes fit 32 bits.
Lists, names and bodies are within sections, so that the sizes of the sections bound theirs. -/
structure Encodable (m : Module) : Prop where
  codes : ∀ c ∈ m.codes, Instr.AllSuited c.body
  locals : ∀ c ∈ m.codes, c.localCount ≤ maxLocals
  globals : ∀ g ∈ m.globals, Instr.AllSuited g.init
  elements : ∀ e ∈ m.elements, Instr.AllSuited e.offset
  data : ∀ d ∈ m.data, Instr.AllSuited d.offset
  contents : ∀ s ∈ Writer.contents m, s.2.length < 4294967296
  customs : ∀ c ∈ m.customs, (Writer.customContent c).length < 4294967296

end Wasm.Binary
