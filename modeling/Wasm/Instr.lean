import Wasm.Opcode
import Wasm.Value

/-!
Instructions.  An instruction is an opcode with its operands.  Structured control is nested: `block`
and `loop` own one body, `if` owns two arms, and the bytes that close them are not instructions.
Operands need not suit the opcode, since modules may be built by hand; `Instr.Suited` says when they
do.
-/

namespace Wasm

/-- The operands of a load or store: the alignment, as an exponent of two, and the offset. -/
structure MemArg where
  align : UInt32
  offset : UInt32
deriving Repr, DecidableEq

/-- The operands of an instruction without a body. -/
inductive Immediate where
  | none
  /-- The index of a function, local, global or label. -/
  | index (i : UInt32)
  /-- The index of a type. -/
  | typeIndex (i : UInt32)
  /-- A constant. -/
  | value (v : Value)
  | memArg (m : MemArg)
  | labels (table : List UInt32) (default : UInt32)
  | truncSat (t : TruncSat)
deriving Repr, DecidableEq

/-- An instruction. -/
inductive Instr where
  | plain (op : Opcode) (imm : Immediate)
  | block (op : Opcode) (type : BlockType) (body : List Instr)
  | ifElse (op : Opcode) (type : BlockType) (thenBody elseBody : List Instr)
deriving Repr

/-- A sequence of instructions. -/
abbrev Expr := List Instr

namespace Instr

/-- The opcode of an instruction. -/
def opcode : Instr → Opcode
  | plain op _ | block op .. | ifElse op .. => op

/-- The mnemonic of an instruction; a saturating truncation has one of its own. -/
def name : Instr → String
  | plain _ (.truncSat t) => t.name
  | i => i.opcode.name

/-- The immediate that an opcode without a body asks for. -/
def suits : Opcode → Immediate → Bool
  | .br, .index _ | .brIf, .index _ | .call, .index _ => true
  | .localGet, .index _ | .localSet, .index _ | .localTee, .index _ => true
  | .globalGet, .index _ | .globalSet, .index _ => true
  | .brTable, .labels .. => true
  | .callIndirect, .typeIndex _ => true
  | .load _, .memArg _ | .loadPart .., .memArg _ => true
  | .store _, .memArg _ | .storePart .., .memArg _ => true
  | .const t, .value v => v.type == t
  | .truncSat, .truncSat _ => true
  | .unreachable, .none | .nop, .none | .ret, .none | .drop, .none | .select, .none => true
  | .memorySize, .none | .memoryGrow, .none => true
  | .intEqz _, .none | .intCompare .., .none | .floatCompare .., .none => true
  | .intUnary .., .none | .intBinary .., .none => true
  | .floatUnary .., .none | .floatBinary .., .none => true
  | .conversion _, .none | .extend .., .none => true
  | _, _ => false

mutual
/-- Every instruction, at every depth, carries the operands that its opcode asks for. -/
inductive Suited : Instr → Prop where
  | plain {op : Opcode} {imm : Immediate} (h : suits op imm = true) : Suited (.plain op imm)
  | block {type : BlockType} {body : List Instr} (h : AllSuited body) :
      Suited (.block .block type body)
  | loop {type : BlockType} {body : List Instr} (h : AllSuited body) :
      Suited (.block .loop type body)
  | ifElse {type : BlockType} {t e : List Instr} (ht : AllSuited t) (he : AllSuited e) :
      Suited (.ifElse .ifElse type t e)

/-- `Suited` for a sequence. -/
inductive AllSuited : List Instr → Prop where
  | nil : AllSuited []
  | cons {i : Instr} {rest : List Instr} (h : Suited i) (hr : AllSuited rest) :
      AllSuited (i :: rest)
end

/-! ### Texts -/

end Instr

/-- Indices between brackets. -/
def indicesText (is : List UInt32) : String :=
  "[" ++ ", ".intercalate (is.map fun i => toString i.toNat) ++ "]"

/-- The text of an immediate in a listing, if it has one. -/
def Immediate.text? : Immediate → Option String
  | none | truncSat _ => Option.none
  | index i => some (toString i.toNat)
  | typeIndex i => some s!"type={i.toNat}"
  | value v => some v.numberText
  | memArg m => some s!"\x7balign: {m.align.toNat}, offset: {m.offset.toNat}\x7d"
  | labels table default => some s!"{indicesText table} default={default.toNat}"

/-- The one-line text of an instruction; bodies are left out. -/
def Instr.text : Instr → String
  | i@(plain _ imm) =>
    match imm.text? with
    | some t => i.name ++ " " ++ t
    | none => i.name
  | i@(block _ type _) => i.name ++ " " ++ type.text
  | i@(ifElse _ type ..) => i.name ++ " " ++ type.text

end Wasm
