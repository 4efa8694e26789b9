import Wasm.Instr

/-!
The structural text of operands: constructors, field names and all nested instructions, as messages
show them when the operands of an instruction do not suit its opcode.
-/

namespace Wasm

/-- Words run together, each with a capital: `i32.trunc_f32_s` becomes `I32TruncF32S`. -/
def joinedName (s : String) : String :=
  let step (acc : List Char × Bool) (c : Char) : List Char × Bool :=
    if c = '.' ∨ c = '_' then (acc.1, true)
    else ((if acc.2 then c.toUpper else c) :: acc.1, false)
  String.ofList (s.toList.foldl step ([], true)).1.reverse

/-- A record with named fields. -/
def recordText (name : String) (fields : List (String × String)) : String :=
  name ++ " \x7b " ++ ", ".intercalate (fields.map fun (k, v) => k ++ ": " ++ v) ++ " \x7d"

/-- The structural text of a value type. -/
def ValueType.structuralText (t : ValueType) : String :=
  t.name.toUpper

/-- The structural text of a constant. -/
def Value.structuralText (v : Value) : String :=
  let number := match v with
    | .f32 b => Ieee.Format.binary32.structuralText b.toNat
    | .f64 b => Ieee.Format.binary64.structuralText b.toNat
    | v => v.numberText
  v.type.structuralText ++ "(" ++ number ++ ")"

/-- The structural text of a saturating truncation. -/
def TruncSat.structuralText (t : TruncSat) : String :=
  (ValueType.int t.target).structuralText ++ (ValueType.float t.source).structuralText ++
    (match t.sign with | .signed => "S" | .unsigned => "U")

/-- The structural text of a block type. -/
def BlockType.structuralText : BlockType → String
  | empty => "Empty"
  | value t => s!"Value({t.structuralText})"
  | index i => s!"TypeIndex({i.toNat})"

/-- The structural text of an immediate. -/
def Immediate.structuralText : Immediate → String
  | none => "None"
  | index i => s!"Index({i.toNat})"
  | typeIndex i => s!"TypeIndex({i.toNat})"
  | value v => v.structuralText
  | memArg m => "MemArg(" ++
      recordText "MemArg"
        [("align", toString m.align.toNat), ("offset", toString m.offset.toNat)] ++ ")"
  | labels table default => "BrTable(" ++
      recordText "BrTable"
        [("labels", indicesText table), ("default", toString default.toNat)] ++ ")"
  | truncSat t => s!"TruncSat({t.structuralText})"

namespace Instr

mutual
/-- The structural text of the operands of an instruction. -/
def operandsText : Instr → String
  | .plain _ imm => imm.structuralText
  | .block _ type body => "Block(" ++
      recordText "Block"
        [("block_type", type.structuralText), ("body", "[" ++ sequenceText body ++ "]")] ++ ")"
  | .ifElse _ type t e => "If(" ++
      recordText "IfBlock"
        [("block_type", type.structuralText), ("then_body", "[" ++ sequenceText t ++ "]"),
          ("else_body", "[" ++ sequenceText e ++ "]")] ++ ")"

/-- The structural texts of a sequence, with commas between them. -/
def sequenceText : List Instr → String
  | [] => ""
  | i :: rest =>
    let text := recordText "Instruction"
      [("opcode", joinedName i.opcode.name), ("operands", operandsText i)]
    match rest with
    | [] => text
    | _ => text ++ ", " ++ sequenceText rest
end

end Instr

end Wasm
