import Wasm.Error

/-!
Types.  Values are integers or floats of two widths; functions have parameter and result lists;
memories and tables have limits; globals have a value type and may be mutable.  `Limits.Fits` says
when an import is matched: what is provided must be at least as strict as what is required.
-/

namespace Wasm

/-- The two widths of a number, in bits. -/
inductive Width where
  | w32
  | w64
deriving Repr, DecidableEq

namespace Width

/-- The number of bits. -/
def bits : Width → Nat
  | w32 => 32
  | w64 => 64

/-- The number of bytes. -/
def bytes : Width → Nat
  | w32 => 4
  | w64 => 8

/-- The number of bit patterns. -/
def modulus : Width → Nat
  | w32 => 4294967296
  | w64 => 18446744073709551616

end Width

/-- The types of values. -/
inductive ValueType where
  | i32
  | i64
  | f32
  | f64
deriving Repr, DecidableEq

namespace ValueType

/-- The integer type of a width. -/
def int : Width → ValueType
  | .w32 => i32
  | .w64 => i64

/-- The float type of a width. -/
def float : Width → ValueType
  | .w32 => f32
  | .w64 => f64

/-- The number of bytes of a value in memory. -/
def bytes : ValueType → Nat
  | i32 | f32 => 4
  | i64 | f64 => 8

/-- The name of a type in texts. -/
def name : ValueType → String
  | i32 => "i32"
  | i64 => "i64"
  | f32 => "f32"
  | f64 => "f64"

/-- The type with the given name. -/
def ofName? (s : List Char) : Option ValueType :=
  if s = "i32".toList then some i32
  else if s = "i64".toList then some i64
  else if s = "f32".toList then some f32
  else if s = "f64".toList then some f64
  else none

/-- The byte of a type in a binary module. -/
def byte : ValueType → UInt8
  | i32 => 0x7f
  | i64 => 0x7e
  | f32 => 0x7d
  | f64 => 0x7c

/-- The type with the given byte. -/
def ofByte? (b : UInt8) : Option ValueType :=
  if b = 0x7f then some i32
  else if b = 0x7e then some i64
  else if b = 0x7d then some f32
  else if b = 0x7c then some f64
  else none

/-- A byte that is no value type. -/
def unknownByte (b : UInt8) : Error :=
  .parse Code.invalidValueType s!"invalid value type byte: 0x{Text.hexPadded 2 b.toNat}"

/-- The type with the given byte, or what is wrong with it. -/
def ofByte (b : UInt8) : Except Error ValueType :=
  match ofByte? b with
  | some t => .ok t
  | none => .error (unknownByte b)

theorem ofByte?_byte (t : ValueType) : ofByte? t.byte = some t := by cases t <;> rfl

theorem ofName?_name (t : ValueType) : ofName? t.name.toList = some t := by cases t <;> decide

end ValueType

/-- The signature of a function. -/
structure FuncType where
  params : List ValueType := []
  results : List ValueType := []
deriving Repr, DecidableEq

/-- A list of types between parentheses. -/
def typeListText (types : List ValueType) : String :=
  "(" ++ ",".intercalate (types.map ValueType.name) ++ ")"

namespace FuncType

/-- The text of a signature, as `(i32,i64)->(f32)`. -/
def text (t : FuncType) : String :=
  typeListText t.params ++ "->" ++ typeListText t.results

end FuncType

/-- A lower and perhaps an upper bound on a size. -/
structure Limits where
  min : UInt32
  max : Option UInt32 := none
deriving Repr, DecidableEq

namespace Limits

/-- Provided limits fit required ones: not fewer to begin with, and bounded at least as tightly. -/
def Fits (provided required : Limits) : Prop :=
  required.min ≤ provided.min ∧
    ∀ r, required.max = some r → ∃ p, provided.max = some p ∧ p ≤ r

/-- Import matching of limits. -/
def fits (provided required : Limits) : Bool :=
  required.min ≤ provided.min &&
    match provided.max, required.max with
    | _, none => true
    | some p, some r => p ≤ r
    | none, some _ => false

theorem fits_eq_true_iff (p r : Limits) : p.fits r = true ↔ p.Fits r := by
  rcases p with ⟨pmin, pmax⟩
  rcases r with ⟨rmin, rmax⟩
  cases pmax <;> cases rmax <;> simp [fits, Fits]

instance (p r : Limits) : Decidable (p.Fits r) :=
  decidable_of_iff _ (fits_eq_true_iff p r)

/-- The text of limits. -/
def text (l : Limits) : String :=
  match l.max with
  | some max => s!"\x7bmin: {l.min.toNat}, max: {max.toNat}\x7d"
  | none => s!"\x7bmin: {l.min.toNat}\x7d"

end Limits

/-- The type of a table; its elements are always function references. -/
structure TableType where
  limits : Limits
deriving Repr, DecidableEq

/-- The text of a table type. -/
def TableType.text (t : TableType) : String :=
  "funcref " ++ t.limits.text

/-- The type of a global. -/
structure GlobalType where
  valueType : ValueType
  isMutable : Bool
deriving Repr, DecidableEq

/-- The text of a global type. -/
def GlobalType.text (t : GlobalType) : String :=
  s!"\x7btype: {t.valueType.name}, mut: {t.isMutable}\x7d"

/-- The signature of a `block`, `loop` or `if`. -/
inductive BlockType where
  /-- No parameters and no results. -/
  | empty
  /-- No parameters and one result. -/
  | value (t : ValueType)
  /-- The signature with an index in the type section. -/
  | index (i : UInt32)
deriving Repr, DecidableEq

namespace BlockType

/-- The full signature, looked up among the types of a module. -/
def resolve? (b : BlockType) (types : List FuncType) : Option FuncType :=
  match b with
  | empty => some {}
  | value t => some { results := [t] }
  | index i => types[i.toNat]?

/-- The text of a block type. -/
def text : BlockType → String
  | empty => "()->()"
  | value t => s!"()->({t.name})"
  | index i => s!"type[{i.toNat}]"

end BlockType

/-- The four kinds of things that modules import and export. -/
inductive ExternKind where
  | func
  | table
  | memory
  | global
deriving Repr, DecidableEq

/-- The word for a kind. -/
def ExternKind.name : ExternKind → String
  | func => "func"
  | table => "table"
  | memory => "memory"
  | global => "global"

/-- What a member of a module is, with its type. -/
inductive ExternType where
  | func (type : FuncType)
  | table (type : TableType)
  | memory (limits : Limits)
  | global (type : GlobalType)
deriving Repr, DecidableEq

namespace ExternType

/-- The kind of a member. -/
def kind : ExternType → ExternKind
  | func _ => .func
  | table _ => .table
  | memory _ => .memory
  | global _ => .global

/-- The text of a member in messages. -/
def text : ExternType → String
  | func t => s!"Func({t.text})"
  | table t => s!"Table({t.text})"
  | memory l => s!"Memory({l.text})"
  | global t => s!"Global({t.text})"

end ExternType

namespace FuncType

/-- The first argument whose type is not the expected one, numbered from `index` on. -/
def checkEach : Nat → List ValueType → List ValueType → Except Error Unit
  | index, given :: restGiven, expected :: restExpected =>
    if given = expected then checkEach (index + 1) restGiven restExpected
    else .error (.runtime Code.argumentMismatch
      s!"argument {index} has type {given.name}, expected {expected.name}")
  | _, _, _ => .ok ()

/-- Arguments have to be as many as the parameters, and of their types. -/
def checkArgs (t : FuncType) (given : List ValueType) : Except Error Unit :=
  if given.length ≠ t.params.length then
    .error (.runtime Code.argumentMismatch
      s!"expected {t.params.length} arguments for {t.text}, got {given.length}")
  else checkEach 0 given t.params

/-- What a function of the host returns has to be of the result types. -/
def checkResults (t : FuncType) (given : List ValueType) : Except Error Unit :=
  if given = t.results then .ok ()
  else .error (.runtime Code.hostFailed
    s!"host function returned {typeListText given} for {t.text}")

end FuncType

end Wasm
