import Wasm.Types

/-!
Opcodes.  The operators of the instruction set, in families: an integer or float operator stands
once, with the width it works at as an argument.  `Opcode.byte` is the code of an operator in a
binary module, `Opcode.ofByte?` its inverse, `Opcode.name` its mnemonic.
-/

namespace Wasm

/-- How the bits of an integer are read. -/
inductive Sign where
  | signed
  | unsigned
deriving Repr, DecidableEq

/-- The part of an integer of the given width that a narrow access or a sign extension covers. -/
inductive Part : Width → Type where
  | byte {w : Width} : Part w
  | half {w : Width} : Part w
  | word : Part .w64
deriving Repr, DecidableEq

/-- The number of bits of a part. -/
def Part.bits {w : Width} : Part w → Nat
  | byte => 8
  | half => 16
  | word => 32

/-- The number of bytes of a part. -/
def Part.bytes {w : Width} : Part w → Nat
  | byte => 1
  | half => 2
  | word => 4

/-- Comparisons of integers. -/
inductive IntCompare where
  | eq
  | ne
  | lt (s : Sign)
  | gt (s : Sign)
  | le (s : Sign)
  | ge (s : Sign)
deriving Repr, DecidableEq

/-- Comparisons of floats. -/
inductive FloatCompare where
  | eq
  | ne
  | lt
  | gt
  | le
  | ge
deriving Repr, DecidableEq

/-- Integer operators of one operand. -/
inductive IntUnary where
  | clz
  | ctz
  | popcnt
deriving Repr, DecidableEq

/-- Integer operators of two operands. -/
inductive IntBinary where
  | add
  | sub
  | mul
  | div (s : Sign)
  | rem (s : Sign)
  | and
  | or
  | xor
  | shl
  | shr (s : Sign)
  | rotl
  | rotr
deriving Repr, DecidableEq

/-- Float operators of one operand. -/
inductive FloatUnary where
  | abs
  | neg
  | ceil
  | floor
  | trunc
  | nearest
  | sqrt
deriving Repr, DecidableEq

/-- Float operators of two operands. -/
inductive FloatBinary where
  | add
  | sub
  | mul
  | div
  | min
  | max
  | copysign
deriving Repr, DecidableEq

/-- Conversions between the value types. -/
inductive Conversion where
  /-- The low half of a 64-bit integer. -/
  | wrap
  /-- A 32-bit integer as a 64-bit one. -/
  | widen (s : Sign)
  /-- The integer part of a float. -/
  | trunc (target source : Width) (s : Sign)
  /-- The float nearest to an integer. -/
  | convert (target source : Width) (s : Sign)
  /-- The single nearest to a double. -/
  | demote
  /-- A single as a double. -/
  | promote
  /-- The bits of a float as an integer. -/
  | bitsOfFloat (w : Width)
  /-- The float with the bits of an integer. -/
  | floatOfBits (w : Width)
deriving Repr, DecidableEq

/-- Saturating truncations: the integer part of a float, or the nearest end of the range. -/
structure TruncSat where
  target : Width
  source : Width
  sign : Sign
deriving Repr, DecidableEq

/-- The operators with a byte of their own. -/
inductive Opcode where
  | unreachable
  | nop
  | block
  | loop
  | ifElse
  | br
  | brIf
  | brTable
  | ret
  | call
  | callIndirect
  | drop
  | select
  | localGet
  | localSet
  | localTee
  | globalGet
  | globalSet
  | load (t : ValueType)
  | loadPart (w : Width) (p : Part w) (s : Sign)
  | store (t : ValueType)
  | storePart (w : Width) (p : Part w)
  | memorySize
  | memoryGrow
  | const (t : ValueType)
  | intEqz (w : Width)
  | intCompare (w : Width) (op : IntCompare)
  | floatCompare (w : Width) (op : FloatCompare)
  | intUnary (w : Width) (op : IntUnary)
  | intBinary (w : Width) (op : IntBinary)
  | floatUnary (w : Width) (op : FloatUnary)
  | floatBinary (w : Width) (op : FloatBinary)
  | conversion (c : Conversion)
  | extend (w : Width) (p : Part w)
  /-- The family behind the second code byte of the saturating truncations. -/
  | truncSat
deriving Repr, DecidableEq

/-! ### Mnemonics -/

/-- The suffix of a signed or unsigned operator. -/
def Sign.suffix : Sign → String
  | signed => "_s"
  | unsigned => "_u"

/-- The word of an integer comparison. -/
def IntCompare.name : IntCompare → String
  | eq => "eq"
  | ne => "ne"
  | lt s => "lt" ++ s.suffix
  | gt s => "gt" ++ s.suffix
  | le s => "le" ++ s.suffix
  | ge s => "ge" ++ s.suffix

/-- The word of a float comparison. -/
def FloatCompare.name : FloatCompare → String
  | eq => "eq"
  | ne => "ne"
  | lt => "lt"
  | gt => "gt"
  | le => "le"
  | ge => "ge"

/-- The word of an integer operator. -/
def IntUnary.name : IntUnary → String
  | clz => "clz"
  | ctz => "ctz"
  | popcnt => "popcnt"

/-- The word of an integer operator. -/
def IntBinary.name : IntBinary → String
  | add => "add"
  | sub => "sub"
  | mul => "mul"
  | div s => "div" ++ s.suffix
  | rem s => "rem" ++ s.suffix
  | and => "and"
  | or => "or"
  | xor => "xor"
  | shl => "shl"
  | shr s => "shr" ++ s.suffix
  | rotl => "rotl"
  | rotr => "rotr"

/-- The word of a float operator. -/
def FloatUnary.name : FloatUnary → String
  | abs => "abs"
  | neg => "neg"
  | ceil => "ceil"
  | floor => "floor"
  | trunc => "trunc"
  | nearest => "nearest"
  | sqrt => "sqrt"

/-- The word of a float operator. -/
def FloatBinary.name : FloatBinary → String
  | add => "add"
  | sub => "sub"
  | mul => "mul"
  | div => "div"
  | min => "min"
  | max => "max"
  | copysign => "copysign"

/-- The mnemonic of a conversion. -/
def Conversion.name : Conversion → String
  | wrap => "i32.wrap_i64"
  | widen s => "i64.extend_i32" ++ s.suffix
  | trunc target source s =>
    (ValueType.int target).name ++ ".trunc_" ++ (ValueType.float source).name ++ s.suffix
  | convert target source s =>
    (ValueType.float target).name ++ ".convert_" ++ (ValueType.int source).name ++ s.suffix
  | demote => "f32.demote_f64"
  | promote => "f64.promote_f32"
  | bitsOfFloat w => (ValueType.int w).name ++ ".reinterpret_" ++ (ValueType.float w).name
  | floatOfBits w => (ValueType.float w).name ++ ".reinterpret_" ++ (ValueType.int w).name

/-- The mnemonic of a saturating truncation. -/
def TruncSat.name (t : TruncSat) : String :=
  (ValueType.int t.target).name ++ ".trunc_sat_" ++ (ValueType.float t.source).name ++ t.sign.suffix

/-- The mnemonic of an opcode. -/
def Opcode.name : Opcode → String
  | unreachable => "unreachable"
  | nop => "nop"
  | block => "block"
  | loop => "loop"
  | ifElse => "if"
  | br => "br"
  | brIf => "br_if"
  | brTable => "br_table"
  | ret => "return"
  | call => "call"
  | callIndirect => "call_indirect"
  | drop => "drop"
  | select => "select"
  | localGet => "local.get"
  | localSet => "local.set"
  | localTee => "local.tee"
  | globalGet => "global.get"
  | globalSet => "global.set"
  | load t => t.name ++ ".load"
  | loadPart w p s => (ValueType.int w).name ++ ".load" ++ toString p.bits ++ s.suffix
  | store t => t.name ++ ".store"
  | storePart w p => (ValueType.int w).name ++ ".store" ++ toString p.bits
  | memorySize => "memory.size"
  | memoryGrow => "memory.grow"
  | const t => t.name ++ ".const"
  | intEqz w => (ValueType.int w).name ++ ".eqz"
  | intCompare w op => (ValueType.int w).name ++ "." ++ op.name
  | floatCompare w op => (ValueType.float w).name ++ "." ++ op.name
  | intUnary w op => (ValueType.int w).name ++ "." ++ op.name
  | intBinary w op => (ValueType.int w).name ++ "." ++ op.name
  | floatUnary w op => (ValueType.float w).name ++ "." ++ op.name
  | floatBinary w op => (ValueType.float w).name ++ "." ++ op.name
  | conversion c => c.name
  | extend w p => (ValueType.int w).name ++ ".extend" ++ toString p.bits ++ "_s"
  | truncSat => "trunc_sat"

/-! ### Codes -/

namespace Opcode

/-- The byte that closes a sequence of instructions. -/
def endByte : UInt8 := 0x0b

/-- The byte between the two arms of an `if`. -/
def elseByte : UInt8 := 0x05

/-- The code of an opcode. -/
def code : Opcode → Nat
  | unreachable => 0x00
  | nop => 0x01
  | block => 0x02
  | loop => 0x03
  | ifElse => 0x04
  | br => 0x0c
  | brIf => 0x0d
  | brTable => 0x0e
  | ret => 0x0f
  | call => 0x10
  | callIndirect => 0x11
  | drop => 0x1a
  | select => 0x1b
  | localGet => 0x20
  | localSet => 0x21
  | localTee => 0x22
  | globalGet => 0x23
  | globalSet => 0x24
  | load .i32 => 0x28
  | load .i64 => 0x29
  | load .f32 => 0x2a
  | load .f64 => 0x2b
  | loadPart .w32 .byte .signed => 0x2c
  | loadPart .w32 .byte .unsigned => 0x2d
  | loadPart .w32 .half .signed => 0x2e
  | loadPart .w32 .half .unsigned => 0x2f
  | loadPart .w64 .byte .signed => 0x30
  | loadPart .w64 .byte .unsigned => 0x31
  | loadPart .w64 .half .signed => 0x32
  | loadPart .w64 .half .unsigned => 0x33
  | loadPart .w64 .word .signed => 0x34
  | loadPart .w64 .word .unsigned => 0x35
  | store .i32 => 0x36
  | store .i64 => 0x37
  | store .f32 => 0x38
  | store .f64 => 0x39
  | storePart .w32 .byte => 0x3a
  | storePart .w32 .half => 0x3b
  | storePart .w64 .byte => 0x3c
  | storePart .w64 .half => 0x3d
  | storePart .w64 .word => 0x3e
  | memorySize => 0x3f
  | memoryGrow => 0x40
  | const .i32 => 0x41
  | const .i64 => 0x42
  | const .f32 => 0x43
  | const .f64 => 0x44
  | intEqz .w32 => 0x45
  | intCompare .w32 .eq => 0x46
  | intCompare .w32 .ne => 0x47
  | intCompare .w32 (.lt .signed) => 0x48
  | intCompare .w32 (.lt .unsigned) => 0x49
  | intCompare .w32 (.gt .signed) => 0x4a
  | intCompare .w32 (.gt .unsigned) => 0x4b
  | intCompare .w32 (.le .signed) => 0x4c
  | intCompare .w32 (.le .unsigned) => 0x4d
  | intCompare .w32 (.ge .signed) => 0x4e
  | intCompare .w32 (.ge .unsigned) => 0x4f
  | intEqz .w64 => 0x50
  | intCompare .w64 .eq => 0x51
  | intCompare .w64 .ne => 0x52
  | intCompare .w64 (.lt .signed) => 0x53
  | intCompare .w64 (.lt .unsigned) => 0x54
  | intCompare .w64 (.gt .signed) => 0x55
  | intCompare .w64 (.gt .unsigned) => 0x56
  | intCompare .w64 (.le .signed) => 0x57
  | intCompare .w64 (.le .unsigned) => 0x58
  | intCompare .w64 (.ge .signed) => 0x59
  | intCompare .w64 (.ge .unsigned) => 0x5a
  | floatCompare .w32 .eq => 0x5b
  | floatCompare .w32 .ne => 0x5c
  | floatCompare .w32 .lt => 0x5d
  | floatCompare .w32 .gt => 0x5e
  | floatCompare .w32 .le => 0x5f
  | floatCompare .w32 .ge => 0x60
  | floatCompare .w64 .eq => 0x61
  | floatCompare .w64 .ne => 0x62
  | floatCompare .w64 .lt => 0x63
  | floatCompare .w64 .gt => 0x64
  | floatCompare .w64 .le => 0x65
  | floatCompare .w64 .ge => 0x66
  | intUnary .w32 .clz => 0x67
  | intUnary .w32 .ctz => 0x68
  | intUnary .w32 .popcnt => 0x69
  | intBinary .w32 .add => 0x6a
  | intBinary .w32 .sub => 0x6b
  | intBinary .w32 .mul => 0x6c
  | intBinary .w32 (.div .signed) => 0x6d
  | intBinary .w32 (.div .unsigned) => 0x6e
  | intBinary .w32 (.rem .signed) => 0x6f
  | intBinary .w32 (.rem .unsigned) => 0x70
  | intBinary .w32 .and => 0x71
  | intBinary .w32 .or => 0x72
  | intBinary .w32 .xor => 0x73
  | intBinary .w32 .shl => 0x74
  | intBinary .w32 (.shr .signed) => 0x75
  | intBinary .w32 (.shr .unsigned) => 0x76
  | intBinary .w32 .rotl => 0x77
  | intBinary .w32 .rotr => 0x78
  | intUnary .w64 .clz => 0x79
  | intUnary .w64 .ctz => 0x7a
  | intUnary .w64 .popcnt => 0x7b
  | intBinary .w64 .add => 0x7c
  | intBinary .w64 .sub => 0x7d
  | intBinary .w64 .mul => 0x7e
  | intBinary .w64 (.div .signed) => 0x7f
  | intBinary .w64 (.div .unsigned) => 0x80
  | intBinary .w64 (.rem .signed) => 0x81
  | intBinary .w64 (.rem .unsigned) => 0x82
  | intBinary .w64 .and => 0x83
  | intBinary .w64 .or => 0x84
  | intBinary .w64 .xor => 0x85
  | intBinary .w64 .shl => 0x86
  | intBinary .w64 (.shr .signed) => 0x87
  | intBinary .w64 (.shr .unsigned) => 0x88
  | intBinary .w64 .rotl => 0x89
  | intBinary .w64 .rotr => 0x8a
  | floatUnary .w32 .abs => 0x8b
  | floatUnary .w32 .neg => 0x8c
  | floatUnary .w32 .ceil => 0x8d
  | floatUnary .w32 .floor => 0x8e
  | floatUnary .w32 .trunc => 0x8f
  | floatUnary .w32 .nearest => 0x90
  | floatUnary .w32 .sqrt => 0x91
  | floatBinary .w32 .add => 0x92
  | floatBinary .w32 .sub => 0x93
  | floatBinary .w32 .mul => 0x94
  | floatBinary .w32 .div => 0x95
  | floatBinary .w32 .min => 0x96
  | floatBinary .w32 .max => 0x97
  | floatBinary .w32 .copysign => 0x98
  | floatUnary .w64 .abs => 0x99
  | floatUnary .w64 .neg => 0x9a
  | floatUnary .w64 .ceil => 0x9b
  | floatUnary .w64 .floor => 0x9c
  | floatUnary .w64 .trunc => 0x9d
  | floatUnary .w64 .nearest => 0x9e
  | floatUnary .w64 .sqrt => 0x9f
  | floatBinary .w64 .add => 0xa0
  | floatBinary .w64 .sub => 0xa1
  | floatBinary .w64 .mul => 0xa2
  | floatBinary .w64 .div => 0xa3
  | floatBinary .w64 .min => 0xa4
  | floatBinary .w64 .max => 0xa5
  | floatBinary .w64 .copysign => 0xa6
  | conversion .wrap => 0xa7
  | conversion (.trunc .w32 .w32 .signed) => 0xa8
  | conversion (.trunc .w32 .w32 .unsigned) => 0xa9
  | conversion (.trunc .w32 .w64 .signed) => 0xaa
  | conversion (.trunc .w32 .w64 .unsigned) => 0xab
  | conversion (.widen .signed) => 0xac
  | conversion (.widen .unsigned) => 0xad
  | conversion (.trunc .w64 .w32 .signed) => 0xae
  | conversion (.trunc .w64 .w32 .unsigned) => 0xaf
  | conversion (.trunc .w64 .w64 .signed) => 0xb0
  | conversion (.trunc .w64 .w64 .unsigned) => 0xb1
  | conversion (.convert .w32 .w32 .signed) => 0xb2
  | conversion (.convert .w32 .w32 .unsigned) => 0xb3
  | conversion (.convert .w32 .w64 .signed) => 0xb4
  | conversion (.convert .w32 .w64 .unsigned) => 0xb5
  | conversion .demote => 0xb6
  | conversion (.convert .w64 .w32 .signed) => 0xb7
  | conversion (.convert .w64 .w32 .unsigned) => 0xb8
  | conversion (.convert .w64 .w64 .signed) => 0xb9
  | conversion (.convert .w64 .w64 .unsigned) => 0xba
  | conversion .promote => 0xbb
  | conversion (.bitsOfFloat .w32) => 0xbc
  | conversion (.bitsOfFloat .w64) => 0xbd
  | conversion (.floatOfBits .w32) => 0xbe
  | conversion (.floatOfBits .w64) => 0xbf
  | extend .w32 .byte => 0xc0
  | extend .w32 .half => 0xc1
  | extend .w64 .byte => 0xc2
  | extend .w64 .half => 0xc3
  | extend .w64 .word => 0xc4
  | truncSat => 0xfc

/-- The byte of an opcode. -/
def byte (op : Opcode) : UInt8 :=
  UInt8.ofNat op.code

/-- Both members of a family that differ in how they read integers. -/
def bothSigns (op : Sign → Opcode) : List Opcode :=
  [op .signed, op .unsigned]

/-- The integer comparisons at a width, in the order of their codes. -/
def intComparisons (w : Width) : List Opcode :=
  intEqz w :: intCompare w .eq :: intCompare w .ne ::
    (bothSigns (intCompare w <| .lt ·) ++ bothSigns (intCompare w <| .gt ·) ++
      bothSigns (intCompare w <| .le ·) ++ bothSigns (intCompare w <| .ge ·))

/-- The float comparisons at a width, in the order of their codes. -/
def floatComparisons (w : Width) : List Opcode :=
  [.eq, .ne, .lt, .gt, .le, .ge].map (floatCompare w)

/-- The integer operators at a width, in the order of their codes. -/
def intOperators (w : Width) : List Opcode :=
  [.clz, .ctz, .popcnt].map (intUnary w) ++
    [.add, .sub, .mul, .div .signed, .div .unsigned, .rem .signed, .rem .unsigned, .and, .or, .xor,
      .shl, .shr .signed, .shr .unsigned, .rotl, .rotr].map (intBinary w)

/-- The float operators at a width, in the order of their codes. -/
def floatOperators (w : Width) : List Opcode :=
  [.abs, .neg, .ceil, .floor, .trunc, .nearest, .sqrt].map (floatUnary w) ++
    [.add, .sub, .mul, .div, .min, .max, .copysign].map (floatBinary w)

/-- All opcodes, in the order of their codes. -/
def all : List Opcode :=
  List.flatten [
    [unreachable, nop, block, loop, ifElse, br, brIf, brTable, ret, call, callIndirect, drop,
      select, localGet, localSet, localTee, globalGet, globalSet,
      load .i32, load .i64, load .f32, load .f64],
    bothSigns (loadPart .w32 .byte), bothSigns (loadPart .w32 .half),
    bothSigns (loadPart .w64 .byte), bothSigns (loadPart .w64 .half),
    bothSigns (loadPart .w64 .word),
    [store .i32, store .i64, store .f32, store .f64, storePart .w32 .byte, storePart .w32 .half,
      storePart .w64 .byte, storePart .w64 .half, storePart .w64 .word, memorySize, memoryGrow,
      const .i32, const .i64, const .f32, const .f64],
    intComparisons .w32, intComparisons .w64, floatComparisons .w32, floatComparisons .w64,
    intOperators .w32, intOperators .w64, floatOperators .w32, floatOperators .w64,
    [conversion .wrap],
    bothSigns (conversion <| .trunc .w32 .w32 ·), bothSigns (conversion <| .trunc .w32 .w64 ·),
    bothSigns (conversion <| .widen ·),
    bothSigns (conversion <| .trunc .w64 .w32 ·), bothSigns (conversion <| .trunc .w64 .w64 ·),
    bothSigns (conversion <| .convert .w32 .w32 ·), bothSigns (conversion <| .convert .w32 .w64 ·),
    [conversion .demote],
    bothSigns (conversion <| .convert .w64 .w32 ·), bothSigns (conversion <| .convert .w64 .w64 ·),
    [conversion .promote, conversion (.bitsOfFloat .w32), conversion (.bitsOfFloat .w64),
      conversion (.floatOfBits .w32), conversion (.floatOfBits .w64),
      extend .w32 .byte, extend .w32 .half, extend .w64 .byte, extend .w64 .half,
      extend .w64 .word, truncSat]]

/-- The opcode with the given code. -/
def ofByte? (b : UInt8) : Option Opcode :=
  all.find? (·.code == b.toNat)

theorem ofByte?_byte (op : Opcode) : ofByte? op.byte = some op := by
  cases op with
  | load t => cases t <;> decide +kernel
  | loadPart w p s => cases p <;> cases s <;> first | decide +kernel | (cases w <;> decide +kernel)
  | store t => cases t <;> decide +kernel
  | storePart w p => cases p <;> first | decide +kernel | (cases w <;> decide +kernel)
  | const t => cases t <;> decide +kernel
  | intEqz w => cases w <;> decide +kernel
  | intCompare w op =>
    cases w <;> rcases op with _ | _ | s | s | s | s <;>
      first | decide +kernel | (cases s <;> decide +kernel)
  | floatCompare w op => cases w <;> cases op <;> decide +kernel
  | intUnary w op => cases w <;> cases op <;> decide +kernel
  | intBinary w op =>
    cases w <;> rcases op with _ | _ | _ | s | s | _ | _ | _ | _ | s | _ | _ <;>
      first | decide +kernel | (cases s <;> decide +kernel)
  | floatUnary w op => cases w <;> cases op <;> decide +kernel
  | floatBinary w op => cases w <;> cases op <;> decide +kernel
  | conversion c =>
    rcases c with _ | s | ⟨v, w, s⟩ | ⟨v, w, s⟩ | _ | _ | w | w <;>
      first
        | decide +kernel
        | (cases w <;> decide +kernel)
        | (cases s <;> decide +kernel)
        | (cases v <;> cases w <;> cases s <;> decide +kernel)
  | extend w p => cases p <;> first | decide +kernel | (cases w <;> decide +kernel)
  | _ => decide +kernel

theorem byte_of_ofByte? {b : UInt8} {op : Opcode} (h : ofByte? b = some op) : op.byte = b := by
  have := List.find?_some h
  simp only [beq_iff_eq] at this
  simp [byte, this]

end Opcode

namespace TruncSat

/-- The second code of a saturating truncation. -/
def code (t : TruncSat) : UInt32 :=
  (match t.target with | .w32 => 0 | .w64 => 4) + (match t.source with | .w32 => 0 | .w64 => 2) +
    (match t.sign with | .signed => 0 | .unsigned => 1)

/-- The saturating truncation with the given second code. -/
def ofCode? (n : UInt32) : Option TruncSat :=
  if n < 8 then
    some ⟨if n < 4 then .w32 else .w64, if n % 4 < 2 then .w32 else .w64,
      if n % 2 = 0 then .signed else .unsigned⟩
  else none

theorem ofCode?_code (t : TruncSat) : ofCode? t.code = some t := by
  rcases t with ⟨target, source, sign⟩
  cases target <;> cases source <;> cases sign <;> decide

end TruncSat

end Wasm
