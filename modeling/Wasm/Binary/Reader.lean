import Wasm.Recorder
import Wasm.Types
import Wasm.Binary.Varint
import Wasm.LittleEndian
import Wasm.Text.Utf8

/-!
Readers.  A `Reader` consumes bytes from a `Cursor`, which knows how far it is from the start of the
input so that every failure can say where it happened.  The readers of bytes and numbers are single
steps.  Those of names, lists, instructions and sections are put together from them, in any monad
that readers lift into; an element of a list and an instruction are `noted` there.
-/

namespace Wasm.Binary

/-- A place in the input: the offset from its start and the bytes from there on. -/
structure Cursor where
  offset : Nat
  rest : List UInt8
deriving Repr, DecidableEq

/-- The cursor at a position of an input; beyond the end there is nothing to read. -/
def Cursor.at (bytes : List UInt8) (offset : Nat) : Cursor :=
  ⟨offset, bytes.drop offset⟩

/-- The cursor at the start of an input. -/
def Cursor.start (bytes : List UInt8) : Cursor :=
  ⟨0, bytes⟩

/-- A consumer of bytes. -/
abbrev Reader (α : Type) := StateT Cursor (Except Error) α

/-- The input ended while something was being read. -/
def unexpectedEnd (what : String) (offset : Nat) : Error :=
  .parse Code.unexpectedEnd s!"unexpected end of input reading {what} at offset {offset}"

/-- A byte that has no meaning where it stands. -/
def invalidTag (code : Nat) (what : String) (b : UInt8) (offset : Nat) : Error :=
  .parse code s!"invalid {what} 0x{Text.hexPadded 2 b.toNat} at offset {offset}"

namespace Reader

/-- The offset of the next byte. -/
def offset : Reader Nat :=
  fun c => .ok (c.offset, c)

/-- The number of bytes that are left. -/
def remaining : Reader Nat :=
  fun c => .ok (c.rest.length, c)

/-- The next byte, without consuming it. -/
def peek : Reader UInt8 :=
  fun c => match c.rest with
    | [] => .error (unexpectedEnd "byte" c.offset)
    | b :: _ => .ok (b, c)

/-- The next byte. -/
def byte : Reader UInt8 :=
  fun c => match c.rest with
    | [] => .error (unexpectedEnd "byte" c.offset)
    | b :: rest => .ok (b, ⟨c.offset + 1, rest⟩)

/-- The next `n` bytes. -/
def bytesOf (what : String) (n : Nat) : Reader (List UInt8) :=
  fun c =>
    if n ≤ c.rest.length then .ok (c.rest.take n, ⟨c.offset + n, c.rest.drop n⟩)
    else .error (unexpectedEnd what c.offset)

/-- The next `n` bytes. -/
def bytes (n : Nat) : Reader (List UInt8) :=
  bytesOf "byte sequence" n

/-! ### Numbers -/

/-- What a fault of a variable-length integer means: `kind` and `prefixLetter` name the reader. -/
def varintError (fault : Varint.Fault) (kind letter : String) (bits offset : Nat) : Error :=
  match fault with
  | .ended => unexpectedEnd (kind ++ " varint") offset
  | .tooLong => .parse Code.varintOverflow
      s!"integer representation too long for {letter}{bits} at offset {offset}"

/-- An unsigned variable-length integer of at most `bits` bits. -/
def unsigned (bits : Nat) : Reader Nat :=
  fun c => match Varint.decodeUnsigned bits c.rest with
    | .ok (n, size) => .ok (n, ⟨c.offset + size, c.rest.drop size⟩)
    | .error fault => .error (varintError fault "unsigned" "u" bits c.offset)

/-- A signed variable-length integer of at most `bits` bits. -/
def signed (bits : Nat) : Reader Int :=
  fun c => match Varint.decodeSigned bits c.rest with
    | .ok (n, size) => .ok (n, ⟨c.offset + size, c.rest.drop size⟩)
    | .error fault => .error (varintError fault "signed" "i" bits c.offset)

/-- An index, count or size. -/
def u32 : Reader UInt32 :=
  UInt32.ofNat <$> unsigned 32

/-- A 64-bit unsigned integer. -/
def u64 : Reader UInt64 :=
  UInt64.ofNat <$> unsigned 64

/-- The bits of a 32-bit signed integer. -/
def i32 : Reader UInt32 :=
  (fun n => UInt32.ofNat (n % 4294967296).toNat) <$> signed 32

/-- The bits of a 64-bit signed integer. -/
def i64 : Reader UInt64 :=
  (fun n => UInt64.ofNat (n % 18446744073709551616).toNat) <$> signed 64

/-- A fixed-width 32-bit number. -/
def u32Fixed : Reader UInt32 :=
  (fun bs => UInt32.ofNat (LittleEndian.decode bs)) <$> bytesOf "u32" 4

/-- The bits of a single. -/
def f32 : Reader UInt32 :=
  (fun bs => UInt32.ofNat (LittleEndian.decode bs)) <$> bytesOf "f32" 4

/-- The bits of a double. -/
def f64 : Reader UInt64 :=
  (fun bs => UInt64.ofNat (LittleEndian.decode bs)) <$> bytesOf "f64" 8

/-- A byte as a value type. -/
def asValueType (b : UInt8) : Reader ValueType :=
  liftM (ValueType.ofByte b)

/-! ### Names, types and lists -/

section

open Recorder (within noted)

variable {M : Type → Type} [Monad M] [MonadExcept Error M] [MonadLiftT Reader M] [Recorder M]

/-- A name: its length in bytes, then its bytes in UTF-8. -/
def name : M String := do
  let start ← offset
  let length ← u32
  let rest ← remaining
  if rest < length.toNat then throw (unexpectedEnd "name" start)
  let bs ← bytes length.toNat
  match Utf8.decode bs with
  | .ok s => pure s
  | .error fault => throw (.parse Code.invalidUtf8
      s!"malformed UTF-8 encoding at offset {start}: {fault.message}")

/-- A value type. -/
def valueType : M ValueType := do
  let start ← offset
  let b ← byte
  within (fun _ => s!"offset {start}") (liftM (asValueType b))

/-- Items that are numbered from `index` on. -/
def items {α : Type} (read : Nat → M α) : (count index : Nat) → M (List α)
  | 0, _ => pure []
  | count + 1, index => do
    let a ← noted (read index)
    let rest ← items read count (index + 1)
    pure (a :: rest)

/-- A count and that many items, each of which may depend on its number. -/
def numberedList {α : Type} (read : Nat → M α) : M (List α) := do
  let count ← u32
  items read count.toNat 0

/-- A count and that many items. -/
def list {α : Type} (read : M α) : M (List α) :=
  numberedList fun _ => read

end

end Reader

end Wasm.Binary
