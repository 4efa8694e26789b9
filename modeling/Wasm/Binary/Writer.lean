import Wasm.Opcode
import Wasm.Binary.Varint
import Wasm.Text.Utf8

/-!
Writing the pieces that binary modules are made of: names, sections, and the constant expression
that places a segment.
-/

namespace Wasm.Binary.Writer

/-- A count or size, below `2 ^ 32`. -/
def size (n : Nat) : List UInt8 :=
  Varint.encodeUnsigned (n % 4294967296)

/-- A name: its length in bytes, then its bytes in UTF-8. -/
def name (s : String) : List UInt8 :=
  let bytes := Utf8.encode s
  size bytes.length ++ bytes

/-- A section with the given content. -/
def sectionWith (id : UInt8) (content : List UInt8) : List UInt8 :=
  id :: size content.length ++ content

/-- The constant expression of a 32-bit integer, with its `end`. -/
def i32Const (n : UInt32) : List UInt8 :=
  (Opcode.const .i32).byte :: Varint.encodeSigned n.toInt32.toInt ++ [Opcode.endByte]

end Wasm.Binary.Writer
