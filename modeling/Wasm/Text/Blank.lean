/-!
White space, by the Unicode property `White_Space`: what may stand around the parts of a signature.
`trim` takes it off both ends of a text.
-/

namespace Wasm.Text

/-- The twenty-five code points with the property `White_Space`. -/
def isBlank (c : Char) : Bool :=
  let n := c.toNat
  (0x09 ≤ n && n ≤ 0x0d) || n == 0x20 || n == 0x85 || n == 0xa0 || n == 0x1680 ||
    (0x2000 ≤ n && n ≤ 0x200a) || n == 0x2028 || n == 0x2029 || n == 0x202f || n == 0x205f ||
    n == 0x3000

/-- The text without the white space before it. -/
def trimLeft (s : List Char) : List Char :=
  s.dropWhile isBlank

/-- The text without the white space after it. -/
def trimRight (s : List Char) : List Char :=
  (s.reverse.dropWhile isBlank).reverse

/-- The text without the white space around it. -/
def trim (s : List Char) : List Char :=
  trimRight (trimLeft s)

end Wasm.Text
