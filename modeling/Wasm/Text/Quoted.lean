import Wasm.Text.Invisible
import Wasm.Text.Numeral

/-!
Quoted text: the form in which messages show a name that a module or a user chose.  It stands
between double quotes, with a backslash before quotes and backslashes, short names for the common
controls, and a number for every other character that does not show.
-/

namespace Wasm.Text

/-- A character as it stands inside a quoted text. -/
def escape (c : Char) : String :=
  match c with
  | '\x00' => "\\0"
  | '\t' => "\\t"
  | '\r' => "\\r"
  | '\n' => "\\n"
  | '"' => "\\\""
  | '\\' => "\\\\"
  | c => if isInvisible c then "\\u\x7b" ++ hex c.toNat ++ "\x7d" else c.toString

/-- A text between double quotes, every character escaped as needed. -/
def quoted (s : String) : String :=
  "\"" ++ String.join (s.toList.map escape) ++ "\""

end Wasm.Text
