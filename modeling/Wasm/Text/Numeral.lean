/-!
Numerals in text: hexadecimal digits as they are printed, and the decimal integers that are read
from a command line or an argument.
-/

namespace Wasm.Text

/-- Lower-case hexadecimal digits, without leading zeros. -/
def hex (n : Nat) : String :=
  String.ofList (Nat.toDigits 16 n)

/-- Lower-case hexadecimal digits, filled with zeros up to `width`. -/
def hexPadded (width n : Nat) : String :=
  let digits := Nat.toDigits 16 n
  String.ofList (List.replicate (width - digits.length) '0' ++ digits)

/-- The number that a list of decimal digits writes, most significant first. -/
def ofDigits (digits : List Char) : Nat :=
  digits.foldl (fun n c => 10 * n + (c.toNat - '0'.toNat)) 0

/-- A natural number: one or more ASCII digits. -/
def digits? (s : List Char) : Option Nat :=
  if s ≠ [] ∧ s.all Char.isDigit then some (ofDigits s) else none

/-- A natural number with an optional plus sign. -/
def natural? : List Char → Option Nat
  | '+' :: s => digits? s
  | s => digits? s

/-- An integer with an optional sign. -/
def integer? : List Char → Option Int
  | '-' :: s => (digits? s).map fun n => -(n : Int)
  | s => (natural? s).map Int.ofNat

end Wasm.Text
