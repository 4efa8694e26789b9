import Wasm.Ieee.Format
import Wasm.Text.Numeral

/-!
Decimal texts of floating-point numbers.  A number is written with the fewest decimal digits that
read back as the same bit pattern; of several such texts the nearest one is taken, and of two
equally near ones the larger.  Reading rounds the decimal number once, to the nearest pattern.
-/

namespace Wasm.Ieee

/-- The decimal number `digits · 10 ^ exponent`. -/
structure Decimal where
  digits : Nat
  exponent : Int
deriving Repr, DecidableEq

/-- The positive reals that round to one datum, in units of `2 ^ exponent`: from `low` to `high`
around `mid`, the ends included or not. -/
structure Interval where
  low : Nat
  mid : Nat
  high : Nat
  exponent : Int
  closed : Bool
deriving Repr, DecidableEq

namespace Interval

/-- The neighbours of `mid` on the grid of multiples of `10 ^ place`, if one lies in the interval:
the nearer one, the upper one on a tie. -/
def onGrid? (i : Interval) (place : Int) : Option Nat :=
  let scale := Nat.pow 10 (-place).toNat <<< i.exponent.toNat
  let unit := Nat.pow 10 place.toNat <<< (-i.exponent).toNat
  let mid := i.mid * scale
  let below := mid / unit
  let inside (n : Nat) : Bool :=
    if i.closed then i.low * scale ≤ n * unit && n * unit ≤ i.high * scale
    else i.low * scale < n * unit && n * unit < i.high * scale
  if inside below && (!inside (below + 1) || 2 * (mid - below * unit) < unit) then some below
  else if inside (below + 1) then some (below + 1)
  else none

/-- Tries ever finer grids, starting at `place`. -/
def shortestFrom (i : Interval) : Nat → Int → Decimal
  | 0, place => ⟨i.mid, place⟩
  | fuel + 1, place =>
    match i.onGrid? place with
    | some n => ⟨n, place⟩
    | none => i.shortestFrom fuel (place - 1)

/-- The decimal number of fewest digits in the interval.  No power of ten above the first grid lies
in the interval, and a grid that is finer than the interval always meets it. -/
def shortest (i : Interval) : Decimal :=
  let top := ((i.high.log2 + 1 : Nat) + i.exponent) * 30103 / 100000 + 2
  i.shortestFrom (i.high.log2 + 25) top

end Interval

namespace Format

/-- The reals that round to `m · 2 ^ e`: half way to the neighbours, of which the lower one is twice
as near where the exponent changes.  Ends go to the number with the even significand. -/
def interval (f : Format) (m : Nat) (e : Int) : Interval where
  low := if m = 1 <<< f.fractionBits ∧ f.minExponent < e then 4 * m - 1 else 4 * m - 2
  mid := 4 * m
  high := 4 * m + 2
  exponent := e - 2
  closed := m % 2 = 0

/-- The shortest decimal number that reads back as `m · 2 ^ e`. -/
def shortest (f : Format) (m : Nat) (e : Int) : Decimal :=
  if m = 0 then ⟨0, 0⟩ else (f.interval m e).shortest

end Format

/-! ### Writing -/

namespace Decimal

/-- Positional notation: all zeros written out, and at least `places` digits after the point. -/
def positional (d : Decimal) (places : Nat) : String :=
  let ds := Nat.toDigits 10 d.digits
  let zeros (n : Nat) := List.replicate n '0'
  let fraction (ds : List Char) : List Char :=
    let ds := ds ++ zeros (places - ds.length)
    if ds = [] then [] else '.' :: ds
  let before := (ds.length : Int) + d.exponent
  String.ofList <|
    if 0 ≤ d.exponent then ds ++ zeros d.exponent.toNat ++ fraction []
    else if 0 < before then ds.take before.toNat ++ fraction (ds.drop before.toNat)
    else '0' :: fraction (zeros (-before).toNat ++ ds)

/-- Scientific notation: one digit before the point, and a bare exponent. -/
def scientific (d : Decimal) : String :=
  let ds := Nat.toDigits 10 d.digits
  let exponent := (ds.length : Int) + d.exponent - 1
  String.ofList (ds.take 1 ++ if ds.length ≤ 1 then [] else '.' :: ds.drop 1) ++
    "e" ++ toString exponent

end Decimal

namespace Format

/-- The text of a pattern, given how to write a positive finite number. -/
def textWith (f : Format) (bits : Nat) (write : Nat → Int → String) : String :=
  let sign (negative : Bool) := if negative then "-" else ""
  match f.decode bits with
  | .nan => "NaN"
  | .infinity negative => sign negative ++ "inf"
  | .finite negative m e => sign negative ++ write m e

/-- The plain text of a pattern: positional, without a superfluous point. -/
def text (f : Format) (bits : Nat) : String :=
  f.textWith bits fun m e => (f.shortest m e).positional 0

/-- The text of a pattern inside a larger structure: a point is always there, and numbers from
`10 ^ 16` on and below `10 ^ -4` are in scientific notation. -/
def structuralText (f : Format) (bits : Nat) : String :=
  f.textWith bits fun m e =>
    let d := f.shortest m e
    let small := f.roundMagnitude 1 10000 0
    let large := f.roundMagnitude 10000000000000000 1 0
    let magnitude := f.magnitude bits
    if large ≤ magnitude ∨ (m ≠ 0 ∧ magnitude < small) then d.scientific else d.positional 1

end Format

/-! ### Reading -/

/-- Splits the leading digits off a text. -/
def spanDigits (s : List Char) : List Char × List Char :=
  (s.takeWhile Char.isDigit, s.dropWhile Char.isDigit)

/-- The exponent part of a numeral: nothing, or `e` with a sign and digits. -/
def exponent? : List Char → Option Int
  | [] => some 0
  | c :: s => if c = 'e' ∨ c = 'E' then Text.integer? s else none

/-- An unsigned decimal numeral with a digit somewhere around its optional point. -/
def decimal? (s : List Char) : Option Decimal :=
  let (whole, rest) := spanDigits s
  let (fraction, rest) := match rest with
    | '.' :: rest => spanDigits rest
    | _ => ([], rest)
  if whole = [] ∧ fraction = [] then none
  else (exponent? rest).map fun e =>
    ⟨Text.ofDigits (whole ++ fraction), e - (fraction.length : Int)⟩

namespace Format

/-- The magnitude nearest to a decimal number.  Far outside the range of the format the exponent
alone decides, so no huge power of ten is computed. -/
def ofDecimal (f : Format) (d : Decimal) : Nat :=
  let size := ((Nat.toDigits 10 d.digits).length : Int) + d.exponent
  if d.digits = 0 then 0
  else if 400 < size then f.infinity
  else if size < -400 then 0
  else f.roundMagnitude (d.digits * Nat.pow 10 d.exponent.toNat) (Nat.pow 10 (-d.exponent).toNat) 0

/-- The magnitude that an unsigned text names: a numeral, or a word for infinity or NaN in any
case. -/
def magnitude? (f : Format) (s : List Char) : Option Nat :=
  let word := s.map Char.toLower
  if word = "inf".toList ∨ word = "infinity".toList then some f.infinity
  else if word = "nan".toList then some f.canonicalNan
  else (decimal? s).map f.ofDecimal

/-- The pattern that a text names: an optional sign and a magnitude. -/
def ofText? (f : Format) : List Char → Option Nat
  | '-' :: s => (f.magnitude? s).map (f.withSign true)
  | '+' :: s => f.magnitude? s
  | s => f.magnitude? s

end Format

end Wasm.Ieee
