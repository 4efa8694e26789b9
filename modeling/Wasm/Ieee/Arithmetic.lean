import Wasm.Ieee.Format

/-!
Arithmetic on floating-point bit patterns: sums, products, quotients and square roots are computed
exactly and rounded once; an operation without a meaningful result gives the canonical NaN.  The
language leaves the bits of such a result open: any arithmetic NaN may come out if an operand is a
NaN that is not canonical, and a canonical NaN of either sign otherwise.  The canonical NaN with a
positive sign is one of the results that it allows in either case.  The comparisons and the two
lattice operations `min` and `max` work on the order of the patterns themselves, where `-0` and `+0`
are equal numbers but `-0` comes first.
-/

namespace Wasm.Ieee

/-- The integer `± n`. -/
def signed (negative : Bool) (n : Nat) : Int :=
  if negative then -(n : Int) else n

/-- The digits of an integer square root in base two, from the top: `steps` of them. -/
def squareRootDigits : Nat → Nat → Nat
  | 0, _ => 0
  | steps + 1, n =>
    let r := 2 * squareRootDigits steps (n >>> 2)
    if (r + 1) * (r + 1) ≤ n then r + 1 else r

/-- The largest natural number whose square is at most `n`. -/
def squareRoot (n : Nat) : Nat :=
  squareRootDigits (n.log2 / 2 + 1) n

/-- The four ways to round to an integral value. -/
inductive Rounding where
  | ceil
  | floor
  | trunc
  | nearest
deriving Repr, DecidableEq

namespace Format

/-! ### The sign bit -/

/-- The pattern with its sign bit cleared. -/
def abs (f : Format) (a : Nat) : Nat :=
  f.magnitude a

/-- The pattern with its sign bit flipped. -/
def neg (f : Format) (a : Nat) : Nat :=
  f.withSign (!f.isNegative a) (f.magnitude a)

/-- The magnitude of the first pattern with the sign of the second. -/
def copysign (f : Format) (a b : Nat) : Nat :=
  f.withSign (f.isNegative b) (f.magnitude a)

/-! ### Rounded arithmetic -/

def add (f : Format) (a b : Nat) : Nat :=
  match f.decode a, f.decode b with
  | .nan, _ => f.canonicalNan
  | _, .nan => f.canonicalNan
  | .infinity s, .infinity t => if s = t then a else f.canonicalNan
  | .infinity _, .finite .. => a
  | .finite .., .infinity _ => b
  | .finite s m d, .finite t n e =>
    let unit := min d e
    let sum := signed s (m <<< (d - unit).toNat) + signed t (n <<< (e - unit).toNat)
    if sum = 0 then f.withSign (s && t) 0
    else f.round (sum < 0) sum.natAbs 1 unit

def sub (f : Format) (a b : Nat) : Nat :=
  f.add a (f.neg b)

def mul (f : Format) (a b : Nat) : Nat :=
  match f.decode a, f.decode b with
  | .nan, _ => f.canonicalNan
  | _, .nan => f.canonicalNan
  | .infinity s, .infinity t => f.withSign (s != t) f.infinity
  | .infinity s, .finite t n _ =>
    if n = 0 then f.canonicalNan else f.withSign (s != t) f.infinity
  | .finite s m _, .infinity t =>
    if m = 0 then f.canonicalNan else f.withSign (s != t) f.infinity
  | .finite s m d, .finite t n e => f.round (s != t) (m * n) 1 (d + e)

def div (f : Format) (a b : Nat) : Nat :=
  match f.decode a, f.decode b with
  | .nan, _ => f.canonicalNan
  | _, .nan => f.canonicalNan
  | .infinity _, .infinity _ => f.canonicalNan
  | .infinity s, .finite t _ _ => f.withSign (s != t) f.infinity
  | .finite s _ _, .infinity t => f.withSign (s != t) 0
  | .finite s m d, .finite t n e =>
    if n = 0 then
      if m = 0 then f.canonicalNan else f.withSign (s != t) f.infinity
    else f.round (s != t) m n (d - e)

/-- The square root.  The significand is first made long enough for the root to have two places more
than the format; one further place tells whether the root was exact. -/
def sqrt (f : Format) (a : Nat) : Nat :=
  match f.decode a with
  | .nan => f.canonicalNan
  | .infinity negative => if negative then f.canonicalNan else a
  | .finite negative m e =>
    if m = 0 then a
    else if negative then f.canonicalNan
    else
      let places : Nat := 2 * f.fractionBits + 6
      let places := if (e - places) % 2 = 0 then places else places + 1
      let n := m <<< places
      let r := squareRoot n
      let inexact := if r * r = n then 0 else 1
      f.round false (2 * r + inexact) 1 ((e - places) / 2 - 1)

/-- Rounds to an integral value and keeps the sign, also that of a zero. -/
def roundToIntegral (f : Format) (mode : Rounding) (a : Nat) : Nat :=
  match f.decode a with
  | .nan => f.canonicalNan
  | .infinity _ => a
  | .finite negative m e =>
    if 0 ≤ e then a
    else
      let unit := 1 <<< (-e).toNat
      let q := match mode with
        | .trunc => m / unit
        | .floor => if negative then (m + unit - 1) / unit else m / unit
        | .ceil => if negative then m / unit else (m + unit - 1) / unit
        | .nearest => roundQuotient m unit
      f.round negative q 1 0

/-! ### Order -/

/-- The place of a pattern among the numbers; the two zeros share theirs. -/
def rank (f : Format) (a : Nat) : Int :=
  signed (f.isNegative a) (f.magnitude a)

/-- Numeric equality: never for NaN, always between the zeros. -/
def eq (f : Format) (a b : Nat) : Bool :=
  !f.isNan a && !f.isNan b && f.rank a == f.rank b

def lt (f : Format) (a b : Nat) : Bool :=
  !f.isNan a && !f.isNan b && f.rank a < f.rank b

def le (f : Format) (a b : Nat) : Bool :=
  !f.isNan a && !f.isNan b && f.rank a ≤ f.rank b

/-- The smaller number; of two zeros the negative one.  Equal numbers differ at most in the sign of
zero, so the union of their bits is the one that comes first. -/
def min (f : Format) (a b : Nat) : Nat :=
  if f.isNan a || f.isNan b then f.canonicalNan
  else if f.eq a b then a ||| b
  else if f.lt a b then a else b

/-- The larger number; of two zeros the positive one. -/
def max (f : Format) (a b : Nat) : Nat :=
  if f.isNan a || f.isNan b then f.canonicalNan
  else if f.eq a b then a &&& b
  else if f.lt b a then a else b

/-! ### Conversions -/

/-- The pattern nearest to an integer. -/
def ofInt (f : Format) (n : Int) : Nat :=
  f.round (n < 0) n.natAbs 1 0

/-- The pattern of another format nearest to the number. -/
def convert (f g : Format) (a : Nat) : Nat :=
  match f.decode a with
  | .nan => g.canonicalNan
  | .infinity negative => g.withSign negative g.infinity
  | .finite negative m e => g.round negative m 1 e

end Format

namespace Datum

/-- The integer part of `± m · 2 ^ e`, toward zero. -/
def truncateFinite (negative : Bool) (m : Nat) (e : Int) : Int :=
  signed negative (m <<< e.toNat >>> (-e).toNat)

end Datum

end Wasm.Ieee
