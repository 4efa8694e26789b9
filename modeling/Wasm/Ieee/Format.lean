/-!
Binary floating-point formats.  A `Format` says how many bits hold the exponent and the fraction;
bit patterns are natural numbers.  `decode` reads a pattern as a `Datum`, an exact dyadic number, an
infinity or not a number.  `round` goes back: it gives the pattern nearest to an exact rational
number, a tie going to the pattern with an even last bit.  All arithmetic on floats is exact
arithmetic between a `decode` and one `round`.
-/

namespace Wasm.Ieee

/-- The widths of the two fields below the sign bit. -/
structure Format where
  exponentBits : Nat
  fractionBits : Nat
deriving Repr, DecidableEq

/-- What a bit pattern stands for; a finite datum is `± significand · 2 ^ exponent`. -/
inductive Datum where
  | nan
  | infinity (negative : Bool)
  | finite (negative : Bool) (significand : Nat) (exponent : Int)
deriving Repr, DecidableEq

/-- The quotient of two natural numbers, rounded to the nearest, ties to even. -/
def roundQuotient (num den : Nat) : Nat :=
  let q := num / den
  let r := num % den
  if 2 * r < den then q
  else if den < 2 * r then q + 1
  else q + q % 2

/-- The exponent of the largest power of two that is at most `num / den`. -/
def floorLog2 (num den : Nat) : Int :=
  let l : Int := (num.log2 : Int) - (den.log2 : Int)
  if num <<< (-l).toNat < den <<< l.toNat then l - 1 else l

namespace Format

/-- Single precision. -/
def binary32 : Format := ⟨8, 23⟩

/-- Double precision. -/
def binary64 : Format := ⟨11, 52⟩

/-- The bit that holds the sign. -/
def signBit (f : Format) : Nat :=
  1 <<< (f.exponentBits + f.fractionBits)

/-- The pattern of positive infinity. -/
def infinity (f : Format) : Nat :=
  (1 <<< f.exponentBits - 1) <<< f.fractionBits

/-- The canonical pattern for what is not a number: positive, with only the top fraction bit. -/
def canonicalNan (f : Format) : Nat :=
  f.infinity + 1 <<< (f.fractionBits - 1)

/-- The exponent of the smallest positive number. -/
def minExponent (f : Format) : Int :=
  2 - ((1 <<< (f.exponentBits - 1) : Nat) : Int) - (f.fractionBits : Int)

/-- Whether the sign bit is set. -/
def isNegative (f : Format) (bits : Nat) : Bool :=
  bits / f.signBit % 2 == 1

/-- The bits below the sign bit. -/
def magnitude (f : Format) (bits : Nat) : Nat :=
  bits % f.signBit

/-- Whether the pattern is not a number. -/
def isNan (f : Format) (bits : Nat) : Bool :=
  f.infinity < f.magnitude bits

/-- Whether the pattern is the canonical NaN, of either sign. -/
def isCanonicalNan (f : Format) (bits : Nat) : Bool :=
  f.magnitude bits == f.canonicalNan

/-- Puts a sign on a magnitude. -/
def withSign (f : Format) (negative : Bool) (magnitude : Nat) : Nat :=
  if negative then f.signBit + magnitude else magnitude

/-- What a bit pattern stands for. -/
def decode (f : Format) (bits : Nat) : Datum :=
  let negative := f.isNegative bits
  let magnitude := f.magnitude bits
  if f.infinity < magnitude then .nan
  else if magnitude = f.infinity then .infinity negative
  else
    let fraction := magnitude % 1 <<< f.fractionBits
    let biased := magnitude >>> f.fractionBits
    if biased = 0 then .finite negative fraction f.minExponent
    else .finite negative (fraction + 1 <<< f.fractionBits) (f.minExponent + (biased : Int) - 1)

/-- The magnitude nearest to `num / den · 2 ^ exponent`, ties to even; too large a number gives
infinity.  The last place is worth `2 ^ unit`, which is as small as the format allows; an increment
that carries out of the fraction lands on the next exponent by itself. -/
def roundMagnitude (f : Format) (num den : Nat) (exponent : Int) : Nat :=
  if num = 0 then 0
  else
    let unit := max f.minExponent (exponent + floorLog2 num den - f.fractionBits)
    let shift := exponent - unit
    let q := roundQuotient (num <<< shift.toNat) (den <<< (-shift).toNat)
    min f.infinity ((unit - f.minExponent).toNat <<< f.fractionBits + q)

/-- The pattern nearest to `± num / den · 2 ^ exponent`. -/
def round (f : Format) (negative : Bool) (num den : Nat) (exponent : Int) : Nat :=
  f.withSign negative (f.roundMagnitude num den exponent)

end Format

/-- Patterns in ascending order as numbers, each once. -/
def distinctPatterns (patterns : List Nat) : List Nat :=
  (patterns.mergeSort (· ≤ ·)).eraseReps

end Wasm.Ieee
