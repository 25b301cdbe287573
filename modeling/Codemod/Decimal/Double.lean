/-!
# Binary floating point numbers

A double is kept as its sixty-four bits, so that two numbers printed alike but
stored differently stay apart. A finite one stands for `mantissa · 2 ^ scale`.
`Double.sameNumber` is equality of numbers, under which the zeros agree and a
NaN agrees with nothing; `Double.nearest?` finds the double nearest to a
decimal.
-/

namespace Codemod

/-! ## Powers -/

/-- The scale of a binary number, exact however large. -/
def twoPow (exponent : Nat) : Nat := Nat.pow 2 exponent

/-- The scale of a decimal number. -/
def tenPow (exponent : Nat) : Nat := Nat.pow 10 exponent

/-! ## Doubles -/

/-- An IEEE 754 double, by its bits. -/
structure Double where
  bits : UInt64
  deriving DecidableEq, Inhabited

namespace Double

variable (x : Double)

/-- The sign bit is set. -/
def isNegative : Bool := x.bits.toNat ≥ twoPow 63

/-- The eleven bits of the exponent. -/
def exponentBits : Nat := x.bits.toNat / twoPow 52 % twoPow 11

/-- The fifty-two bits of the fraction. -/
def fractionBits : Nat := x.bits.toNat % twoPow 52

/-- The bits stand for no number. -/
def isNaN : Bool := x.exponentBits == 2047 && x.fractionBits != 0

/-- The bits stand for an infinite number. -/
def isInfinite : Bool := x.exponentBits == 2047 && x.fractionBits == 0

/-- The bits stand for zero, with either sign. -/
def isZero : Bool := x.exponentBits == 0 && x.fractionBits == 0

/-- The whole number that a power of two scales, the hidden bit included. -/
def mantissa : Nat :=
  if x.exponentBits = 0 then x.fractionBits else x.fractionBits + twoPow 52

/-- The power of two that scales the mantissa. -/
def scale : Int := if x.exponentBits = 0 then -1074 else (x.exponentBits : Int) - 1075

/-- Equality of numbers. -/
def sameNumber (x y : Double) : Bool :=
  !x.isNaN && !y.isNaN && (x.bits == y.bits || (x.isZero && y.isZero))

/-! ## From decimals -/

/-- The quotient rounded to the nearest whole number, a half to the even
one. -/
def roundHalfEven (num den : Nat) : Nat :=
  let q := num / den
  let r := num % den
  if 2 * r < den then q else if den < 2 * r then q + 1 else q + q % 2

/-- Puts a magnitude and its sign together. -/
def ofMagnitude (negative : Bool) (magnitude : Nat) : Double :=
  ⟨UInt64.ofNat (if negative then twoPow 63 + magnitude else magnitude)⟩

/-- The bits of the double nearest to a positive quotient; nothing when it is
past the largest finite one. -/
def magnitudeOfQuotient? (num den : Nat) : Option Nat :=
  let rough : Int := (num.log2 : Int) - den.log2 - 52
  let scaled (scale : Int) : Nat × Nat :=
    if 0 ≤ scale then (num, den * twoPow scale.toNat) else (num * twoPow (-scale).toNat, den)
  let exact : Int :=
    let (n, d) := scaled rough
    if n < d * twoPow 52 then rough - 1 else rough
  let scale : Int := max exact (-1074)
  let (n, d) := scaled scale
  let rounded := roundHalfEven n d
  let (mantissa, scale) :=
    if rounded = twoPow 53 then (twoPow 52, scale + 1) else (rounded, scale)
  if 971 < scale then none
  else if mantissa < twoPow 52 then some mantissa
  else some ((scale + 1075).toNat * twoPow 52 + (mantissa - twoPow 52))

/-- The double nearest to `± digits · 10 ^ exponent`, nothing when that is
past the largest finite one. A decimal too small for the least double is read
as zero without being written out. -/
def nearest? (negative : Bool) (digits : Nat) (exponent : Int) : Option Double :=
  let size : Int := (Nat.toDigits 10 digits).length + exponent
  if digits = 0 || size < -400 then some (ofMagnitude negative 0)
  else if 400 < size then none
  else
    let magnitude? :=
      if 0 ≤ exponent then magnitudeOfQuotient? (digits * tenPow exponent.toNat) 1
      else magnitudeOfQuotient? digits (tenPow (-exponent).toNat)
    magnitude?.map (ofMagnitude negative)

end Double

end Codemod
