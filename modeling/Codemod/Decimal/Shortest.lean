import Codemod.Decimal.Double
/-!
# Shortest decimals

Between two neighbouring doubles lies a range of reals that round to either.
The shortest decimal of a double is, of the decimals in the range that rounds
to it, one with the fewest digits, and of those the nearest. For each number
of digits only the two decimals on either side of the double need be tried,
in exact arithmetic: when any decimal with so many digits is in the range, one
of these two is.
-/

namespace Codemod

/-- The decimal `digits · 10 ^ exponent`. -/
structure Decimal where
  digits : Nat
  exponent : Int
  deriving Inhabited

namespace Decimal

/-- Which of two decimals equally near to a double is taken. -/
inductive Tie where
  | up
  | even

/-- A positive real and the range around it that rounds to it, each a quotient
by the same divisor. -/
structure Range where
  value : Nat
  lower : Nat
  upper : Nat
  divisor : Nat
  /-- The ends of the range round to the value too. -/
  closed : Bool

namespace Range

/-- The range of a finite double other than zero. Below a power of two the
doubles stand twice as close. -/
def ofDouble (x : Double) : Range :=
  let m := x.mantissa
  let closeBelow := x.fractionBits == 0 && 1 < x.exponentBits
  let scale := x.scale - 2
  let unit := twoPow scale.toNat
  { value := 4 * m * unit
    lower := (4 * m - (if closeBelow then 1 else 2)) * unit
    upper := (4 * m + 2) * unit
    divisor := twoPow (-scale).toNat
    closed := m % 2 == 0 }

variable (r : Range)

/-- The range in units of a power of ten. -/
def inUnitsOf (exponent : Int) : Range :=
  let up := tenPow (-exponent).toNat
  { value := r.value * up
    lower := r.lower * up
    upper := r.upper * up
    divisor := r.divisor * tenPow exponent.toNat
    closed := r.closed }

/-- The whole number lies in the range. -/
def holds (n : Nat) : Bool :=
  if r.closed then r.lower ≤ n * r.divisor && n * r.divisor ≤ r.upper
  else r.lower < n * r.divisor && n * r.divisor < r.upper

/-- The whole number in the range that is nearest to its value, of those on
either side of it. -/
def nearestWhole? (tie : Tie) : Option Nat :=
  let below := r.value / r.divisor
  let above := below + 1
  match r.holds below, r.holds above with
  | true, false => some below
  | false, true => some above
  | false, false => none
  | true, true =>
    let rest := 2 * (r.value % r.divisor)
    if rest < r.divisor then some below
    else if r.divisor < rest then some above
    else match tie with
      | .up => some above
      | .even => some (below + below % 2)

/-- The power of ten at or below the value. -/
def magnitude : Int :=
  let rough := Int.fdiv (((r.value.log2 : Int) - r.divisor.log2) * 1233) 4096
  let reaches (e : Int) : Bool :=
    r.divisor * tenPow e.toNat ≤ r.value * tenPow (-e).toNat
  if reaches (rough + 1) then rough + 1 else if reaches rough then rough else rough - 1

end Range

/-- Drops the zeros a number ends in, as long as the count allows. -/
def dropZeros : Nat → Decimal → Decimal
  | 0, d => d
  | n + 1, d =>
    if d.digits != 0 && d.digits % 10 == 0 then dropZeros n ⟨d.digits / 10, d.exponent + 1⟩
    else d

/-- The shortest decimal of the magnitude of a finite double other than zero.
Seventeen digits always suffice. -/
def shortest (tie : Tie) (x : Double) : Decimal :=
  let r := Range.ofDouble x
  let magnitude := r.magnitude
  let ofLength (n : Nat) : Option Decimal :=
    let exponent := magnitude - n
    ((r.inUnitsOf exponent).nearestWhole? tie).map (⟨·, exponent⟩)
  dropZeros 20 (((List.range 18).findSome? ofLength).getD ⟨0, 0⟩)

/-- A decimal without exponent, in full. -/
def positional (d : Decimal) : String :=
  let digits := Nat.toDigits 10 d.digits
  if 0 ≤ d.exponent then String.ofList (digits ++ List.replicate d.exponent.toNat '0')
  else
    let places := (-d.exponent).toNat
    let padded := List.replicate (places + 1 - digits.length) '0' ++ digits
    let whole := padded.length - places
    String.ofList (padded.take whole ++ '.' :: padded.drop whole)

end Decimal

end Codemod
