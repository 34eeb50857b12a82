/-
Finite floating-point numbers of 64 bits.

A number is its sign and the 63 bits below it, which read as an integer grow with
the magnitude: equally many for each power of two, and gradual underflow below.
`Binary64.nearest` rounds a quotient of natural numbers to the nearest of them, ties
to the even one, in exact arithmetic.
-/
import SimControl.Number.Decimal

namespace SimControl

/-- The magnitude bits of infinity, the least that is not a finite number. -/
def Binary64.infinity : Nat := 0x7ff0000000000000

/-- The number of magnitudes between two powers of two. -/
def Binary64.step : Nat := 0x10000000000000

structure Binary64 where
  negative : Bool
  /-- The bits below the sign bit. -/
  magnitude : Nat
  finite : magnitude < Binary64.infinity
  deriving DecidableEq, Repr

namespace Binary64

/-- The 64 bits of the number. -/
def bits (x : Binary64) : Nat :=
  (if x.negative then 0x8000000000000000 else 0) + x.magnitude

/-! ## Rounding -/

/-- `numerator / denominator` to the nearest integer, a tie to the even one. -/
def roundHalfEven (numerator denominator : Nat) : Nat :=
  let quotient := numerator / denominator
  let twice := 2 * (numerator % denominator)
  if denominator < twice ∨ (denominator = twice ∧ quotient % 2 = 1) then quotient + 1
  else quotient

/-- The quotient scaled by `2 ^ exponent`, as a quotient. -/
def scale (exponent : Int) (numerator denominator : Nat) : Nat × Nat :=
  if 0 ≤ exponent then (numerator <<< exponent.toNat, denominator)
  else (numerator, denominator <<< (-exponent).toNat)

/-- The exponent of the last binary place of a positive quotient that is kept: the
leading 53 places, and none below the smallest subnormal number. -/
def lastPlace (numerator denominator : Nat) : Int :=
  let estimate : Int := (numerator.log2 : Int) - denominator.log2
  let (n, d) := scale (-estimate) numerator denominator
  max (if n < d then estimate - 53 else estimate - 52) (-1074)

/-- The magnitude bits nearest to a quotient, possibly beyond the finite ones. -/
def nearest (numerator denominator : Nat) : Nat :=
  if numerator = 0 then 0
  else
    let place := lastPlace numerator denominator
    let (n, d) := scale (-place) numerator denominator
    step * (place + 1074).toNat + roundHalfEven n d

/-- The quotient with a sign, unless it rounds beyond the finite numbers. -/
def ofRatio? (negative : Bool) (numerator denominator : Nat) : Option Binary64 :=
  if h : nearest numerator denominator < infinity then
    some ⟨negative, nearest numerator denominator, h⟩
  else none

/-! ## Values -/

/-- The magnitude as an integer and the exponent of its last place. -/
def significand (x : Binary64) : Nat × Int :=
  let field := x.magnitude / step
  let fraction := x.magnitude % step
  if field = 0 then (fraction, -1074) else (step + fraction, (field : Int) - 1075)

/-- The magnitude as a quotient. -/
def toRatio (x : Binary64) : Nat × Nat :=
  let (n, exponent) := x.significand
  scale exponent n 1

/-- The product with a natural number, rounded. -/
def mulNat? (x : Binary64) (factor : Nat) : Option Binary64 :=
  let (n, d) := x.toRatio
  ofRatio? x.negative (n * factor) d

/-- The integer part. -/
def truncate (x : Binary64) : Int :=
  let (n, d) := x.toRatio
  if x.negative then -((n / d : Nat) : Int) else ((n / d : Nat) : Int)

/-- The number nearest to a decimal one.  The two bounds spare the powers of ten of
an exponent so large that the number is beyond the finite ones, or so small that it
is nearest to zero. -/
def ofDecimal? (x : Decimal) : Option Binary64 :=
  if x.digits = 0 ∨ x.exponent < -(400 + (x.digits.log2 : Int)) then ofRatio? x.negative 0 1
  else if 400 < x.exponent then none
  else if 0 ≤ x.exponent then ofRatio? x.negative (x.digits * Nat.pow 10 x.exponent.toNat) 1
  else ofRatio? x.negative x.digits (Nat.pow 10 (-x.exponent).toNat)

/-- The finite number that a text stands for. -/
def ofText? (cs : List Char) : Option Binary64 := (Decimal.ofText? cs).bind ofDecimal?

end Binary64
end SimControl
