/-
Numbers written in decimal digits.

Both readers want the whole text: an optional sign, and ASCII digits.  A decimal
fraction may leave out the digits on one side of its point, but not on both, and may
end in an exponent.
-/

namespace SimControl

namespace Decimal

/-- The number that a list of digits stands for. -/
def ofDigits (digits : List Char) : Nat :=
  digits.foldl (fun n c => 10 * n + (c.toNat - '0'.toNat)) 0

/-- One or more digits. -/
def natural? (cs : List Char) : Option Nat :=
  if cs ≠ [] ∧ cs.all Char.isDigit then some (ofDigits cs) else none

/-- Whether a minus stands in front, and the text after the sign if there is one. -/
def splitSign : List Char → Bool × List Char
  | '-' :: cs => (true, cs)
  | '+' :: cs => (false, cs)
  | cs => (false, cs)

def integer? (cs : List Char) : Option Int :=
  let (negative, digits) := splitSign cs
  (natural? digits).map fun n => if negative then -(n : Int) else n

/-- An integer that a signed word of 64 bits can hold. -/
def word64? (cs : List Char) : Option Int :=
  (integer? cs).filter fun n => -9223372036854775808 ≤ n && n ≤ 9223372036854775807

end Decimal

/-- The number `± digits · 10 ^ exponent`. -/
structure Decimal where
  negative : Bool
  digits : Nat
  exponent : Int
  deriving DecidableEq, Repr

namespace Decimal

/-- A decimal fraction, with or without an exponent. -/
def ofText? (cs : List Char) : Option Decimal :=
  let (negative, cs) := splitSign cs
  let whole := cs.takeWhile Char.isDigit
  let (fraction, cs) :=
    match cs.dropWhile Char.isDigit with
    | '.' :: cs => (cs.takeWhile Char.isDigit, cs.dropWhile Char.isDigit)
    | cs => ([], cs)
  let scaled (exponent : Int) : Decimal :=
    ⟨negative, ofDigits (whole ++ fraction), exponent - fraction.length⟩
  if whole = [] ∧ fraction = [] then none
  else
    match cs with
    | [] => some (scaled 0)
    | mark :: cs => if mark = 'e' ∨ mark = 'E' then (integer? cs).map scaled else none

end Decimal
end SimControl
