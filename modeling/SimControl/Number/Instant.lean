/-
Points in time, given as seconds since the beginning of 1970.
-/
import SimControl.Number.Binary64
import SimControl.Parser.Basic

namespace SimControl

structure Instant where
  /-- Nanoseconds since the beginning of 1970. -/
  nanoseconds : Int
  deriving DecidableEq, Repr

namespace Instant

/-- The dates that the `time` library documents as its range, those of the years from -9999 to
9999, in whole seconds. -/
def isRepresentable (nanoseconds : Int) : Bool :=
  let seconds := nanoseconds.fdiv 1000000000
  seconds ≥ -377705116800 && seconds ≤ 253402300799

/-- Seconds, turned into nanoseconds by a floating-point product whose fraction is
dropped, if that is in the documented range of dates. -/
def ofSeconds? (seconds : Binary64) : Option Instant :=
  (seconds.mulNat? 1000000000).bind fun product =>
    if isRepresentable product.truncate then some ⟨product.truncate⟩ else none

def parser : Parser Instant :=
  .reading "Date" fun token => (Binary64.ofText? token.toList).bind ofSeconds?

end Instant
end SimControl
