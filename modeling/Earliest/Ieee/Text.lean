import Earliest.Ieee.Format
import Earliest.Decimal.Shortest

/-! The text of a floating-point number: the fewest digits that read back in its
own width, positional at every size. A 16-bit number is written as the equal
32-bit one. -/

namespace Earliest.Ieee

/-- The reals that round to a finite number other than zero: half a step to each
side, a quarter below a power of two, the ends included when the significand is
even. -/
def roundingRange {f : Format} (x : Ieee f) : RoundingRange where
  low := 4 * x.significand - (if x.fraction = 0 ∧ 1 < x.exponent then 1 else 2)
  middle := 4 * x.significand
  high := 4 * x.significand + 2
  twos := x.scale - 2
  closed := x.significand % 2 == 0

def text {f : Format} (x : Ieee f) : String :=
  if x.isNaN then "NaN"
  else
    (if x.negative then "-" else "") ++
      (if x.isInfinite then "inf"
      else if x.isZero then "0"
      else x.roundingRange.shortest.positional)

end Earliest.Ieee
