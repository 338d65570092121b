/-! Shortest decimals. A binary number stands for every real that rounds to it;
among the decimals in that range the shortest is the one on the coarsest grid
of powers of ten, and of two on one grid the nearer, the greater when both are
equally near. All comparisons are between natural numbers. -/

namespace Earliest

/-- The number `coefficient * 10 ^ exponent`. -/
structure Decimal where
  coefficient : Nat
  exponent : Int
  deriving DecidableEq

/-- Reals from `low` to `high` around `middle`, each in units of `2 ^ twos`. The
ends belong to the range when it is `closed`. -/
structure RoundingRange where
  low : Nat
  middle : Nat
  high : Nat
  twos : Int
  closed : Bool

namespace RoundingRange

def digitCount (n : Nat) : Nat := (Nat.toDigits 10 n).length

/-- The factor that turns units of `2 ^ twos` into the common measure of the range
and the grid of `10 ^ k`. -/
def unit (r : RoundingRange) (k : Int) : Nat := Nat.pow 10 (-k).toNat <<< r.twos.toNat

/-- One step of the grid of `10 ^ k` in the common measure. -/
def step (r : RoundingRange) (k : Int) : Nat := Nat.pow 10 k.toNat <<< (-r.twos).toNat

/-- Whether `c * 10 ^ k` lies in the range. -/
def contains (r : RoundingRange) (c : Nat) (k : Int) : Bool :=
  let x := c * r.step k
  if r.closed then r.low * r.unit k ≤ x && x ≤ r.high * r.unit k
  else r.low * r.unit k < x && x < r.high * r.unit k

/-- The point of the grid of `10 ^ k` that lies in the range, nearest to its middle. -/
def onGrid (r : RoundingRange) (k : Int) : Option Nat :=
  let below := r.middle * r.unit k / r.step k
  let left := r.middle * r.unit k % r.step k
  match r.contains below k, r.contains (below + 1) k with
  | false, false => none
  | true, false => some below
  | false, true => some (below + 1)
  | true, true => if 2 * left < r.step k then some below else some (below + 1)

/-- The least exponent whose power of ten exceeds the middle. -/
def magnitude (r : RoundingRange) : Int :=
  let unit := r.middle * r.unit 0
  let step := r.step 0
  if step ≤ unit then digitCount (unit / step)
  else 1 - digitCount ((step - 1) / unit)

/-- Tries `fuel` grids from that of `10 ^ k` on, each ten times finer than the last. -/
def search (r : RoundingRange) : Nat → Int → Decimal
  | 0, k => ⟨r.middle * r.unit k / r.step k, k⟩
  | fuel + 1, k =>
    match r.onGrid k with
    | some c => ⟨c, k⟩
    | none => search r fuel (k - 1)

/-- Seventeen digits tell any two 64-bit numbers apart, so eighteen grids suffice. -/
def shortest (r : RoundingRange) : Decimal := r.search 18 r.magnitude

end RoundingRange

/-- All digits in place, without an exponent, and a point only before a fraction. -/
def Decimal.positional (d : Decimal) : String :=
  let digits := Nat.toDigits 10 d.coefficient
  let places := (-d.exponent).toNat
  if places = 0 then
    String.ofList (digits ++ List.replicate d.exponent.toNat '0')
  else if places < digits.length then
    let whole := digits.length - places
    String.ofList (digits.take whole ++ '.' :: digits.drop whole)
  else
    String.ofList ('0' :: '.' :: List.replicate (places - digits.length) '0' ++ digits)

end Earliest
