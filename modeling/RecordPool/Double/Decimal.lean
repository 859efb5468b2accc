/-
# Shortest decimal text of a double

A finite double is a whole number of units of a power of two.  The reals that
round to it form an interval, whose ends belong to it exactly when the whole
number is even.  Among the decimals in that interval those with the fewest
digits are kept, and of these the nearest; of two equally near the larger.
The text is positional: no exponent is ever written.
-/
import RecordPool.Double.Basic

namespace RecordPool

/-! ## Decimals -/

/-- The number `coefficient * 10 ^ exponent`. -/
structure Decimal where
  /-- The digits, as one number. -/
  coefficient : Nat
  /-- The place of the last digit. -/
  exponent : Int
  deriving DecidableEq, Repr

namespace Decimal

/-- The decimal digits of a number, most significant first. -/
def digits (n : Nat) : List Char :=
  Nat.toDigits 10 n

/-- The text with `places` digits behind the point, trailing zeros dropped;
without any such digit there is no point either. -/
def withPoint (text : List Char) (places : Nat) : List Char :=
  let padded := List.replicate (places + 1 - text.length) '0' ++ text
  let whole := padded.take (padded.length - places)
  let rest := (padded.drop (padded.length - places)).reverse.dropWhile (· == '0')
  if rest.isEmpty then whole else whole ++ '.' :: rest.reverse

/-- The positional text of a decimal. -/
def positional (d : Decimal) : List Char :=
  match d.exponent with
  | .ofNat zeros => digits (d.coefficient * Nat.pow 10 zeros)
  | .negSucc below => withPoint (digits d.coefficient) (below + 1)

end Decimal

/-! ## The interval that rounds to a double -/

/-- The reals that round to one double, measured in a common unit: they lie
between `low / unit` and `high / unit` around `middle / unit`. -/
structure RoundingInterval where
  /-- The lower end. -/
  low : Nat
  /-- The double itself. -/
  middle : Nat
  /-- The upper end. -/
  high : Nat
  /-- The common denominator. -/
  unit : Nat
  /-- Whether the ends belong to the interval. -/
  closed : Bool
  deriving Repr

namespace RoundingInterval

/-- The interval of the positive double with the given magnitude bits.  Below
a power of two the next double is half as far away, except at the bottom of
the exponent range. -/
def ofMagnitude (bits : Nat) : RoundingInterval :=
  let fraction := bits % 0x10000000000000
  let exponent := bits / 0x10000000000000
  let whole := if exponent = 0 then fraction else fraction + 0x10000000000000
  let scale := Nat.max exponent 1
  let below := if fraction = 0 ∧ 1 < exponent then 1 else 2
  let factor := Nat.pow 2 (scale - 1077)
  { low := (4 * whole - below) * factor
    middle := 4 * whole * factor
    high := (4 * whole + 2) * factor
    unit := Nat.pow 2 (1077 - scale)
    closed := whole % 2 = 0 }

/-- The interval in units of `10 ^ place`. -/
def rescale (v : RoundingInterval) (place : Int) : RoundingInterval :=
  match place with
  | .ofNat n => { v with unit := v.unit * Nat.pow 10 n }
  | .negSucc n =>
      let factor := Nat.pow 10 (n + 1)
      { v with low := v.low * factor, middle := v.middle * factor, high := v.high * factor }

/-- The place just above the first digit of the number: the number is below
`10` to this place and at least a tenth of that. -/
def leadingPlace (v : RoundingInterval) : Int :=
  if v.unit ≤ v.middle then
    ((Decimal.digits (v.middle / v.unit)).length : Int)
  else
    1 - ((Decimal.digits ((v.unit - 1) / v.middle)).length : Int)

/-- The multiple of the unit nearest to the middle among the two that enclose
it, if it lies in the interval. -/
def nearestWhole? (v : RoundingInterval) : Option Nat :=
  let below := v.middle / v.unit
  let above := below + 1
  let lowFits := v.low < below * v.unit || (v.closed && v.low == below * v.unit)
  let highFits := above * v.unit < v.high || (v.closed && above * v.unit == v.high)
  if lowFits && highFits then
    if v.middle - below * v.unit < above * v.unit - v.middle then some below else some above
  else if lowFits then some below
  else if highFits then some above
  else none

/-- The shortest decimal in the interval; seventeen digits always suffice. -/
def shortest (v : RoundingInterval) : Decimal :=
  let found := (List.range 17).findSome? fun (count : Nat) =>
    let place := v.leadingPlace - ((count + 1 : Nat) : Int)
    (v.rescale place).nearestWhole?.map (⟨·, place⟩)
  found.getD ⟨v.middle / v.unit, 0⟩

end RoundingInterval

/-! ## Text -/

/-- The text of a double: the shortest digits that read back as the same
double, written out positionally. -/
def Double.text (x : Double) : String :=
  let sign := if x.isNegative then "-" else ""
  if x.isNaN then "NaN"
  else if x.isInfinite then sign ++ "inf"
  else if x.magnitude = 0 then sign ++ "0"
  else sign ++ String.ofList (RoundingInterval.ofMagnitude x.magnitude.toNat).shortest.positional

instance : ToString Double where
  toString := Double.text

end RecordPool
