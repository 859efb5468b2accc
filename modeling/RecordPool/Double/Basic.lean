/-
# Double-precision numbers

A double is kept as its 64 bits, so that storing and reading back loses
nothing: signs of zeros and payloads of not-a-number values included.
Arithmetic rounds to nearest.  `Double.compare` is the total order on all bit
patterns that agrees with the usual order on ordinary numbers.
-/

namespace RecordPool

/-- A double-precision number, named by its bits. -/
structure Double where
  /-- Sign, eleven exponent bits and fifty-two fraction bits. -/
  bits : UInt64
  deriving DecidableEq, Repr, Inhabited

namespace Double

/-! ## Particular values -/

/-- The positive zero. -/
def zero : Double := ⟨0⟩

/-- The negative zero. -/
def negativeZero : Double := ⟨0x8000000000000000⟩

/-- Positive infinity. -/
def infinity : Double := ⟨0x7ff0000000000000⟩

/-- Negative infinity. -/
def negativeInfinity : Double := ⟨0xfff0000000000000⟩

/-- The value of an operation that has no result, such as the difference of
two infinities. -/
def indefinite : Double := ⟨0xfff8000000000000⟩

/-! ## Parts of the bits -/

/-- Whether the sign bit is set. -/
def isNegative (x : Double) : Bool :=
  x.bits >>> 63 == 1

/-- The bits without the sign bit. -/
def magnitude (x : Double) : UInt64 :=
  x.bits &&& 0x7fffffffffffffff

/-- Whether the value is not a number. -/
def isNaN (x : Double) : Bool :=
  infinity.bits < x.magnitude

/-- Whether the value is one of the two infinities. -/
def isInfinite (x : Double) : Bool :=
  x.magnitude == infinity.bits

/-- The same value with the quiet bit of a not-a-number value set. -/
def quiet (x : Double) : Double :=
  ⟨x.bits ||| 0x0008000000000000⟩

/-! ## Arithmetic -/

/-- The double with the bits of `x`. -/
def toFloat (x : Double) : Float :=
  Float.ofBits x.bits

/-- The double that holds the result of an operation. -/
def ofFloat (x : Float) : Double :=
  if x.isNaN then indefinite else ⟨x.toBits⟩

/-- The double nearest to an integer. -/
def ofInt (i : Int) : Double :=
  ofFloat (Float.ofInt i)

/-- Applies `operation`; an operand that is not a number is the result, the
first one before the second. -/
def combine (operation : Float → Float → Float) (x y : Double) : Double :=
  if x.isNaN then x.quiet
  else if y.isNaN then y.quiet
  else ofFloat (operation x.toFloat y.toFloat)

/-- The rounded sum. -/
def add (x y : Double) : Double :=
  combine (· + ·) x y

/-- The rounded difference. -/
def sub (x y : Double) : Double :=
  combine (· - ·) x y

/-- The rounded product. -/
def mul (x y : Double) : Double :=
  combine (· * ·) x y

/-- The rounded square root. -/
def sqrt (x : Double) : Double :=
  if x.isNaN then x.quiet else ofFloat x.toFloat.sqrt

/-! ## Order -/

/-- Whether `x` is a smaller number than `y`. -/
def lt (x y : Double) : Bool :=
  x.toFloat < y.toFloat

/-- Whether `x` is a number at most as large as the number `y`. -/
def le (x y : Double) : Bool :=
  x.toFloat ≤ y.toFloat

/-- The place of a bit pattern in the total order: negative patterns first,
from the largest magnitude down, then positive ones from the smallest up. -/
def rank (x : Double) : Nat :=
  if x.isNegative then 0xffffffffffffffff - x.bits.toNat
  else x.bits.toNat + 0x8000000000000000

/-- The total order on bit patterns. -/
def compare (x y : Double) : Ordering :=
  Ord.compare x.rank y.rank

/-- Comparing by rank is a total order. -/
instance : Std.TransCmp compare where
  eq_swap {x y} := Std.OrientedOrd.eq_swap (a := x.rank) (b := y.rank)
  isLE_trans {x y z} := Std.TransOrd.isLE_trans (a := x.rank) (b := y.rank) (c := z.rank)

/-- The smaller of two values; a value that is not a number gives way. -/
def min (x y : Double) : Double :=
  if y.isNaN then x else if x.isNaN then y else if y.lt x then y else x

/-- The larger of two values; a value that is not a number gives way. -/
def max (x y : Double) : Double :=
  if y.isNaN then x else if x.isNaN then y else if x.lt y then y else x

end Double

/-- A single-precision number, named by its bits; it is stored and read only. -/
structure Single where
  /-- Sign, eight exponent bits and twenty-three fraction bits. -/
  bits : UInt32
  deriving DecidableEq, Repr, Inhabited

/-- Whether the value is not a number. -/
def Single.isNaN (x : Single) : Bool :=
  0x7f800000 < x.bits &&& 0x7fffffff

end RecordPool
