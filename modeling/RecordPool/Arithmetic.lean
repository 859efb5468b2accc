/-
# Coordinate arithmetic

What the tree and the searches need of a coordinate: three operations, two
comparisons, a total order, and the extremes of a list.  Doubles are one
instance; nothing in the algorithms depends on it, so that they can be read
over any ordered field as well.
-/
import RecordPool.Double.Basic

namespace RecordPool

/-- Numbers that serve as coordinates and squared distances. -/
class Arithmetic (F : Type) where
  /-- The value of a coordinate that has not been set. -/
  zero : F
  /-- The value that a running sum starts from. -/
  emptySum : F
  /-- The sum. -/
  add : F → F → F
  /-- The difference. -/
  sub : F → F → F
  /-- The product. -/
  mul : F → F → F
  /-- Whether the first number is less than the second. -/
  lt : F → F → Bool
  /-- Whether the first number is at most the second. -/
  le : F → F → Bool
  /-- A total order, which also places values that `lt` and `le` leave out. -/
  compare : F → F → Ordering
  /-- The least of the values. -/
  least : List F → F
  /-- The greatest of the values. -/
  greatest : List F → F

namespace Arithmetic

variable {F : Type} [Arithmetic F]

/-- The product of a number with itself. -/
def square (x : F) : F :=
  mul x x

/-- The sum from left to right. -/
def sum (xs : List F) : F :=
  xs.foldl add emptySum

end Arithmetic

/-- Doubles as coordinates: an empty sum is the negative zero, which is
neutral for addition, and extremes pass over values that are not numbers. -/
instance : Arithmetic Double where
  zero := Double.zero
  emptySum := Double.negativeZero
  add := Double.add
  sub := Double.sub
  mul := Double.mul
  lt := Double.lt
  le := Double.le
  compare := Double.compare
  least := fun xs => xs.foldl Double.min Double.infinity
  greatest := fun xs => xs.foldl Double.max Double.negativeInfinity

end RecordPool
