/-
# Sources of coordinates

Anything that has a number of dimensions and a coordinate for each can serve
as a point: lists of numbers, and points that live in a pool.
-/
import RecordPool.Checked
import RecordPool.Arithmetic

namespace RecordPool

/-- The list `out` with the first `count` coordinates over its start, as many
of them as there is room for. -/
def fillFrom {F : Type} (count : Nat) (coordinate : Nat → Checked F) (out : List F) :
    Checked (List F) := do
  let values ← (List.range (min count out.length)).mapM coordinate
  pure (values ++ out.drop count)

/-- Points with coordinates of type `F`. -/
class HasCoordinates (P : Type) (F : outParam Type) where
  /-- The number of dimensions. -/
  dimension : P → Nat
  /-- The coordinate on one axis. -/
  coordinate : P → Nat → Checked F
  /-- Copies the coordinates over the start of a list. -/
  copyInto : P → List F → Checked (List F) :=
    fun p out => fillFrom (dimension p) (coordinate p) out

/-- A list of numbers is a point; a shorter list receives what it has room
for. -/
instance {F : Type} : HasCoordinates (List F) F where
  dimension := List.length
  coordinate := fetchAt

/-- A list of numbers that can only be copied as a whole. -/
structure Slice (F : Type) where
  /-- The numbers. -/
  coordinates : List F
  deriving Repr

/-- A slice does not fit into a shorter list. -/
instance {F : Type} : HasCoordinates (Slice F) F where
  dimension := fun s => s.coordinates.length
  coordinate := fun s => fetchAt s.coordinates
  copyInto := fun s out => splice out 0 s.coordinates

/-- The squared distance from `a` to `b`, over the dimensions of `a`. -/
def squaredDistance {F P Q : Type} [Arithmetic F] [HasCoordinates P F] [HasCoordinates Q F]
    (a : P) (b : Q) : Checked F := do
  let squares ← (List.range (HasCoordinates.dimension a)).mapM fun d => do
    let x ← HasCoordinates.coordinate a d
    let y ← HasCoordinates.coordinate b d
    pure (Arithmetic.square (Arithmetic.sub x y))
  pure (Arithmetic.sum squares)

end RecordPool
