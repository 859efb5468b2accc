/-
# Pools of points

The records of a point pool hold the coordinates of one point each.  Filling
in a point writes all of its record, so that records need no reset.
-/
import RecordPool.Coordinates
import RecordPool.Layout.Draft
import RecordPool.Pool.Attribute
import RecordPool.Pool.Cursor

namespace RecordPool

/-- Points of one dimension. -/
structure PointPool (β : Type) where
  /-- The number of dimensions of each point. -/
  dimension : Nat
  /-- The records. -/
  pool : Pool β
  /-- The coordinates. -/
  position : AttributeArray .double

namespace PointPool

variable {β F : Type} [Memory β F]

/-- An empty pool with room for `initial` points. -/
def make (id : PoolId) (dimension initial : Nat) : ExceptT TreeError Checked (PointPool β) := do
  if dimension = 0 then
    throw .zeroDimensions
  let (position, draft) ← ExceptT.lift (Draft.internal.fieldArray .double "position" dimension)
  let layout ← draft.finish.adapt .layout
  let pool ← (Pool.make id layout (.single initial) .keep).adapt .pool
  pure ⟨dimension, pool, ← ExceptT.lift (AttributeArray.bind position pool)⟩

/-- The number of points. -/
def size (points : PointPool β) : Checked Nat :=
  points.pool.size

/-- Overwrites the point of `r`. -/
def fill {P : Type} [HasCoordinates P F] (points : PointPool β) (r : Reference) (source : P) :
    Checked (PointPool β) := do
  demand (HasCoordinates.dimension source == points.dimension) .wrongDimension
  let pool ← (List.range points.dimension).foldlM (fun pool d => do
    let x ← HasCoordinates.coordinate source d
    points.position.put pool r d x) points.pool
  pure { points with pool }

/-- Adds a point and points `r` at it. -/
def add {P : Type} [HasCoordinates P F] (points : PointPool β) (r : Reference) (source : P) :
    Checked (RecordIndex × PointPool β × Reference) := do
  let (index, pool, r) ← points.pool.create r
  pure (index, ← { points with pool }.fill r source, r)

/-- Removes the point of `r`. -/
def delete (points : PointPool β) (r : Reference) : Checked (PointPool β) := do
  pure { points with pool := ← points.pool.delete r }

/-- The coordinate of the point of `r` on one axis. -/
def coordinate (points : PointPool β) (r : Reference) (d : Nat) : Checked F :=
  points.position.get points.pool r d

/-- All coordinates of the point of `r`. -/
def coordinates (points : PointPool β) (r : Reference) : Checked (List F) :=
  (List.range points.dimension).mapM (points.coordinate r)

/-- The point of `r` as a line of text. -/
def describe [ToString F] (points : PointPool β) (r : Reference) : Checked String := do
  let texts := (← points.coordinates r).map toString
  pure ("( " ++ ", ".intercalate texts ++ " )")

/-- The points still to come, at most `count` of them, read through the
reference that the cursor repoints. -/
def rest (points : PointPool β) :
    (count : Nat) → Cursor → Reference → Checked (List (RecordIndex × List F))
  | 0, _, _ => pure []
  | count + 1, c, r => do
      match ← c.advance points.pool r with
      | (true, c, r) => do
          let position ← points.coordinates r
          let index ← r.index
          pure ((index, position) :: (← points.rest count c r))
      | (false, _, _) => pure []

/-- All points by ascending index. -/
def toList (points : PointPool β) : Checked (List (RecordIndex × List F)) :=
  points.rest points.pool.allocated .start points.pool.newReference

/-- A pool of the given points, in order. -/
def ofList (id : PoolId) (dimension : Nat) (points : List (List F)) :
    ExceptT TreeError Checked (PointPool β) := do
  let empty ← PointPool.make id dimension points.length
  ExceptT.lift (points.foldlM (fun made point => do
    let (_, made, _) ← PointPool.add made made.pool.newReference point
    pure made) empty)

/-- Points to try trees and searches on: three corners of a square of side ten,
and its centre as the second point. -/
def square : List (List Double) :=
  [[0, 0], [5, 5], [10, 0], [0, 10]].map (·.map Double.ofInt)

end PointPool

/-- A point of a pool, as a source of coordinates. -/
structure PointView (β : Type) where
  /-- The pool. -/
  points : PointPool β
  /-- A reference to the point. -/
  reference : Reference

/-- The coordinates of a point are read from its record. -/
instance {β F : Type} [Memory β F] : HasCoordinates (PointView β) F where
  dimension := fun v => v.points.dimension
  coordinate := fun v => v.points.coordinate v.reference

end RecordPool
