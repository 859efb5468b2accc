/-
# Exhaustive search

The plain way to find neighbors: measure every point.  Equally near points
keep their order.
-/
import RecordPool.Coordinates

namespace RecordPool

namespace Exhaustive

variable {F Q : Type} [Arithmetic F] [HasCoordinates Q F]

/-- The squared distance of each point to the query. -/
def distances (points : List (List F)) (query : Q) : Checked (List F) :=
  points.mapM fun point => squaredDistance point query

/-- The first of the least values. -/
def minimum? : List F → Option F
  | [] => none
  | x :: xs => some (xs.foldl (fun m y => if (Arithmetic.compare m y).isLE then m else y) x)

/-- The squared distance of the nearest point. -/
def nearest (points : List (List F)) (query : Q) : Checked (Option F) := do
  pure (minimum? (← distances points query))

/-- The positions and squared distances of all points, the nearest first. -/
def sorted (points : List (List F)) (query : Q) : Checked (List (Nat × F)) := do
  let measured := (← distances points query).zipIdx.map fun (x, i) => (i, x)
  pure (measured.mergeSort fun a b => (Arithmetic.compare a.2 b.2).isLE)

end Exhaustive

end RecordPool
