/-
# Search frontiers

The entries of a frontier are records of a pool of its own.  An entry stands
either for the point of one tree node or for the box around a subtree.  On
each axis it tells on which side of the box the query lies and the square of
the gap to the box; its distance is the sum of these squares for a box and the
exact squared distance for a point, and it is what the search is ordered by.
-/
import RecordPool.PointPool
import RecordPool.Pool.PriorityQueue

namespace RecordPool

/-- The entries of one search. -/
structure Frontier (β : Type) where
  /-- The number of dimensions. -/
  dimension : Nat
  /-- The records of the entries. -/
  pool : Pool β
  /-- The tree node that the entry is about. -/
  node : Attribute .index
  /-- The axis that the node splits on. -/
  split : Attribute .int
  /-- Whether the entry is a point rather than a box. -/
  isPoint : Attribute .boolean
  /-- On each axis `-1` where the query is below the box, `0` inside it and
  `1` at or above its upper end. -/
  side : AttributeArray .byte
  /-- On each axis the square of the gap to the box. -/
  gap : AttributeArray .double
  /-- The squared distance to the query. -/
  distance : Attribute .double

namespace Frontier

variable {β F : Type} [Memory β F]

/-- The number of entries there is room for unless told otherwise. -/
def defaultCapacity : Nat := 50

/-- A frontier without entries. -/
def make (id : PoolId) (dimension capacity : Nat) : ExceptT TreeError Checked (Frontier β) := do
  if dimension = 0 then
    throw .zeroDimensions
  let (node, draft) ← ExceptT.lift (Draft.internal.field .index "node_index")
  let (split, draft) ← ExceptT.lift (draft.field .int "split_dim")
  let (isPoint, draft) ← ExceptT.lift (draft.field .boolean "is_point")
  let (side, draft) ← ExceptT.lift (draft.fieldArray .byte "orient" dimension)
  let (gap, draft) ← ExceptT.lift (draft.fieldArray .double "axis_sq" dimension)
  let (distance, draft) ← ExceptT.lift (draft.field .double "sq_distance")
  let layout ← draft.finish.adapt .layout
  let pool ← (Pool.make id layout (.single capacity) .keep).adapt .pool
  ExceptT.lift do
    let node ← Attribute.bind node pool
    let split ← Attribute.bind split pool
    let isPoint ← Attribute.bind isPoint pool
    let side ← AttributeArray.bind side pool
    let gap ← AttributeArray.bind gap pool
    let distance ← Attribute.bind distance pool
    pure { dimension, pool, node, split, isPoint, side, gap, distance }

/-! ## Entries -/

/-- Creates an entry and points `r` at it.  It has to be filled in next. -/
def create (f : Frontier β) (r : Reference) :
    Checked (RecordIndex × Frontier β × Reference) := do
  let (index, pool, r) ← f.pool.create r
  pure (index, { f with pool }, r)

/-- Removes an entry. -/
def delete (f : Frontier β) (r : Reference) : Checked (Frontier β) := do
  pure { f with pool := ← f.pool.delete r }

/-- Drops all entries. -/
def clear (f : Frontier β) : Frontier β :=
  { f with pool := f.pool.clear }

/-! ## Single attributes -/

/-- The tree node that an entry is about. -/
def nodeOf (f : Frontier β) (r : Reference) : Checked RecordIndex := do
  match ← f.node.get f.pool r with
  | some index => pure index
  | none => violate .unfilledEntry

/-- The axis that the node of an entry splits on. -/
def axisOf (f : Frontier β) (r : Reference) : Checked Nat := do
  pure (Kind.widen (← f.split.get f.pool r))

/-- Whether an entry is a point. -/
def entryIsPoint (f : Frontier β) (r : Reference) : Checked Bool :=
  f.isPoint.get f.pool r

/-- On which side of the box the query lies on one axis. -/
def sideOf (f : Frontier β) (r : Reference) (d : Nat) : Checked Int8 :=
  f.side.get f.pool r d

/-- The square of the gap to the box on one axis. -/
def gapOf (f : Frontier β) (r : Reference) (d : Nat) : Checked F :=
  f.gap.get f.pool r d

/-- The squared distance of an entry. -/
def distanceOf (f : Frontier β) (r : Reference) : Checked F :=
  f.distance.get f.pool r

/-- Makes an entry a point or a box. -/
def setPoint (f : Frontier β) (r : Reference) (value : Bool) : Checked (Frontier β) := do
  pure { f with pool := ← f.isPoint.put f.pool r value }

/-- Sets the side of the query on one axis. -/
def setSide (f : Frontier β) (r : Reference) (d : Nat) (value : Int8) :
    Checked (Frontier β) := do
  pure { f with pool := ← f.side.put f.pool r d value }

/-- Sets the square of the gap on one axis. -/
def setGap (f : Frontier β) (r : Reference) (d : Nat) (value : F) : Checked (Frontier β) := do
  pure { f with pool := ← f.gap.put f.pool r d value }

/-- Sets the squared distance. -/
def setDistance (f : Frontier β) (r : Reference) (value : F) : Checked (Frontier β) := do
  pure { f with pool := ← f.distance.put f.pool r value }

/-- Sets the node of an entry and the axis that the node splits on. -/
def setNode (f : Frontier β) (r : Reference) (node : RecordIndex) (axis : Nat) :
    Checked (Frontier β) := do
  let pool ← f.node.put f.pool r (some node)
  pure { f with pool := ← f.split.put pool r (Kind.narrow axis) }

/-! ## Filling in entries -/

/-- Makes an entry the box of `node` with the query inside it. -/
def fill [Arithmetic F] (f : Frontier β) (r : Reference) (node : RecordIndex) (axis : Nat) :
    Checked (Frontier β) := do
  let f ← f.setPoint r false
  let f ← f.setNode r node axis
  let f ← (List.range f.dimension).foldlM (fun f d => do
    let f ← Frontier.setSide f r d 0
    f.setGap r d Arithmetic.zero) f
  f.setDistance r Arithmetic.zero

/-- Makes an entry the box of `node`, with sides and gaps as in `parent`. -/
def inherit (f : Frontier β) (r : Reference) (node : RecordIndex) (axis : Nat)
    (parent : Reference) : Checked (Frontier β) := do
  let f := { f with pool := ← f.pool.copy parent r }
  let f ← f.setPoint r false
  f.setNode r node axis

/-- Orders entries by their distance. -/
def order [Arithmetic F] (f : Frontier β) : Comparator :=
  Comparator.byDouble f.distance f.pool

end Frontier

end RecordPool
