/-
# Building k-d trees

A node takes the middle one of its points by the coordinate on its axis; the
points before it make up the left subtree and those behind it the right one.
The axes take turns from level to level.  Nodes are created before their
subtrees, left before right, so that their indices are in preorder.
-/
import RecordPool.KdTree.Basic
import RecordPool.KdTree.Selection
import RecordPool.PointPool

namespace RecordPool

/-- A point that waits for its node. -/
structure Pending (F : Type) where
  /-- The index of the point in its data. -/
  data : RecordIndex
  /-- The coordinates. -/
  position : List F

namespace Pending

variable {F : Type} [Arithmetic F]

/-- The coordinate on one axis. -/
def coordinate (item : Pending F) (d : Nat) : F :=
  item.position.getD d Arithmetic.zero

/-- Orders points by their coordinate on one axis. -/
def compareOn (d : Nat) (a b : Pending F) : Ordering :=
  Arithmetic.compare (a.coordinate d) (b.coordinate d)

end Pending

namespace KdTree

variable {β F : Type} [Memory β F] [Arithmetic F]

/-- Creates the node of a point, without its children. -/
def createNode (attributes : NodeAttributes) (axis : Nat) (item : Pending F) (nodes : Pool β) :
    ExceptT TreeError Checked (RecordIndex × Reference × Pool β) := do
  let (outcome, nodes, node) ← ExceptT.lift (nodes.allocate nodes.newReference)
  match outcome with
  | .error refusal => throw (.pool refusal)
  | .ok index => ExceptT.lift do
      let nodes ← attributes.position.putAll nodes node item.position
      let nodes ← attributes.data.put nodes node (some item.data)
      let nodes ← attributes.split.put nodes node (Kind.narrow axis)
      pure (index, node, nodes)

/-- Sets the children of a node. -/
def attachChildren (attributes : NodeAttributes) (node : Reference)
    (left right : Option RecordIndex) (nodes : Pool β) : Checked (Pool β) := do
  let nodes ← attributes.left.put nodes node left
  attributes.right.put nodes node right

/-- Creates the nodes of a subtree at the given depth; the result is its
topmost node. -/
def plant (selection : Selection) (dimension : Nat) (attributes : NodeAttributes)
    (depth : Nat) (items : List (Pending F)) (nodes : Pool β) :
    ExceptT TreeError Checked (Option RecordIndex × Pool β) := do
  if items.length = 0 then
    pure (none, nodes)
  else
    let axis := depth % dimension
    let middle := items.length / 2
    let arranged := selection.select (Pending.compareOn axis) items middle
    let item ← ExceptT.lift (fetchAt arranged middle)
    let (index, node, nodes) ← createNode attributes axis item nodes
    let (left, nodes) ←
      plant selection dimension attributes (depth + 1) (arranged.take middle) nodes
    let (right, nodes) ←
      plant selection dimension attributes (depth + 1) (arranged.drop (middle + 1)) nodes
    let nodes ← ExceptT.lift (attachChildren attributes node left right nodes)
    pure (some index, nodes)
  termination_by items.length
  decreasing_by
    all_goals
      have hlength (order : Pending F → Pending F → Ordering) (k : Nat) :
          (selection.select order items k).length = items.length :=
        (selection.perm order items k).length_eq
      simp only [List.length_take, List.length_drop, hlength]
      omega

/-- The coordinates of points that all have to be of one dimension. -/
def gather {P : Type} [HasCoordinates P F] (dimension : Nat) (points : List (RecordIndex × P)) :
    ExceptT TreeError Checked (List (Pending F)) :=
  points.mapM fun (data, point) => do
    let found := HasCoordinates.dimension point
    if found ≠ dimension then
      throw (.dimensionMismatch dimension found)
    let blank := List.replicate dimension Arithmetic.zero
    pure ⟨data, ← ExceptT.lift (HasCoordinates.copyInto point blank)⟩

/-- The layout of a node and its attributes, in an empty pool with room for
`count` nodes. -/
def makeNodes (id : PoolId) (dimension count : Nat) :
    ExceptT TreeError Checked (NodeAttributes × Pool β) := do
  let (position, draft) ← ExceptT.lift (Draft.internal.fieldArray .double "position" dimension)
  let (data, draft) ← ExceptT.lift (draft.field .index "data_index")
  let (left, draft) ← ExceptT.lift (draft.field .index "left")
  let (right, draft) ← ExceptT.lift (draft.field .index "right")
  let (split, draft) ← ExceptT.lift (draft.field .int "split_dim")
  let layout ← draft.finish.adapt .layout
  let nodes ← (Pool.make id layout (.single count) .keep).adapt .pool
  ExceptT.lift do
    let position ← AttributeArray.bind position nodes
    let data ← Attribute.bind data nodes
    let left ← Attribute.bind left nodes
    let right ← Attribute.bind right nodes
    let split ← Attribute.bind split nodes
    pure (⟨position, data, left, right, split⟩, nodes)

/-- One extreme of the coordinates on each axis. -/
def extremes (extreme : List F → F) (dimension : Nat) (items : List (Pending F)) : List F :=
  (List.range dimension).map fun d => extreme (items.map (·.coordinate d))

/-- The tree of some points, each with its index in the data.  Its nodes are
the records of a new pool with the identity `id`. -/
def build {P : Type} [HasCoordinates P F] (selection : Selection) (id : PoolId) (dimension : Nat)
    (points : List (RecordIndex × P)) : ExceptT TreeError Checked (KdTree β F) := do
  if dimension = 0 then
    throw .zeroDimensions
  let items ← gather dimension points
  if indexLimit < items.length then
    throw (.tooManyPoints items.length)
  let (attributes, nodes) ← makeNodes id dimension items.length
  let (root, nodes) ← plant selection dimension attributes 0 items nodes
  pure {
    dimension, nodes, attributes, root
    least := extremes Arithmetic.least dimension items
    greatest := extremes Arithmetic.greatest dimension items }

/-- The tree of the given points, whose data indices are their positions. -/
def ofList (selection : Selection) (id : PoolId) (dimension : Nat) (points : List (List F)) :
    ExceptT TreeError Checked (KdTree β F) :=
  build selection id dimension (points.zipIdx.map fun (point, i) => (i, point))

/-- The tree of the points of a pool, whose data indices are their records. -/
def ofPoints (selection : Selection) (id : PoolId) (points : PointPool β) :
    ExceptT TreeError Checked (KdTree β F) := do
  let live ← ExceptT.lift points.toList
  build selection id points.dimension live

end KdTree

end RecordPool
