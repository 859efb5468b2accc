/-
# Balanced k-d trees

Every node of a tree is a record of its node pool: the coordinates of a point,
the index of the point in the data it comes from, the two children, and the
axis the node splits on.  What lies in the left subtree is at most, and what
lies in the right subtree at least, the node's coordinate on that axis.  A
tree does not change once it is built.
-/
import RecordPool.Coordinates
import RecordPool.Pool.Attribute

namespace RecordPool

/-- The attributes of a node. -/
structure NodeAttributes where
  /-- The coordinates of the point. -/
  position : AttributeArray .double
  /-- The index of the point in its data. -/
  data : Attribute .index
  /-- The left child. -/
  left : Attribute .index
  /-- The right child. -/
  right : Attribute .index
  /-- The axis the node splits on. -/
  split : Attribute .int

/-- A balanced tree of points. -/
structure KdTree (β F : Type) where
  /-- The number of dimensions. -/
  dimension : Nat
  /-- The nodes. -/
  nodes : Pool β
  /-- The attributes of a node. -/
  attributes : NodeAttributes
  /-- The topmost node, if there is any. -/
  root : Option RecordIndex
  /-- The least coordinate on each axis. -/
  least : List F
  /-- The greatest coordinate on each axis. -/
  greatest : List F

namespace KdTree

variable {β F : Type} [Memory β F]

/-! ## The whole tree -/

/-- The number of nodes, one for each point. -/
def size (t : KdTree β F) : Checked Nat :=
  t.nodes.size

/-- Whether there is no point. -/
def isEmpty (t : KdTree β F) : Bool :=
  t.root.isNone

/-- The least coordinate on one axis. -/
def lowerBound (t : KdTree β F) (d : Nat) : Checked F :=
  fetchAt t.least d

/-- The greatest coordinate on one axis. -/
def upperBound (t : KdTree β F) (d : Nat) : Checked F :=
  fetchAt t.greatest d

/-! ## Nodes -/

/-- A reference to the node with the given index. -/
def node (t : KdTree β F) (index : RecordIndex) : Checked Reference :=
  t.nodes.pointAt index t.nodes.newReference

/-- The left child. -/
def left (t : KdTree β F) (node : Reference) : Checked (Option RecordIndex) :=
  t.attributes.left.get t.nodes node

/-- The right child. -/
def right (t : KdTree β F) (node : Reference) : Checked (Option RecordIndex) :=
  t.attributes.right.get t.nodes node

/-- The axis that a node splits on. -/
def splitAxis (t : KdTree β F) (node : Reference) : Checked Nat := do
  pure (Kind.widen (← t.attributes.split.get t.nodes node))

/-- The coordinate of a node on one axis. -/
def coordinate (t : KdTree β F) (node : Reference) (d : Nat) : Checked F :=
  t.attributes.position.get t.nodes node d

/-- All coordinates of a node. -/
def coordinates (t : KdTree β F) (node : Reference) : Checked (List F) :=
  (List.range t.dimension).mapM (t.coordinate node)

/-- The index of a node's point in its data; every node has one. -/
def dataIndex (t : KdTree β F) (node : Reference) : Checked RecordIndex := do
  match ← t.attributes.data.get t.nodes node with
  | some index => pure index
  | none => violate .missingDataIndex

/-- The nodes from `index` down, each before its left and its right subtree,
with their depths; `fuel` bounds the depth. -/
def preorderFrom (t : KdTree β F) :
    (fuel depth : Nat) → (index : Option RecordIndex) → Checked (List (Reference × Nat))
  | _, _, none => pure []
  | 0, _, some _ => throw .exhausted
  | fuel + 1, depth, some index => do
      let node ← t.node index
      let left ← preorderFrom t fuel (depth + 1) (← t.left node)
      let right ← preorderFrom t fuel (depth + 1) (← t.right node)
      pure ((node, depth) :: left ++ right)

/-- All nodes, each before its left and its right subtree, with their depths. -/
def preorder (t : KdTree β F) : Checked (List (Reference × Nat)) :=
  t.preorderFrom t.nodes.allocated 0 t.root

/-- The squared distance from a node to a point. -/
def squaredDistanceTo [Arithmetic F] (t : KdTree β F) (node : Reference) (point : List F) :
    Checked F := do
  let squares ← (List.range t.dimension).mapM fun d => do
    let x ← t.coordinate node d
    let y ← fetchAt point d
    pure (Arithmetic.square (Arithmetic.sub x y))
  pure (Arithmetic.sum squares)

end KdTree

end RecordPool
