/-
# Stored outlines

A tree represents an outline when its pool holds a record for every node, with
the point, the children and the axis of the node.  Such a tree answers every
question about a node from the outline.  A pool that the outline was written in
holds the records cell by cell (`Outline.WrittenIn`).
-/
import RecordPool.Proofs.Coordinates
import RecordPool.Proofs.KdTree.Nodes
import RecordPool.Proofs.KdTree.Outline

namespace RecordPool

variable {β F : Type} [Memory β F]

/-- The points have the dimension of the tree and data indices that can be
stored. -/
def KdTree.Fitting (dimension : Nat) (items : List (Pending F)) : Prop :=
  ∀ item ∈ items, item.position.length = dimension ∧ item.data ≤ indexLimit

/-! ## Outlines in pools -/

namespace Outline

/-- The pool holds the nodes of the outline: each is in use and its record
holds its point, its children and the axis of its depth. -/
def StoredIn (attributes : NodeAttributes) (dimension : Nat) (p : Pool β) :
    Nat → Outline F → Prop
  | _, empty => True
  | depth, node index point left right =>
      (p.IsLive index ∧ attributes.recordOf (p.contents index) =
        ⟨point.position, some point.data, left.root?, right.root?,
          Kind.narrow (depth % dimension)⟩) ∧
        left.StoredIn attributes dimension p (depth + 1) ∧
        right.StoredIn attributes dimension p (depth + 1)

/-- The pool holds the nodes of the outline cell by cell: what the record of
each node consists of, there is no more to it. -/
def WrittenIn (dimension : Nat) (p : Pool β) : Nat → Outline F → Prop
  | _, empty => True
  | depth, node index point left right =>
      (p.IsLive index ∧ p.contents index = (NodeRecord.mk point.position (some point.data)
        left.root? right.root? (Kind.narrow (depth % dimension))).form) ∧
        left.WrittenIn dimension p (depth + 1) ∧ right.WrittenIn dimension p (depth + 1)

variable {attributes : NodeAttributes} {dimension depth size : Nat} {p p' : Pool β} {o : Outline F}

/-- A written outline stays written as long as its records do. -/
theorem WrittenIn.mono (h : o.WrittenIn dimension p depth)
    (hkept : ∀ i ∈ o.indices, p.IsLive i → p'.IsLive i ∧ p'.contents i = p.contents i) :
    o.WrittenIn dimension p' depth := by
  induction o generalizing depth with
  | empty => trivial
  | node index point left right ihl ihr =>
      obtain ⟨⟨hlive, hcells⟩, hleft, hright⟩ := h
      have hmem : ∀ i ∈ left.indices ++ right.indices, i ∈ (node index point left right).indices :=
        fun i hi => List.mem_cons_of_mem index hi
      obtain ⟨hlive', hcontents⟩ := hkept index List.mem_cons_self hlive
      refine ⟨⟨hlive', by rw [hcontents, hcells]⟩, ihl hleft ?_, ihr hright ?_⟩
      · exact fun i hi => hkept i (hmem i (List.mem_append_left _ hi))
      · exact fun i hi => hkept i (hmem i (List.mem_append_right _ hi))

/-- A written outline has a record index for its topmost node. -/
theorem WrittenIn.storable_root (h : o.WrittenIn dimension p depth) (hp : p.Sound)
    (hsmall : p.allocated ≤ indexLimit + 1) : Kind.index.Storable (F := F) o.root? := by
  cases o with
  | empty => trivial
  | node index point left right =>
      have hlt := hp.lt_allocated h.1.1
      show index ≤ indexLimit
      omega

/-- **What is written is stored.**  The cells of the nodes are read as their
records. -/
theorem WrittenIn.storedIn (h : o.WrittenIn dimension p depth)
    (ha : attributes.Laid dimension size) (hp : p.Sound) (hsmall : p.allocated ≤ indexLimit + 1)
    (hfit : KdTree.Fitting dimension o.points) : o.StoredIn attributes dimension p depth := by
  induction o generalizing depth with
  | empty => trivial
  | node index point left right ihl ihr =>
      obtain ⟨⟨hlive, hcells⟩, hleft, hright⟩ := h
      obtain ⟨hlength, hdata⟩ := hfit point List.mem_cons_self
      have hmem : ∀ x ∈ left.points ++ right.points, x ∈ (node index point left right).points :=
        fun x hx => List.mem_cons_of_mem point hx
      refine ⟨⟨hlive, ?_⟩, ihl hleft ?_, ihr hright ?_⟩
      · rw [hcells]
        exact ha.recordOf_form ⟨hlength, hdata, hleft.storable_root hp hsmall,
          hright.storable_root hp hsmall⟩
      · exact fun x hx => hfit x (hmem x (List.mem_append_left _ hx))
      · exact fun x hx => hfit x (hmem x (List.mem_append_right _ hx))

end Outline

/-! ## Trees -/

namespace KdTree

/-- The tree is stored as the outline: its pool holds exactly the nodes of the
outline, in preorder, and its topmost node is that of the outline. -/
structure Represents (t : KdTree β F) (o : Outline F) : Prop where
  dimension_pos : 0 < t.dimension
  dimension_lt : t.dimension < 2 ^ 28
  laid : t.attributes.Laid t.dimension t.nodes.layout.size
  sound : t.nodes.Sound
  indices : o.indices = List.range t.nodes.allocated
  count_le : t.nodes.allocated ≤ indexLimit
  stored : o.StoredIn t.attributes t.dimension t.nodes 0
  root : t.root = o.root?
  fitting : Fitting t.dimension o.points

/-! ## Looking at nodes -/

variable {t : KdTree β F} {o : Outline F} {i depth : Nat} {point : Pending F}
  {left right : Outline F}

/-- A stored node is found by its index. -/
theorem Represents.node_eq (h : t.Represents o)
    (hnode : (Outline.node i point left right).StoredIn t.attributes t.dimension t.nodes depth) :
    t.node i = .ok (t.nodes.referenceTo i) :=
  h.sound.pointAt_eq hnode.1.1 rfl

/-- The left child of a stored node is the topmost node of its left subtree. -/
theorem Represents.left_eq (h : t.Represents o)
    (hnode : (Outline.node i point left right).StoredIn t.attributes t.dimension t.nodes depth) :
    t.left (t.nodes.referenceTo i) = .ok left.root? := by
  rw [KdTree.left, Attribute.get_eq h.sound hnode.1.1 h.laid.inside.left]
  exact congrArg (fun r : NodeRecord F => Except.ok r.left) hnode.1.2

/-- The right child of a stored node is the topmost node of its right subtree. -/
theorem Represents.right_eq (h : t.Represents o)
    (hnode : (Outline.node i point left right).StoredIn t.attributes t.dimension t.nodes depth) :
    t.right (t.nodes.referenceTo i) = .ok right.root? := by
  rw [KdTree.right, Attribute.get_eq h.sound hnode.1.1 h.laid.inside.right]
  exact congrArg (fun r : NodeRecord F => Except.ok r.right) hnode.1.2

/-- A stored node has the data index of its point. -/
theorem Represents.dataIndex_eq (h : t.Represents o)
    (hnode : (Outline.node i point left right).StoredIn t.attributes t.dimension t.nodes depth) :
    t.dataIndex (t.nodes.referenceTo i) = .ok point.data := by
  have hdata : t.attributes.data.read (t.nodes.contents i) = some point.data :=
    congrArg NodeRecord.data hnode.1.2
  rw [dataIndex, Attribute.get_eq h.sound hnode.1.1 h.laid.inside.data, hdata]
  rfl

/-- A stored node splits on the axis of its depth. -/
theorem Represents.splitAxis_eq (h : t.Represents o)
    (hnode : (Outline.node i point left right).StoredIn t.attributes t.dimension t.nodes depth) :
    t.splitAxis (t.nodes.referenceTo i) = .ok (depth % t.dimension) := by
  have hsplit : t.attributes.split.read (t.nodes.contents i) =
      Kind.narrow (depth % t.dimension) := congrArg NodeRecord.split hnode.1.2
  -- the axis is stored as a signed number, which an axis never exceeds
  have hlt := Nat.mod_lt depth h.dimension_pos
  have hdim := h.dimension_lt
  rw [splitAxis, Attribute.get_eq h.sound hnode.1.1 h.laid.inside.split, ok_bind, hsplit,
    Kind.widen_narrow (by omega)]
  rfl

variable [Arithmetic F]

/-- A stored node has the coordinates of its point. -/
theorem Represents.coordinate_eq (h : t.Represents o)
    (hnode : (Outline.node i point left right).StoredIn t.attributes t.dimension t.nodes depth)
    {d : Nat} (hd : d < t.dimension) :
    t.coordinate (t.nodes.referenceTo i) d = .ok (point.coordinate d) := by
  have hlt : d < t.attributes.position.length := by
    rw [h.laid.length]
    exact hd
  have hposition : t.attributes.position.values (t.nodes.contents i) = point.position :=
    congrArg NodeRecord.position hnode.1.2
  have hread : point.position[d]? =
      some ((t.attributes.position.element d).read (t.nodes.contents i)) := by
    rw [← hposition, AttributeArray.getElem?_values hlt]
  rw [KdTree.coordinate, AttributeArray.get_eq_element hlt,
    Attribute.get_eq h.sound hnode.1.1 (h.laid.inside.position.element hlt), Pending.coordinate,
    List.getD_eq_getElem?_getD, hread, Option.getD_some]

/-- The squared distance from a stored node is that from its point. -/
theorem Represents.squaredDistanceTo_eq (h : t.Represents o)
    (hnode : (Outline.node i point left right).StoredIn t.attributes t.dimension t.nodes depth)
    {query : List F} (hquery : query.length = t.dimension) :
    t.squaredDistanceTo (t.nodes.referenceTo i) query =
      .ok (distanceBetween t.dimension point.position query) := by
  have hstep : ∀ d ∈ List.range t.dimension, (do
      let x ← t.coordinate (t.nodes.referenceTo i) d
      let y ← fetchAt query d
      pure (Arithmetic.square (Arithmetic.sub x y)) : Checked F) =
        .ok (Arithmetic.square (Arithmetic.sub (point.position.getD d Arithmetic.zero)
          (query.getD d Arithmetic.zero))) := by
    intro d hd
    have hlt := List.mem_range.mp hd
    rw [h.coordinate_eq hnode hlt, ok_bind, fetchAt_eq_getD (by omega), ok_bind]
    rfl
  rw [squaredDistanceTo, mapM_eq_ok hstep, ok_bind]
  rfl

end KdTree

end RecordPool
