/-
# Subtrees of outlines

Every node of an outline stands for the subtree below it.  The subtrees of a
tree are what a search has to visit; a stored outline has all of its subtrees
stored, and the subtrees of a tree match its records one to one.
-/
import RecordPool.Proofs.KdTree.Stored

namespace RecordPool

variable {β F : Type} [Memory β F]

/-- A node of an outline, with its depth and what is below it. -/
structure Subtree (F : Type) where
  /-- The number of nodes above. -/
  depth : Nat
  /-- The index of the topmost node. -/
  index : Nat
  /-- The point of the topmost node. -/
  point : Pending F
  /-- The left subtree of the topmost node. -/
  left : Outline F
  /-- The right subtree of the topmost node. -/
  right : Outline F

namespace Outline

/-- All subtrees, each before those of its left and its right part. -/
def subtrees : Nat → Outline F → List (Subtree F)
  | _, empty => []
  | depth, node index point left right =>
      ⟨depth, index, point, left, right⟩ ::
        (left.subtrees (depth + 1) ++ right.subtrees (depth + 1))

variable {o : Outline F} {depth : Nat}

/-- There is a subtree for each index. -/
theorem map_index_subtrees (o : Outline F) (depth : Nat) :
    (o.subtrees depth).map Subtree.index = o.indices := by
  induction o generalizing depth with
  | empty => rfl
  | node index point left right ihl ihr =>
      rw [subtrees, indices, List.map_cons, List.map_append, ihl, ihr]

/-- There is a subtree for each point. -/
theorem map_point_subtrees (o : Outline F) (depth : Nat) :
    (o.subtrees depth).map Subtree.point = o.points := by
  induction o generalizing depth with
  | empty => rfl
  | node index point left right ihl ihr =>
      rw [subtrees, points, List.map_cons, List.map_append, ihl, ihr]

/-- The index of a subtree is one of the outline. -/
theorem index_mem_indices {x : Subtree F} (hx : x ∈ o.subtrees depth) : x.index ∈ o.indices := by
  rw [← map_index_subtrees o depth]
  exact List.mem_map_of_mem hx

/-- The point of a subtree is one of the outline. -/
theorem point_mem_points {x : Subtree F} (hx : x ∈ o.subtrees depth) : x.point ∈ o.points := by
  rw [← map_point_subtrees o depth]
  exact List.mem_map_of_mem hx

/-- There are as many subtrees as points. -/
theorem length_subtrees (o : Outline F) (depth : Nat) :
    (o.subtrees depth).length = o.points.length := by
  rw [← map_point_subtrees o depth, List.length_map]

/-- The topmost node of an outline belongs to a subtree. -/
theorem exists_mem_subtrees (depth : Nat) {index : RecordIndex} (h : o.root? = some index) :
    ∃ x ∈ o.subtrees depth, x.index = index := by
  cases o with
  | empty => cases h
  | node _ point left right => exact ⟨_, List.mem_cons_self, Option.some.inj h⟩

end Outline

namespace Subtree

variable {o : Outline F} {depth : Nat} {x y : Subtree F}

/-- The outline of a subtree. -/
def outline (x : Subtree F) : Outline F :=
  .node x.index x.point x.left x.right

/-- A subtree is known by its outline and its depth. -/
theorem eq_of_outline (houtline : x.outline = y.outline) (hdepth : x.depth = y.depth) : x = y := by
  obtain ⟨depth, index, point, left, right⟩ := x
  obtain ⟨depth', index', point', left', right'⟩ := y
  cases houtline
  cases hdepth
  rfl

/-- A subtree and all subtrees below it. -/
def below (x : Subtree F) : List (Subtree F) :=
  x.outline.subtrees x.depth

theorem below_eq (x : Subtree F) :
    x.below = x :: (x.left.subtrees (x.depth + 1) ++ x.right.subtrees (x.depth + 1)) := rfl

/-- A subtree comes after those below it in some order. -/
theorem below_append_perm (x : Subtree F) (others : List (Subtree F)) :
    (x.below ++ others).Perm (x.left.subtrees (x.depth + 1) ++
      (x.right.subtrees (x.depth + 1) ++ x :: others)) := by
  rw [below_eq, ← List.append_assoc]
  exact List.perm_middle.symm

theorem mem_below_self (x : Subtree F) : x ∈ x.below := by
  rw [below_eq]
  exact List.mem_cons_self

/-- What is below a subtree of an outline belongs to the outline. -/
theorem mem_subtrees_of_below (hx : x ∈ o.subtrees depth) (hy : y ∈ x.below) :
    y ∈ o.subtrees depth := by
  induction o generalizing depth with
  | empty => cases hx
  | node index point left right ihl ihr =>
      rw [Outline.subtrees] at hx ⊢
      rcases List.mem_cons.mp hx with rfl | hx
      · exact hy
      · refine List.mem_cons_of_mem _ (List.mem_append.mpr ?_)
        rcases List.mem_append.mp hx with hx | hx
        · exact Or.inl (ihl hx)
        · exact Or.inr (ihr hx)

/-- The left child of a subtree is below it. -/
theorem left_mem_below {x : Subtree F} (hy : y ∈ x.left.subtrees (x.depth + 1)) : y ∈ x.below := by
  rw [below_eq]
  exact List.mem_cons_of_mem _ (List.mem_append_left _ hy)

/-- The right child of a subtree is below it. -/
theorem right_mem_below {x : Subtree F} (hy : y ∈ x.right.subtrees (x.depth + 1)) :
    y ∈ x.below := by
  rw [below_eq]
  exact List.mem_cons_of_mem _ (List.mem_append_right _ hy)

/-- The nodes that an entry for a subtree stands for: all of them as a box, the
topmost one as a point. -/
def visits (x : Subtree F) (isPoint : Bool) : List (Subtree F) :=
  if isPoint then [x] else x.below

/-- An entry stands for the topmost node of its subtree. -/
theorem mem_visits_self (x : Subtree F) (isPoint : Bool) : x ∈ x.visits isPoint := by
  cases isPoint with
  | false => exact x.mem_below_self
  | true => exact List.mem_singleton_self x

/-- The record of the topmost node. -/
def record (dimension : Nat) (x : Subtree F) : NodeRecord F :=
  ⟨x.point.position, some x.point.data, x.left.root?, x.right.root?,
    Kind.narrow (x.depth % dimension)⟩

/-- The tree stores a subtree. -/
def StoredIn (t : KdTree β F) (x : Subtree F) : Prop :=
  x.outline.StoredIn t.attributes t.dimension t.nodes x.depth

end Subtree

/-- All subtrees of a stored outline are stored. -/
theorem Outline.StoredIn.subtrees {t : KdTree β F} {o : Outline F} {depth : Nat}
    (h : o.StoredIn t.attributes t.dimension t.nodes depth) {x : Subtree F}
    (hx : x ∈ o.subtrees depth) : x.StoredIn t := by
  induction o generalizing depth with
  | empty => cases hx
  | node index point left right ihl ihr =>
      rw [Outline.subtrees] at hx
      rcases List.mem_cons.mp hx with rfl | hx
      · exact h
      · rcases List.mem_append.mp hx with hx | hx
        · exact ihl h.2.1 hx
        · exact ihr h.2.2 hx

/-- In a written outline each subtree has the cells of its record. -/
theorem Outline.WrittenIn.subtrees {p : Pool β} {dimension depth : Nat} {o : Outline F}
    (h : o.WrittenIn dimension p depth) {x : Subtree F} (hx : x ∈ o.subtrees depth) :
    p.contents x.index = (x.record dimension).form := by
  induction o generalizing depth with
  | empty => cases hx
  | node index point left right ihl ihr =>
      rw [Outline.subtrees] at hx
      rcases List.mem_cons.mp hx with rfl | hx
      · exact h.1.2
      · rcases List.mem_append.mp hx with hx | hx
        · exact ihl h.2.1 hx
        · exact ihr h.2.2 hx

/-- Every subtree of a separated outline is separated. -/
theorem Outline.Separated.outline [Arithmetic F] {dimension depth : Nat} {o : Outline F}
    (h : o.Separated dimension depth) {x : Subtree F} (hx : x ∈ o.subtrees depth) :
    x.outline.Separated dimension x.depth := by
  induction o generalizing depth with
  | empty => cases hx
  | node index point left right ihl ihr =>
      rw [Outline.subtrees] at hx
      rcases List.mem_cons.mp hx with rfl | hx
      · exact h
      · rcases List.mem_append.mp hx with hx | hx
        · exact ihl h.2.2.1 hx
        · exact ihr h.2.2.2 hx

/-- The topmost node of a subtree separates the left part from the right one. -/
theorem Outline.Separated.subtrees [Arithmetic F] {dimension depth : Nat} {o : Outline F}
    (h : o.Separated dimension depth) {x : Subtree F} (hx : x ∈ o.subtrees depth) :
    (∀ y ∈ x.left.subtrees (x.depth + 1),
      (Pending.compareOn (x.depth % dimension) y.point x.point).isLE) ∧
      ∀ y ∈ x.right.subtrees (x.depth + 1),
        (Pending.compareOn (x.depth % dimension) x.point y.point).isLE := by
  obtain ⟨hle, hge, -, -⟩ := h.outline hx
  exact ⟨fun y hy => hle y.point (Outline.point_mem_points hy),
    fun y hy => hge y.point (Outline.point_mem_points hy)⟩

namespace KdTree

/-- A node and all nodes below it. -/
inductive Below (t : KdTree β F) (top : RecordIndex) : RecordIndex → Prop
  | self : Below t top top
  | left {index child : RecordIndex} {node : Reference} (above : Below t top index)
      (node_eq : t.node index = .ok node) (left_eq : t.left node = .ok (some child)) :
      Below t top child
  | right {index child : RecordIndex} {node : Reference} (above : Below t top index)
      (node_eq : t.node index = .ok node) (right_eq : t.right node = .ok (some child)) :
      Below t top child

namespace Represents

variable {t : KdTree β F} {o : Outline F} {x : Subtree F}

/-- The tree stores each subtree of its outline. -/
theorem storedIn (h : t.Represents o) (hx : x ∈ o.subtrees 0) : x.StoredIn t :=
  h.stored.subtrees hx

/-- There are as many subtrees as records. -/
theorem length_subtrees (h : t.Represents o) : (o.subtrees 0).length = t.nodes.allocated := by
  rw [Outline.length_subtrees, ← Outline.length_indices, h.indices, List.length_range]

/-- A tree without records has no root. -/
theorem root_eq_none_iff (h : t.Represents o) : t.root = none ↔ t.nodes.allocated = 0 := by
  rw [h.root, ← h.length_subtrees]
  cases o with
  | empty => exact iff_of_true rfl rfl
  | node index point left right => exact iff_of_false nofun nofun

/-- A subtree has a record index. -/
theorem index_lt (h : t.Represents o) (hx : x ∈ o.subtrees 0) : x.index < t.nodes.allocated := by
  have hmem : x.index ∈ o.indices := Outline.index_mem_indices hx
  rw [h.indices] at hmem
  exact List.mem_range.mp hmem

/-- A record index of the tree fits an index attribute. -/
theorem index_le (h : t.Represents o) (hx : x ∈ o.subtrees 0) : x.index ≤ indexLimit := by
  have hlt := h.index_lt hx
  have hle := h.count_le
  omega

/-- The point of a subtree has the dimension of the tree. -/
theorem length_position (h : t.Represents o) (hx : x ∈ o.subtrees 0) :
    x.point.position.length = t.dimension :=
  (h.fitting x.point (Outline.point_mem_points hx)).1

/-- Each record belongs to a subtree. -/
theorem exists_subtree (h : t.Represents o) {i : Nat} (hi : i < t.nodes.allocated) :
    ∃ x ∈ o.subtrees 0, x.index = i := by
  have hmem : i ∈ o.indices := by
    rw [h.indices]
    exact List.mem_range.mpr hi
  rw [← Outline.map_index_subtrees o 0] at hmem
  exact List.mem_map.mp hmem

/-- The records in use are the nodes of the outline. -/
theorem isLive_iff (h : t.Represents o) {i : Nat} :
    t.nodes.IsLive i ↔ i < t.nodes.allocated := by
  refine ⟨h.sound.lt_allocated, fun hlt => ?_⟩
  obtain ⟨x, hx, rfl⟩ := h.exists_subtree hlt
  exact (h.storedIn hx).1.1

end Represents

variable {t : KdTree β F} {o : Outline F} {x : Subtree F}

/-- What is below a node is a subtree of the node's subtree. -/
theorem Below.exists_subtree (ht : t.Represents o) (hx : x ∈ o.subtrees 0) {j : RecordIndex}
    (h : t.Below x.index j) : ∃ y ∈ x.below, y.index = j := by
  induction h with
  | self => exact ⟨x, x.mem_below_self, rfl⟩
  | left _ hnode hleft ih =>
      obtain ⟨y, hy, rfl⟩ := ih
      have hstored := ht.storedIn (Subtree.mem_subtrees_of_below hx hy)
      rw [ht.node_eq hstored] at hnode
      cases hnode
      rw [ht.left_eq hstored] at hleft
      obtain ⟨z, hz, rfl⟩ := Outline.exists_mem_subtrees (y.depth + 1) (Except.ok.inj hleft)
      exact ⟨z, Subtree.mem_subtrees_of_below hy (Subtree.left_mem_below hz), rfl⟩
  | right _ hnode hright ih =>
      obtain ⟨y, hy, rfl⟩ := ih
      have hstored := ht.storedIn (Subtree.mem_subtrees_of_below hx hy)
      rw [ht.node_eq hstored] at hnode
      cases hnode
      rw [ht.right_eq hstored] at hright
      obtain ⟨z, hz, rfl⟩ := Outline.exists_mem_subtrees (y.depth + 1) (Except.ok.inj hright)
      exact ⟨z, Subtree.mem_subtrees_of_below hy (Subtree.right_mem_below hz), rfl⟩

end KdTree

end RecordPool
