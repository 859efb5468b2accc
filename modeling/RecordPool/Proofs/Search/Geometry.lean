/-
# The geometry of a search

With exact arithmetic the boxes that a search updates step by step are those
that the cells of their nodes give when they are computed from scratch.  Each
subtree lies in its cell, so that no box is farther than a point below it.
-/
import RecordPool.Memory.Exact
import RecordPool.Proofs.KdTree.Planting
import RecordPool.Proofs.Search.Cells

namespace RecordPool

variable {β F : Type} [Memory β F] [LinearOrder F] [CommRing F]

/-! ## Cells of outlines -/

namespace Outline

/-- The subtrees of an outline with their cells, in the order of the indices. -/
def cells (dimension : Nat) : Nat → Cell F → Outline F → List (Subtree F × Cell F)
  | _, _, empty => []
  | depth, c, node index point left right =>
      (⟨depth, index, point, left, right⟩, c) ::
        (cells dimension (depth + 1)
            (c.cutAbove (depth % dimension) (point.coordinate (depth % dimension))) left ++
          cells dimension (depth + 1)
            (c.cutBelow (depth % dimension) (point.coordinate (depth % dimension))) right)

variable {dimension depth : Nat} {c c' : Cell F} {o : Outline F} {x : Subtree F}

/-- Each subtree is listed once. -/
theorem map_fst_cells (o : Outline F) (dimension depth : Nat) (c : Cell F) :
    (o.cells dimension depth c).map Prod.fst = o.subtrees depth := by
  induction o generalizing depth c with
  | empty => rfl
  | node index point left right ihl ihr =>
      rw [cells, subtrees, List.map_cons, List.map_append, ihl, ihr]

/-- Only subtrees are listed. -/
theorem mem_subtrees_of_cells (h : (x, c') ∈ o.cells dimension depth c) :
    x ∈ o.subtrees depth := by
  rw [← map_fst_cells o dimension depth c]
  exact List.mem_map_of_mem h

/-- What is below a listed subtree is listed as well, with its cell. -/
theorem mem_cells_of_below (h : (x, c') ∈ o.cells dimension depth c) {z : Subtree F × Cell F}
    (hz : z ∈ x.outline.cells dimension x.depth c') : z ∈ o.cells dimension depth c := by
  induction o generalizing depth c with
  | empty => cases h
  | node index point left right ihl ihr =>
      rw [cells] at h ⊢
      rcases List.mem_cons.mp h with heq | h
      · obtain ⟨rfl, rfl⟩ := Prod.mk.inj heq
        exact hz
      · refine List.mem_cons_of_mem _ (List.mem_append.mpr ?_)
        rcases List.mem_append.mp h with h | h
        · exact Or.inl (ihl h)
        · exact Or.inr (ihr h)

/-- The topmost node of an outline is listed with the cell of the outline. -/
theorem exists_mem_cells {child : RecordIndex} (h : o.root? = some child) :
    ∃ y, (y, c) ∈ o.cells dimension depth c ∧ y.index = child := by
  cases o with
  | empty => cases h
  | node index point left right => exact ⟨_, List.mem_cons_self, Option.some.inj h⟩

end Outline

namespace KdTree

/-! ## Cells of nodes -/

/-- The cell of a node: the extent of the tree for the topmost one, and for a
child the part of its parent's cell on the child's side of the parent. -/
inductive HasCell (t : KdTree β F) : RecordIndex → Cell F → Prop
  | root {index : RecordIndex} (root : t.root = some index) : HasCell t index t.extent
  | left {index child : RecordIndex} {cell : Cell F} {node : Reference} {d : Nat} {x : F}
      (parent : HasCell t index cell) (node_eq : t.node index = .ok node)
      (left_eq : t.left node = .ok (some child)) (axis_eq : t.splitAxis node = .ok d)
      (coordinate_eq : t.coordinate node d = .ok x) : HasCell t child (cell.cutAbove d x)
  | right {index child : RecordIndex} {cell : Cell F} {node : Reference} {d : Nat} {x : F}
      (parent : HasCell t index cell) (node_eq : t.node index = .ok node)
      (right_eq : t.right node = .ok (some child)) (axis_eq : t.splitAxis node = .ok d)
      (coordinate_eq : t.coordinate node d = .ok x) : HasCell t child (cell.cutBelow d x)

/-- A tree that is stored as an outline whose nodes separate their subtrees, and
whose extent contains all points. -/
structure Spans (t : KdTree β F) (o : Outline F) : Prop where
  represents : t.Represents o
  least : t.least.length = t.dimension
  greatest : t.greatest.length = t.dimension
  separated : o.Separated t.dimension 0
  contains : ∀ x ∈ o.subtrees 0, t.extent.Contains t.dimension x.point

variable {t : KdTree β F} {o : Outline F} {x y : Subtree F}

/-- What a node of the tree is read as: the topmost node of its subtree, with the
axis of its depth and its coordinate there. -/
theorem Represents.node_spec (ht : t.Represents o) (hx : x ∈ o.subtrees 0) {node : Reference}
    {d : Nat} {a : F} (hnode : t.node x.index = .ok node) (haxis : t.splitAxis node = .ok d)
    (hcoordinate : t.coordinate node d = .ok a) :
    node = t.nodes.referenceTo x.index ∧ d = x.depth % t.dimension ∧
      a = x.point.coordinate (x.depth % t.dimension) := by
  have hstored := ht.storedIn hx
  rw [ht.node_eq hstored] at hnode
  cases hnode
  rw [ht.splitAxis_eq hstored] at haxis
  cases haxis
  rw [ht.coordinate_eq hstored (Nat.mod_lt _ ht.dimension_pos)] at hcoordinate
  cases hcoordinate
  exact ⟨rfl, rfl, rfl⟩

/-- A node with a cell is the topmost one of a subtree listed with that cell. -/
theorem HasCell.exists_mem_cells (ht : t.Represents o) {i : RecordIndex} {cell : Cell F}
    (h : t.HasCell i cell) :
    ∃ x, (x, cell) ∈ o.cells t.dimension 0 t.extent ∧ x.index = i := by
  induction h with
  | root hroot =>
      rw [ht.root] at hroot
      exact Outline.exists_mem_cells hroot
  | left _ hnode hleft haxis hcoordinate ih =>
      obtain ⟨x, hmem, rfl⟩ := ih
      have hx := Outline.mem_subtrees_of_cells hmem
      obtain ⟨rfl, rfl, rfl⟩ := ht.node_spec hx hnode haxis hcoordinate
      rw [ht.left_eq (ht.storedIn hx)] at hleft
      obtain ⟨y, hy, hindex⟩ := Outline.exists_mem_cells (Except.ok.inj hleft)
      exact ⟨y, Outline.mem_cells_of_below hmem
        (List.mem_cons_of_mem _ (List.mem_append_left _ hy)), hindex⟩
  | right _ hnode hright haxis hcoordinate ih =>
      obtain ⟨x, hmem, rfl⟩ := ih
      have hx := Outline.mem_subtrees_of_cells hmem
      obtain ⟨rfl, rfl, rfl⟩ := ht.node_spec hx hnode haxis hcoordinate
      rw [ht.right_eq (ht.storedIn hx)] at hright
      obtain ⟨y, hy, hindex⟩ := Outline.exists_mem_cells (Except.ok.inj hright)
      exact ⟨y, Outline.mem_cells_of_below hmem
        (List.mem_cons_of_mem _ (List.mem_append_right _ hy)), hindex⟩

/-- The cell of a left child is its parent's cell up to the parent. -/
theorem HasCell.leftChild (ht : t.Represents o) (hx : x ∈ o.subtrees 0) {cell : Cell F}
    (h : t.HasCell x.index cell) (hy : y.outline = x.left) :
    t.HasCell y.index (cell.cutAbove (x.depth % t.dimension)
      (x.point.coordinate (x.depth % t.dimension))) := by
  have hstored := ht.storedIn hx
  have hleft := ht.left_eq hstored
  rw [← hy] at hleft
  exact .left h (ht.node_eq hstored) hleft (ht.splitAxis_eq hstored)
    (ht.coordinate_eq hstored (Nat.mod_lt _ ht.dimension_pos))

/-- The cell of a right child is its parent's cell from the parent on. -/
theorem HasCell.rightChild (ht : t.Represents o) (hx : x ∈ o.subtrees 0) {cell : Cell F}
    (h : t.HasCell x.index cell) (hy : y.outline = x.right) :
    t.HasCell y.index (cell.cutBelow (x.depth % t.dimension)
      (x.point.coordinate (x.depth % t.dimension))) := by
  have hstored := ht.storedIn hx
  have hright := ht.right_eq hstored
  rw [← hy] at hright
  exact .right h (ht.node_eq hstored) hright (ht.splitAxis_eq hstored)
    (ht.coordinate_eq hstored (Nat.mod_lt _ ht.dimension_pos))

/-- Of the subtrees listed with their cells there is one for each index. -/
theorem Represents.cells_inj (ht : t.Represents o) {z z' : Subtree F × Cell F}
    (hz : z ∈ o.cells t.dimension 0 t.extent) (hz' : z' ∈ o.cells t.dimension 0 t.extent)
    (hindex : z'.1.index = z.1.index) : z' = z := by
  have hnodup : ((o.cells t.dimension 0 t.extent).map (Subtree.index ∘ Prod.fst)).Nodup := by
    rw [← List.map_map, Outline.map_fst_cells, Outline.map_index_subtrees, ht.indices]
    exact List.nodup_range
  exact List.inj_on_of_nodup_map hnodup hz' hz hindex

/-- **Every node has one cell.** -/
theorem HasCell.unique (ht : t.Represents o) {i : RecordIndex} {cell cell' : Cell F}
    (h : t.HasCell i cell) (h' : t.HasCell i cell') : cell' = cell := by
  obtain ⟨x, hmem, rfl⟩ := h.exists_mem_cells ht
  obtain ⟨x', hmem', hindex⟩ := h'.exists_mem_cells ht
  exact congrArg Prod.snd (ht.cells_inj hmem hmem' hindex)

/-- **A tree that is built spans its points.** -/
theorem build_spans (selection : Selection) (id : PoolId) {dimension : Nat} (hpos : 0 < dimension)
    (hdim : dimension < 2 ^ 28) {points : List (RecordIndex × List F)}
    (hcount : points.length ≤ indexLimit)
    (hpoints : ∀ x ∈ points, x.2.length = dimension ∧ x.1 ≤ indexLimit) :
    ∃ (t : KdTree β F) (o : Outline F), build selection id dimension points = pure t ∧
      t.dimension = dimension ∧ t.nodes.allocated = points.length ∧ t.Spans o ∧
      o.points.Perm (pendings points) := by
  obtain ⟨t, hbuild, rfl, hallocated, ht, hleast, hgreatest⟩ :=
    build_eq (β := β) selection id hpos hdim hcount hpoints
  refine ⟨t, _, hbuild, rfl, hallocated, ⟨ht, ?_, ?_, Outline.separated_plan, ?_⟩,
    Outline.points_plan⟩
  · rw [hleast, length_extremes]
  · rw [hgreatest, length_extremes]
  · intro x hx d hd
    have hmem : x.point ∈ pendings points :=
      Outline.points_plan.mem_iff.mp (Outline.point_mem_points hx)
    have hcoordinate : x.point.coordinate d ∈ (pendings points).map (·.coordinate d) :=
      List.mem_map_of_mem hmem
    constructor
    · show t.least.getD d 0 ≤ _
      rw [hleast, extremes, List.getD_eq_getElem?_getD, List.getElem?_map,
        List.getElem?_range hd]
      exact Exact.least_le hcoordinate
    · show _ ≤ t.greatest.getD d 0
      rw [hgreatest, extremes, List.getD_eq_getElem?_getD, List.getElem?_map,
        List.getElem?_range hd]
      exact Exact.le_greatest hcoordinate

end KdTree

namespace NeighborSearch

open Frontier

variable {t : KdTree β F} {o : Outline F} {query : List F} {x : Subtree F} {e : EntryRecord F}

/-! ## Boxes of subtrees -/

variable [IsStrictOrderedRing F]

/-- **Every box of a search describes the cell of its node**, and the subtree of
the node lies in that cell. -/
theorem BoxOf.exists_cell (ht : t.Spans o) (h : BoxOf t query o x e) :
    ∃ cell, t.HasCell x.index cell ∧ Describes t.dimension query cell e ∧
      ∀ y ∈ x.below, cell.Contains t.dimension y.point := by
  induction h with
  | @root x houtline hdepth =>
      refine ⟨t.extent, .root ?_, describes_rootBox x.index, ?_⟩
      · rw [ht.represents.root, ← houtline]
        rfl
      · intro y hy
        apply ht.contains
        rw [← houtline, ← hdepth]
        exact hy
  | @left x y e hparent houtline hdepth ih =>
      obtain ⟨cell, hcell, hdescribes, hcontains⟩ := ih
      have hx := hparent.spec.1
      have hd := Nat.mod_lt x.depth ht.represents.dimension_pos
      -- the plane goes through the node's own point, which lies in the cell
      obtain ⟨hlow, hhigh⟩ := hcontains x x.mem_below_self _ hd
      refine ⟨_, hcell.leftChild ht.represents hx houtline,
        hdescribes.childBox_left hd hlow hhigh ?_, ?_⟩
      · simp [offset]
      · intro z hz
        have hz' : z ∈ x.left.subtrees (x.depth + 1) := by
          rw [← houtline, ← hdepth]
          exact hz
        refine (hcontains z (Subtree.left_mem_below hz')).cutAbove ?_
        exact Exact.isLE_compare_iff.mp ((ht.separated.subtrees hx).1 z hz')
  | @right x y e hparent houtline hdepth ih =>
      obtain ⟨cell, hcell, hdescribes, hcontains⟩ := ih
      have hx := hparent.spec.1
      have hd := Nat.mod_lt x.depth ht.represents.dimension_pos
      obtain ⟨hlow, hhigh⟩ := hcontains x x.mem_below_self _ hd
      refine ⟨_, hcell.rightChild ht.represents hx houtline,
        hdescribes.childBox_right hd hlow hhigh ?_, ?_⟩
      · simp [offset]
      · intro z hz
        have hz' : z ∈ x.right.subtrees (x.depth + 1) := by
          rw [← houtline, ← hdepth]
          exact hz
        refine (hcontains z (Subtree.right_mem_below hz')).cutBelow ?_
        exact Exact.isLE_compare_iff.mp ((ht.separated.subtrees hx).2 z hz')

/-- **No box of a search is farther than a point in it.** -/
theorem admissible (ht : t.Spans o) (query : List F) : Admissible t query o := by
  intro x e hbox y hy
  obtain ⟨cell, -, hdescribes, hcontains⟩ := hbox.exists_cell ht
  rw [Exact.isLE_compare_iff, hdescribes.distance]
  exact Cell.distance_le (hcontains y hy)

/-- What the queue holds at `r` is the box of the node `index`, which has the
given cell: sides, gaps and distance are those of the cell, the axis is that of
the node, and no point below the node is nearer. -/
structure QueuedBox (s : NeighborSearch β F) (r : Reference) (index : RecordIndex)
    (cell : Cell F) : Prop where
  node : s.frontier.nodeOf r = .ok index
  hasCell : ∀ c, s.tree.HasCell index c ↔ c = cell
  side : ∀ d < s.tree.dimension, s.frontier.sideOf r d = .ok (cell.side d (s.query.getD d 0))
  gap : ∀ d < s.tree.dimension, s.frontier.gapOf r d = .ok (cell.gap d (s.query.getD d 0) ^ 2)
  distance : s.frontier.distanceOf r =
    .ok (∑ d ∈ Finset.range s.tree.dimension, cell.gap d (s.query.getD d 0) ^ 2)
  axis : ∃ d node, s.frontier.axisOf r = .ok d ∧ s.tree.node index = .ok node ∧
    s.tree.splitAxis node = .ok d
  le : ∀ j, s.tree.Below index j → ∃ node x, s.tree.node j = .ok node ∧
    s.tree.squaredDistanceTo node s.query = .ok x ∧
    ∑ d ∈ Finset.range s.tree.dimension, cell.gap d (s.query.getD d 0) ^ 2 ≤ x

/-- A queued entry of a search over a tree that spans its points is a point or
the box of a cell. -/
theorem Explores.queuedBox {s : NeighborSearch β F} {held : List Nat} {outside : List (Subtree F)}
    {items : List (Nat × Subtree F)} (h : s.Explores o held outside items) (ht : s.tree.Spans o)
    {r : Reference} (hr : r ∈ s.queue.elements) :
    s.frontier.entryIsPoint r = .ok true ∨
      s.frontier.entryIsPoint r = .ok false ∧ ∃ index cell, s.QueuedBox r index cell := by
  obtain ⟨⟨i, x⟩, hitem, rfl⟩ := List.mem_map.mp (h.queue.mem_iff.mp hr)
  have hlive : s.frontier.pool.IsLive i := h.isLive hitem
  rw [h.frontier.entryIsPoint_eq hlive]
  rcases (h.entries _ hitem).cases with ⟨hpoint, hbox⟩ | ⟨hpoint, -⟩
  · refine Or.inr ⟨congrArg Except.ok hpoint, x.index, ?_⟩
    have hx := hbox.spec.1
    have hstored := h.tree.storedIn hx
    have hlt := Nat.mod_lt x.depth h.tree.dimension_pos
    have hdim := h.tree.dimension_lt
    have haxis : x.depth % s.tree.dimension < 2 ^ 31 := by omega
    obtain ⟨cell, hcell, hdescribes, hcontains⟩ := hbox.exists_cell ht
    exact ⟨cell, {
      node := h.frontier.nodeOf_eq hlive hbox.spec.2.1
      hasCell := fun c => ⟨fun hc => hcell.unique h.tree hc, fun hc => hc ▸ hcell⟩
      side := by
        intro d hd
        rw [h.frontier.sideOf_eq hlive (h.dimension.symm ▸ hd)]
        exact congrArg Except.ok (hdescribes.side d hd)
      gap := by
        intro d hd
        rw [h.frontier.gapOf_eq hlive (h.dimension.symm ▸ hd)]
        exact congrArg Except.ok (hdescribes.gap d hd)
      distance := by
        rw [h.frontier.distanceOf_eq hlive]
        exact congrArg Except.ok hdescribes.distance
      axis := ⟨_, _, h.frontier.axisOf_eq hlive haxis hbox.spec.2.2.1,
        h.tree.node_eq hstored, h.tree.splitAxis_eq hstored⟩
      le := by
        intro j hj
        obtain ⟨y, hy, rfl⟩ := hj.exists_subtree h.tree hx
        have hstored' := h.tree.storedIn (Subtree.mem_subtrees_of_below hx hy)
        exact ⟨_, _, h.tree.node_eq hstored', h.tree.squaredDistanceTo_eq hstored' h.query,
          Cell.distance_le (hcontains y hy)⟩ }⟩
  · exact Or.inl (congrArg Except.ok hpoint)

/-- **Boxes are as if computed from scratch.**  At every moment of every search
over a tree that was built, each queued box has on every axis the side and the
squared gap that the cell of its node gives, their sum for its distance, and
the axis of its node; and its distance is at most that of any point below. -/
theorem queued_boxes_describe_cells (selection : Selection) (id : PoolId) {dimension : Nat}
    (hpos : 0 < dimension) (hdim : dimension < 2 ^ 28) {points : List (RecordIndex × List F)}
    (hcount : points.length ≤ indexLimit)
    (hpoints : ∀ x ∈ points, x.2.length = dimension ∧ x.1 ≤ indexLimit) :
    ∃ t : KdTree β F, KdTree.build selection id dimension points = pure t ∧
      ∀ (stage : Stage F) (s : NeighborSearch β F), Moment t stage s →
        ∀ r ∈ s.queue.elements, s.frontier.entryIsPoint r = .ok true ∨
          s.frontier.entryIsPoint r = .ok false ∧ ∃ index cell, s.QueuedBox r index cell := by
  obtain ⟨t, o, hbuild, -, -, ht, -⟩ :=
    KdTree.build_spans (β := β) selection id hpos hdim hcount hpoints
  refine ⟨t, hbuild, fun stage s hmoment r hr => ?_⟩
  obtain ⟨rfl, hconsistent⟩ := hmoment.consistent ht.represents ht.least ht.greatest
  obtain ⟨held, outside, items, h⟩ := hconsistent.explores
  exact h.queuedBox ht hr

/-- Three points of the plane. -/
def threePoints : List (RecordIndex × List ℚ) :=
  [(0, [0, 1]), (1, [4, 2]), (2, [8, 1])]

/-- The first of the three points, as a left child. -/
def leftOfThree : Subtree ℚ :=
  ⟨1, 1, ⟨0, [0, 1]⟩, .empty, .empty⟩

/-- The second of the three points with the others below it. -/
def topOfThree : Subtree ℚ :=
  ⟨0, 0, ⟨1, [4, 2]⟩, leftOfThree.outline, .node 2 ⟨2, [8, 1]⟩ .empty .empty⟩

/-- The plan of the three points has the second one at the top. -/
theorem plan_threePoints :
    Outline.plan .bySorting 2 0 0 (KdTree.pendings threePoints) = topOfThree.outline := by
  have hne : KdTree.pendings threePoints ≠ [] := List.cons_ne_nil _ _
  have hsorted : Selection.bySorting.select (Pending.compareOn (0 % 2))
      (KdTree.pendings threePoints) ((KdTree.pendings threePoints).length / 2) =
      KdTree.pendings threePoints :=
    List.mergeSort_of_pairwise (by decide +kernel)
  have hmiddle : (KdTree.pendings threePoints)[(KdTree.pendings threePoints).length / 2]? =
      some ⟨1, [4, 2]⟩ := by
    simp [KdTree.pendings, threePoints]
  rw [Outline.plan_of_arranged hne hsorted hmiddle]
  exact congrArg₂ (Outline.node 0 _) (Outline.plan_singleton _) (Outline.plan_singleton _)

/-- The extent of the three points, up to the second one on the first axis. -/
def leftCell : Cell ℚ :=
  Cell.cutAbove ⟨fun d => [0, 1].getD d 0, fun d => [8, 2].getD d 0⟩ 0 4

/-- From `(9, 0)` that cell is to the left and above. -/
theorem look_leftCell : leftCell.side 0 9 = 1 ∧ leftCell.side 1 0 = -1 ∧
    leftCell.gap 0 9 ^ 2 = 25 ∧ leftCell.gap 1 0 ^ 2 = 1 := by
  decide +kernel

/-- In a search for `(9, 0)` the root was opened.  The whole extent has a squared
gap of one on either axis, and the box of the left child is tightened on the first
one, where its squared gap is that from `9` to the `4` of the root. -/
theorem queued_box_of_left_child :
    ∃ (t : KdTree (ExactCell ℚ) ℚ) (s : NeighborSearch (ExactCell ℚ) ℚ) (r : Reference),
      KdTree.build .bySorting 0 2 threePoints = pure t ∧ Moment t .resting s ∧
      s.query = [9, 0] ∧ r ∈ s.queue.elements ∧ s.QueuedBox r 1 leftCell ∧
      s.frontier.sideOf r 0 = .ok 1 ∧ s.frontier.sideOf r 1 = .ok (-1) ∧
      s.frontier.gapOf r 0 = .ok (25 : ℚ) ∧ s.frontier.gapOf r 1 = .ok (1 : ℚ) ∧
      s.frontier.distanceOf r = .ok (26 : ℚ) := by
  have hcount : threePoints.length ≤ indexLimit := by decide
  have hpoints : ∀ x ∈ threePoints, x.2.length = 2 ∧ x.1 ≤ indexLimit := by
    simp [threePoints, indexLimit]
  obtain ⟨t, hbuild, hboxes⟩ := queued_boxes_describe_cells (β := ExactCell ℚ) .bySorting 0
    (by decide : 0 < 2) (by decide) hcount hpoints
  obtain ⟨t', hbuild', hdimension, -, ht, hleast, hgreatest⟩ := KdTree.build_eq (β := ExactCell ℚ)
    .bySorting 0 (by decide : 0 < 2) (by decide) hcount hpoints
  obtain rfl : t = t' := Except.ok.inj (Except.ok.inj (hbuild.symm.trans hbuild'))
  rw [plan_threePoints] at ht
  obtain ⟨s, items, hmoment, rfl, hquery, h, hboxed⟩ := exists_opened_root ht
    (by rw [hleast, KdTree.length_extremes, hdimension])
    (by rw [hgreatest, KdTree.length_extremes, hdimension]) 1
    (show ([9, 0] : List ℚ).length = t.dimension from hdimension.symm) (x := topOfThree) rfl rfl
  obtain ⟨j, hitem, hbox⟩ := hboxed leftOfThree (Or.inl rfl) rfl
  obtain ⟨hnode, hpoint, -⟩ := h.reads hitem
  have hr : s.frontier.pool.referenceTo j ∈ s.queue.elements :=
    h.queue.mem_iff.mpr (List.mem_map_of_mem hitem)
  rcases hboxes .resting s hmoment _ hr with htrue | ⟨-, index, cell, hqueued⟩
  · rw [hpoint, hbox] at htrue
    cases htrue
  -- the queued box is that of the left child, whose cell is known
  obtain rfl : index = 1 := Except.ok.inj (hqueued.node.symm.trans hnode)
  have hextent : s.tree.extent = ⟨fun d => [0, 1].getD d 0, fun d => [8, 2].getD d 0⟩ := by
    rw [KdTree.extent, hleast, hgreatest]
    rfl
  have hchild := (KdTree.HasCell.root ht.root).leftChild ht (x := topOfThree) List.mem_cons_self
    (y := leftOfThree) rfl
  rw [hdimension, hextent] at hchild
  obtain rfl : leftCell = cell := (hqueued.hasCell _).mp hchild
  have hside := hqueued.side
  have hgap := hqueued.gap
  have hdistance := hqueued.distance
  rw [hdimension, hquery] at hside hgap hdistance
  obtain ⟨hside₀, hside₁, hgap₀, hgap₁⟩ := look_leftCell
  have hsum : ∑ d ∈ Finset.range 2, leftCell.gap d ([9, 0].getD d 0) ^ 2 = 26 := by
    rw [Finset.sum_range_succ, Finset.sum_range_one]
    exact (congrArg₂ (· + ·) hgap₀ hgap₁).trans (by norm_num)
  rw [hsum] at hdistance
  exact ⟨s.tree, s, _, hbuild, hmoment, hquery, hr, hqueued,
    (hside 0 (by decide)).trans (congrArg Except.ok hside₀),
    (hside 1 (by decide)).trans (congrArg Except.ok hside₁),
    (hgap 0 (by decide)).trans (congrArg Except.ok hgap₀),
    (hgap 1 (by decide)).trans (congrArg Except.ok hgap₁), hdistance⟩

end NeighborSearch

end RecordPool
