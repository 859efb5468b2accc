/-
# Balance of k-d trees

A tree that was built is read off its nodes as an outline: from the root down
the accessors tell its points, its axes and its children, and the walk over the
tree meets every record once, in ascending order.  In this outline every node
has half of the points below it on its left, and separates what is on its left
from what is on its right; hence the height grows with the logarithm of the
number of points.
-/
import RecordPool.Proofs.KdTree.Planting
import RecordPool.Proofs.KdTree.Subtrees

namespace RecordPool

variable {β F : Type} [Memory β F]

/-- The coordinates of doubles are compared in a total order. -/
instance : Std.TransCmp (Arithmetic.compare (F := Double)) :=
  inferInstanceAs (Std.TransCmp Double.compare)

/-! ## Sizes and heights -/

namespace Outline

/-- The number of points. -/
def size : Outline F → Nat
  | empty => 0
  | node _ _ left right => left.size + right.size + 1

/-- The number of nodes on the longest way down. -/
def height : Outline F → Nat
  | empty => 0
  | node _ _ left right => max left.height right.height + 1

/-- The size counts the points. -/
theorem length_points (o : Outline F) : o.points.length = o.size := by
  induction o with
  | empty => rfl
  | node index point left right ihl ihr =>
      rw [points, List.length_cons, List.length_append, ihl, ihr, size]

/-- No way down meets more nodes than there are. -/
theorem height_le_size (o : Outline F) : o.height ≤ o.size := by
  induction o with
  | empty => exact Nat.le_refl 0
  | node index point left right ihl ihr =>
      rw [height, size]
      omega

end Outline

namespace Subtree

/-- The number of points of a subtree. -/
def size (x : Subtree F) : Nat :=
  x.left.size + x.right.size + 1

/-- The nodes below a node are halved: the left ones come next after it and
are half of the subtree, rounded down; the right ones come after them. -/
structure Halved (x : Subtree F) : Prop where
  left_size : x.left.size = x.size / 2
  right_size : x.right.size = x.size - 1 - x.size / 2
  left_root : x.left.root? = if x.left.size = 0 then none else some (x.index + 1)
  right_root : x.right.root? =
    if x.right.size = 0 then none else some (x.index + 1 + x.left.size)

/-- On the axis of its depth a node is at least every point on its left and at
most every point on its right. -/
structure Separates [Arithmetic F] (dimension : Nat) (x : Subtree F) : Prop where
  left_le : ∀ y ∈ x.left.points, (y.compareOn (x.depth % dimension) x.point).isLE
  le_right : ∀ y ∈ x.right.points, (x.point.compareOn (x.depth % dimension) y).isLE

end Subtree

namespace Outline

variable {dimension depth start : Nat}

/-- **Halving bounds the height.**  An outline of fewer than `2 ^ k` points
whose nodes are all halved has at most `k` levels. -/
theorem height_le_of_halved {o : Outline F} (h : ∀ x ∈ o.subtrees depth, x.Halved) {k : Nat}
    (hsize : o.size < 2 ^ k) : o.height ≤ k := by
  induction o generalizing depth k with
  | empty => exact Nat.zero_le k
  | node index point left right ihl ihr =>
      obtain ⟨hleft, hright, -, -⟩ := h _ List.mem_cons_self
      simp only [Subtree.size] at hleft hright
      rw [size] at hsize
      cases k with
      | zero =>
          rw [Nat.pow_zero] at hsize
          omega
      | succ k =>
          -- each side has at most half of the points
          rw [Nat.pow_succ] at hsize
          have hl : left.height ≤ k :=
            ihl (fun x hx => h x (List.mem_cons_of_mem _ (List.mem_append_left _ hx))) (by omega)
          have hr : right.height ≤ k :=
            ihr (fun x hx => h x (List.mem_cons_of_mem _ (List.mem_append_right _ hx))) (by omega)
          rw [height]
          omega

variable [Arithmetic F] {selection : Selection} {items : List (Pending F)}

/-- A plan has a node for each of the given points. -/
theorem size_plan : (plan selection dimension depth start items).size = items.length := by
  rw [← length_points, points_plan.length_eq]

/-- **Every node of a plan is halved.** -/
theorem halved_plan :
    ∀ x ∈ (plan selection dimension depth start items).subtrees depth, x.Halved := by
  suffices hplan :
      (plan selection dimension depth start items).size = items.length ∧
      (plan selection dimension depth start items).root? =
        (if items.length = 0 then none else some start) ∧
      ∀ x ∈ (plan selection dimension depth start items).subtrees depth, x.Halved from hplan.2.2
  refine plan_induction (P := fun depth start items o => o.size = items.length ∧
    o.root? = (if items.length = 0 then none else some start) ∧
    ∀ x ∈ o.subtrees depth, x.Halved) ?_ ?_
  · intro depth start
    exact ⟨rfl, rfl, by rintro x ⟨⟩⟩
  · rintro depth start items before item after left right - hbefore hlength -
      ⟨hleftSize, hleftRoot, hleft⟩ ⟨hrightSize, hrightRoot, hright⟩
    refine ⟨by rw [size]; omega, by rw [if_neg (by omega), root?], ?_⟩
    intro x hx
    rcases List.mem_cons.mp hx with rfl | hx
    · refine ⟨?_, ?_, ?_, ?_⟩
      · simp only [Subtree.size]
        omega
      · simp only [Subtree.size]
        omega
      · rw [hleftRoot, hleftSize]
      · rw [hrightRoot, hrightSize, hleftSize]
    · rcases List.mem_append.mp hx with hx | hx
      · exact hleft x hx
      · exact hright x hx

/-- **Every node of a plan separates its subtrees.** -/
theorem separates_plan [Std.TransCmp (Arithmetic.compare (F := F))] :
    ∀ x ∈ (plan selection dimension depth start items).subtrees depth,
      x.Separates dimension := by
  intro x hx
  have hplan : (plan selection dimension depth start items).Separated dimension depth :=
    separated_plan
  obtain ⟨hle, hge⟩ := hplan.subtrees hx
  constructor
  · intro y hy
    rw [← map_point_subtrees x.left (x.depth + 1)] at hy
    obtain ⟨z, hz, rfl⟩ := List.mem_map.mp hy
    exact hle z hz
  · intro y hy
    rw [← map_point_subtrees x.right (x.depth + 1)] at hy
    obtain ⟨z, hz, rfl⟩ := List.mem_map.mp hy
    exact hge z hz

end Outline

/-! ## Reading a tree -/

namespace KdTree

/-- The accessors of a tree tell about a node what a subtree of an outline has
at its top: the point, the axis of its depth, and the nodes next below it. -/
structure Tells (t : KdTree β F) (x : Subtree F) : Prop where
  node : t.node x.index = .ok (t.nodes.referenceTo x.index)
  dataIndex : t.dataIndex (t.nodes.referenceTo x.index) = .ok x.point.data
  coordinates : t.coordinates (t.nodes.referenceTo x.index) = .ok x.point.position
  splitAxis : t.splitAxis (t.nodes.referenceTo x.index) = .ok (x.depth % t.dimension)
  left : t.left (t.nodes.referenceTo x.index) = .ok x.left.root?
  right : t.right (t.nodes.referenceTo x.index) = .ok x.right.root?

variable {t : KdTree β F} {o : Outline F} {x : Subtree F} {depth : Nat}

/-- The walk over a stored subtree meets its nodes, each before those on its
left and those on its right. -/
theorem Represents.preorderFrom_eq (h : t.Represents o) {o' : Outline F}
    (hstored : o'.StoredIn t.attributes t.dimension t.nodes depth) {fuel : Nat}
    (hfuel : o'.height ≤ fuel) :
    t.preorderFrom fuel depth o'.root? =
      .ok ((o'.subtrees depth).map fun x => (t.nodes.referenceTo x.index, x.depth)) := by
  induction o' generalizing depth fuel with
  | empty =>
      cases fuel <;> rfl
  | node index point left right ihl ihr =>
      rw [Outline.height] at hfuel
      cases fuel with
      | zero => omega
      | succ fuel =>
          rw [Outline.root?, preorderFrom, h.node_eq hstored, ok_bind, h.left_eq hstored, ok_bind,
            ihl hstored.2.1 (by omega), ok_bind, h.right_eq hstored, ok_bind,
            ihr hstored.2.2 (by omega), ok_bind, Outline.subtrees, List.map_cons, List.map_append]
          rfl

/-- The walk over a tree meets every node of its outline. -/
theorem Represents.preorder_eq (h : t.Represents o) :
    t.preorder =
      .ok ((o.subtrees 0).map fun x => (t.nodes.referenceTo x.index, x.depth)) := by
  have hcount : o.size = t.nodes.allocated := by
    rw [← Outline.length_points, ← Outline.length_indices, h.indices, List.length_range]
  rw [preorder, h.root]
  exact h.preorderFrom_eq h.stored (o.height_le_size.trans_eq hcount)

variable [Arithmetic F]

/-- A tree tells every subtree of the outline it represents. -/
theorem Represents.tells (h : t.Represents o) (hx : x ∈ o.subtrees 0) : t.Tells x where
  node := h.node_eq (h.storedIn hx)
  dataIndex := h.dataIndex_eq (h.storedIn hx)
  coordinates := by
    rw [KdTree.coordinates, mapM_eq_ok fun d hd =>
      h.coordinate_eq (h.storedIn hx) (List.mem_range.mp hd), ← h.length_position hx]
    exact congrArg Except.ok (map_getD_range x.point.position)
  splitAxis := h.splitAxis_eq (h.storedIn hx)
  left := h.left_eq (h.storedIn hx)
  right := h.right_eq (h.storedIn hx)

/-! ## Building -/

/-- **Building gives a balanced tree.**  Whatever selection arranges the points,
building a tree of any points of one dimension succeeds.  Its records are one
tree, which the accessors tell from the root down: the walk over it meets each
record once, in ascending order, and so each of the points once.  Every node
splits on the axis of its depth, separates its subtrees there, and has half of
the nodes below it on either side; the left ones are numbered next after it and
the right ones after these.  The tree is no higher than the binary digits of the
number of points. -/
theorem build_balanced (selection : Selection) (id : PoolId) {dimension : Nat}
    [Std.TransCmp (Arithmetic.compare (F := F))] (hpos : 0 < dimension)
    (hdim : dimension < 2 ^ 28) {points : List (RecordIndex × List F)}
    (hcount : points.length ≤ indexLimit)
    (hpoints : ∀ x ∈ points, x.2.length = dimension ∧ x.1 ≤ indexLimit) :
    ∃ (t : KdTree β F) (o : Outline F), build selection id dimension points = pure t ∧
      t.dimension = dimension ∧ t.root = o.root? ∧ (t.root = none ↔ points = []) ∧
      (∀ i, t.nodes.IsLive i ↔ i < points.length) ∧
      t.preorder = .ok ((o.subtrees 0).map fun x => (t.nodes.referenceTo x.index, x.depth)) ∧
      (o.subtrees 0).map Subtree.index = List.range points.length ∧
      (∀ x ∈ o.subtrees 0, t.Tells x ∧ x.Halved ∧ x.Separates dimension) ∧
      ((o.subtrees 0).map fun x => (x.point.data, x.point.position)).Perm points ∧
      o.height ≤ Nat.log 2 points.length + 1 := by
  obtain ⟨t, hbuild, hdimension, hallocated, ht, -, -⟩ :=
    build_eq (β := β) selection id hpos hdim hcount hpoints
  set o := Outline.plan selection dimension 0 0 (pendings points) with ho
  have hsize : o.size = points.length := by
    rw [ho, Outline.size_plan, pendings, List.length_map]
  have hhalved : ∀ x ∈ o.subtrees 0, x.Halved := Outline.halved_plan
  refine ⟨t, o, hbuild, hdimension, ht.root, ?_, fun i => by rw [ht.isLive_iff, hallocated],
    ht.preorder_eq, ?_, fun x hx => ⟨ht.tells hx, hhalved x hx, Outline.separates_plan x hx⟩, ?_, ?_⟩
  · rw [ht.root, ← List.length_eq_zero_iff, ← hsize]
    cases o with
    | empty => exact ⟨fun _ => rfl, fun _ => rfl⟩
    | node index point left right =>
        refine iff_of_false (by rintro ⟨⟩) ?_
        rw [Outline.size]
        omega
  · rw [Outline.map_index_subtrees, ht.indices, hallocated]
  · -- the points of the plan are the given ones, up to the pairing with their data indices
    have hperm : o.points.Perm (pendings points) := Outline.points_plan
    rw [← Outline.map_point_subtrees o 0] at hperm
    have hpairs := hperm.map fun item => (item.data, item.position)
    rw [List.map_map, pendings, List.map_map] at hpairs
    exact hpairs.trans (List.Perm.of_eq (List.map_id' points))
  · have hlt : o.size < 2 ^ (Nat.log 2 points.length + 1) := by
      rw [hsize]
      exact Nat.lt_pow_succ_log_self (by decide) points.length
    exact Outline.height_le_of_halved hhalved hlt

/-- The first dimension of three points holds both zeros and a value that is not
a number, and two of the points share their data index: the tree has a root with
a child on either side. -/
theorem build_balanced_of_zeros_and_nan :
    ∃ (t : KdTree UInt8 Double) (o : Outline Double),
      build .bySorting 0 2 [(0, [Double.indefinite, Double.zero]),
        (7, [Double.negativeZero, Double.zero]), (7, [Double.zero, Double.infinity])] = pure t ∧
      t.root = some 0 ∧ (o.subtrees 0).map Subtree.index = [0, 1, 2] ∧
      (∀ x ∈ o.subtrees 0, t.Tells x ∧ x.Halved ∧ x.Separates 2) ∧ o.height ≤ 2 := by
  obtain ⟨t, o, hbuild, -, hroot, -, -, -, hindices, hnodes, -, hheight⟩ :=
    build_balanced (β := UInt8) .bySorting 0 (by decide : 0 < 2) (by decide)
      (by decide : [(0, [Double.indefinite, Double.zero]),
        (7, [Double.negativeZero, Double.zero]),
        (7, [Double.zero, Double.infinity])].length ≤ indexLimit) (by decide)
  refine ⟨t, o, hbuild, ?_, hindices, hnodes, hheight.trans (by norm_num)⟩
  rw [hroot]
  cases o with
  | empty => cases hindices
  | node index point left right => exact congrArg some (List.cons.inj hindices).1

end KdTree

end RecordPool
