/-
# Cells

The cell of a node is the extent of the tree, cut by the planes of the node's
ancestors.  With exact arithmetic the box that a search makes for a node is
what its cell and the query give: on each axis the side of the query and the
square of its gap to the cell, and in total the squared distance to the cell,
which is at most that of any point in the cell.
-/
import RecordPool.Proofs.Exact
import RecordPool.Proofs.Search.Moments

namespace RecordPool

/-! ## Cells of nodes -/

/-- A box of points, by its bounds on each axis. -/
structure Cell (F : Type) where
  /-- The lower bound. -/
  low : Nat → F
  /-- The upper bound. -/
  high : Nat → F

namespace Cell

variable {F : Type}

/-- The part of a cell up to a plane. -/
def cutAbove (c : Cell F) (d : Nat) (x : F) : Cell F :=
  { c with high := Function.update c.high d x }

/-- The part of a cell from a plane on. -/
def cutBelow (c : Cell F) (d : Nat) (x : F) : Cell F :=
  { c with low := Function.update c.low d x }

variable {c c' : Cell F} {d k n : Nat} {x q : F} {point : Pending F} {query : List F}

/-- Two cells have the same bounds on an axis. -/
def AgreeOn (c c' : Cell F) (k : Nat) : Prop :=
  c'.low k = c.low k ∧ c'.high k = c.high k

/-- A cut changes a cell on its axis only. -/
theorem cutAbove_of_ne (hne : k ≠ d) : c.AgreeOn (c.cutAbove d x) k :=
  ⟨rfl, Function.update_of_ne hne _ _⟩

/-- A cut changes a cell on its axis only. -/
theorem cutBelow_of_ne (hne : k ≠ d) : c.AgreeOn (c.cutBelow d x) k :=
  ⟨Function.update_of_ne hne _ _, rfl⟩

@[simp] theorem low_cutAbove : (c.cutAbove d x).low d = c.low d := rfl

@[simp] theorem high_cutAbove : (c.cutAbove d x).high d = x := Function.update_self _ _ _

@[simp] theorem low_cutBelow : (c.cutBelow d x).low d = x := Function.update_self _ _ _

@[simp] theorem high_cutBelow : (c.cutBelow d x).high d = c.high d := rfl

/-! ## The query and a cell -/

variable [LinearOrder F]

/-- On which side of a cell a coordinate is: below it, at or above its upper
bound, or neither. -/
def side (c : Cell F) (d : Nat) (q : F) : Int8 :=
  if q < c.low d then -1 else if c.high d ≤ q then 1 else 0

/-- Cells with the same bounds on an axis have the same side there. -/
theorem AgreeOn.side (h : c.AgreeOn c' k) : c'.side k q = c.side k q := by
  rw [Cell.side, Cell.side, h.1, h.2]

/-- A query that is not below a cell is at or above it, or inside. -/
theorem side_of_low_le (h : c.low d ≤ q) : c.side d q = if c.high d ≤ q then 1 else 0 := by
  rw [side, if_neg (not_lt.mpr h)]

/-- A query that is not above a cell is below it, or inside. -/
theorem side_of_lt_high (h : q < c.high d) : c.side d q = if q < c.low d then -1 else 0 := by
  rw [side, if_neg (not_le.mpr h)]

variable [CommRing F]

/-- How far a coordinate is from a cell; nothing inside. -/
def gap (c : Cell F) (d : Nat) (q : F) : F :=
  if q < c.low d then c.low d - q else if c.high d ≤ q then q - c.high d else 0

/-- The squared distance from a point to a cell. -/
def distance (c : Cell F) (dimension : Nat) (query : List F) : F :=
  ∑ d ∈ Finset.range dimension, c.gap d (query.getD d 0) ^ 2

/-- The coordinates of a point are between the bounds. -/
def Contains (c : Cell F) (dimension : Nat) (point : Pending F) : Prop :=
  ∀ d < dimension, c.low d ≤ point.coordinate d ∧ point.coordinate d ≤ c.high d

/-- Cells with the same bounds on an axis have the same gap there. -/
theorem AgreeOn.gap (h : c.AgreeOn c' k) : c'.gap k q = c.gap k q := by
  rw [Cell.gap, Cell.gap, h.1, h.2]

/-- Neither below nor above there is no gap. -/
theorem gap_of_side (h : c.side d q = 0) : c.gap d q = 0 := by
  unfold side at h
  unfold gap
  split at h
  · cases h
  · split at h
    · cases h
    · rw [if_neg ‹_›, if_neg ‹_›]

/-! ### The query and a cut -/

/-- From the plane on a query is above the cell that is cut there. -/
theorem look_cutAbove_of_le (hlow : c.low d ≤ x) (hle : x ≤ q) :
    (c.cutAbove d x).side d q = 1 ∧ (c.cutAbove d x).gap d q = q - x := by
  have hnot : ¬ q < c.low d := not_lt.mpr (hlow.trans hle)
  rw [side, gap, low_cutAbove, high_cutAbove, if_neg hnot, if_neg hnot, if_pos hle, if_pos hle]
  exact ⟨rfl, rfl⟩

/-- Before the plane a query sees the same of the cell that is cut there. -/
theorem look_cutAbove_of_lt (hhigh : x ≤ c.high d) (hlt : q < x) :
    (c.cutAbove d x).side d q = c.side d q ∧ (c.cutAbove d x).gap d q = c.gap d q := by
  have hnot : ¬ x ≤ q := not_le.mpr hlt
  have hnot' : ¬ c.high d ≤ q := not_le.mpr (hlt.trans_le hhigh)
  rw [side, side, gap, gap, low_cutAbove, high_cutAbove, if_neg hnot, if_neg hnot, if_neg hnot',
    if_neg hnot']
  exact ⟨rfl, rfl⟩

/-- Before the plane a query is below the cell that is cut there. -/
theorem look_cutBelow_of_lt (hlt : q < x) :
    (c.cutBelow d x).side d q = -1 ∧ (c.cutBelow d x).gap d q = x - q := by
  rw [side, gap, low_cutBelow, if_pos hlt, if_pos hlt]
  exact ⟨rfl, rfl⟩

/-- From the plane on a query sees the same of the cell that is cut there. -/
theorem look_cutBelow_of_le (hlow : c.low d ≤ x) (hle : x ≤ q) :
    (c.cutBelow d x).side d q = c.side d q ∧ (c.cutBelow d x).gap d q = c.gap d q := by
  have hnot : ¬ q < x := not_lt.mpr hle
  have hnot' : ¬ q < c.low d := not_lt.mpr (hlow.trans hle)
  rw [side, side, gap, gap, low_cutBelow, high_cutBelow, if_neg hnot, if_neg hnot, if_neg hnot',
    if_neg hnot']
  exact ⟨rfl, rfl⟩

/-! ### Distances -/

/-- **Another cell on one axis** changes the squared distance by the squares of
the two gaps. -/
theorem distance_of_agreeOn (hd : d < n) (h : ∀ k ≠ d, c.AgreeOn c' k) :
    c'.distance n query = c.distance n query - c.gap d (query.getD d 0) ^ 2 +
      c'.gap d (query.getD d 0) ^ 2 := by
  have hmem : d ∈ Finset.range n := Finset.mem_range.mpr hd
  have hrest : ∑ k ∈ (Finset.range n).erase d, c'.gap k (query.getD k 0) ^ 2 =
      ∑ k ∈ (Finset.range n).erase d, c.gap k (query.getD k 0) ^ 2 := by
    apply Finset.sum_congr rfl
    intro k hk
    rw [(h k (Finset.ne_of_mem_erase hk)).gap]
  rw [distance, distance, ← Finset.add_sum_erase _ _ hmem, hrest,
    ← Finset.add_sum_erase (Finset.range n) (fun k => c.gap k (query.getD k 0) ^ 2) hmem]
  ring

/-- A point up to the plane stays in the cell that is cut there. -/
theorem Contains.cutAbove (h : c.Contains n point) (hle : point.coordinate d ≤ x) :
    (c.cutAbove d x).Contains n point := by
  intro k hk
  by_cases hkd : k = d
  · subst hkd
    rw [low_cutAbove, high_cutAbove]
    exact ⟨(h k hk).1, hle⟩
  · rw [(cutAbove_of_ne hkd).1, (cutAbove_of_ne hkd).2]
    exact h k hk

/-- A point from the plane on stays in the cell that is cut there. -/
theorem Contains.cutBelow (h : c.Contains n point) (hle : x ≤ point.coordinate d) :
    (c.cutBelow d x).Contains n point := by
  intro k hk
  by_cases hkd : k = d
  · subst hkd
    rw [low_cutBelow, high_cutBelow]
    exact ⟨hle, (h k hk).2⟩
  · rw [(cutBelow_of_ne hkd).1, (cutBelow_of_ne hkd).2]
    exact h k hk

variable [IsStrictOrderedRing F]

/-- On one axis no point of a cell is nearer than the cell. -/
theorem gap_sq_le (hlow : c.low d ≤ x) (hhigh : x ≤ c.high d) : c.gap d q ^ 2 ≤ (x - q) ^ 2 := by
  unfold gap
  split
  · rename_i hlt
    have hle : c.low d - q ≤ x - q := sub_le_sub_right hlow q
    exact pow_le_pow_left₀ (sub_nonneg.mpr hlt.le) hle 2
  · split
    · rename_i hge
      have hle : q - c.high d ≤ q - x := sub_le_sub_left hhigh q
      rw [← neg_sub q x, neg_sq]
      exact pow_le_pow_left₀ (sub_nonneg.mpr hge) hle 2
    · rw [zero_pow (by decide)]
      exact sq_nonneg (x - q)

/-- **No point of a cell is nearer than the cell.** -/
theorem distance_le (h : c.Contains n point) :
    c.distance n query ≤ distanceBetween n point.position query := by
  rw [Exact.distanceBetween_eq, distance]
  apply Finset.sum_le_sum
  intro d hd
  have hd' := h d (Finset.mem_range.mp hd)
  exact gap_sq_le hd'.1 hd'.2

end Cell

/-- The extent of a tree. -/
def KdTree.extent {β F : Type} [Zero F] (t : KdTree β F) : Cell F where
  low := fun d => t.least.getD d 0
  high := fun d => t.greatest.getD d 0

/-! ## Boxes and cells -/

namespace NeighborSearch

open Frontier

variable {β F : Type} [LinearOrder F] [CommRing F]

/-- The entry describes a cell: on each axis the side and the square of the gap,
and in total the squared distance. -/
structure Describes (n : Nat) (query : List F) (c : Cell F) (e : EntryRecord F) : Prop where
  length_sides : e.sides.length = n
  length_gaps : e.gaps.length = n
  side : ∀ d < n, e.sides.getD d 0 = c.side d (query.getD d 0)
  gap : ∀ d < n, e.gaps.getD d 0 = c.gap d (query.getD d 0) ^ 2
  distance : e.distance = c.distance n query

variable {n d : Nat} {query : List F} {c c' : Cell F} {e : EntryRecord F} {x : F}

/-- An element of a list after another one was set. -/
theorem getD_set_of_ne {α : Type} {xs : List α} {k : Nat} (hne : k ≠ d) (y z : α) :
    (xs.set d y).getD k z = xs.getD k z := by
  rw [List.getD_eq_getElem?_getD, List.getElem?_set_ne (Ne.symm hne), ← List.getD_eq_getElem?_getD]

/-- An element of a list after it was set. -/
theorem getD_set_self {α : Type} {xs : List α} (hd : d < xs.length) (y z : α) :
    (xs.set d y).getD d z = y := by
  rw [List.getD_eq_getElem?_getD, List.getElem?_set_self hd, Option.getD_some]

/-- **Tightening** makes the box of a cell that differs on one axis, if side and
gap are those of the other cell there. -/
theorem Describes.tightened (h : Describes n query c e) (hd : d < n)
    (hagree : ∀ k ≠ d, c.AgreeOn c' k) {side : Int8} {difference : F}
    (hside : (if e.sides.getD d 0 = 0 then side else e.sides.getD d 0) =
      c'.side d (query.getD d 0))
    (hgap : difference ^ 2 = c'.gap d (query.getD d 0) ^ 2) :
    Describes n query c' (tightened e d side difference) where
  length_sides := by
    show (if _ then _ else _ : List Int8).length = n
    split
    · rw [List.length_set, h.length_sides]
    · exact h.length_sides
  length_gaps := by
    show (e.gaps.set d _).length = n
    rw [List.length_set, h.length_gaps]
  side := by
    intro k hk
    show (if _ then _ else _ : List Int8).getD k 0 = _
    by_cases hkd : k = d
    · subst hkd
      rw [← hside]
      split
      · rw [getD_set_self (by rw [h.length_sides]; exact hk)]
      · rfl
    · rw [(hagree k hkd).side, ← h.side k hk]
      split
      · rw [getD_set_of_ne hkd]
      · rfl
  gap := by
    intro k hk
    show (e.gaps.set d (Arithmetic.square difference)).getD k 0 = _
    by_cases hkd : k = d
    · subst hkd
      rw [getD_set_self (by rw [h.length_gaps]; exact hk), Exact.square_eq, hgap]
    · rw [getD_set_of_ne hkd, (hagree k hkd).gap, h.gap k hk]
  distance := by
    show e.distance - e.gaps.getD d 0 + Arithmetic.square difference = _
    rw [h.distance, h.gap d hd, Exact.square_eq, hgap, Cell.distance_of_agreeOn hd hagree]

/-- A box also describes another cell that looks the same from the query. -/
theorem Describes.of_agreeOn (h : Describes n query c e) (hd : d < n)
    (hagree : ∀ k ≠ d, c.AgreeOn c' k)
    (hside : c'.side d (query.getD d 0) = c.side d (query.getD d 0))
    (hgap : c'.gap d (query.getD d 0) = c.gap d (query.getD d 0)) : Describes n query c' e where
  length_sides := h.length_sides
  length_gaps := h.length_gaps
  side := by
    intro k hk
    rw [h.side k hk]
    by_cases hkd : k = d
    · rw [hkd, hside]
    · rw [(hagree k hkd).side]
  gap := by
    intro k hk
    rw [h.gap k hk]
    by_cases hkd : k = d
    · rw [hkd, hgap]
    · rw [(hagree k hkd).gap]
  distance := by
    rw [h.distance, Cell.distance_of_agreeOn hd hagree, hgap]
    ring

variable {node : RecordIndex} {axis : Nat}

/-- **The box of a child** describes a cell that differs from its parent's on
one axis.  Where the box is tightened the query has to be on the given side,
elsewhere the two cells have to look the same from the query. -/
theorem Describes.childBox (h : Describes n query c e) (hd : d < n)
    (hagree : ∀ k ≠ d, c.AgreeOn c' k) {side : Int8} {crosses : Bool} {difference : F}
    (htightened : c.side d (query.getD d 0) = side ∨ crosses = true →
      (if c.side d (query.getD d 0) = 0 then side else c.side d (query.getD d 0)) =
          c'.side d (query.getD d 0) ∧
        difference ^ 2 = c'.gap d (query.getD d 0) ^ 2)
    (hinherited : ¬ (c.side d (query.getD d 0) = side ∨ crosses = true) →
      c'.side d (query.getD d 0) = c.side d (query.getD d 0) ∧
        c'.gap d (query.getD d 0) = c.gap d (query.getD d 0)) :
    Describes n query c' (childBox e node axis d side crosses difference) := by
  have hchild : Describes n query c
      { e with node := some node, split := Kind.narrow axis, isPoint := false } :=
    ⟨h.length_sides, h.length_gaps, h.side, h.gap, h.distance⟩
  rw [← h.side d hd] at htightened hinherited
  unfold NeighborSearch.childBox
  split
  · rename_i hcond
    obtain ⟨hside, hgap⟩ := htightened hcond
    exact hchild.tightened hd hagree hside hgap
  · rename_i hcond
    obtain ⟨hside, hgap⟩ := hinherited hcond
    exact hchild.of_agreeOn hd hagree (hside.trans (h.side d hd)) hgap

/-- **The box of a left child** describes the cell up to the plane: the query
is beyond the plane, or at or above the parent's cell, or the plane cuts away
nothing that the query sees. -/
theorem Describes.childBox_left (h : Describes n query c e) (hd : d < n) (hlow : c.low d ≤ x)
    (hhigh : x ≤ c.high d) {crosses : Bool} (hcrosses : crosses = true ↔ x ≤ query.getD d 0) :
    Describes n query (c.cutAbove d x)
      (NeighborSearch.childBox e node axis d 1 crosses (x - query.getD d 0)) := by
  apply h.childBox hd fun k hkd => Cell.cutAbove_of_ne hkd
  · intro hcond
    have hle : x ≤ query.getD d 0 := by
      rcases hcond with hside | hcross
      · by_contra hlt
        rw [Cell.side_of_lt_high ((not_le.mp hlt).trans_le hhigh)] at hside
        split at hside <;> cases hside
      · exact hcrosses.mp hcross
    obtain ⟨hside, hgap⟩ := Cell.look_cutAbove_of_le hlow hle
    rw [hside, hgap, Cell.side_of_low_le (hlow.trans hle)]
    constructor
    · split <;> rfl
    · ring
  · intro hcond
    have hlt : query.getD d 0 < x := not_le.mp fun hle => hcond (Or.inr (hcrosses.mpr hle))
    exact Cell.look_cutAbove_of_lt hhigh hlt

/-- **The box of a right child** describes the cell from the plane on. -/
theorem Describes.childBox_right (h : Describes n query c e) (hd : d < n) (hlow : c.low d ≤ x)
    (hhigh : x ≤ c.high d) {crosses : Bool} (hcrosses : crosses = true ↔ query.getD d 0 < x) :
    Describes n query (c.cutBelow d x)
      (NeighborSearch.childBox e node axis d (-1) crosses (x - query.getD d 0)) := by
  apply h.childBox hd fun k hkd => Cell.cutBelow_of_ne hkd
  · intro hcond
    have hlt : query.getD d 0 < x := by
      rcases hcond with hside | hcross
      · by_contra hge
        rw [Cell.side_of_low_le (hlow.trans (not_lt.mp hge))] at hside
        split at hside <;> cases hside
      · exact hcrosses.mp hcross
    obtain ⟨hside, hgap⟩ := Cell.look_cutBelow_of_lt (c := c) hlt
    rw [hside, hgap, Cell.side_of_lt_high (hlt.trans_le hhigh)]
    constructor
    · split <;> rfl
    · rfl
  · intro hcond
    have hle : x ≤ query.getD d 0 := not_lt.mp fun hlt => hcond (Or.inr (hcrosses.mpr hlt))
    exact Cell.look_cutBelow_of_le hlow hle

/-! ## The box of the whole tree -/

variable [IsStrictOrderedRing F] {t : KdTree β F}

/-- The bound on an axis is the side and the squared gap, unless the query is
inside. -/
theorem axisBound_eq (c : Cell F) (d : Nat) (q : F) :
    axisBound (c.low d) (c.high d) q =
      if c.side d q = 0 then none else some (c.side d q, c.gap d q ^ 2) := by
  unfold axisBound
  simp only [Exact.lt_eq, Exact.le_eq, Exact.zero_eq, Exact.sub_eq, Exact.square_eq,
    decide_eq_true_iff, sub_pos, sub_nonneg]
  by_cases hlow : q < c.low d
  · rw [if_pos hlow, Cell.side, Cell.gap, if_pos hlow, if_pos hlow]
    rfl
  · by_cases hhigh : c.high d ≤ q
    · rw [if_neg hlow, if_pos hhigh, Cell.side, Cell.gap, if_neg hlow, if_neg hlow, if_pos hhigh,
        if_pos hhigh]
      rfl
    · rw [if_neg hlow, if_neg hhigh, Cell.side, if_neg hlow, if_neg hhigh]
      rfl

/-- A list of which one more element is set. -/
theorem getD_set_of_prefix {α : Type} {xs : List α} {z : α} {f : Nat → α} {count : Nat}
    (hcount : count < xs.length) (h : ∀ d, xs.getD d z = if d < count then f d else z) (d : Nat) :
    (xs.set count (f count)).getD d z = if d < count + 1 then f d else z := by
  by_cases hd : d = count
  · rw [hd, getD_set_self hcount, if_pos (by omega)]
  · rw [getD_set_of_ne hd, h d]
    by_cases hlt : d < count
    · rw [if_pos hlt, if_pos (by omega)]
    · rw [if_neg hlt, if_neg (by omega)]

/-- A list of which one more element is as it was. -/
theorem getD_of_prefix {α : Type} {xs : List α} {z : α} {f : Nat → α} {count : Nat}
    (hcount : f count = z) (h : ∀ d, xs.getD d z = if d < count then f d else z) (d : Nat) :
    xs.getD d z = if d < count + 1 then f d else z := by
  rw [h d]
  by_cases hd : d = count
  · rw [hd, hcount, if_neg (by omega), if_pos (by omega)]
  · by_cases hlt : d < count
    · rw [if_pos hlt, if_pos (by omega)]
    · rw [if_neg hlt, if_neg (by omega)]

/-- An entry, with the total of its gaps, describes the extent of the tree on
the first `count` axes and has the query inside on the others. -/
structure BoundedTo (t : KdTree β F) (query : List F) (count : Nat) (state : EntryRecord F × F) :
    Prop where
  length_sides : state.1.sides.length = t.dimension
  length_gaps : state.1.gaps.length = t.dimension
  side : ∀ d, state.1.sides.getD d 0 =
    if d < count then t.extent.side d (query.getD d 0) else 0
  gap : ∀ d, state.1.gaps.getD d 0 =
    if d < count then t.extent.gap d (query.getD d 0) ^ 2 else 0
  total : state.2 = ∑ d ∈ Finset.range count, t.extent.gap d (query.getD d 0) ^ 2

omit [IsStrictOrderedRing F] in
/-- At first the query is inside on all axes. -/
theorem boundedTo_zero (t : KdTree β F) (query : List F) (root : RecordIndex) :
    BoundedTo t query 0 (boundedBox t query root 0) where
  length_sides := List.length_replicate
  length_gaps := List.length_replicate
  side := by
    intro d
    show (List.replicate t.dimension (0 : Int8)).getD d 0 = 0
    rw [List.getD_eq_getElem?_getD, List.getElem?_replicate]
    split <;> rfl
  gap := by
    intro d
    show (List.replicate t.dimension (0 : F)).getD d 0 = 0
    rw [List.getD_eq_getElem?_getD, List.getElem?_replicate]
    split <;> rfl
  total := rfl

/-- One more axis is described. -/
theorem BoundedTo.succ {count : Nat} {state : EntryRecord F × F} (h : BoundedTo t query count state)
    (hcount : count < t.dimension) :
    BoundedTo t query (count + 1) (boundBox t query state count) := by
  have hbound : axisBound (t.least.getD count Arithmetic.zero)
      (t.greatest.getD count Arithmetic.zero) (query.getD count Arithmetic.zero) =
      if t.extent.side count (query.getD count 0) = 0 then none
      else some (t.extent.side count (query.getD count 0),
        t.extent.gap count (query.getD count 0) ^ 2) :=
    axisBound_eq t.extent count (query.getD count 0)
  rw [boundBox, hbound]
  by_cases hzero : t.extent.side count (query.getD count 0) = 0
  · -- inside on this axis: nothing changes, and the gap adds nothing
    have hgap : t.extent.gap count (query.getD count 0) ^ 2 = 0 := by
      rw [Cell.gap_of_side hzero, zero_pow (by decide)]
    rw [if_pos hzero]
    exact {
      length_sides := h.length_sides
      length_gaps := h.length_gaps
      side := getD_of_prefix (f := fun d => t.extent.side d (query.getD d 0)) hzero h.side
      gap := getD_of_prefix (f := fun d => t.extent.gap d (query.getD d 0) ^ 2) hgap h.gap
      total := by
        rw [Finset.sum_range_succ, hgap, add_zero]
        exact h.total }
  · rw [if_neg hzero]
    exact {
      length_sides := List.length_set.trans h.length_sides
      length_gaps := List.length_set.trans h.length_gaps
      side := getD_set_of_prefix (f := fun d => t.extent.side d (query.getD d 0))
        (by rw [h.length_sides]; exact hcount) h.side
      gap := getD_set_of_prefix (f := fun d => t.extent.gap d (query.getD d 0) ^ 2)
        (by rw [h.length_gaps]; exact hcount) h.gap
      total := by
        show Arithmetic.add _ _ = _
        rw [Finset.sum_range_succ, h.total]
        rfl }

/-- After some axes the box of the whole tree describes the extent on these. -/
theorem boundedTo_boundedBox (t : KdTree β F) (query : List F) (root : RecordIndex) {count : Nat}
    (hcount : count ≤ t.dimension) : BoundedTo t query count (boundedBox t query root count) := by
  induction count with
  | zero => exact boundedTo_zero t query root
  | succ count ih =>
      rw [boundedBox_succ]
      exact (ih (by omega)).succ (by omega)

/-- **The box of the whole tree** describes its extent. -/
theorem describes_rootBox (root : RecordIndex) :
    Describes t.dimension query t.extent (rootBox t query root) := by
  have h := boundedTo_boundedBox t query root (Nat.le_refl t.dimension)
  exact {
    length_sides := h.length_sides
    length_gaps := h.length_gaps
    side := by
      intro d hd
      exact (h.side d).trans (if_pos hd)
    gap := by
      intro d hd
      exact (h.gap d).trans (if_pos hd)
    distance := h.total }

end NeighborSearch

end RecordPool
