/-
# Nested cells

The cell of a node lies in the cells of all its ancestors, so that going down
a tree the squared distance from a query to the cells never decreases.
-/
import RecordPool.Proofs.Search.Geometry

namespace RecordPool

variable {F : Type} [LinearOrder F] [CommRing F]

namespace Cell

variable {c c' c'' : Cell F} {d n : Nat} {q : F} {point : Pending F} {query : List F}

/-- The cell `c'` is not empty and lies in `c`. -/
def Inside (c' c : Cell F) (n : Nat) : Prop :=
  ∀ d < n, c.low d ≤ c'.low d ∧ c'.low d ≤ c'.high d ∧ c'.high d ≤ c.high d

/-- A cell that contains a point lies in itself. -/
theorem Contains.inside_self (h : c.Contains n point) : c.Inside c n := fun d hd =>
  ⟨le_rfl, (h d hd).1.trans (h d hd).2, le_rfl⟩

omit [CommRing F] in
/-- Cells are nested in each other. -/
theorem Inside.trans (h : c'.Inside c n) (h' : c''.Inside c' n) : c''.Inside c n := by
  intro d hd
  obtain ⟨hlow, -, hhigh⟩ := h d hd
  obtain ⟨hlow', hle, hhigh'⟩ := h' d hd
  exact ⟨hlow.trans hlow', hle, hhigh'.trans hhigh⟩

/-- The part of a cell up to a point in it lies in the cell. -/
theorem Contains.cutAbove_inside (h : c.Contains n point) (d : Nat) :
    (c.cutAbove d (point.coordinate d)).Inside c n := by
  intro k hk
  obtain ⟨hlow, hhigh⟩ := h k hk
  by_cases hkd : k = d
  · subst hkd
    rw [low_cutAbove, high_cutAbove]
    exact ⟨le_rfl, hlow, hhigh⟩
  · rw [(cutAbove_of_ne hkd).1, (cutAbove_of_ne hkd).2]
    exact h.inside_self k hk

/-- The part of a cell from a point in it on lies in the cell. -/
theorem Contains.cutBelow_inside (h : c.Contains n point) (d : Nat) :
    (c.cutBelow d (point.coordinate d)).Inside c n := by
  intro k hk
  obtain ⟨hlow, hhigh⟩ := h k hk
  by_cases hkd : k = d
  · subst hkd
    rw [low_cutBelow, high_cutBelow]
    exact ⟨hlow, hhigh, le_rfl⟩
  · rw [(cutBelow_of_ne hkd).1, (cutBelow_of_ne hkd).2]
    exact h.inside_self k hk

variable [IsStrictOrderedRing F]

/-- There is no negative gap. -/
theorem gap_nonneg : 0 ≤ c.gap d q := by
  unfold gap
  split
  · rename_i hlt
    exact sub_nonneg.mpr hlt.le
  · split
    · rename_i hge
      exact sub_nonneg.mpr hge
    · exact le_rfl

/-- **The gap to a cell inside is not smaller.** -/
theorem gap_le_gap (hlow : c.low d ≤ c'.low d) (hle : c'.low d ≤ c'.high d)
    (hhigh : c'.high d ≤ c.high d) : c.gap d q ≤ c'.gap d q := by
  by_cases hbelow : q < c.low d
  · rw [gap, if_pos hbelow, gap, if_pos (hbelow.trans_le hlow)]
    exact sub_le_sub_right hlow q
  · by_cases habove : c.high d ≤ q
    · -- above the outer cell the query is above the inner one as well
      have hnot : ¬ q < c'.low d := not_lt.mpr ((hle.trans hhigh).trans habove)
      rw [gap, if_neg hbelow, if_pos habove, gap, if_neg hnot, if_pos (hhigh.trans habove)]
      exact sub_le_sub_left hhigh q
    · rw [gap, if_neg hbelow, if_neg habove]
      exact gap_nonneg

/-- **A cell inside another one is not nearer.** -/
theorem Inside.distance_le (h : c'.Inside c n) : c.distance n query ≤ c'.distance n query := by
  unfold distance
  apply Finset.sum_le_sum
  intro d hd
  obtain ⟨hlow, hle, hhigh⟩ := h d (Finset.mem_range.mp hd)
  exact pow_le_pow_left₀ gap_nonneg (gap_le_gap hlow hle hhigh) 2

end Cell

/-! ## Cells of outlines -/

/-- **The cells of an outline lie in its own**, if that contains all points. -/
theorem Outline.cells_inside {o : Outline F} {n depth : Nat} {c : Cell F}
    (hseparated : o.Separated n depth) (hcontains : ∀ x ∈ o.subtrees depth, c.Contains n x.point) :
    ∀ z ∈ o.cells n depth c, z.2.Inside c n := by
  induction o generalizing depth c with
  | empty => simp [Outline.cells]
  | node index point left right ihl ihr =>
      obtain ⟨hle, hge, hleft, hright⟩ := hseparated
      have htop : c.Contains n point :=
        hcontains ⟨depth, index, point, left, right⟩ List.mem_cons_self
      have hleftContains : ∀ x ∈ left.subtrees (depth + 1),
          (c.cutAbove (depth % n) (point.coordinate (depth % n))).Contains n x.point := by
        intro x hx
        refine (hcontains x (List.mem_cons_of_mem _ (List.mem_append_left _ hx))).cutAbove ?_
        exact Exact.isLE_compare_iff.mp (hle x.point (Outline.point_mem_points hx))
      have hrightContains : ∀ x ∈ right.subtrees (depth + 1),
          (c.cutBelow (depth % n) (point.coordinate (depth % n))).Contains n x.point := by
        intro x hx
        refine (hcontains x (List.mem_cons_of_mem _ (List.mem_append_right _ hx))).cutBelow ?_
        exact Exact.isLE_compare_iff.mp (hge x.point (Outline.point_mem_points hx))
      intro z hz
      rw [Outline.cells] at hz
      rcases List.mem_cons.mp hz with rfl | hz
      · exact htop.inside_self
      · rcases List.mem_append.mp hz with hz | hz
        · exact (htop.cutAbove_inside _).trans (ihl hleft hleftContains z hz)
        · exact (htop.cutBelow_inside _).trans (ihr hright hrightContains z hz)

variable {β : Type} [Memory β F] {t : KdTree β F} {o : Outline F} {x y : Subtree F}

/-- A subtree is listed with the cell of its topmost node. -/
theorem KdTree.HasCell.mem_cells (ht : t.Represents o) (hx : x ∈ o.subtrees 0) {c : Cell F}
    (h : t.HasCell x.index c) : (x, c) ∈ o.cells t.dimension 0 t.extent := by
  rw [← Outline.map_fst_cells o t.dimension 0 t.extent] at hx
  obtain ⟨z, hz, rfl⟩ := List.mem_map.mp hx
  obtain ⟨x', hmem, hindex⟩ := h.exists_mem_cells ht
  obtain rfl : (x', c) = z := ht.cells_inj hz hmem hindex
  exact hmem

namespace NeighborSearch

open Frontier

variable [IsStrictOrderedRing F] {query : List F} {e e' : EntryRecord F}

/-- **No box of a node below is nearer** than the box of the node above. -/
theorem BoxOf.distance_le (ht : t.Spans o) (h : BoxOf t query o x e) (h' : BoxOf t query o y e')
    (hy : y ∈ x.below) : e.distance ≤ e'.distance := by
  obtain ⟨c, hcell, hdescribes, hcontains⟩ := h.exists_cell ht
  obtain ⟨c', hcell', hdescribes', -⟩ := h'.exists_cell ht
  have hx := h.spec.1
  -- the cell of the lower node is listed among those of the outline of the upper one
  obtain ⟨z, hz, rfl⟩ : ∃ z ∈ x.outline.cells t.dimension x.depth c, z.1 = y := by
    rw [Subtree.below, ← Outline.map_fst_cells x.outline t.dimension x.depth c] at hy
    exact List.mem_map.mp hy
  have hlisted := Outline.mem_cells_of_below (hcell.mem_cells ht.represents hx) hz
  have heq := ht.represents.cells_inj hlisted
    (hcell'.mem_cells ht.represents h'.spec.1) rfl
  have hinside := Outline.cells_inside (ht.separated.outline hx) hcontains z hz
  rw [← heq] at hinside
  rw [hdescribes.distance, hdescribes'.distance]
  exact hinside.distance_le

/-- **No entry for a node below is nearer** than the box of the node above. -/
theorem EntryOf.distance_le (ht : t.Spans o) (h : BoxOf t query o x e)
    (h' : EntryOf t query o y e') (hy : y ∈ x.below) : e.distance ≤ e'.distance := by
  rcases h'.cases with ⟨-, hbox⟩ | ⟨-, hdistance⟩
  · exact h.distance_le ht hbox hy
  · rw [hdistance]
    exact Exact.isLE_compare_iff.mp (admissible ht query x e h y hy)

end NeighborSearch

end RecordPool
