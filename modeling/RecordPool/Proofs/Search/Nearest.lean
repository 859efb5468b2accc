/-
# Searching equals measuring every point

With exact arithmetic a search yields the points in the order of their
distances, so that it finds what the exhaustive search finds: the same
distances at the same places, the nearest one first.
-/
import RecordPool.Proofs.Search.Completeness
import RecordPool.Proofs.Search.Geometry
import RecordPool.Search.Exhaustive

namespace RecordPool

variable {β F : Type} [LinearOrder F] [CommRing F] {points : List (List F)} {query : List F}
  {dimension : Nat}

/-! ## Exhaustive search -/

namespace Exhaustive

/-- Every point is measured. -/
theorem distances_eq (hpoints : ∀ point ∈ points, point.length = dimension)
    (hquery : query.length = dimension) :
    distances points query =
      .ok (points.map fun point => distanceBetween dimension point query) := by
  unfold distances
  apply mapM_eq_ok
  intro point hmem
  have hlength := hpoints point hmem
  rw [squaredDistance_eq (by omega), hlength]

/-- **Sorting** keeps the distances and puts them in order. -/
theorem sorted_eq (hpoints : ∀ point ∈ points, point.length = dimension)
    (hquery : query.length = dimension) :
    ∃ measured, sorted points query = .ok measured ∧
      (measured.map Prod.snd).Perm
        (points.map fun point => distanceBetween dimension point query) ∧
      (measured.map Prod.snd).Pairwise (· ≤ ·) := by
  refine ⟨_, by rw [sorted, distances_eq hpoints hquery, ok_bind]; rfl, ?_, ?_⟩
  · refine ((List.mergeSort_perm _ _).map Prod.snd).trans (List.Perm.of_eq ?_)
    rw [List.map_map]
    exact List.zipIdx_map_fst 0 _
  · rw [List.pairwise_map]
    refine (List.pairwise_mergeSort ?_ ?_ _).imp fun h => Exact.isLE_compare_iff.mp h
    · intro a b c hab hbc
      exact Exact.isLE_compare_iff.mpr
        ((Exact.isLE_compare_iff.mp hab).trans (Exact.isLE_compare_iff.mp hbc))
    · intro a b
      rw [Bool.or_eq_true, Exact.isLE_compare_iff, Exact.isLE_compare_iff]
      exact le_total a.2 b.2

/-- A running minimum is one of the values and at most each of them. -/
theorem foldl_minimum (xs : List F) (x : F) :
    xs.foldl (fun m y => if (Arithmetic.compare m y).isLE then m else y) x ∈ x :: xs ∧
      ∀ y ∈ x :: xs,
        xs.foldl (fun m y => if (Arithmetic.compare m y).isLE then m else y) x ≤ y := by
  induction xs generalizing x with
  | nil => simp
  | cons z xs ih =>
      rw [List.foldl_cons]
      by_cases hle : (Arithmetic.compare x z).isLE
      · rw [if_pos hle]
        obtain ⟨hmem, hleast⟩ := ih x
        refine ⟨by simp only [List.mem_cons] at hmem ⊢; tauto, fun y hy => ?_⟩
        rcases List.mem_cons.mp hy with rfl | hy
        · exact hleast y List.mem_cons_self
        · rcases List.mem_cons.mp hy with rfl | hy
          · exact (hleast x List.mem_cons_self).trans (Exact.isLE_compare_iff.mp hle)
          · exact hleast y (List.mem_cons_of_mem x hy)
      · rw [if_neg hle]
        obtain ⟨hmem, hleast⟩ := ih z
        refine ⟨List.mem_cons_of_mem x hmem, fun y hy => ?_⟩
        rcases List.mem_cons.mp hy with rfl | hy
        · have hlt := not_le.mp (mt Exact.isLE_compare_iff.mpr hle)
          exact (hleast z List.mem_cons_self).trans hlt.le
        · exact hleast y hy

/-- The least of some values is the first one of them in order. -/
theorem minimum?_eq_head? {xs sorted : List F} (hperm : sorted.Perm xs)
    (hsorted : sorted.Pairwise (· ≤ ·)) : minimum? xs = sorted.head? := by
  cases xs with
  | nil => rw [List.perm_nil.mp hperm]; rfl
  | cons x xs =>
      cases sorted with
      | nil => cases (List.nil_perm.mp hperm)
      | cons y ys =>
          obtain ⟨hmem, hleast⟩ := foldl_minimum xs x
          have hy : y ∈ x :: xs := hperm.mem_iff.mp List.mem_cons_self
          have hle := hleast y hy
          -- each of the two is among the values, hence at least the other
          rw [minimum?, List.head?_cons]
          refine congrArg some (le_antisymm hle ?_)
          rcases List.mem_cons.mp (hperm.mem_iff.mpr hmem) with heq | hys
          · exact heq.ge
          · exact (List.pairwise_cons.mp hsorted).1 _ hys

end Exhaustive

/-! ## Searching -/

namespace NeighborSearch

variable [Memory β F] [IsStrictOrderedRing F]

/-- **A search finds what measuring every point finds.**  With exact arithmetic,
searching the tree of a list of points yields each point once, with its squared
distance, the nearest first: position by position the distances are those of
the exhaustive search, and the first one is the least. -/
theorem searchAll_eq_exhaustive (selection : Selection) (treeId searchId : PoolId)
    (hpos : 0 < dimension) (hdim : dimension < 2 ^ 28) (hcount : points.length ≤ indexLimit)
    (hpoints : ∀ point ∈ points, point.length = dimension) :
    ∃ t : KdTree β F, KdTree.ofList selection treeId dimension points = pure t ∧
      (∃ s, make searchId t = pure s ∧ Moment t .resting s) ∧
      ∀ (s : NeighborSearch β F) (query : List F), Moment t .resting s → query.length = dimension →
        ∃ (found : List (Neighbor F)) (s' : NeighborSearch β F) (measured : List (Nat × F)),
          s.searchAll query = .ok (.ok found, s') ∧
          (found.map Neighbor.data).Perm (List.range points.length) ∧
          (∀ neighbor ∈ found, ∃ point, points[neighbor.data]? = some point ∧
            squaredDistance point query = .ok neighbor.squaredDistance) ∧
          (found.map Neighbor.squaredDistance).Pairwise (· ≤ ·) ∧
          Exhaustive.sorted points query = .ok measured ∧
          measured.map Prod.snd = found.map Neighbor.squaredDistance ∧
          Exhaustive.nearest points query = .ok (found.head?.map Neighbor.squaredDistance) := by
  have hindexed : ∀ x ∈ KdTree.indexed points, x.2.length = dimension ∧ x.1 ≤ indexLimit := by
    intro x hx
    have hget := KdTree.mem_indexed_iff.mp hx
    have hlt : x.1 < points.length := (List.getElem?_eq_some_iff.mp hget).1
    exact ⟨hpoints x.2 (List.mem_of_getElem? hget), hlt.le.trans hcount⟩
  have hlength := KdTree.length_indexed points
  obtain ⟨t, o, hbuild, rfl, hallocated, ht, hperm⟩ :=
    KdTree.build_spans (β := β) selection treeId hpos hdim (by omega) hindexed
  obtain ⟨s₀, hmake, -, -⟩ := make_eq ht.represents ht.least ht.greatest searchId
  refine ⟨t, hbuild, ⟨s₀, hmake, .made hmake⟩, fun s query hmoment hquery => ?_⟩
  obtain ⟨visited, states, hsearch, htree, hvisited, hstates, hsorted⟩ :=
    exists_found ht.represents ht.least ht.greatest hmoment hquery
  obtain ⟨measured, hmeasured, hmeasuredPerm, hmeasuredSorted⟩ :=
    Exhaustive.sorted_eq hpoints hquery
  -- the nodes that were visited hold the points of the list, each once
  have hpoint : (visited.map Subtree.point).Perm
      (KdTree.pendings (KdTree.indexed points)) := by
    refine (hvisited.map Subtree.point).trans ?_
    rw [Outline.map_point_subtrees]
    exact hperm
  have hdistances : ((visited.map (neighborAt t query)).map Neighbor.squaredDistance).Perm
      (points.map fun point => distanceBetween t.dimension point query) := by
    have hmap := (hpoint.map Pending.position).map fun point =>
      distanceBetween t.dimension point query
    rw [KdTree.map_position_pendings_indexed, List.map_map, List.map_map] at hmap
    rw [List.map_map]
    exact hmap
  have horder : ((visited.map (neighborAt t query)).map Neighbor.squaredDistance).Pairwise
      (· ≤ ·) := by
    rw [List.map_map, List.pairwise_map]
    exact (hsorted inferInstance (admissible ht query)).imp fun h => Exact.isLE_compare_iff.mp h
  -- one neighbor more is asked for than there are, so that the last answer is `none`
  have htake : (states 0).take ((states 0).tree.nodes.allocated + 1) =
      .ok (visited.map (neighborAt t query), states (visited.length + 1)) := by
    have hcount' : 0 + (states 0).tree.nodes.allocated =
        (visited.map (neighborAt t query)).length := by
      rw [htree, List.length_map, hvisited.length_eq, ht.represents.length_subtrees, Nat.zero_add]
    have hnext := take_eq (fun k => (hstates k).1) 0 _ hcount'
    rwa [List.length_map, List.drop_zero] at hnext
  refine ⟨visited.map (neighborAt t query), states (visited.length + 1), measured, ?_, ?_, ?_,
    horder, hmeasured, ?_, ?_⟩
  · rw [searchAll, hsearch, ok_bind]
    dsimp only
    rw [htake]
    rfl
  · rw [List.map_map, ← KdTree.map_data_pendings_indexed]
    have hmap := hpoint.map Pending.data
    rwa [List.map_map] at hmap
  · intro neighbor hmem
    obtain ⟨x, hx, rfl⟩ := List.mem_map.mp hmem
    have hget := KdTree.mem_pendings_indexed_iff.mp (hpoint.mem_iff.mp (List.mem_map_of_mem hx))
    have hposition := ht.represents.length_position (hvisited.mem_iff.mp hx)
    refine ⟨x.point.position, hget, ?_⟩
    rw [squaredDistance_eq (by omega), hposition]
    rfl
  · -- in order there is only one arrangement of the same distances
    exact (hmeasuredPerm.trans hdistances.symm).eq_of_pairwise' hmeasuredSorted horder
  · rw [Exhaustive.nearest, Exhaustive.distances_eq hpoints hquery, ok_bind,
      Exhaustive.minimum?_eq_head? hdistances horder, List.head?_map]
    rfl

/-- Of `0`, `3` and `4` the point nearest to `2` comes first. -/
theorem searchAll_two_of_three :
    ∃ (t : KdTree (ExactCell ℚ) ℚ) (s s' : NeighborSearch (ExactCell ℚ) ℚ)
      (found : List (Neighbor ℚ)),
      KdTree.ofList .bySorting 0 1 [[0], [3], [4]] = pure t ∧ make 1 t = pure s ∧
      s.searchAll [2] = .ok (.ok found, s') ∧ (found.map Neighbor.data).Perm [0, 1, 2] ∧
      found.head?.map Neighbor.squaredDistance = some 1 := by
  have hpoints : ∀ point ∈ [[(0 : ℚ)], [3], [4]], point.length = 1 := by simp
  obtain ⟨t, hbuild, ⟨s, hmake, hmoment⟩, hsearch⟩ := searchAll_eq_exhaustive (β := ExactCell ℚ)
    .bySorting 0 1 (by decide : 0 < 1) (by decide) (by decide) hpoints
  obtain ⟨found, s', -, hall, hperm, -, -, -, -, hnearest⟩ := hsearch s [2] hmoment rfl
  refine ⟨t, s, s', found, hbuild, hmake, hall, hperm, ?_⟩
  rw [Exhaustive.nearest, Exhaustive.distances_eq hpoints rfl, ok_bind] at hnearest
  rw [← Except.ok.inj hnearest]
  simp only [List.map_cons, List.map_nil, Exact.distanceBetween_eq, Finset.sum_range_one,
    List.getD_cons_zero, Exhaustive.minimum?, List.foldl_cons, List.foldl_nil,
    Exact.isLE_compare_iff]
  norm_num

end NeighborSearch

end RecordPool
