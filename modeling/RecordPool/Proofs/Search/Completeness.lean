/-
# Completeness of searches

A search yields every node of its tree exactly once and then nothing more, for
any coordinates, comparisons and arithmetic: that the distances make sense is
needed for the order of the neighbors only.
-/
import RecordPool.Proofs.KdTree.Planting
import RecordPool.Proofs.Search.Moments

namespace RecordPool

namespace NeighborSearch

variable {β F : Type} [Memory β F] [Arithmetic F]

variable {t : KdTree β F} {o : Outline F} {s : NeighborSearch β F} {query : List F}

/-- The neighbor at a node has the data index and the distance of the node. -/
theorem neighborAt_spec (h : t.Represents o) (hquery : query.length = t.dimension) {x : Subtree F}
    (hx : x ∈ o.subtrees 0) :
    ∃ node, t.node (neighborAt t query x).node = .ok node ∧
      t.dataIndex node = .ok (neighborAt t query x).data ∧
      t.squaredDistanceTo node query = .ok (neighborAt t query x).squaredDistance :=
  ⟨t.nodes.referenceTo x.index, h.node_eq (h.storedIn hx), h.dataIndex_eq (h.storedIn hx),
    h.squaredDistanceTo_eq (h.storedIn hx) hquery⟩

/-- **A search over a stored tree yields each of its nodes once**, wherever the
searches before it were left. -/
theorem exists_found (h : t.Represents o) (hleast : t.least.length = t.dimension)
    (hgreatest : t.greatest.length = t.dimension) (hmoment : Moment t .resting s)
    (hquery : query.length = t.dimension) :
    ∃ (found : List (Subtree F)) (states : Nat → NeighborSearch β F),
      s.search query = .ok (.ok (), states 0) ∧ (states 0).tree = t ∧
      found.Perm (o.subtrees 0) ∧
      (∀ k, (states k).next = .ok ((found.map (neighborAt t query))[k]?, states (k + 1)) ∧
        (states k).hasNext = found[k]?.isSome) ∧
      (Std.TransCmp (Arithmetic.compare (F := F)) → Admissible t query o →
        found.Pairwise fun x y =>
          (Arithmetic.compare (pointDistance t query x) (pointDistance t query y)).isLE) := by
  obtain ⟨rfl, outside, items, hs⟩ := hmoment.consistent h hleast hgreatest
  obtain ⟨s₀, items₀, hsearch, htree, hquery₀, h₀, -⟩ := search_eq hs.toServes hquery
  obtain ⟨found, states, hstart, hperm, hstates, hsorted⟩ := h₀.exists_yields
  rw [htree, hquery₀] at hstates hsorted
  exact ⟨found, states, by rw [hsearch, hstart], by rw [hstart, htree], hperm.trans h₀.visits,
    hstates, hsorted⟩

/-- A search over a stored tree yields as many neighbors as there are nodes,
each announced by `hasNext`, and then none. -/
theorem exists_neighbors (h : t.Represents o) (hleast : t.least.length = t.dimension)
    (hgreatest : t.greatest.length = t.dimension) (hmoment : Moment t .resting s)
    (hquery : query.length = t.dimension) :
    ∃ (found : List (Neighbor F)) (states : Nat → NeighborSearch β F),
      s.search query = .ok (.ok (), states 0) ∧ found.length = t.nodes.allocated ∧
      ∀ k, (states k).next = .ok (found[k]?, states (k + 1)) ∧
        (states k).hasNext = found[k]?.isSome := by
  obtain ⟨visited, states, hsearch, -, hperm, hstates, -⟩ :=
    exists_found h hleast hgreatest hmoment hquery
  refine ⟨visited.map (neighborAt t query), states, hsearch, ?_, fun k => ⟨(hstates k).1, ?_⟩⟩
  · rw [List.length_map, hperm.length_eq, h.length_subtrees]
  · rw [(hstates k).2, List.getElem?_map, Option.isSome_map]

/-- **Searches are complete.**  Building a tree of points of one dimension
succeeds, and so does searching it, whatever was searched before: as many
neighbors come as there are points, each announced by `hasNext`, and then none.
Their nodes are all nodes of the tree, and each has the data index of its node
and the very distance that the tree measures. -/
theorem search_yields_every_node (selection : Selection) (treeId searchId : PoolId)
    {dimension : Nat} (hpos : 0 < dimension) (hdim : dimension < 2 ^ 28)
    {points : List (RecordIndex × List F)} (hcount : points.length ≤ indexLimit)
    (hpoints : ∀ x ∈ points, x.2.length = dimension ∧ x.1 ≤ indexLimit) :
    ∃ t : KdTree β F, KdTree.build selection treeId dimension points = pure t ∧
      (∀ i, t.nodes.IsLive i ↔ i < points.length) ∧
      (∃ s, make searchId t = pure s ∧ Moment t .resting s) ∧
      ∀ (s : NeighborSearch β F) (query : List F), Moment t .resting s → query.length = dimension →
        ∃ (found : List (Neighbor F)) (states : Nat → NeighborSearch β F),
          s.search query = .ok (.ok (), states 0) ∧ found.length = points.length ∧
          (∀ k, (states k).next = .ok (found[k]?, states (k + 1)) ∧
            (states k).hasNext = found[k]?.isSome) ∧
          (found.map Neighbor.node).Perm (List.range points.length) ∧
          ∀ neighbor ∈ found, ∃ node, t.node neighbor.node = .ok node ∧
            t.dataIndex node = .ok neighbor.data ∧
            t.squaredDistanceTo node query = .ok neighbor.squaredDistance := by
  obtain ⟨t, hbuild, rfl, hallocated, ht, hleast, hgreatest⟩ :=
    KdTree.build_eq (β := β) selection treeId hpos hdim hcount hpoints
  have hleast' : t.least.length = t.dimension := by
    rw [hleast, KdTree.extremes, List.length_map, List.length_range]
  have hgreatest' : t.greatest.length = t.dimension := by
    rw [hgreatest, KdTree.extremes, List.length_map, List.length_range]
  obtain ⟨s, hmake, -, -⟩ := make_eq ht hleast' hgreatest' searchId
  refine ⟨t, hbuild, fun i => by rw [ht.isLive_iff, hallocated], ⟨s, hmake, .made hmake⟩, ?_⟩
  intro s query hmoment hquery
  obtain ⟨found, states, hsearch, -, hperm, hstates, -⟩ :=
    exists_found ht hleast' hgreatest' hmoment hquery
  have hlength : found.length = points.length := by
    rw [hperm.length_eq, ht.length_subtrees, hallocated]
  refine ⟨found.map (neighborAt t query), states, hsearch, ?_, fun k => ⟨(hstates k).1, ?_⟩, ?_, ?_⟩
  · rw [List.length_map, hlength]
  · rw [(hstates k).2, List.getElem?_map, Option.isSome_map]
  · rw [List.map_map, ← hallocated, ← ht.indices, ← Outline.map_index_subtrees _ 0]
    exact hperm.map _
  · intro neighbor hmem
    obtain ⟨x, hx, rfl⟩ := List.mem_map.mp hmem
    exact neighborAt_spec ht hquery (hperm.mem_iff.mp hx)

/-- Two points, one of them not a number, are found in turn. -/
theorem search_yields_zero_and_nan :
    ∃ (t : KdTree UInt8 Double) (s : NeighborSearch UInt8 Double)
      (found : List (Neighbor Double)) (states : Nat → NeighborSearch UInt8 Double),
      KdTree.build .bySorting 0 1 [(0, [Double.zero]), (7, [Double.indefinite])] = pure t ∧
      make 1 t = pure s ∧ s.search [Double.infinity] = .ok (.ok (), states 0) ∧
      found.length = 2 ∧ (∀ k, (states k).next = .ok (found[k]?, states (k + 1))) ∧
      (found.map Neighbor.node).Perm [0, 1] := by
  obtain ⟨t, hbuild, -, ⟨s, hmake, hmoment⟩, hsearch⟩ :=
    search_yields_every_node (β := UInt8) .bySorting 0 1 (by decide : 0 < 1) (by decide)
      (by decide : [(0, [Double.zero]), (7, [Double.indefinite])].length ≤ indexLimit) (by decide)
  obtain ⟨found, states, hbegin, hlength, hnext, hperm, -⟩ :=
    hsearch s [Double.infinity] hmoment rfl
  exact ⟨t, s, found, states, hbuild, hmake, hbegin, hlength, fun k => (hnext k).1, hperm⟩

end NeighborSearch

end RecordPool
