/-
# Trees of the points in a pool

A tree made from a pool of points is the tree of the points that the pool
holds, by ascending index, however points were added, overwritten and taken
back before.  A search over it finds each of them once.
-/
import RecordPool.Double.Basic
import RecordPool.Proofs.Pool.PointPools
import RecordPool.Proofs.Search.Completeness

namespace RecordPool

variable {β F : Type} [Memory β F] [Arithmetic F]

/-! ## The tree of a pool -/

/-- The points listed by a pool are those that a tree can be built of. -/
theorem PointPool.Holds.exists_ofPoints {points : PointPool β} {dimension : Nat}
    {positions : RecordIndex → Option (List F)} (h : points.Holds dimension positions)
    (selection : Selection) (id : PoolId) :
    ∃ live : List (RecordIndex × List F), live.Pairwise (fun a b => a.1 < b.1) ∧
      (∀ i x, (i, x) ∈ live ↔ positions i = some x) ∧ live.length ≤ indexLimit ∧
      (∀ x ∈ live, x.2.length = dimension ∧ x.1 ≤ indexLimit) ∧
      (KdTree.ofPoints selection id points : ExceptT TreeError Checked (KdTree β F)) =
        KdTree.build selection id dimension live := by
  obtain ⟨live, hlist, hsorted, hmem, hlength⟩ := h.exists_toList
  refine ⟨live, hsorted, hmem, hlength.trans h.allocated_le, ?_, ?_⟩
  · rintro ⟨i, x⟩ hx
    obtain ⟨hlive, hdimension⟩ := h.length_of_some ((hmem i x).mp hx)
    have hlt := h.sound.lt_allocated hlive
    have hle := h.allocated_le
    exact ⟨hdimension, (hlt.trans_le hle).le⟩
  · rw [KdTree.ofPoints, hlist, lift_ok, pure_bind, h.dimension_eq]

namespace NeighborSearch

/-! ## Searching it -/

omit [Arithmetic F] in
/-- A list with one entry for each index at which a position is held has every
such index once among its indices, and no other one. -/
theorem count_map_fst {live : List (RecordIndex × List F)}
    {positions : RecordIndex → Option (List F)} (hsorted : live.Pairwise fun a b => a.1 < b.1)
    (hmem : ∀ i x, (i, x) ∈ live ↔ positions i = some x) (i : RecordIndex) :
    (live.map Prod.fst).count i = if (positions i).isSome then 1 else 0 := by
  have hnodup : (live.map Prod.fst).Nodup := by
    rw [List.Nodup, List.pairwise_map]
    exact hsorted.imp fun hlt => Nat.ne_of_lt hlt
  cases hposition : positions i with
  | none =>
      apply List.count_eq_zero_of_not_mem
      rw [List.mem_map]
      rintro ⟨⟨j, x⟩, hx, rfl⟩
      rw [(hmem j x).mp hx] at hposition
      cases hposition
  | some x =>
      apply List.count_eq_one_of_mem hnodup
      exact List.mem_map_of_mem (f := Prod.fst) ((hmem i x).mpr hposition)

/-- **Trees from pools see the live points.**  Let points be added to a new pool,
overwritten and taken back in any order.  Then making a tree from the pool
succeeds, and it is the very tree that is built of the points in use by
ascending index, each in the position it was last given.  A full search over
the tree, whatever was searched before, yields the index of each point in use
exactly once, and no other index. -/
theorem tree_of_points_sees_live_points (selection : Selection) (poolId treeId searchId : PoolId)
    {dimension initial : Nat} (hpos : 0 < dimension) (hdim : dimension < 2 ^ 28)
    (hinitial : initial ≤ indexLimit) :
    ∃ empty : PointPool β, PointPool.make poolId dimension initial = pure empty ∧
      ∀ (changes : List (PointChange F)) (points : PointPool β), empty.Runs changes points →
        ∃ (live : List (RecordIndex × List F)) (t : KdTree β F),
          live.Pairwise (fun a b => a.1 < b.1) ∧
          (∀ i x, (i, x) ∈ live ↔ PointChange.latest changes i = some x) ∧
          KdTree.ofPoints selection treeId points = pure t ∧
          KdTree.build selection treeId dimension live = pure t ∧
          (∃ s, make searchId t = pure s ∧ Moment t .resting s) ∧
          ∀ (s : NeighborSearch β F) (query : List F), Moment t .resting s →
            query.length = dimension →
            ∃ (found : List (Neighbor F)) (states : Nat → NeighborSearch β F),
              s.search query = .ok (.ok (), states 0) ∧
              (∀ k, (states k).next = .ok (found[k]?, states (k + 1)) ∧
                (states k).hasNext = found[k]?.isSome) ∧
              ∀ i, (found.map Neighbor.data).count i =
                if (PointChange.latest changes i).isSome then 1 else 0 := by
  obtain ⟨empty, hempty, hholds⟩ :=
    PointPool.make_eq (β := β) (F := F) poolId hpos hdim hinitial
  refine ⟨empty, hempty, fun changes points hruns => ?_⟩
  obtain ⟨live, hsorted, hmem, hcount, hfit, htree⟩ :=
    (hholds.runs hruns).exists_ofPoints selection treeId
  obtain ⟨t, hbuild, rfl, -, ht, hleast, hgreatest⟩ :=
    KdTree.build_eq (β := β) selection treeId hpos hdim hcount hfit
  have hleast' : t.least.length = t.dimension := by
    rw [hleast, KdTree.length_extremes]
  have hgreatest' : t.greatest.length = t.dimension := by
    rw [hgreatest, KdTree.length_extremes]
  obtain ⟨s, hmake, -, -⟩ := make_eq ht hleast' hgreatest' searchId
  refine ⟨live, t, hsorted, hmem, htree.trans hbuild, hbuild, ⟨s, hmake, .made hmake⟩, ?_⟩
  intro s query hmoment hquery
  obtain ⟨found, states, hsearch, -, hperm, hstates, -⟩ :=
    exists_found ht hleast' hgreatest' hmoment hquery
  refine ⟨found.map (neighborAt t query), states, hsearch, fun k => ⟨(hstates k).1, ?_⟩, ?_⟩
  · rw [(hstates k).2, List.getElem?_map, Option.isSome_map]
  · intro i
    -- the nodes found have the points of the plan, and those are the live ones
    have hplan : (Outline.plan selection t.dimension 0 0 (KdTree.pendings live)).points.Perm
        (KdTree.pendings live) := Outline.points_plan
    have hdata : ((found.map (neighborAt t query)).map Neighbor.data).Perm (live.map Prod.fst) := by
      have hfound := hperm.map Subtree.point
      rw [Outline.map_point_subtrees] at hfound
      have hboth := (hfound.trans hplan).map Pending.data
      rw [KdTree.pendings, List.map_map, List.map_map] at hboth
      rw [List.map_map]
      exact hboth
    rw [hdata.count_eq, count_map_fst hsorted hmem]

/-- A pool of points on a line with memory for two of them. -/
def pairPool (first second : Double) (free : List RecordIndex) (live : Array Bool)
    (generations : Array UInt32) : PointPool UInt8 :=
  ⟨1, ⟨0, PointPool.pointLayout 1,
    ⟨#[⟨(Memory.ofReal first ++ Memory.ofReal second).toArray, 8⟩], 8, none, 0, 0, 2, indexLimit,
      0⟩, .keep, live.size, free, live, generations, 0, []⟩, ⟨0, 0, 1⟩⟩

/-- The first of two points is taken back, a third one reuses its slot, and the
second one is moved: the tree has the third point and the second one where it
is now. -/
theorem tree_of_points_after_reuse :
    ∃ (points : PointPool UInt8) (live : List (RecordIndex × List Double))
      (t : KdTree UInt8 Double) (s : NeighborSearch UInt8 Double) (found : List (Neighbor Double))
      (states : Nat → NeighborSearch UInt8 Double),
      (pairPool .zero .zero [] #[] #[]).Runs [.added 0 [.zero], .added 1 [.infinity], .removed 0,
        .added 0 [.indefinite], .filled 1 [.zero]] points ∧
      (0, [.indefinite]) ∈ live ∧ (1, [.zero]) ∈ live ∧ (1, [.infinity]) ∉ live ∧
      KdTree.ofPoints .bySorting 1 points = pure t ∧ KdTree.build .bySorting 1 1 live = pure t ∧
      make 2 t = pure s ∧ s.search [.infinity] = .ok (.ok (), states 0) ∧
      (∀ k, (states k).next = .ok (found[k]?, states (k + 1))) ∧
      (found.map Neighbor.data).count 0 = 1 ∧ (found.map Neighbor.data).count 1 = 1 ∧
      (found.map Neighbor.data).count 2 = 0 := by
  have hmake : PointPool.make 0 1 2 = pure (pairPool .zero .zero [] #[] #[]) :=
    PointPool.make_of_pool (by decide) (by decide) rfl
  have hfirst : (pairPool .zero .zero [] #[] #[]).add (.unpointed 0) [Double.zero] =
      .ok (0, pairPool .zero .zero [] #[true] #[0], ⟨0, some ⟨0, 0, 0⟩⟩) := rfl
  have hsecond : (pairPool .zero .zero [] #[true] #[0]).add (.unpointed 0) [Double.infinity] =
      .ok (1, pairPool .zero .infinity [] #[true, true] #[0, 0], ⟨0, some ⟨1, 0, 0⟩⟩) := rfl
  have hrequire : (pairPool .zero .infinity [] #[true, true] #[0, 0]).pool.require
      ⟨0, some ⟨0, 0, 0⟩⟩ = .ok 0 := rfl
  have hdelete : (pairPool .zero .infinity [] #[true, true] #[0, 0]).delete
      ⟨0, some ⟨0, 0, 0⟩⟩ = .ok (pairPool .zero .infinity [0] #[false, true] #[1, 0]) := rfl
  have hthird : (pairPool .zero .infinity [0] #[false, true] #[1, 0]).add (.unpointed 0)
      [Double.indefinite] = .ok (0, pairPool .indefinite .infinity [] #[true, true] #[1, 0],
        ⟨0, some ⟨0, 1, 0⟩⟩) := rfl
  have hrequire' : (pairPool .indefinite .infinity [] #[true, true] #[1, 0]).pool.require
      ⟨0, some ⟨1, 0, 0⟩⟩ = .ok 1 := rfl
  have hfill : (pairPool .indefinite .infinity [] #[true, true] #[1, 0]).fill
      ⟨0, some ⟨1, 0, 0⟩⟩ [Double.zero] =
      .ok (pairPool .indefinite .zero [] #[true, true] #[1, 0]) := rfl
  have hruns := ((((PointPool.Runs.start.step (.add (positionOf_list _) hfirst)).step
    (.add (positionOf_list _) hsecond)).step (.delete hrequire hdelete)).step
    (.add (positionOf_list _) hthird)).step (.fill (positionOf_list _) hrequire' hfill)
  obtain ⟨empty, hempty, htrees⟩ := tree_of_points_sees_live_points (β := UInt8) (F := Double)
    .bySorting 0 1 2 (by decide : 0 < 1) (by decide) (by decide : 2 ≤ indexLimit)
  obtain rfl : empty = pairPool .zero .zero [] #[] #[] :=
    Except.ok.inj (Except.ok.inj (hempty.symm.trans hmake))
  obtain ⟨live, t, -, hlive, htree, hbuild, ⟨s, hsearcher, hmoment⟩, hsearch⟩ := htrees _ _ hruns
  obtain ⟨found, states, hstart, hstates, hcount⟩ := hsearch s [.infinity] hmoment rfl
  refine ⟨_, live, t, s, found, states, hruns, (hlive 0 _).mpr rfl, (hlive 1 _).mpr rfl, ?_, htree,
    hbuild, hsearcher, hstart, fun k => (hstates k).1, hcount 0, hcount 1, hcount 2⟩
  intro hmem
  have hmoved := (hlive 1 _).mp hmem
  revert hmoved
  decide

end NeighborSearch

end RecordPool
