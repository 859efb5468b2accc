/-
# What building can come to

Building a tree of points that do not fit ends in an error that names the
defect, and a tree that was built hands back every data index with its point.
The data indices are stored in their signed form, so that one beyond it cuts
the building short (`plant_of_large`); `build_outcomes` has all the cases.
-/
import RecordPool.Proofs.KdTree.Balance
import RecordPool.Double.Basic

namespace RecordPool

namespace KdTree

variable {β F : Type} [Memory β F]

/-! ## What a tree hands back -/

/-- The data index and the coordinates of every node, in the order of the
records. -/
def entries (t : KdTree β F) : Checked (List (RecordIndex × List F)) :=
  (List.range t.nodes.allocated).mapM fun i => do
    let node ← t.node i
    pure (← t.dataIndex node, ← t.coordinates node)

variable [Arithmetic F] {t : KdTree β F} {o : Outline F} {dimension depth : Nat}

/-- A stored tree hands back the points of its outline. -/
theorem Represents.entries_eq (h : t.Represents o) :
    t.entries = .ok (o.points.map fun item => (item.data, item.position)) := by
  have hstep : ∀ x ∈ o.subtrees 0, (do
      let node ← t.node x.index
      pure (← t.dataIndex node, ← t.coordinates node) : Checked (RecordIndex × List F)) =
        .ok (x.point.data, x.point.position) := by
    intro x hx
    have htells := h.tells hx
    rw [htells.node, ok_bind, htells.dataIndex, ok_bind, htells.coordinates]
    rfl
  rw [entries, ← h.indices, ← Outline.map_index_subtrees o 0, ← Outline.map_point_subtrees o 0,
    List.mapM_map, List.map_map]
  exact mapM_eq_ok hstep

/-- **What went in comes back.**  A tree of points whose data indices have a
signed form hands back each point with its data index. -/
theorem build_hands_back (selection : Selection) (id : PoolId) (hpos : 0 < dimension)
    (hdim : dimension < 2 ^ 28) {points : List (RecordIndex × List F)}
    (hcount : points.length ≤ indexLimit)
    (hpoints : ∀ x ∈ points, x.2.length = dimension ∧ x.1 ≤ indexLimit) :
    ∃ (t : KdTree β F) (handed : List (RecordIndex × List F)),
      build selection id dimension points = pure t ∧ t.entries = .ok handed ∧
        handed.Perm points := by
  obtain ⟨t, hbuild, -, -, ht, -, -⟩ :=
    build_eq (β := β) selection id hpos hdim hcount hpoints
  refine ⟨t, _, hbuild, ht.entries_eq, ?_⟩
  have hplan : (Outline.plan selection dimension 0 0 (pendings points)).points.Perm
      (pendings points) := Outline.points_plan
  have hperm := hplan.map fun item => (item.data, item.position)
  have hback : (pendings points).map (fun item => (item.data, item.position)) = points := by
    rw [pendings, List.map_map]
    exact List.map_id' points
  rwa [hback] at hperm

/-! ## Points of another dimension -/

/-- Gathering ends at the first point of another dimension. -/
theorem gather_of_mismatch {before after : List (RecordIndex × List F)}
    {x : RecordIndex × List F} (hbefore : ∀ y ∈ before, y.2.length = dimension)
    (hx : x.2.length ≠ dimension) :
    gather dimension (before ++ x :: after) = throw (.dimensionMismatch dimension x.2.length) := by
  have hgathered : gather dimension before = pure (pendings before) := gather_eq hbefore
  obtain ⟨data, point⟩ := x
  have hfound : HasCoordinates.dimension point ≠ dimension := hx
  unfold gather at hgathered ⊢
  rw [List.mapM_append, hgathered, pure_bind, List.mapM_cons]
  dsimp only
  rw [if_pos hfound]
  rfl

/-- No tree has zero dimensions, whatever its points. -/
theorem build_of_zero (selection : Selection) (id : PoolId)
    (points : List (RecordIndex × List F)) :
    (build selection id 0 points : ExceptT TreeError Checked (KdTree β F)) =
      throw .zeroDimensions := by
  rw [build, if_pos rfl]
  rfl

/-- Building reports the first point of another dimension. -/
theorem build_of_mismatch (selection : Selection) (id : PoolId) (hpos : 0 < dimension)
    {before after : List (RecordIndex × List F)} {x : RecordIndex × List F}
    (hbefore : ∀ y ∈ before, y.2.length = dimension) (hx : x.2.length ≠ dimension) :
    (build selection id dimension (before ++ x :: after) :
        ExceptT TreeError Checked (KdTree β F)) =
      throw (.dimensionMismatch dimension x.2.length) := by
  rw [build, if_neg (by omega), gather_of_mismatch hbefore hx]
  rfl

/-! ## Data indices beyond their signed form -/

/-- **Planting is cut short** at a data index that has no signed form, whatever
else the points are. -/
theorem plant_of_large (selection : Selection) (depth : Nat) {a : NodeAttributes} {p : Pool β}
    {items : List (Pending F)} (h : p.Sound) (hfull : p.free = [])
    (ha : a.Laid dimension p.layout.size) (hitems : ∀ x ∈ items, x.position.length = dimension)
    (hlarge : ∃ x ∈ items, indexLimit < x.data)
    (hroom : p.allocated + items.length ≤ p.store.capacity)
    (hsmall : p.allocated + items.length ≤ indexLimit + 1) :
    ∃ x ∈ items, indexLimit < x.data ∧
      (plant selection dimension a depth items p :
          ExceptT TreeError Checked (Option RecordIndex × Pool β)) =
        ExceptT.lift (violate (.indexTooLarge x.data)) := by
  induction hsize : items.length using Nat.strong_induction_on generalizing depth items p with
  | _ size ih =>
      have hne : items ≠ [] := by
        rintro rfl
        obtain ⟨x, hx, -⟩ := hlarge
        cases hx
      obtain ⟨item, hitem, hbefore, hafter, hperm⟩ := Outline.exists_arranged selection
        (Pending.compareOn (depth % dimension)) hne
      rw [plant_of_arranged hne rfl hitem]
      set arranged := selection.select (Pending.compareOn (depth % dimension)) items
        (items.length / 2) with harranged
      set before := arranged.take (items.length / 2) with hdefBefore
      set after := arranged.drop (items.length / 2 + 1) with hdefAfter
      have hmem : ∀ x, x ∈ before ++ item :: after ↔ x ∈ items := fun x => hperm.mem_iff
      have hitemMem : item ∈ items := (hmem item).mp (by simp)
      have hbeforeMem : ∀ x ∈ before, x ∈ items :=
        fun x hx => (hmem x).mp (List.mem_append_left _ hx)
      have hafterMem : ∀ x ∈ after, x ∈ items :=
        fun x hx => (hmem x).mp (List.mem_append_right _ (List.mem_cons_of_mem _ hx))
      -- the first large index in preorder is the node's own, one on its left, or one on its right
      by_cases hitemLarge : indexLimit < item.data
      · refine ⟨item, hitemMem, hitemLarge, ?_⟩
        rw [createNode_of_large h hfull ha (by omega) (hitems item hitemMem) hitemLarge]
        rfl
      obtain ⟨p₁, hcreate, h₁, -⟩ := createNode_eq h hfull ha (by omega)
        (hitems item hitemMem) (Nat.not_lt.mp hitemLarge) (depth % dimension)
      have hallocated₁ := h₁.allocated
      have hcapacity₁ := h₁.capacity_le
      have ha₁ : a.Laid dimension p₁.layout.size := h₁.layout ▸ ha
      by_cases hbeforeLarge : ∃ x ∈ before, indexLimit < x.data
      · obtain ⟨x, hx, hxLarge, hplant⟩ := ih _ (by omega) (depth + 1) h₁.sound h₁.full ha₁
          (fun x hx => hitems x (hbeforeMem x hx)) hbeforeLarge (by omega) (by omega) rfl
        refine ⟨x, hbeforeMem x hx, hxLarge, ?_⟩
        rw [hcreate, pure_bind]
        dsimp only
        rw [hplant]
        rfl
      have hfit : Fitting dimension before := fun x hx =>
        ⟨hitems x (hbeforeMem x hx), Nat.not_lt.mp fun hlt => hbeforeLarge ⟨x, hx, hlt⟩⟩
      obtain ⟨p₂, hplant₂, h₂, -⟩ := plant_eq selection (depth + 1) h₁.sound h₁.full ha₁ hfit
        (by omega) (by omega)
      have hallocated₂ := h₂.allocated
      have hcapacity₂ := h₂.capacity_le
      have hafterLarge : ∃ x ∈ after, indexLimit < x.data := by
        obtain ⟨x, hx, hxLarge⟩ := hlarge
        rcases List.mem_append.mp ((hmem x).mpr hx) with hx | hx
        · exact absurd ⟨x, hx, hxLarge⟩ hbeforeLarge
        · rcases List.mem_cons.mp hx with rfl | hx
          · exact absurd hxLarge hitemLarge
          · exact ⟨x, hx, hxLarge⟩
      obtain ⟨x, hx, hxLarge, hplant⟩ := ih _ (by omega) (depth + 1) h₂.sound h₂.full
        (h₂.layout ▸ ha₁) (fun x hx => hitems x (hafterMem x hx)) hafterLarge (by omega)
        (by omega) rfl
      refine ⟨x, hafterMem x hx, hxLarge, ?_⟩
      rw [hcreate, pure_bind]
      dsimp only
      rw [hplant₂, pure_bind]
      dsimp only
      rw [hplant]
      rfl

/-- Building is cut short at a data index that has no signed form. -/
theorem build_of_large (selection : Selection) (id : PoolId) (hpos : 0 < dimension)
    (hdim : dimension < 2 ^ 28) {points : List (RecordIndex × List F)}
    (hcount : points.length ≤ indexLimit) (hpoints : ∀ x ∈ points, x.2.length = dimension)
    (hlarge : ∃ x ∈ points, indexLimit < x.1) :
    ∃ x ∈ points, indexLimit < x.1 ∧
      (build selection id dimension points : ExceptT TreeError Checked (KdTree β F)) =
        ExceptT.lift (violate (.indexTooLarge x.1)) := by
  have hlength : (pendings points).length = points.length := List.length_map _
  obtain ⟨a, p, hmake, ha, hsound, -, hfree, hallocated, hroom⟩ :=
    makeNodes_eq (β := β) id hpos hdim hcount
  have hitems : ∀ item ∈ pendings points, item.position.length = dimension := by
    intro item hitem
    obtain ⟨x, hx, rfl⟩ := List.mem_map.mp hitem
    exact hpoints x hx
  have hlarge' : ∃ item ∈ pendings points, indexLimit < item.data := by
    obtain ⟨x, hx, hxLarge⟩ := hlarge
    exact ⟨⟨x.1, x.2⟩, List.mem_map_of_mem hx, hxLarge⟩
  obtain ⟨item, hitem, hitemLarge, hplant⟩ := plant_of_large selection 0 hsound hfree ha hitems
    hlarge' (by omega) (by omega)
  obtain ⟨x, hx, rfl⟩ := List.mem_map.mp hitem
  refine ⟨x, hx, hitemLarge, ?_⟩
  rw [build, if_neg (by omega), gather_eq hpoints, pure_bind, if_neg (by omega), hlength, hmake,
    pure_bind]
  dsimp only
  rw [hplant]
  rfl

/-! ## Trees that were built -/

/-- What was gathered has the dimension that was asked for. -/
theorem length_of_gather {P : Type} [HasCoordinates P F] [LawfulCoordinates P F]
    {points : List (RecordIndex × P)} {items : List (Pending F)}
    (hgather : gather dimension points = pure items) :
    ∀ item ∈ items, item.position.length = dimension := by
  unfold gather at hgather
  induction points generalizing items with
  | nil =>
      rw [List.mapM_nil] at hgather
      cases hgather
      exact fun item hitem => absurd hitem List.not_mem_nil
  | cons x points ih =>
      rw [List.mapM_cons] at hgather
      obtain ⟨item, hitem, hrest⟩ := bind_eq_pure_iff.mp hgather
      obtain ⟨items', hitems', hput⟩ := bind_eq_pure_iff.mp hrest
      cases hput
      refine List.forall_mem_cons.mpr ⟨?_, ih hitems'⟩
      obtain ⟨data, point⟩ := x
      by_cases hfound : HasCoordinates.dimension point = dimension
      · dsimp only at hitem
        rw [if_neg (not_not_intro hfound)] at hitem
        obtain ⟨values, hcopy, hput⟩ := bind_eq_pure_iff.mp hitem
        cases hput
        have hblank : (List.replicate dimension (Arithmetic.zero : F)).length =
            HasCoordinates.dimension point := by
          rw [List.length_replicate, hfound]
        rw [LawfulCoordinates.length_of_copyInto point hblank (eq_ok_of_lift hcopy),
          List.length_replicate]
      · dsimp only at hitem
        rw [if_pos hfound] at hitem
        cases hitem

/-- A tree that was built is one of gathered points, whose number and whose data
indices have a signed form; its nodes were planted in a new pool. -/
theorem exists_planted_of_build {P : Type} [HasCoordinates P F] [LawfulCoordinates P F]
    {selection : Selection} {id : PoolId} (hdim : dimension < 2 ^ 28)
    {points : List (RecordIndex × P)} (hbuild : build selection id dimension points = pure t) :
    0 < dimension ∧ ∃ (items : List (Pending F)) (a : NodeAttributes) (p : Pool β),
      gather dimension points = pure items ∧ items.length ≤ indexLimit ∧ Fitting dimension items ∧
      makeNodes id dimension items.length = pure (a, p) ∧
      plant selection dimension a 0 items p = pure (t.root, t.nodes) := by
  have hpos : 0 < dimension := by
    by_contra hzero
    rw [build, if_pos (by omega)] at hbuild
    cases hbuild
  rw [build, if_neg (by omega)] at hbuild
  obtain ⟨items, hgather, hbuild⟩ := bind_eq_pure_iff.mp hbuild
  have hcount : items.length ≤ indexLimit := by
    by_contra hlarge
    rw [if_pos (by omega)] at hbuild
    cases hbuild
  rw [if_neg (by omega)] at hbuild
  obtain ⟨⟨a, p⟩, hmake, hbuild⟩ := bind_eq_pure_iff.mp hbuild
  obtain ⟨⟨root, p'⟩, hplant, hput⟩ := bind_eq_pure_iff.mp hbuild
  cases hput
  obtain ⟨a₁, p₁, hmake₁, ha, hsound, -, hfree, hallocated, hroom⟩ :=
    makeNodes_eq (β := β) id hpos hdim hcount
  cases hmake.symm.trans hmake₁
  have hlength := length_of_gather hgather
  refine ⟨hpos, items, a, p, hgather, hcount, fun item hitem => ⟨hlength item hitem, ?_⟩, hmake,
    hplant⟩
  -- a data index beyond its signed form would have cut the planting short
  by_contra hlarge
  obtain ⟨x, -, -, hcut⟩ := plant_of_large selection 0 hsound hfree ha hlength
    ⟨item, hitem, Nat.not_le.mp hlarge⟩ (by omega) (by omega)
  rw [hcut] at hplant
  cases hplant

/-! ## All cases -/

/-- **What building comes to.**  Zero dimensions are an error, and so is the
first point of another dimension than the tree.  Otherwise everything depends on
the data indices: when all of them have a signed form there is a tree, which
hands back each point with its data index, and when one has none the building is
cut short. -/
theorem build_outcomes (selection : Selection) (id : PoolId) {dimension : Nat}
    (hdim : dimension < 2 ^ 28) {points : List (RecordIndex × List F)}
    (hcount : points.length ≤ indexLimit) :
    (dimension = 0 →
      (build selection id dimension points : ExceptT TreeError Checked (KdTree β F)) =
        throw .zeroDimensions) ∧
    (0 < dimension → ∀ before x after, points = before ++ x :: after →
      (∀ y ∈ before, y.2.length = dimension) → x.2.length ≠ dimension →
      (build selection id dimension points : ExceptT TreeError Checked (KdTree β F)) =
        throw (.dimensionMismatch dimension x.2.length)) ∧
    (0 < dimension → (∀ x ∈ points, x.2.length = dimension) →
      ((∀ x ∈ points, x.1 ≤ indexLimit) →
        ∃ (t : KdTree β F) (handed : List (RecordIndex × List F)),
          build selection id dimension points = pure t ∧ t.entries = .ok handed ∧
            handed.Perm points) ∧
      ((∃ x ∈ points, indexLimit < x.1) →
        ∃ x ∈ points, indexLimit < x.1 ∧
          (build selection id dimension points : ExceptT TreeError Checked (KdTree β F)) =
            ExceptT.lift (violate (.indexTooLarge x.1)))) := by
  refine ⟨?_, ?_, fun hpos hpoints => ⟨?_, ?_⟩⟩
  · rintro rfl
    exact build_of_zero selection id points
  · rintro hpos before x after rfl hbefore hx
    exact build_of_mismatch selection id hpos hbefore hx
  · intro hsigned
    exact build_hands_back selection id hpos hdim hcount fun x hx => ⟨hpoints x hx, hsigned x hx⟩
  · intro hlarge
    exact build_of_large selection id hpos hdim hcount hpoints hlarge

/-- Two points share the largest data index that has a signed form, and both
come back with it. -/
theorem build_of_largest_signed_index :
    ∃ (t : KdTree UInt8 Double) (handed : List (RecordIndex × List Double)),
      build .bySorting 0 1 [(2147483647, [Double.zero]), (2147483647, [Double.infinity])] =
        pure t ∧ t.entries = .ok handed ∧
      handed.Perm [(2147483647, [Double.zero]), (2147483647, [Double.infinity])] :=
  ((build_outcomes .bySorting 0 (by decide) (by decide)).2.2 (by decide) (by decide)).1 (by decide)

/-- A data index that is no signed number is a record index all the same, but a
single point with it is neither built into a tree nor reported in an error. -/
theorem no_outcome_of_unsigned_index :
    2147483648 < countBound ∧
    (build .bySorting 0 1 [(2147483648, [Double.zero])] :
        ExceptT TreeError Checked (KdTree UInt8 Double)) =
      ExceptT.lift (violate (.indexTooLarge 2147483648)) ∧
    (∀ t : KdTree UInt8 Double,
      build .bySorting 0 1 [(2147483648, [Double.zero])] ≠ pure t) ∧
    ∀ error : TreeError, (build .bySorting 0 1 [(2147483648, [Double.zero])] :
      ExceptT TreeError Checked (KdTree UInt8 Double)) ≠ throw error := by
  have hlarge : ∃ x ∈ [((2147483648 : RecordIndex), [Double.zero])], indexLimit < x.1 := by
    decide
  obtain ⟨x, hx, -, hbuild⟩ := build_of_large (β := UInt8) .bySorting 0 (by decide : 0 < 1)
    (by decide) (by decide) (by decide) hlarge
  cases List.mem_singleton.mp hx
  refine ⟨by decide, hbuild, fun t h => ?_, fun error h => ?_⟩
  · rw [hbuild] at h
    cases h
  · rw [hbuild] at h
    cases h

end KdTree

end RecordPool
