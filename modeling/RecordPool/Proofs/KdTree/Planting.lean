/-
# Planting trees

Building a tree writes the planned outline into its node pool, cell by cell:
`plant_eq` follows the recursion of the plan, and `build_of_gather` adds the
fresh pool and the extent.
-/
import RecordPool.Proofs.KdTree.Stored

namespace RecordPool

variable {β F : Type} [Memory β F]

/-! ## Points with data indices -/

namespace KdTree

/-- The points that a list of points and data indices stands for. -/
def pendings (points : List (RecordIndex × List F)) : List (Pending F) :=
  points.map fun x => ⟨x.1, x.2⟩

/-- The points of a list with their positions as data indices. -/
def indexed (points : List (List F)) : List (RecordIndex × List F) :=
  points.zipIdx.map fun (point, i) => (i, point)

@[simp] theorem length_indexed (points : List (List F)) :
    (indexed points).length = points.length := by
  rw [indexed, List.length_map, List.length_zipIdx]

theorem mem_indexed_iff {points : List (List F)} {x : RecordIndex × List F} :
    x ∈ indexed points ↔ points[x.1]? = some x.2 := by
  unfold indexed
  rw [List.mem_map]
  constructor
  · rintro ⟨⟨point, i⟩, hmem, rfl⟩
    exact List.mem_zipIdx_iff_getElem?.mp hmem
  · intro h
    exact ⟨(x.2, x.1), List.mem_zipIdx_iff_getElem?.mpr h, rfl⟩

/-- Each position of the list stands for the point there. -/
theorem mem_pendings_indexed_iff {points : List (List F)} {x : Pending F} :
    x ∈ pendings (indexed points) ↔ points[x.data]? = some x.position := by
  unfold pendings
  rw [List.mem_map]
  constructor
  · rintro ⟨y, hmem, rfl⟩
    exact mem_indexed_iff.mp hmem
  · intro h
    exact ⟨(x.data, x.position), mem_indexed_iff.mpr h, rfl⟩

/-- The data indices are all positions. -/
theorem map_data_pendings_indexed (points : List (List F)) :
    (pendings (indexed points)).map Pending.data = List.range points.length := by
  unfold pendings indexed
  rw [List.map_map, List.map_map, List.range_eq_range']
  exact List.zipIdx_map_snd 0 points

/-- The coordinates are those of the points. -/
theorem map_position_pendings_indexed (points : List (List F)) :
    (pendings (indexed points)).map Pending.position = points := by
  unfold pendings indexed
  rw [List.map_map, List.map_map]
  exact List.zipIdx_map_fst 0 points

/-! ## Planting -/

variable {selection : Selection} {dimension depth : Nat} {a : NodeAttributes} {p : Pool β}
  {items : List (Pending F)}

/-- A node created before its two subtrees receives them as children; with
them it is written. -/
theorem exists_attached {p₂ p₃ : Pool β} {count i : Nat} {item : Pending F}
    {left right : Outline F} (h₃ : p₂.Appends count p₃) (ha : a.Laid dimension p₃.layout.size)
    (hsmall : p₃.allocated ≤ indexLimit + 1) (h₂ : p₂.Sound) (hi : i < p₂.allocated)
    (hitem : item.position.length = dimension ∧ item.data ≤ indexLimit)
    (hleft : left.WrittenIn dimension p₂ (depth + 1))
    (hleftIndices : ∀ j ∈ left.indices, i < j ∧ j < p₂.allocated)
    (hright : right.WrittenIn dimension p₃ (depth + 1))
    (hrightIndices : ∀ j ∈ right.indices, i < j)
    (hfront : Shows (p₃.contents i) 0
      (Kind.forms .double item.position ++ Kind.form .index (some item.data)))
    (hback : Shows (p₃.contents i) (8 * dimension + 12)
      (Kind.form .int (Kind.narrow (depth % dimension)))) :
    ∃ p₄ cells, attachChildren a (p₃.referenceTo i) left.root? right.root? p₃ = .ok p₄ ∧
      p₃.Rewrites i cells p₄ ∧ (Outline.node i item left right).WrittenIn dimension p₄ depth := by
  have hallocated := h₃.allocated
  have hlive : p₃.IsLive i := h₃.sound.isLive_of_full h₃.full (by omega)
  set record : NodeRecord F := ⟨item.position, some item.data, left.root?, right.root?,
    Kind.narrow (depth % dimension)⟩ with hrecord
  have hstorable : record.Storable dimension := ⟨hitem.1, hitem.2,
    hleft.storable_root h₂ (by omega), hright.storable_root h₃.sound hsmall⟩
  have hattach := attachChildren_eq h₃.sound ha hlive hstorable hfront hback
  have hrw := h₃.sound.rewrites_setRecord hlive
    (hstorable.length_form.trans ha.size.symm : (record.form : List β).length = _)
  -- the children come behind their parent, so that attaching them touches neither subtree
  have hother : ∀ j, i < j → p₃.IsLive j → (p₃.setRecord i record.form).IsLive j ∧
      (p₃.setRecord i record.form).contents j = p₃.contents j :=
    fun j hj hlive => ⟨hrw.isLive_iff.mpr hlive, hrw.contents_of_ne (by omega)⟩
  refine ⟨_, _, hattach, hrw, ⟨hrw.isLive_iff.mpr hlive, hrw.contents_self⟩, ?_, ?_⟩
  · refine hleft.mono fun j hj hlive => ?_
    obtain ⟨hlt, hle⟩ := hleftIndices j hj
    have hlive' : p₃.IsLive j := h₃.sound.isLive_of_full h₃.full (by omega)
    obtain ⟨hlive'', hkept⟩ := hother j hlt hlive'
    exact ⟨hlive'', hkept.trans (h₃.kept j hle)⟩
  · exact hright.mono fun j hj hlive => hother j (hrightIndices j hj) hlive

variable [Arithmetic F]

/-- Planting some points creates the node of the middle one, plants the points
before it and behind it, and attaches the two subtrees. -/
theorem plant_of_arranged (hne : items ≠ []) {arranged : List (Pending F)} {item : Pending F}
    (harranged : selection.select (Pending.compareOn (depth % dimension)) items
      (items.length / 2) = arranged)
    (hitem : arranged[items.length / 2]? = some item) :
    plant selection dimension a depth items p = (do
      let (index, node, p) ← createNode a (depth % dimension) item p
      let (left, p) ←
        plant selection dimension a (depth + 1) (arranged.take (items.length / 2)) p
      let (right, p) ←
        plant selection dimension a (depth + 1) (arranged.drop (items.length / 2 + 1)) p
      let p ← ExceptT.lift (attachChildren a node left right p)
      pure (some index, p)) := by
  have hpos : items.length ≠ 0 := fun h0 => hne (List.length_eq_zero_iff.mp h0)
  rw [plant, if_neg hpos]
  simp only [harranged, fetchAt_eq_ok hitem, lift_ok, pure_bind]

/-- **Planting writes the plan.**  With room for all points the next records
become the nodes of the planned outline, cell by cell. -/
theorem plant_eq (selection : Selection) (depth : Nat) (h : p.Sound) (hfull : p.free = [])
    (ha : a.Laid dimension p.layout.size) (hfit : Fitting dimension items)
    (hroom : p.allocated + items.length ≤ p.store.capacity)
    (hsmall : p.allocated + items.length ≤ indexLimit + 1) :
    ∃ p' : Pool β, plant selection dimension a depth items p =
        pure ((Outline.plan selection dimension depth p.allocated items).root?, p') ∧
      p.Appends items.length p' ∧
      (Outline.plan selection dimension depth p.allocated items).WrittenIn dimension p' depth := by
  induction hsize : items.length using Nat.strong_induction_on generalizing depth items p with
  | _ size ih =>
      by_cases hne : items = []
      · subst hne hsize
        refine ⟨p, ?_, h.appends_refl hfull, ?_⟩
        · rw [plant, if_pos List.length_nil, Outline.plan_nil]
          rfl
        · rw [Outline.plan_nil]
          trivial
      obtain ⟨item, hitem, hbefore, hafter, hperm⟩ := Outline.exists_arranged selection
        (Pending.compareOn (depth % dimension)) hne
      rw [plant_of_arranged hne rfl hitem, Outline.plan_of_arranged hne rfl hitem]
      set arranged := selection.select (Pending.compareOn (depth % dimension)) items
        (items.length / 2) with harranged
      have hfit' : Fitting dimension (arranged.take (items.length / 2) ++
          item :: arranged.drop (items.length / 2 + 1)) :=
        fun x hx => hfit x (hperm.mem_iff.mp hx)
      have hitemFit := hfit' item (by simp)
      -- the node, then the left subtree behind it, then the right one behind both
      obtain ⟨p₁, hcreate, h₁, hfront, hback⟩ := createNode_eq h hfull ha (by omega)
        hitemFit.1 hitemFit.2 (depth % dimension)
      have hallocated₁ := h₁.allocated
      have hcapacity₁ := h₁.capacity_le
      have ha₁ : a.Laid dimension p₁.layout.size := h₁.layout ▸ ha
      obtain ⟨p₂, hplant₂, h₂, hwritten₂⟩ := @ih _ (by omega) p₁
        (arranged.take (items.length / 2)) (depth + 1) h₁.sound h₁.full ha₁
        (fun x hx => hfit' x (List.mem_append_left _ hx)) (by omega) (by omega) rfl
      have hallocated₂ := h₂.allocated
      have hcapacity₂ := h₂.capacity_le
      have ha₂ : a.Laid dimension p₂.layout.size := h₂.layout ▸ ha₁
      obtain ⟨p₃, hplant₃, h₃, hwritten₃⟩ := @ih _ (by omega) p₂
        (arranged.drop (items.length / 2 + 1)) (depth + 1) h₂.sound h₂.full ha₂
        (fun x hx => hfit' x (List.mem_append_right _ (List.mem_cons_of_mem _ hx)))
        (by omega) (by omega) rfl
      have hallocated₃ := h₃.allocated
      have hstart₂ : p₁.allocated = p.allocated + 1 := by omega
      have hstart₃ : p₂.allocated = p.allocated + 1 + items.length / 2 := by omega
      have hkept : p₃.contents p.allocated = p₁.contents p.allocated := by
        rw [h₃.kept _ (by omega), h₂.kept _ (by omega)]
      rw [hstart₂] at hplant₂ hwritten₂
      rw [hstart₃] at hplant₃ hwritten₃
      -- at last the node receives its children
      obtain ⟨p₄, cells, hattach, hrw, hwritten₄⟩ := exists_attached (i := p.allocated) h₃
        (h₃.layout ▸ ha₂) (by omega) h₂.sound (by omega) hitemFit hwritten₂
        (by
          intro j hj
          rw [Outline.indices_plan, List.mem_range'_1] at hj
          omega)
        hwritten₃
        (by
          intro j hj
          rw [Outline.indices_plan, List.mem_range'_1] at hj
          omega)
        (by rwa [hkept]) (by rwa [hkept])
      refine ⟨p₄, ?_, ?_, hwritten₄⟩
      · have hreference : p₁.referenceTo p.allocated = p₃.referenceTo p.allocated := by
          rw [h₃.referenceTo, h₂.referenceTo]
        rw [hcreate, pure_bind, hreference]
        dsimp only
        rw [hplant₂, pure_bind]
        dsimp only
        rw [hplant₃, pure_bind]
        dsimp only
        rw [hattach]
        rfl
      · have happends := ((h₁.trans h₂).trans h₃).rewrites (Nat.le_refl _) hrw
        have hcount : 1 + (arranged.take (items.length / 2)).length +
            (arranged.drop (items.length / 2 + 1)).length = size := by omega
        rwa [hcount] at happends

/-! ## Building -/

/-- Points of one dimension are gathered as they are. -/
theorem gather_eq {points : List (RecordIndex × List F)}
    (hpoints : ∀ x ∈ points, x.2.length = dimension) :
    gather dimension points = pure (pendings points) := by
  apply mapM_eq_pure
  rintro ⟨data, point⟩ hmem
  have hlength : point.length = dimension := hpoints _ hmem
  have hcopy : HasCoordinates.copyInto point (List.replicate dimension Arithmetic.zero) =
      .ok point := by
    rw [copyInto_eq (by rw [List.length_replicate, hlength]), hlength,
      List.drop_of_length_le (by rw [List.length_replicate]), List.append_nil]
  show (do
    if point.length ≠ dimension then
      throw (.dimensionMismatch dimension point.length)
    pure ⟨data, ← ExceptT.lift (HasCoordinates.copyInto point
      (List.replicate dimension Arithmetic.zero))⟩ : ExceptT TreeError Checked (Pending F)) = _
  rw [if_neg (not_not_intro hlength), hcopy]
  rfl

/-- There is an extreme for each axis. -/
theorem length_extremes (extreme : List F → F) (dimension : Nat) (items : List (Pending F)) :
    (extremes extreme dimension items).length = dimension := by
  rw [extremes, List.length_map, List.length_range]

/-- **Building writes the plan** of what was gathered from the points into a new
pool, and the tree represents it. -/
theorem build_of_gather (selection : Selection) (id : PoolId) (hpos : 0 < dimension)
    (hdim : dimension < 2 ^ 28) {P : Type} [HasCoordinates P F] {points : List (RecordIndex × P)}
    (hgather : gather dimension points = pure items) (hcount : items.length ≤ indexLimit)
    (hfit : Fitting dimension items) :
    ∃ t : KdTree β F, build selection id dimension points = pure t ∧ t.dimension = dimension ∧
      t.nodes.allocated = items.length ∧
      t.Represents (Outline.plan selection dimension 0 0 items) ∧
      (Outline.plan selection dimension 0 0 items).WrittenIn dimension t.nodes 0 ∧
      t.least = extremes Arithmetic.least dimension items ∧
      t.greatest = extremes Arithmetic.greatest dimension items := by
  obtain ⟨a, p, hmake, ha, hsound, -, hfree, hallocated, hroom⟩ :=
    makeNodes_eq (β := β) id hpos hdim hcount
  obtain ⟨p', hplant, happends, hwritten⟩ := plant_eq selection 0 hsound hfree ha hfit
    (by omega) (by omega)
  rw [hallocated] at hplant hwritten
  have hallocated' := happends.allocated
  have hfit' : Fitting dimension (Outline.plan selection dimension 0 0 items).points :=
    fun item hitem => hfit item (Outline.points_plan.mem_iff.mp hitem)
  refine ⟨⟨dimension, p', a, (Outline.plan selection dimension 0 0 items).root?,
    extremes Arithmetic.least dimension items, extremes Arithmetic.greatest dimension items⟩, ?_,
    rfl, ?_, ?_, hwritten, rfl, rfl⟩
  · rw [build, if_neg (by omega), hgather, pure_bind, if_neg (by omega), hmake, pure_bind]
    dsimp only
    rw [hplant]
    rfl
  · show p'.allocated = items.length
    omega
  exact {
    dimension_pos := hpos
    dimension_lt := hdim
    laid := happends.layout ▸ ha
    sound := happends.sound
    indices := by
      show _ = List.range p'.allocated
      rw [Outline.indices_plan, hallocated', hallocated, Nat.zero_add, List.range_eq_range']
    count_le := by
      show p'.allocated ≤ indexLimit
      omega
    stored := hwritten.storedIn ha happends.sound (by omega) hfit'
    root := rfl
    fitting := hfit' }

/-- **Building succeeds and stores the plan** of any points of one dimension,
as long as their number and their data indices are record indices. -/
theorem build_eq (selection : Selection) (id : PoolId) (hpos : 0 < dimension)
    (hdim : dimension < 2 ^ 28) {points : List (RecordIndex × List F)}
    (hcount : points.length ≤ indexLimit)
    (hpoints : ∀ x ∈ points, x.2.length = dimension ∧ x.1 ≤ indexLimit) :
    ∃ t : KdTree β F, build selection id dimension points = pure t ∧ t.dimension = dimension ∧
      t.nodes.allocated = points.length ∧
      t.Represents (Outline.plan selection dimension 0 0 (pendings points)) ∧
      t.least = extremes Arithmetic.least dimension (pendings points) ∧
      t.greatest = extremes Arithmetic.greatest dimension (pendings points) := by
  have hlength : (pendings points).length = points.length := List.length_map _
  have hfit : Fitting dimension (pendings points) := by
    intro item hitem
    obtain ⟨x, hx, rfl⟩ := List.mem_map.mp hitem
    exact hpoints x hx
  obtain ⟨t, hbuild, hdimension, hallocated, ht, -, hextremes⟩ := build_of_gather (β := β) selection id
    hpos hdim (gather_eq fun x hx => (hpoints x hx).1) (by omega) hfit
  exact ⟨t, hbuild, hdimension, hallocated.trans hlength, ht, hextremes⟩

/-- The tree built of some points is stored as an outline and has bounds on
each axis. -/
theorem build_represents (selection : Selection) (id : PoolId) (hpos : 0 < dimension)
    (hdim : dimension < 2 ^ 28) {points : List (RecordIndex × List F)}
    (hcount : points.length ≤ indexLimit)
    (hpoints : ∀ x ∈ points, x.2.length = dimension ∧ x.1 ≤ indexLimit) :
    ∃ (t : KdTree β F) (o : Outline F), build selection id dimension points = pure t ∧
      t.dimension = dimension ∧ t.nodes.allocated = points.length ∧ t.Represents o ∧
      t.least.length = t.dimension ∧ t.greatest.length = t.dimension := by
  obtain ⟨t, hbuild, hdimension, hallocated, ht, hleast, hgreatest⟩ :=
    build_eq (β := β) selection id hpos hdim hcount hpoints
  refine ⟨t, _, hbuild, hdimension, hallocated, ht, ?_, ?_⟩
  · rw [hleast, length_extremes, hdimension]
  · rw [hgreatest, length_extremes, hdimension]

end KdTree

end RecordPool
