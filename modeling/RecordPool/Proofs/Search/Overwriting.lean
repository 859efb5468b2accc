/-
# Records that need no reset

Frontiers, pools of points and pools of tree nodes keep the cells of their
slots when they hand them out.  That is safe because the writers of these
records leave nothing of what a slot held before: the cells of an entry that
was filled in, of a point that was added and of every node of a tree are those
of its arguments, whatever the cells were; an entry that inherits has the cells
of its parent behind its head.  The runs that lead up to a writer may leave any
cells in any slot (`Pool.Disturbed`).
-/
import RecordPool.Proofs.KdTree.Failures
import RecordPool.Proofs.Pool.PointPools
import RecordPool.Proofs.Search.EntryForms
import RecordPool.Proofs.Search.TwinFrontiers
import RecordPool.Proofs.Store.Resembling

namespace RecordPool

variable {β F : Type} [Memory β F] {dimension : Nat}

/-! ## Any cells -/

namespace Pool

/-- A run of operations between which all cells may change: slots that were
never handed out, that are in use, that were taken back or dropped hold
anything. -/
inductive Disturbed (p₀ : Pool β) : Pool β → Prop where
  | start : Disturbed p₀ p₀
  | does {p p' : Pool β} {events : History} :
      Disturbed p₀ p → p.Does events p' → Disturbed p₀ p'
  | disturb {p : Pool β} {store : Store β} :
      Disturbed p₀ p → store.Sound → p.store.Resembles store → Disturbed p₀ { p with store }

variable {p₀ p : Pool β}

/-- A sound pool with other memory of the same room is sound. -/
theorem Sound.withStore (h : p.Sound) {store : Store β} (hstore : store.Sound)
    (hresembles : p.store.Resembles store) : ({ p with store } : Pool β).Sound where
  store := hstore
  recordSize := hresembles.recordSize.trans h.recordSize
  live_size := h.live_size
  allocated_le_generations := h.allocated_le_generations
  allocated_le_capacity := h.allocated_le_capacity.trans (le_of_eq hresembles.capacity.symm)
  free_nodup := h.free_nodup
  mem_free_iff := h.mem_free_iff

/-- Whatever its cells are, a pool stays sound and keeps its layout. -/
theorem Disturbed.sound (h : p₀.Disturbed p) (hp₀ : p₀.Sound) :
    p.Sound ∧ p.layout = p₀.layout := by
  induction h with
  | start => exact ⟨hp₀, rfl⟩
  | does _ hdoes ih =>
      obtain ⟨hsound, hlayout⟩ := ih.1.does hdoes
      exact ⟨hsound, hlayout.trans ih.2⟩
  | disturb _ hstore hresembles ih => exact ⟨ih.1.withStore hstore hresembles, ih.2⟩

end Pool

/-! ## Entries -/

namespace Frontier

/-- The frontiers for some number of dimensions after any run, with any cells. -/
def Reached (dimension : Nat) (f : Frontier β) : Prop :=
  ∃ (id : PoolId) (capacity : Nat) (p : Pool β),
    make id dimension capacity = pure (ofPool dimension p) ∧ p.Disturbed f.pool ∧
      f = ofPool dimension f.pool

/-- The frontier `f'` is `f` with `cells` for the entry in the slot `i`, which is
the box of the node. -/
structure Boxed (f : Frontier β) (i : RecordIndex) (node : RecordIndex) (axis : Nat)
    (cells : List β) (f' : Frontier β) : Prop where
  eq : f' = f.withCells i cells
  contents : f'.pool.contents i = cells
  tells : f'.TellsBox (f.pool.referenceTo i) node axis

/-- Of the cells `old` that the entry in the slot `i` has before it is filled in
or inherits, it has none afterwards. -/
structure Overwrites [Arithmetic F] (f : Frontier β) (i : RecordIndex) (old : List β) : Prop where
  fill : ∀ node ≤ indexLimit, ∀ axis, ∃ f',
    (f.withCells i old).fill (f.pool.referenceTo i) node axis = .ok f' ∧
      f.Boxed i node axis (boxCells f.dimension node axis) f'
  inherit : ∀ j, f.pool.IsLive j → ∀ node ≤ indexLimit, ∀ axis, ∃ f',
    (f.withCells i old).inherit (f.pool.referenceTo i) node axis (f.pool.referenceTo j) = .ok f' ∧
      f.Boxed i node axis
        (boxHead node axis ++ ((f.withCells i old).pool.contents j).drop 9) f'
  large : ∀ node, indexLimit < node → ∀ axis,
    (f.withCells i old).fill (f.pool.referenceTo i) node axis = violate (.indexTooLarge node) ∧
      ∀ j, f.pool.IsLive j →
        (f.withCells i old).inherit (f.pool.referenceTo i) node axis (f.pool.referenceTo j) =
          violate (.indexTooLarge node)

variable {f f' : Frontier β} {i node : RecordIndex} {r r' : Reference} {axis : Nat}
  {old rest : List β}

/-- A frontier that was reached is sound. -/
theorem Reached.sound (h : f.Reached dimension) : f.Sound ∧ f.dimension = dimension := by
  obtain ⟨id, capacity, p, hmake, hdisturbed, heq⟩ := h
  obtain ⟨-, -, p₀, hpool, hof⟩ := exists_pool_of_make hmake
  obtain rfl : p = p₀ := congrArg Frontier.pool hof
  obtain ⟨hsound, hlayout⟩ :=
    hdisturbed.sound (Pool.sound_of_make (StorePlan.inRange_single capacity) hpool).1
  have hlaid : (ofPool dimension f.pool).Laid :=
    laid_ofPool (hlayout.trans (Pool.layout_of_make hpool))
  rw [← heq] at hlaid
  exact ⟨⟨hsound, hlaid⟩, congrArg Frontier.dimension heq⟩

/-- Creating an entry is a step of a run, and the reference is accepted. -/
theorem Reached.create (h : f.Reached dimension) (hcreate : f.create r = .ok (i, f', r')) :
    f'.Reached dimension ∧ f'.pool.require r' = .ok i := by
  have hsound := h.sound.1
  obtain ⟨id, capacity, p, hmake, hdisturbed, heq⟩ := h
  obtain ⟨⟨index, p', r₁⟩, hpool, hput⟩ := bind_eq_ok_iff.mp hcreate
  cases hput
  refine ⟨⟨id, capacity, p, hmake, hdisturbed.does (Pool.Does.create hpool), ?_⟩, ?_⟩
  · rw [heq]
    rfl
  · obtain ⟨halloc, rfl⟩ :=
      hsound.pool.allocates_of_allocate (Pool.allocate_eq_of_create hpool)
    rw [← halloc.referenceTo]
    exact halloc.sound.require_referenceTo ((halloc.live i).mpr (Or.inl rfl))

/-- Cells that begin with the head of a box make an entry that box. -/
theorem Sound.boxed_withCells (hf : f.Sound) (hi : f.pool.IsLive i) (hnode : node ≤ indexLimit)
    (hlength : (boxHead node axis ++ rest).length = f.pool.layout.size) :
    f.Boxed i node axis (boxHead node axis ++ rest)
      (f.withCells i (boxHead node axis ++ rest)) where
  eq := rfl
  contents := hf.contents_withCells hi hlength
  tells := hf.tellsBox_withCells hi hnode axis hlength

/-- **Entries need no reset.** -/
theorem Sound.overwrites [Arithmetic F] (hf : f.Sound) (hi : f.pool.IsLive i)
    (hold : old.length = f.pool.layout.size) : f.Overwrites i old := by
  have hf' : (f.withCells i old).Sound := sound_withCells hf i old
  have hi' : (f.withCells i old).pool.IsLive i := hi
  refine ⟨fun node hnode axis => ?_, fun j hj node hnode axis => ?_, fun node hnode axis =>
    ⟨hf'.fill_of_large hi' hnode axis, fun j hj => hf'.inherit_of_large hi' hj hnode axis⟩⟩
  · have hlength := hf.laid.length_boxCells (β := β) hnode axis
    refine ⟨f.withCells i (boxCells f.dimension node axis), ?_,
      hf.boxed_withCells hi hnode hlength⟩
    rw [← hf.withCells_withCells hi hold hlength]
    exact hf'.fill_eq_withCells hi' hnode axis
  · have hlength := hf.laid.length_head_append hnode axis (hf'.pool.length_contents hj)
    refine ⟨_, ?_, hf.boxed_withCells hi hnode hlength⟩
    rw [← hf.withCells_withCells hi hold hlength]
    exact hf'.inherit_eq_withCells hi' hj hnode axis

end Frontier

/-! ## Points -/

namespace PointPool

/-- The pools of points of some dimension after any run, with any cells. -/
def Reached (dimension : Nat) (points : PointPool β) : Prop :=
  ∃ (id : PoolId) (initial : Nat) (p : Pool β),
    PointPool.make id dimension initial = pure (ofPool dimension p) ∧ p.Disturbed points.pool ∧
      points = ofPool dimension points.pool

/-- The point pool `points` is over the pool `p` with the point of the given
position in the slot `i`. -/
structure Placed (dimension : Nat) (p : Pool β) (i : RecordIndex) (position : List F)
    (points : PointPool β) : Prop where
  eq : points = ofPool dimension (p.setRecord i (Kind.forms .double position))
  contents : points.pool.contents i = Kind.forms .double position
  coordinates : points.coordinates (p.referenceTo i) = .ok position

variable {points : PointPool β} {p p' : Pool β} {i : RecordIndex} {r r' : Reference}
  {old : List β} {position : List F}

/-- A pool of points that was reached is over a sound pool of their records. -/
theorem Reached.exists_pool (h : points.Reached dimension) (hpos : 0 < dimension)
    (hdim : dimension < 2 ^ 28) :
    ∃ p, points = ofPool dimension p ∧ p.Sound ∧ p.layout = pointLayout dimension := by
  obtain ⟨id, initial, p, hmake, hdisturbed, heq⟩ := h
  obtain ⟨p₀, hpool, hof⟩ := exists_pool_of_make hpos hdim hmake
  obtain rfl : p = p₀ := congrArg PointPool.pool hof
  obtain ⟨hsound, hlayout⟩ :=
    hdisturbed.sound (Pool.sound_of_make (StorePlan.inRange_single initial) hpool).1
  exact ⟨_, heq, hsound, hlayout.trans (Pool.layout_of_make hpool)⟩

/-- **Overwriting a point** leaves the cells of its coordinates, whatever the
slot held before. -/
theorem fill_eq_ofPool (h : p.Sound) (hlayout : p.layout = pointLayout dimension)
    (hi : p.IsLive i) {P : Type} [HasCoordinates P F] {source : P}
    (hsource : HasCoordinates.dimension source = dimension)
    (hposition : positionOf source = .ok position) :
    (ofPool dimension p).fill (p.referenceTo i) source =
      .ok (ofPool dimension (p.setRecord i (Kind.forms .double position))) := by
  have hsize : p.layout.size = 8 * dimension := congrArg Layout.size hlayout
  have hrecord := h.length_contents hi
  have hforms : (Kind.forms .double position : List β).length = 8 * dimension := by
    rw [Kind.length_forms_double, length_of_mapM_eq_ok hposition, List.length_range, hsource]
  have hwithin : (ofPool dimension p).position.Within p.layout.size := by
    show 0 + dimension * 8 ≤ p.layout.size
    omega
  have hshows : Shows (paste (p.contents i) 0 (Kind.forms .double position)) 0
      (Kind.forms .double position) := shows_paste (by omega)
  have hcells := hshows.eq_of_length (by
    rw [length_paste (by omega)]
    omega)
  have hfill := fill_eq_setRecord (show (ofPool dimension p).pool.Sound from h) hi rfl hwithin
    hsource hposition
  rw [← hcells]
  exact hfill

/-- A point whose record has the cells of its coordinates is in its place. -/
theorem placed_setRecord (h : p.Sound) (hlayout : p.layout = pointLayout dimension)
    (hi : p.IsLive i) (hlength : position.length = dimension) :
    Placed dimension p i position
      (ofPool dimension (p.setRecord i (Kind.forms .double position))) := by
  have hsize : p.layout.size = 8 * dimension := congrArg Layout.size hlayout
  have hforms : (Kind.forms .double position : List β).length = p.layout.size := by
    rw [Kind.length_forms_double, hlength, hsize]
  set points := ofPool dimension (p.setRecord i (Kind.forms .double position)) with hpoints
  have hcontents : points.pool.contents i = Kind.forms .double position := by
    show (p.setRecord i _).contents i = _
    rw [h.contents_setRecord hi hforms, Function.update_self]
  have hsound : points.pool.Sound := h.setRecord i _
  have hwithin : points.position.Within points.pool.layout.size := by
    show 0 + dimension * 8 ≤ p.layout.size
    omega
  have hvalues : points.position.values (points.pool.contents i) = position := by
    rw [hcontents]
    exact AttributeArray.values_of_shows (shows_self _) hlength
      fun x _ => (trivial : Kind.double.Storable x)
  have hcoordinates := coordinates_eq_values hsound (show points.pool.IsLive i from hi) rfl hwithin
  rw [hvalues] at hcoordinates
  exact ⟨rfl, hcontents, hcoordinates⟩

/-- **Points need no reset.**  Where a record is created a point is added, and
its cells are those of its coordinates, whatever the slot held. -/
theorem Reached.add_eq (h : points.Reached dimension) (hpos : 0 < dimension)
    (hdim : dimension < 2 ^ 28) {P : Type} [HasCoordinates P F] {source : P}
    (hsource : HasCoordinates.dimension source = dimension)
    (hposition : positionOf source = .ok position)
    (hcreate : points.pool.create r = .ok (i, p, r')) :
    r' = p.referenceTo i ∧ ∃ made, points.add r source = .ok (i, made, r') ∧
      Placed dimension p i position made ∧
      ∀ old : List β, old.length = p.layout.size →
        (ofPool dimension (p.setRecord i old)).fill r' source = .ok made := by
  obtain ⟨p₀, rfl, hp₀, hlayout₀⟩ := h.exists_pool hpos hdim
  obtain ⟨halloc, rfl⟩ := hp₀.allocates_of_allocate (Pool.allocate_eq_of_create hcreate)
  have hlayout : p.layout = pointLayout dimension := halloc.layout.trans hlayout₀
  have hsize : p.layout.size = 8 * dimension := congrArg Layout.size hlayout
  have hi : p.IsLive i := (halloc.live i).mpr (Or.inl rfl)
  have hlength : position.length = dimension := by
    rw [length_of_mapM_eq_ok hposition, List.length_range, hsource]
  have hforms : (Kind.forms .double position : List β).length = p.layout.size := by
    rw [Kind.length_forms_double, hlength, hsize]
  have hreference : p₀.referenceTo i = p.referenceTo i := by
    rw [halloc.referenceTo]
  rw [hreference] at hcreate ⊢
  refine ⟨rfl, _, ?_, placed_setRecord halloc.sound hlayout hi hlength, fun old hold => ?_⟩
  · rw [add, hcreate, ok_bind]
    show (ofPool dimension p).fill (p.referenceTo i) source >>= _ = _
    rw [fill_eq_ofPool halloc.sound hlayout hi hsource hposition]
    rfl
  · rw [← halloc.sound.setRecord_setRecord hi hold hforms]
    exact fill_eq_ofPool (halloc.sound.setRecord i old) hlayout hi hsource hposition

end PointPool

/-! ## Nodes -/

namespace KdTree

/-- **Nodes need no reset.**  A tree that was built has for each node the cells
of its record, and planting its nodes in any other memory than that of a new pool
gives the same cells. -/
theorem exists_overwritten_of_build [Arithmetic F] (hdim : dimension < 2 ^ 28) {P : Type}
    [HasCoordinates P F] [LawfulCoordinates P F] {selection : Selection} {id : PoolId}
    {points : List (RecordIndex × P)} {t : KdTree β F}
    (hbuild : build selection id dimension points = pure t) :
    ∃ (items : List (Pending F)) (a : NodeAttributes) (p : Pool β),
      gather dimension points = pure items ∧
      makeNodes id dimension items.length = pure (a, p) ∧
      plant selection dimension a 0 items p = pure (t.root, t.nodes) ∧
      (∀ store : Store β, store.Sound → p.store.Resembles store →
        ∃ p', plant selection dimension a 0 items { p with store } = pure (t.root, p') ∧
          ∀ i, t.nodes.IsLive i → p'.contents i = t.nodes.contents i) ∧
      (∀ i, t.nodes.IsLive i →
        ∃ x ∈ (Outline.plan selection dimension 0 0 items).subtrees 0, x.index = i) ∧
      ∀ x ∈ (Outline.plan selection dimension 0 0 items).subtrees 0,
        t.nodes.contents x.index = (x.record dimension).form ∧ t.Tells x := by
  obtain ⟨hpos, items, a, p, hgather, hcount, hfit, hmake, hplant⟩ :=
    exists_planted_of_build hdim hbuild
  obtain ⟨a₁, p₁, hmake₁, ha, hsound, -, hfull, hallocated, hroom⟩ :=
    makeNodes_eq (β := β) id hpos hdim hcount
  cases hmake.symm.trans hmake₁
  obtain ⟨t₁, hbuild₁, -, -, ht, hwritten, -⟩ :=
    build_of_gather (β := β) selection id hpos hdim hgather hcount hfit
  cases hbuild.symm.trans hbuild₁
  have hnode : ∀ i, t.nodes.IsLive i →
      ∃ x ∈ (Outline.plan selection dimension 0 0 items).subtrees 0, x.index = i :=
    fun i hi => ht.exists_subtree (ht.isLive_iff.mp hi)
  refine ⟨items, a, p, hgather, hmake, hplant, fun store hstore hresembles => ?_, hnode,
    fun x hx => ⟨hwritten.subtrees hx, ht.tells hx⟩⟩
  have hcapacity := hresembles.capacity
  have hroom' : p.allocated + items.length ≤ store.capacity := by omega
  have hsmall : p.allocated + items.length ≤ indexLimit + 1 := by omega
  obtain ⟨p', hplant', -, hwritten'⟩ := plant_eq selection 0 (hsound.withStore hstore hresembles)
    hfull ha hfit hroom' hsmall
  have hplan : Outline.plan selection dimension 0 p.allocated items =
      Outline.plan selection dimension 0 0 items := by
    rw [hallocated]
  rw [hplan] at hplant' hwritten'
  refine ⟨p', by rw [hplant', ht.root], fun i hi => ?_⟩
  obtain ⟨x, hx, rfl⟩ := hnode i hi
  rw [hwritten'.subtrees hx, hwritten.subtrees hx]

end KdTree

/-! ## All three -/

/-- **Records need no reset.**  Whatever run a pool has been through, whatever
cells its slots have and whatever cells a slot is given after it was handed out,
the writers of a record leave cells that do not depend on what was there:
filling in an entry leaves those of the box of its node, inheriting leaves those
of the parent behind the head of a box, adding a point leaves those of its
coordinates, and building a tree leaves those of the record of each node.  The
accessors return what was given. -/
theorem records_need_no_reset [Arithmetic F] (hpos : 0 < dimension) (hdim : dimension < 2 ^ 28) :
    (∀ f : Frontier β, f.Reached dimension → f.dimension = dimension ∧
      (∀ r i f' r', f.create r = .ok (i, f', r') →
        f'.Reached dimension ∧ f'.pool.require r' = .ok i) ∧
      ∀ r i, f.pool.require r = .ok i → r = f.pool.referenceTo i ∧
        ∀ old : List β, old.length = f.pool.layout.size → f.Overwrites i old) ∧
    (∀ points : PointPool β, points.Reached dimension →
      ∀ {P : Type} [HasCoordinates P F] (source : P) (position : List F),
        HasCoordinates.dimension source = dimension → positionOf source = .ok position →
      ∀ r i p r', points.pool.create r = .ok (i, p, r') → r' = p.referenceTo i ∧
        ∃ made, points.add r source = .ok (i, made, r') ∧
          PointPool.Placed dimension p i position made ∧
          ∀ old : List β, old.length = p.layout.size →
            (PointPool.ofPool dimension (p.setRecord i old)).fill r' source = .ok made) ∧
    ∀ {P : Type} [HasCoordinates P F] [LawfulCoordinates P F] (selection : Selection) (id : PoolId)
      (points : List (RecordIndex × P)) (t : KdTree β F),
      KdTree.build selection id dimension points = pure t →
      ∃ (items : List (Pending F)) (a : NodeAttributes) (p : Pool β),
        KdTree.gather dimension points = pure items ∧
        KdTree.makeNodes id dimension items.length = pure (a, p) ∧
        KdTree.plant selection dimension a 0 items p = pure (t.root, t.nodes) ∧
        (∀ store : Store β, store.Sound → p.store.Resembles store →
          ∃ p', KdTree.plant selection dimension a 0 items { p with store } = pure (t.root, p') ∧
            ∀ i, t.nodes.IsLive i → p'.contents i = t.nodes.contents i) ∧
        (∀ i, t.nodes.IsLive i →
          ∃ x ∈ (Outline.plan selection dimension 0 0 items).subtrees 0, x.index = i) ∧
        ∀ x ∈ (Outline.plan selection dimension 0 0 items).subtrees 0,
          t.nodes.contents x.index = (x.record dimension).form ∧ t.Tells x := by
  refine ⟨fun f hf => ?_, ?_, ?_⟩
  · obtain ⟨hsound, hdimension⟩ := hf.sound
    refine ⟨hdimension, fun r i f' r' => hf.create, fun r i hrequire => ?_⟩
    obtain ⟨hi, rfl⟩ := hsound.pool.require_eq_ok_iff.mp hrequire
    exact ⟨rfl, fun old hold => hsound.overwrites hi hold⟩
  · intro points hpoints P _ source position hsource hposition r i p r' hcreate
    exact hpoints.add_eq hpos hdim hsource hposition hcreate
  · intro P _ _ selection id points t hbuild
    exact KdTree.exists_overwritten_of_build hdim hbuild

/-- A pool with blank memory for one record, which may be in use. -/
def lonePool (layout : Layout) (live : Array Bool) (generations : Array UInt32) : Pool UInt8 :=
  ⟨0, layout, ⟨#[⟨(List.replicate layout.size 0).toArray, layout.size⟩], layout.size, none, 0,
    0, 1, indexLimit, 0⟩, .keep, live.size, [], live, generations, 0, []⟩

/-- A frontier on a line with room for one entry. -/
theorem make_lone_entry : Frontier.make 0 1 1 =
    pure (Frontier.ofPool 1 (lonePool (Frontier.entryLayout 1) #[] #[])) := by
  have hpool : Pool.make 0 (Frontier.entryLayout 1) (.single 1) .keep =
      pure (lonePool (Frontier.entryLayout 1) #[] #[]) := rfl
  rw [Frontier.make_eq_ofPool 0 (by decide) (by decide), hpool, adapt_pure, pure_bind]

/-- Its entry is created. -/
theorem create_lone_entry :
    (Frontier.ofPool 1 (lonePool (Frontier.entryLayout 1) #[] #[])).create (.unpointed 0) =
      .ok (0, Frontier.ofPool 1 (lonePool (Frontier.entryLayout 1) #[true] #[0]),
        ⟨0, some ⟨0, 0, 0⟩⟩) := by
  rfl

/-- On a line the slots are filled with ones before an entry is filled in or is
its own parent, before a point is added and before a node is planted: of the ones
only those are left that the entry inherits. -/
theorem records_need_no_reset_over_ones :
    (∃ f f' : Frontier UInt8, ∃ r, Frontier.make 0 1 1 = pure f ∧
      f.create (.unpointed 0) = .ok (0, f', r) ∧
      (∃ f₁, (f'.withCells 0 (List.replicate 26 255)).fill r 5 0 = .ok f₁ ∧
        f₁.pool.contents 0 = 5 :: List.replicate 25 0 ∧
        f₁.nodeOf r = .ok 5 ∧ f₁.axisOf r = .ok 0) ∧
      ∃ f₂, (f'.withCells 0 (List.replicate 26 255)).inherit r 5 0 r = .ok f₂ ∧
        f₂.pool.contents 0 = 5 :: List.replicate 8 0 ++ List.replicate 17 255) ∧
    (∃ (points made : PointPool UInt8) (p : Pool UInt8) (r : Reference),
      PointPool.make 0 1 1 = pure points ∧ points.pool.create (.unpointed 0) = .ok (0, p, r) ∧
      points.add (.unpointed 0) [Double.infinity] = .ok (0, made, r) ∧
      (PointPool.ofPool 1 (p.setRecord 0 (List.replicate 8 255))).fill r [Double.infinity] =
        .ok made ∧
      made.pool.contents 0 = [0, 0, 0, 0, 0, 0, 240, 127] ∧
      made.coordinates r = .ok [Double.infinity]) ∧
    ∃ (t : KdTree UInt8 Double) (a : NodeAttributes) (p p' : Pool UInt8),
      KdTree.build .bySorting 0 1 [(3, [Double.infinity])] = pure t ∧
      KdTree.makeNodes 0 1 1 = pure (a, p) ∧
      KdTree.plant .bySorting 1 a 0 [⟨3, [Double.infinity]⟩]
        (p.setRecord 0 (List.replicate 24 255)) = pure (t.root, p') ∧
      t.nodes.contents 0 = [0, 0, 0, 0, 0, 0, 240, 127, 3, 0, 0, 0, 255, 255, 255, 255, 255, 255,
        255, 255, 0, 0, 0, 0] ∧ p'.contents 0 = t.nodes.contents 0 := by
  obtain ⟨hfrontiers, hpoints, htrees⟩ :=
    records_need_no_reset (β := UInt8) (F := Double) (by decide : 0 < 1) (by decide)
  refine ⟨?_, ?_, ?_⟩
  · obtain ⟨-, hcreated, -⟩ := hfrontiers
      (Frontier.ofPool 1 (lonePool (Frontier.entryLayout 1) #[] #[]))
      ⟨0, 1, _, make_lone_entry, .start, rfl⟩
    obtain ⟨hreached, hrequire⟩ := hcreated _ _ _ _ create_lone_entry
    obtain ⟨-, -, hany⟩ := hfrontiers _ hreached
    obtain ⟨-, hover⟩ := hany _ _ hrequire
    have hover := hover (List.replicate 26 255) (by rw [List.length_replicate]; rfl)
    obtain ⟨f₁, hfill, hboxed⟩ := hover.fill 5 (by decide) 0
    obtain ⟨f₂, hinherit, hboxed'⟩ := hover.inherit 0 rfl 5 (by decide) 0
    refine ⟨_, _, _, make_lone_entry, create_lone_entry,
      ⟨f₁, hfill, ?_, hboxed.tells.node, hboxed.tells.axis (by decide)⟩, f₂, hinherit, ?_⟩
    · rw [hboxed.contents]
      decide
    · rw [hboxed'.contents]
      decide +kernel
  · have hmake : PointPool.make 0 1 1 =
        pure (PointPool.ofPool 1 (lonePool (PointPool.pointLayout 1) #[] #[])) :=
      PointPool.make_of_pool (by decide) (by decide) rfl
    have hcreate : (PointPool.ofPool 1
        (lonePool (PointPool.pointLayout 1) #[] #[])).pool.create (.unpointed 0) =
      .ok (0, lonePool (PointPool.pointLayout 1) #[true] #[0], ⟨0, some ⟨0, 0, 0⟩⟩) := rfl
    obtain ⟨-, made, hadd, hplaced, hfill⟩ := hpoints _ ⟨0, 1, _, hmake, .start, rfl⟩
      [Double.infinity] [Double.infinity] rfl (positionOf_list _) _ _ _ _ hcreate
    refine ⟨_, made, _, _, hmake, hcreate, hadd, hfill _ rfl, ?_, hplaced.coordinates⟩
    rw [hplaced.contents]
    decide
  · obtain ⟨t, hbuild, -, hallocated, ht, -⟩ := KdTree.build_eq (β := UInt8) .bySorting 0
      (by decide : 0 < 1) (by decide) (by decide : [(3, [Double.infinity])].length ≤ indexLimit)
      (by decide)
    obtain ⟨items, a, p, hgather, hmake, -, hany, -, hcells⟩ :=
      htrees .bySorting 0 [(3, [Double.infinity])] t hbuild
    cases hgather.symm.trans (KdTree.gather_eq (by decide))
    obtain ⟨a₁, p₁, hmake₁, -, hsound, -⟩ :=
      KdTree.makeNodes_eq (β := UInt8) 0 (by decide : 0 < 1) (by decide) (by decide : 1 ≤ indexLimit)
    cases hmake.symm.trans hmake₁
    obtain ⟨p', hplant, hsame⟩ := hany (p.store.setRecord 0 (List.replicate 24 255))
      (hsound.store.setRecord 0 _) (p.store.resembles_setRecord 0 _)
    refine ⟨t, a, p, p', hbuild, hmake, hplant, ?_, hsame 0 (ht.isLive_iff.mpr ?_)⟩
    · rw [show KdTree.pendings [(3, [Double.infinity])] = [⟨3, [Double.infinity]⟩] from rfl,
        Outline.plan_singleton] at hcells
      exact (hcells _ List.mem_cons_self).1.trans (by decide)
    · rw [hallocated]
      decide

end RecordPool
