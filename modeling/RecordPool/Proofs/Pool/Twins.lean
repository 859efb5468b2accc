/-
# Twin pools

Two pools are twins if they have the same slots in use, hold the same cells in
them and hand out the same slots next.  What a history leaves behind may differ:
identities, generations and epochs, and with them the references to a slot;
memory that is not in use; and how much memory there is.  Operations through
references to one slot are alike on twins and leave twins.
-/
import RecordPool.Proofs.Alike
import RecordPool.Proofs.Pool.Attributes
import RecordPool.Proofs.Store.Trailing

namespace RecordPool

variable {β F : Type} [Memory β F]

/-- What two pools have in common. -/
structure Pairing where
  /-- The layout of the records. -/
  layout : Layout
  /-- The plan of both stores. -/
  plan : StorePlan
  /-- The slots in use. -/
  used : Set Nat
  /-- The references to the slots in the first pool. -/
  first : Nat → Reference
  /-- The references to the slots in the second pool. -/
  second : Nat → Reference

/-- The same pairing with one more slot in use. -/
def Pairing.insert (m : Pairing) (i : Nat) : Pairing :=
  { m with used := Insert.insert i m.used }

/-- The pairing `n` is `m` without the slot `i`. -/
structure Pairing.Drops (m : Pairing) (i : Nat) (n : Pairing) : Prop where
  layout : n.layout = m.layout
  plan : n.plan = m.plan
  used : n.used = m.used \ {i}
  first : ∀ j ≠ i, n.first j = m.first j
  second : ∀ j ≠ i, n.second j = m.second j

/-- The cells of the record `i`, by record and position. -/
def cellsOf (i : Nat) : Set (Nat × Nat) :=
  {c | c.1 = i}

/-- The cells `start, …, start + count - 1` of the record `i`. -/
def stretch (i start count : Nat) : Set (Nat × Nat) :=
  {c | c.1 = i ∧ start ≤ c.2 ∧ c.2 < start + count}

namespace Pool

/-- The pools have one layout, and the memory of the second is not behind. -/
structure Trails (l : Layout) (plan : StorePlan) (p p' : Pool β) : Prop where
  sound : p.Sound
  sound' : p'.Sound
  layout : p.layout = l
  layout' : p'.layout = l
  store : p.store.Trails plan p'.store

/-- The pools differ in nothing that a user of the paired slots can tell, but
for the `stale` cells, which have yet to be written. -/
structure Twins (m : Pairing) (stale : Set (Nat × Nat)) (p p' : Pool β) : Prop
    extends Trails m.layout m.plan p p' where
  allocated : p'.allocated = p.allocated
  free : p'.free = p.free
  live : ∀ i, p.IsLive i ↔ i ∈ m.used
  live' : ∀ i, p'.IsLive i ↔ i ∈ m.used
  first : p.referenceTo = m.first
  second : p'.referenceTo = m.second
  cells : ∀ i ∈ m.used, ∀ k < m.layout.size, (i, k) ∉ stale →
    (p'.contents i)[k]? = (p.contents i)[k]?

variable {m n : Pairing} {stale stale' : Set (Nat × Nat)} {p p' q q' : Pool β} {i j : Nat}

namespace Twins

/-! ## Reading -/

/-- A larger set of cells may be stale. -/
theorem mono (h : Twins m stale p p')
    (hsub : ∀ i k, k < m.layout.size → (i, k) ∈ stale → (i, k) ∈ stale') : Twins m stale' p p' :=
  { h with cells := fun i hi k hk hfresh => h.cells i hi k hk fun hmem => hfresh (hsub i k hk hmem) }

/-- The references to a paired slot are valid. -/
theorem require_eq (h : Twins m stale p p') (hi : i ∈ m.used) :
    p.require (m.first i) = .ok i ∧ p'.require (m.second i) = .ok i := by
  rw [← h.first, ← h.second]
  exact ⟨h.sound.require_referenceTo ((h.live i).mpr hi),
    h.sound'.require_referenceTo ((h.live' i).mpr hi)⟩

/-- Records of twins have one size. -/
theorem length_contents (h : Twins m stale p p') (hi : i ∈ m.used) :
    (p.contents i).length = m.layout.size ∧ (p'.contents i).length = m.layout.size := by
  rw [h.sound.length_contents ((h.live i).mpr hi), h.sound'.length_contents ((h.live' i).mpr hi),
    h.layout, h.layout']
  exact ⟨rfl, rfl⟩

/-- Without stale cells the records hold the same. -/
theorem contents_eq (h : Twins m ∅ p p') (hi : i ∈ m.used) : p'.contents i = p.contents i := by
  obtain ⟨hlength, hlength'⟩ := h.length_contents hi
  apply List.ext_getElem?
  intro k
  by_cases hk : k < m.layout.size
  · exact h.cells i hi k hk (Set.notMem_empty _)
  · rw [List.getElem?_eq_none (by omega), List.getElem?_eq_none (by omega)]

/-- Without stale cells the same cells are read. -/
theorem cells_eq (h : Twins m ∅ p p') (hi : i ∈ m.used) :
    p'.cells (m.second i) = p.cells (m.first i) := by
  rw [← h.first, ← h.second, h.sound.cells_eq ((h.live i).mpr hi),
    h.sound'.cells_eq ((h.live' i).mpr hi), h.contents_eq hi]

/-! ## Writing -/

/-- Records that were rewritten leave twins. -/
theorem setRecord (h : Twins m stale p p') (hi : i ∈ m.used) {cells cells' : List β}
    (hcells : cells.length = m.layout.size) (hcells' : cells'.length = m.layout.size)
    (hagree : ∀ k < m.layout.size, (i, k) ∉ stale' → cells'[k]? = cells[k]?)
    (hother : ∀ j k, j ≠ i → (j, k) ∈ stale → (j, k) ∈ stale') :
    Twins m stale' (p.setRecord i cells) (p'.setRecord i cells') where
  sound := h.sound.setRecord i cells
  sound' := h.sound'.setRecord i cells'
  layout := h.layout
  layout' := h.layout'
  store := h.store.congr ⟨rfl, rfl, rfl, rfl⟩ ⟨rfl, rfl, rfl, rfl⟩
  allocated := h.allocated
  free := h.free
  live := h.live
  live' := h.live'
  first := h.first
  second := h.second
  cells := by
    intro j hj k hk hfresh
    rw [h.sound.contents_setRecord ((h.live i).mpr hi) (h.layout ▸ hcells),
      h.sound'.contents_setRecord ((h.live' i).mpr hi) (h.layout' ▸ hcells')]
    by_cases hji : j = i
    · subst hji
      rw [Function.update_self, Function.update_self]
      exact hagree k hk hfresh
    · rw [Function.update_of_ne hji, Function.update_of_ne hji]
      exact h.cells j hj k hk fun hmem => hfresh (hother j k hji hmem)

/-- **Patching** writes the same cells into both, which are no longer stale. -/
theorem patch (h : Twins m stale p p') (hi : i ∈ m.used) (offset : Nat) (values : List β) :
    Alike (Twins m (stale \ stretch i offset values.length))
      (p.patch i offset values) (p'.patch i offset values) := by
  have hlive := (h.live i).mpr hi
  have hlive' := (h.live' i).mpr hi
  obtain ⟨hlength, hlength'⟩ := h.length_contents hi
  -- a patch that does not fit faults in both before anything is written
  by_cases hfit : offset + values.length ≤ m.layout.size
  · rw [h.sound.patch_eq hlive (h.layout ▸ hfit), h.sound'.patch_eq hlive' (h.layout' ▸ hfit)]
    refine alike_ok (h.setRecord hi ?_ ?_ ?_ ?_)
    · rw [length_paste (by omega), hlength]
    · rw [length_paste (by omega), hlength']
    · intro k hk hfresh
      rw [getElem?_paste (by omega), getElem?_paste (by omega)]
      split
      · rfl
      · rename_i hout
        exact h.cells i hi k hk fun hmem => hfresh ⟨hmem, fun hin => hout hin.2⟩
    · exact fun j k hji hmem => ⟨hmem, fun hin => hji hin.1⟩
  · rw [h.sound.patch_of_outside hlive (by rw [h.layout]; omega),
      h.sound'.patch_of_outside hlive' (by rw [h.layout']; omega)]
    exact alike_error _

/-- **Copying** a record over a stale one makes both of them the same. -/
theorem copy (h : Twins m (cellsOf j) p p') (hi : i ∈ m.used) (hj : j ∈ m.used) (hne : j ≠ i) :
    Alike (Twins m ∅) (p.copy (m.first i) (m.first j)) (p'.copy (m.second i) (m.second j)) := by
  have hlive := (h.live i).mpr hi
  have hlive' := (h.live' i).mpr hi
  obtain ⟨hlength, hlength'⟩ := h.length_contents hi
  rw [← h.first, ← h.second, h.sound.copy_eq hlive ((h.live j).mpr hj) hne,
    h.sound'.copy_eq hlive' ((h.live' j).mpr hj) hne]
  refine alike_ok (h.setRecord hj hlength hlength' ?_ ?_)
  · exact fun k hk _ => h.cells i hi k hk fun hmem => hne hmem.symm
  · exact fun k l hkj hmem => (hkj hmem).elim

end Twins

end Pool

/-! ## Attributes -/

section Attributes

open Pool

variable {kind : Kind} {m : Pairing} {stale : Set (Nat × Nat)} {p p' : Pool β} {i : Nat}

/-- Twins give the same value. -/
theorem Attribute.get_twins (a : Attribute kind) (h : Twins m ∅ p p') (hi : i ∈ m.used) :
    a.get p' (m.second i) = a.get p (m.first i) := by
  rw [Attribute.get, Attribute.get, h.cells_eq hi]

/-- Twins give the same element. -/
theorem AttributeArray.get_twins (a : AttributeArray kind) (h : Twins m ∅ p p') (hi : i ∈ m.used)
    (k : Nat) : a.get p' (m.second i) k = a.get p (m.first i) k := by
  rw [AttributeArray.get, AttributeArray.get, h.cells_eq hi]

/-- **Writing a value** into twins leaves twins, and the value is not stale. -/
theorem Attribute.put_twins (a : Attribute kind) (h : Twins m stale p p') (hi : i ∈ m.used)
    (value : kind.Value F) :
    Alike (Twins m (stale \ stretch i a.offset kind.size))
      (a.put p (m.first i) value) (a.put p' (m.second i) value) := by
  obtain ⟨hrequire, hrequire'⟩ := h.require_eq hi
  rw [Attribute.put, Attribute.put, hrequire, hrequire', ok_bind, ok_bind]
  refine alike_bind (kind.encode value) fun cells hencode => ?_
  rw [← Kind.length_of_encode hencode]
  exact h.patch hi a.offset cells

/-- There is no element behind the end of an array. -/
theorem AttributeArray.elementOffset_of_le {a : AttributeArray kind} {k : Nat}
    (hk : a.length ≤ k) : a.elementOffset k = .error (.broken (.noElement k a.length)) := by
  rw [AttributeArray.elementOffset, decide_eq_false (by omega)]
  rfl

/-- **Writing an element** into twins leaves twins, and the element is not
stale. -/
theorem AttributeArray.put_twins (a : AttributeArray kind) (h : Twins m stale p p')
    (hi : i ∈ m.used) (k : Nat) (value : kind.Value F) :
    Alike (Twins m (stale \ stretch i (a.offset + k * kind.size) kind.size))
      (a.put p (m.first i) k value) (a.put p' (m.second i) k value) := by
  by_cases hk : k < a.length
  · rw [AttributeArray.put_eq_element hk, AttributeArray.put_eq_element hk]
    exact (a.element k).put_twins h hi value
  · rw [AttributeArray.put, AttributeArray.put, AttributeArray.elementOffset_of_le (by omega)]
    exact alike_error _

end Attributes

namespace Pool

variable {m n : Pairing} {p p' q q' : Pool β} {i j : Nat}

/-! ## Handing out and taking back -/

/-- Slots that were handed out alike leave twins; what the new record holds is
stale. -/
theorem Twins.of_allocates (h : Twins m ∅ p p') (halloc : p.Allocates i q)
    (halloc' : p'.Allocates i q') (hcount : q'.allocated = q.allocated) (hfree : q'.free = q.free)
    (hstore : q.store.Trails m.plan q'.store) : Twins (m.insert i) (cellsOf i) q q' where
  sound := halloc.sound
  sound' := halloc'.sound
  layout := halloc.layout.trans h.layout
  layout' := halloc'.layout.trans h.layout'
  store := hstore
  allocated := hcount
  free := hfree
  live := fun j => (halloc.live j).trans (or_congr_right (h.live j))
  live' := fun j => (halloc'.live j).trans (or_congr_right (h.live' j))
  first := halloc.referenceTo.trans h.first
  second := halloc'.referenceTo.trans h.second
  cells := by
    intro j hj k hk hfresh
    have hji : j ≠ i := hfresh
    have hused : j ∈ m.used := hj.resolve_left hji
    rw [halloc.kept j ((h.live j).mpr hused), halloc'.kept j ((h.live' j).mpr hused),
      h.contents_eq hused]

/-- A slot that was handed out from some memory leaves the plan of the store. -/
theorem Allocates.resembles (halloc : p.Allocates i q) (hp : p.Sound) {store : Store β}
    (hext : p.store.Extends store) (hcap : q.store.capacity = store.capacity) :
    store.Resembles q.store where
  blockSize := halloc.blockSize.trans hext.blockSize.symm
  limit := halloc.limit.trans hext.limit.symm
  recordSize := by
    rw [halloc.sound.recordSize, halloc.layout, hext.recordSize, hp.recordSize]
  capacity := hcap

/-- The outcomes of creating a record in twins: the same slot, stale as yet. -/
inductive Created (m : Pairing) :
    RecordIndex × Pool β × Reference → RecordIndex × Pool β × Reference → Prop where
  | intro {i : Nat} {q q' : Pool β} (fresh : i ∉ m.used)
      (twins : Twins (m.insert i) (cellsOf i) q q') :
      Created m (i, q, m.first i) (i, q', m.second i)

/-- **Creating a record** takes the same slot of both. -/
theorem Twins.create (h : Twins m ∅ p p') :
    Alike (Created m) (p.create p.newReference) (p'.create p'.newReference) := by
  have hown : p.newReference.pool = p.id := rfl
  have hown' : p'.newReference.pool = p'.id := rfl
  cases hfree : p.free with
  | cons i free =>
      -- both free lists have the same head
      have hfree' := h.free.trans hfree
      obtain ⟨q, heq, halloc, hcount, hrest, hcap⟩ := h.sound.allocate_of_free hown hfree
      obtain ⟨q', heq', halloc', hcount', hrest', hcap'⟩ := h.sound'.allocate_of_free hown' hfree'
      have hstore := h.store.congr
        (halloc.resembles h.sound h.sound.store.extends_refl hcap)
        (halloc'.resembles h.sound' h.sound'.store.extends_refl hcap')
      rw [Pool.create, Pool.create, heq, heq', ok_bind, ok_bind, h.first, h.second]
      refine alike_pure ⟨fun hi => halloc.fresh ((h.live i).mpr hi), ?_⟩
      exact h.of_allocates halloc halloc' (by rw [hcount', hcount, h.allocated])
        (hrest'.trans hrest.symm) hstore
  | nil =>
      -- both take the next new slot, for which the stores may differ in having to grow
      have hfree' := h.free.trans hfree
      rw [Pool.create, Pool.create]
      cases h.store.reserved h.sound.store h.sound'.store h.sound.allocated_le_capacity with
      | granted hreserve hreserve' hgrants =>
          rw [← h.allocated] at hreserve'
          obtain ⟨q, heq, halloc, hcount, hrest, hcap⟩ := h.sound.allocate_of_granted hown hfree
            hreserve hgrants.extends_first hgrants.room_first
          obtain ⟨q', heq', halloc', hcount', hrest', hcap'⟩ := h.sound'.allocate_of_granted hown'
            hfree' hreserve' hgrants.extends_second (by rw [h.allocated]; exact hgrants.room_second)
          have hstore := hgrants.trails.congr
            (halloc.resembles h.sound hgrants.extends_first hcap)
            (halloc'.resembles h.sound' hgrants.extends_second hcap')
          rw [h.allocated] at heq' halloc' hcount'
          rw [heq, heq', ok_bind, ok_bind, h.first, h.second]
          refine alike_pure ⟨fun hi => halloc.fresh ((h.live _).mpr hi), ?_⟩
          exact h.of_allocates halloc halloc' (by rw [hcount', hcount]) (hrest'.trans hrest.symm)
            hstore
      | refused hreserve hreserve' | overflow hreserve hreserve' =>
          rw [h.sound.allocate_eq_reserve hown hfree, h.sound'.allocate_eq_reserve hown' hfree',
            h.allocated, hreserve, hreserve']
          exact alike_error _

/-- A record that was taken back leaves the plan of the store. -/
theorem Deletes.resembles (hdel : p.Deletes i q) (hp : p.Sound) : p.store.Resembles q.store where
  blockSize := hdel.blockSize
  limit := hdel.limit
  recordSize := by
    rw [hdel.sound.recordSize, hdel.layout, hp.recordSize]
  capacity := hdel.capacity

/-- **Taking a record back** leaves twins without it. -/
theorem Twins.delete (h : Twins m ∅ p p') (hi : i ∈ m.used) :
    Alike (fun q q' => ∃ n, m.Drops i n ∧ Twins n ∅ q q')
      (p.delete (m.first i)) (p'.delete (m.second i)) := by
  obtain ⟨q, hdelete, hdel⟩ := h.sound.delete_eq ((h.live i).mpr hi)
  obtain ⟨q', hdelete', hdel'⟩ := h.sound'.delete_eq ((h.live' i).mpr hi)
  rw [← h.first, ← h.second, hdelete, hdelete']
  refine alike_ok ⟨⟨m.layout, m.plan, m.used \ {i}, q.referenceTo, q'.referenceTo⟩,
    ⟨rfl, rfl, rfl, fun j hj => ?_, fun j hj => ?_⟩, ?_⟩
  · rw [← h.first]
    exact hdel.referenceTo j hj
  · rw [← h.second]
    exact hdel'.referenceTo j hj
  exact {
    sound := hdel.sound
    sound' := hdel'.sound
    layout := hdel.layout.trans h.layout
    layout' := hdel'.layout.trans h.layout'
    store := h.store.congr (hdel.resembles h.sound) (hdel'.resembles h.sound')
    allocated := by rw [hdel'.allocated, hdel.allocated, h.allocated]
    free := by rw [hdel'.free, hdel.free, h.free]
    live := fun j => by rw [hdel.live, h.live, Set.mem_sdiff, Set.mem_singleton_iff, and_comm]
    live' := fun j => by rw [hdel'.live, h.live', Set.mem_sdiff, Set.mem_singleton_iff, and_comm]
    first := rfl
    second := rfl
    cells := by
      intro j hj k hk _
      rw [hdel.kept j hj.2, hdel'.kept j hj.2, h.contents_eq hj.1] }

/-! ## Clearing and making -/

/-- **Cleared pools are twins**, whatever was done with them before. -/
theorem Trails.clear {l : Layout} {plan : StorePlan} (h : Trails l plan p p') :
    Twins ⟨l, plan, ∅, p.clear.referenceTo, p'.clear.referenceTo⟩ ∅ p.clear p'.clear where
  sound := h.sound.clear
  sound' := h.sound'.clear
  layout := h.layout
  layout' := h.layout'
  store := h.store
  allocated := rfl
  free := rfl
  live := fun i => iff_of_false (not_isLive_clear p i) (Set.notMem_empty i)
  live' := fun i => iff_of_false (not_isLive_clear p' i) (Set.notMem_empty i)
  first := rfl
  second := rfl
  cells := fun i hi => absurd hi (Set.notMem_empty i)

/-- A pool can be made with any identity. -/
theorem make_of_make {layout : Layout} {plan : StorePlan} {id : PoolId} {reset : Reset β}
    (hmake : make id layout plan reset = pure p) (id' : PoolId) :
    make id' layout plan reset = pure { p with id := id' } := by
  obtain ⟨_, hvalid, hrest⟩ := bind_eq_pure_iff.mp hmake
  obtain ⟨store, hstore, hput⟩ := bind_eq_pure_iff.mp hrest
  refine bind_eq_pure_iff.mpr ⟨_, hvalid, bind_eq_pure_iff.mpr ⟨store, hstore, ?_⟩⟩
  cases hput
  rfl

/-- A new pool with a single array has the room that it was made with. -/
theorem capacity_of_make {layout : Layout} {id : PoolId} {reset : Reset β} {initial : Nat}
    (hmake : make id layout (.single initial) reset = pure p) : p.store.capacity = initial := by
  obtain ⟨_, -, hrest⟩ := bind_eq_pure_iff.mp hmake
  obtain ⟨store, hstore, hput⟩ := bind_eq_pure_iff.mp hrest
  cases hput
  exact (Store.eq_of_make_single (eq_ok_of_lift hstore)).2.1

/-- **New pools** of one layout with a single array are twins. -/
theorem twins_of_make {layout : Layout} {id id' : PoolId} {reset : Reset β} {initial : Nat}
    (hinitial : initial ≤ indexLimit) (hmake : make id layout (.single initial) reset = pure p) :
    Twins ⟨layout, .single initial, ∅, p.referenceTo,
      ({ p with id := id' } : Pool β).referenceTo⟩ ∅ p { p with id := id' } := by
  have hrange := StorePlan.inRange_single initial
  obtain ⟨hsound, hp⟩ := sound_of_make hrange hmake
  obtain ⟨hsound', -⟩ := sound_of_make hrange (make_of_make hmake id')
  obtain ⟨_, -, hrest⟩ := bind_eq_pure_iff.mp hmake
  obtain ⟨store, hstore, hput⟩ := bind_eq_pure_iff.mp hrest
  have hdead : ∀ i, ¬ p.IsLive i := by
    intro i
    rw [hp]
    simp [IsLive]
  cases hput
  exact {
    sound := hsound
    sound' := hsound'
    layout := rfl
    layout' := rfl
    store := Store.trails_of_make hinitial (eq_ok_of_lift hstore)
    allocated := rfl
    free := rfl
    live := fun i => iff_of_false (hdead i) (Set.notMem_empty i)
    live' := fun i => iff_of_false (hdead i) (Set.notMem_empty i)
    first := rfl
    second := rfl
    cells := fun i hi => absurd hi (Set.notMem_empty i) }

end Pool

end RecordPool
