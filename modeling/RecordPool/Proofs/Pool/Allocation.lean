/-
# Allocation in record pools

A pool is sound when every slot handed out is either in use or free, never
both, and has its liveness, its generation and its memory in place.  The valid
reference to a record in use is unique (`Pool.referenceTo`); each operation of
a sound pool succeeds on it, keeps the pool sound and leaves the other records
alone.
-/
import RecordPool.Pool.Basic
import RecordPool.Proofs.Store.Growth

namespace RecordPool

variable {β F : Type} [Memory β F]

namespace Pool

/-! ## Sound pools -/

/-- The slot `index` holds a record in use. -/
def IsLive (p : Pool β) (index : Nat) : Prop :=
  p.live[index]? = some true

/-- The reference that a pool hands out for the record `index`. -/
def referenceTo (p : Pool β) (index : Nat) : Reference :=
  ⟨p.id, some ⟨index, p.generations.getD index 0, p.epoch⟩⟩

/-- The cells of each record. -/
def contents (p : Pool β) : Nat → List β :=
  p.store.contents

/-- The tables of a pool agree with each other and with its store. -/
structure Sound (p : Pool β) : Prop where
  store : p.store.Sound
  recordSize : p.store.recordSize = p.layout.size
  live_size : p.live.size = p.allocated
  allocated_le_generations : p.allocated ≤ p.generations.size
  allocated_le_capacity : p.allocated ≤ p.store.capacity
  free_nodup : p.free.Nodup
  mem_free_iff : ∀ i, i ∈ p.free ↔ p.live[i]? = some false

variable {p p' : Pool β} {i j : Nat}

/-- A slot in use was handed out. -/
theorem Sound.lt_allocated (h : p.Sound) (hi : p.IsLive i) : i < p.allocated := by
  rw [← h.live_size]
  exact (Array.getElem?_eq_some_iff.mp hi).1

/-- A slot in use has memory. -/
theorem Sound.lt_capacity (h : p.Sound) (hi : p.IsLive i) : i < p.store.capacity :=
  lt_of_lt_of_le (h.lt_allocated hi) h.allocated_le_capacity

/-- A slot that was handed out has a generation. -/
theorem Sound.generation_eq (h : p.Sound) (hi : i < p.allocated) :
    p.generations[i]? = some (p.generations.getD i 0) := by
  have hlt : i < p.generations.size := lt_of_lt_of_le hi h.allocated_le_generations
  rw [Array.getElem?_eq_getElem hlt, Array.getD_eq_getD_getElem?, Array.getElem?_eq_getElem hlt,
    Option.getD_some]

/-- A record in use has the size of the layout. -/
theorem Sound.length_contents (h : p.Sound) (hi : p.IsLive i) :
    (p.contents i).length = p.layout.size := by
  rw [contents, h.store.length_contents (h.lt_capacity hi), h.recordSize]

/-- The slots in use and the free ones are all that were handed out. -/
theorem Sound.perm_range (h : p.Sound) {used : List Nat} (hnodup : used.Nodup)
    (hmem : ∀ i, i ∈ used ↔ p.IsLive i) : (used ++ p.free).Perm (List.range p.allocated) := by
  have happend : (used ++ p.free).Nodup := by
    refine List.nodup_append.mpr ⟨hnodup, h.free_nodup, ?_⟩
    rintro a ha b hb rfl
    have hlive : p.live[a]? = some true := (hmem a).mp ha
    rw [(h.mem_free_iff a).mp hb] at hlive
    cases hlive
  -- without repetition it is enough to compare members
  refine (List.perm_ext_iff_of_nodup happend List.nodup_range).mpr fun a => ?_
  rw [List.mem_append, hmem, h.mem_free_iff, IsLive, List.mem_range, ← h.live_size]
  constructor
  · rintro (hlive | hfree)
    · exact (Array.getElem?_eq_some_iff.mp hlive).1
    · exact (Array.getElem?_eq_some_iff.mp hfree).1
  · intro hlt
    rw [Array.getElem?_eq_getElem hlt]
    cases p.live[a] <;> simp

/-- A pool that hands out slots in use and free ones counts them all. -/
theorem Sound.length_add_length (h : p.Sound) {used : List Nat} (hnodup : used.Nodup)
    (hmem : ∀ i, i ∈ used ↔ p.IsLive i) : used.length + p.free.length = p.allocated := by
  have hperm := (h.perm_range hnodup hmem).length_eq
  rwa [List.length_append, List.length_range] at hperm

/-- A pool without free slots has every slot in use. -/
theorem Sound.isLive_of_full (h : p.Sound) (hfull : p.free = []) (hi : i < p.allocated) :
    p.IsLive i := by
  have hlt : i < p.live.size := by
    rw [h.live_size]
    exact hi
  have hdead : ¬ p.live[i]? = some false := fun hfree => by
    have hmem := (h.mem_free_iff i).mpr hfree
    rw [hfull] at hmem
    cases hmem
  rw [IsLive, Array.getElem?_eq_getElem hlt] at *
  cases hlive : p.live[i] with
  | false => exact absurd (by rw [hlive]) hdead
  | true => rfl

/-! ## References -/

/-- **The reference to a record in use is valid.** -/
theorem Sound.resolve_referenceTo (h : p.Sound) (hi : p.IsLive i) :
    p.resolve (p.referenceTo i) = pure i := by
  have hlt : ¬ p.allocated ≤ i := by
    have := h.lt_allocated hi
    omega
  simp [resolve, referenceTo, hlt, fetch_eq_ok hi]

/-- A valid reference is accepted wherever one is required. -/
theorem Sound.require_referenceTo (h : p.Sound) (hi : p.IsLive i) :
    p.require (p.referenceTo i) = .ok i := by
  rw [require, h.resolve_referenceTo hi]
  rfl

/-- A reference of the pool is not foreign. -/
theorem demand_own {r : Reference} (hr : r.pool = p.id) :
    demand (r.pool == p.id) .foreignReference = .ok () := by
  rw [hr, beq_self_eq_true]
  rfl

/-- A reference of another pool is foreign. -/
theorem demand_foreign {r : Reference} (hr : r.pool ≠ p.id) :
    demand (r.pool == p.id) .foreignReference = .error (.broken .foreignReference) := by
  rw [demand, if_neg (by simpa using hr)]
  rfl

/-- Looking a record in use up points the reference at it. -/
theorem Sound.pointAt_eq (h : p.Sound) (hi : p.IsLive i) {r : Reference} (hr : r.pool = p.id) :
    p.pointAt i r = .ok (p.referenceTo i) := by
  have hlive : p.isLive i = .ok true := by
    rw [isLive, if_pos (h.lt_allocated hi), fetch_eq_ok hi]
  rw [pointAt, demand_own hr, ok_bind, hlive, ok_bind, demand_true, ok_bind,
    fetch_eq_ok (h.generation_eq (h.lt_allocated hi)), ok_bind, Reference.aim, hr]
  rfl

/-- Listeners do not matter to the tables. -/
theorem Sound.withListeners (h : p.Sound) (listeners : List Listener) :
    ({ p with listeners } : Pool β).Sound where
  store := h.store
  recordSize := h.recordSize
  live_size := h.live_size
  allocated_le_generations := h.allocated_le_generations
  allocated_le_capacity := h.allocated_le_capacity
  free_nodup := h.free_nodup
  mem_free_iff := h.mem_free_iff

/-! ## Cells of records -/

/-- The pool with `cells` for the record `index`. -/
def setRecord (p : Pool β) (index : Nat) (cells : List β) : Pool β :=
  { p with store := p.store.setRecord index cells }

/-- Writing a record keeps a pool sound. -/
theorem Sound.setRecord (h : p.Sound) (i : Nat) (cells : List β) : (p.setRecord i cells).Sound where
  store := h.store.setRecord i cells
  recordSize := h.recordSize
  live_size := h.live_size
  allocated_le_generations := h.allocated_le_generations
  allocated_le_capacity := h.allocated_le_capacity
  free_nodup := h.free_nodup
  mem_free_iff := h.mem_free_iff

/-- Writing a record in use changes that record only. -/
theorem Sound.contents_setRecord (h : p.Sound) (hi : p.IsLive i) {cells : List β}
    (hcells : cells.length = p.layout.size) :
    (p.setRecord i cells).contents = Function.update p.contents i cells :=
  h.store.contents_setRecord (h.lt_capacity hi) (by rw [hcells, h.recordSize])

/-- Of two writings of one record the second one counts. -/
theorem Sound.setRecord_setRecord (h : p.Sound) (hi : p.IsLive i) {cells cells' : List β}
    (hcells : cells.length = p.layout.size) (hcells' : cells'.length = p.layout.size) :
    (p.setRecord i cells).setRecord i cells' = p.setRecord i cells' :=
  congrArg (fun store => { p with store })
    (h.store.setRecord_setRecord (h.lt_capacity hi) (by rw [hcells, h.recordSize])
      (by rw [hcells', h.recordSize]))

/-- Writing what a record holds changes nothing. -/
theorem Sound.setRecord_contents (h : p.Sound) (hi : p.IsLive i) :
    p.setRecord i (p.contents i) = p :=
  congrArg (fun store => { p with store }) (h.store.setRecord_contents (h.lt_capacity hi))

/-- The cells of a record in use are its contents. -/
theorem Sound.cells_eq (h : p.Sound) (hi : p.IsLive i) :
    p.cells (p.referenceTo i) = .ok (p.contents i) := by
  rw [cells, h.require_referenceTo hi, ok_bind, h.store.record_eq (h.lt_capacity hi)]
  rfl

/-- Patching pastes cells into a record. -/
theorem Sound.patch_eq (h : p.Sound) (hi : p.IsLive i) {offset : Nat} {values : List β}
    (hfit : offset + values.length ≤ p.layout.size) :
    p.patch i offset values = .ok (p.setRecord i (paste (p.contents i) offset values)) := by
  have hlength : (p.store.contents i).length = p.layout.size := h.length_contents hi
  have hfit' : offset + values.length ≤ (p.store.contents i).length := by omega
  have hpaste : (paste (p.store.contents i) offset values).length = p.store.recordSize := by
    rw [length_paste hfit', hlength, h.recordSize]
  rw [patch, h.store.record_eq (h.lt_capacity hi), ok_bind, splice_eq_ok hfit', ok_bind,
    h.store.write_eq (h.lt_capacity hi) hpaste, ok_bind]
  rfl

/-- Patching cells behind the end of a record is an access outside it. -/
theorem Sound.patch_of_outside (h : p.Sound) (hi : p.IsLive i) {offset : Nat} {values : List β}
    (hout : p.layout.size < offset + values.length) :
    p.patch i offset values = .error .bounds := by
  have hlength : (p.store.contents i).length = p.layout.size := h.length_contents hi
  rw [patch, h.store.record_eq (h.lt_capacity hi), ok_bind, splice, if_neg (by omega)]
  rfl

/-- Copying a record over another one writes its contents there. -/
theorem Sound.copy_eq (h : p.Sound) (hi : p.IsLive i) (hj : p.IsLive j) (hne : j ≠ i) :
    p.copy (p.referenceTo i) (p.referenceTo j) = .ok (p.setRecord j (p.contents i)) := by
  rw [copy, h.require_referenceTo hi, ok_bind, h.require_referenceTo hj, ok_bind,
    h.store.copy_eq (h.lt_capacity hi) (h.lt_capacity hj) hne, ok_bind]
  rfl

/-- Resetting a slot rewrites its cells. -/
theorem resetRecord_eq (h : p.store.Sound) (hi : i < p.store.capacity) :
    p.resetRecord i = .ok (p.setRecord i (p.reset.apply (p.contents i))) := by
  have hlength : (p.reset.apply (p.store.contents i)).length = p.store.recordSize := by
    rw [p.reset.length_apply, h.length_contents hi]
  rw [resetRecord, h.record_eq hi, ok_bind, h.write_eq hi hlength, ok_bind]
  rfl

/-! ## Rewritten records -/

/-- The pool `p'` is `p` with `cells` for the record `i`; nothing else differs
but the memory. -/
structure Rewrites (p : Pool β) (i : Nat) (cells : List β) (p' : Pool β) : Prop where
  sound : p'.Sound
  contents : p'.contents = Function.update p.contents i cells
  frame : p' = { p with store := p'.store }
  capacity : p'.store.capacity = p.store.capacity
  limit : p'.store.limit = p.store.limit

/-- Writing a record in use rewrites it. -/
theorem Sound.rewrites_setRecord (h : p.Sound) (hi : p.IsLive i) {cells : List β}
    (hcells : cells.length = p.layout.size) : p.Rewrites i cells (p.setRecord i cells) where
  sound := h.setRecord i cells
  contents := h.contents_setRecord hi hcells
  frame := rfl
  capacity := rfl
  limit := rfl

namespace Rewrites

variable {p'' : Pool β} {cells cells' : List β}

/-- Of two rewritings of one record the second one counts. -/
theorem trans (h : p.Rewrites i cells p') (h' : p'.Rewrites i cells' p'') :
    p.Rewrites i cells' p'' where
  sound := h'.sound
  contents := by
    rw [h'.contents, h.contents, Function.update_idem]
  frame := by
    rw [h'.frame, h.frame]
  capacity := h'.capacity.trans h.capacity
  limit := h'.limit.trans h.limit

theorem id (h : p.Rewrites i cells p') : p'.id = p.id := by
  rw [h.frame]

theorem layout (h : p.Rewrites i cells p') : p'.layout = p.layout := by
  rw [h.frame]

theorem live (h : p.Rewrites i cells p') : p'.live = p.live := by
  rw [h.frame]

theorem isLive_iff (h : p.Rewrites i cells p') : p'.IsLive j ↔ p.IsLive j := by
  rw [IsLive, h.live]
  rfl

theorem referenceTo (h : p.Rewrites i cells p') : p'.referenceTo = p.referenceTo := by
  rw [h.frame]
  rfl

theorem contents_self (h : p.Rewrites i cells p') : p'.contents i = cells := by
  rw [h.contents, Function.update_self]

theorem contents_of_ne (h : p.Rewrites i cells p') (hne : j ≠ i) :
    p'.contents j = p.contents j := by
  rw [h.contents, Function.update_of_ne hne]

end Rewrites

/-! ## Handing out -/

/-- The pool `p'` is `p` with the slot `i`, which was not in use, put into
use; every other record in use stays as it was.  Only without a free slot is
the slot a new one. -/
structure Allocates (p : Pool β) (i : Nat) (p' : Pool β) : Prop where
  sound : p'.Sound
  fresh : ¬ p.IsLive i
  allocated : p'.allocated = if p.free = [] then p.allocated + 1 else p.allocated
  live : ∀ j, p'.IsLive j ↔ j = i ∨ p.IsLive j
  kept : ∀ j, p.IsLive j → p'.contents j = p.contents j
  id : p'.id = p.id
  layout : p'.layout = p.layout
  reset : p'.reset = p.reset
  listeners : p'.listeners = p.listeners
  epoch : p'.epoch = p.epoch
  referenceTo : p'.referenceTo = p.referenceTo
  limit : p'.store.limit = p.store.limit
  blockSize : p'.store.blockSize = p.store.blockSize
  capacity_le : p.store.capacity ≤ p'.store.capacity

/-- The slot `i` of the pool is claimed: it has memory and tables as any slot
that was handed out, but it is neither free nor in use. -/
structure Claims (p : Pool β) (i : Nat) : Prop where
  store : p.store.Sound
  recordSize : p.store.recordSize = p.layout.size
  live_size : p.live.size = p.allocated
  allocated_le_generations : p.allocated ≤ p.generations.size
  allocated_le_capacity : p.allocated ≤ p.store.capacity
  free_nodup : p.free.Nodup
  mem_free_iff : ∀ a, a ∈ p.free ↔ a ≠ i ∧ p.live[a]? = some false
  dead : p.live[i]? = some false

/-- The pool after the slot `i` was reset and put into use. -/
def occupied (p : Pool β) (i : Nat) : Pool β :=
  { p.setRecord i (p.reset.apply (p.contents i)) with live := p.live.setIfInBounds i true }

/-- Resetting a slot changes the contents of no other one. -/
theorem contents_reset_of_ne (h : p.store.Sound) (hi : i < p.store.capacity) (hne : j ≠ i) :
    (p.setRecord i (p.reset.apply (p.contents i))).contents j = p.contents j := by
  have hlength : (p.reset.apply (p.store.contents i)).length = p.store.recordSize := by
    rw [p.reset.length_apply, h.length_contents hi]
  show (p.store.setRecord i (p.reset.apply (p.store.contents i))).contents j = _
  rw [h.contents_setRecord hi hlength, Function.update_of_ne hne]
  rfl

namespace Claims

/-- A claimed slot was handed out. -/
theorem lt_allocated (h : p.Claims i) : i < p.allocated := by
  rw [← h.live_size]
  exact (Array.getElem?_eq_some_iff.mp h.dead).1

/-- A claimed slot has memory. -/
theorem lt_capacity (h : p.Claims i) : i < p.store.capacity :=
  lt_of_lt_of_le h.lt_allocated h.allocated_le_capacity

/-- A claimed slot is put into use. -/
theorem occupy_eq (h : p.Claims i) {r : Reference} (hr : r.pool = p.id) :
    p.occupy i r = .ok (p.occupied i, p.referenceTo i) := by
  have hlt : i < p.generations.size := lt_of_lt_of_le h.lt_allocated h.allocated_le_generations
  have hgeneration : (p.setRecord i (p.reset.apply (p.contents i))).generations[i]? =
      some (p.generations.getD i 0) := by
    show p.generations[i]? = _
    rw [Array.getElem?_eq_getElem hlt, Array.getD_eq_getD_getElem?, Array.getElem?_eq_getElem hlt,
      Option.getD_some]
  rw [occupy, fetch_eq_ok h.dead, ok_bind, resetRecord_eq h.store h.lt_capacity, ok_bind,
    fetch_eq_ok hgeneration, ok_bind, referenceTo, ← hr]
  rfl

/-- Putting a claimed slot into use adds it to the slots in use. -/
theorem isLive_occupied (h : p.Claims i) : (p.occupied i).IsLive j ↔ j = i ∨ p.IsLive j := by
  have hlt : i < p.live.size := (Array.getElem?_eq_some_iff.mp h.dead).1
  show (p.live.setIfInBounds i true)[j]? = some true ↔ _
  rw [Array.getElem?_setIfInBounds]
  by_cases hij : i = j
  · subst hij
    simp [hlt]
  · rw [if_neg hij]
    exact ⟨Or.inr, fun hor => hor.resolve_left (Ne.symm hij)⟩

/-- Putting a claimed slot into use makes the pool sound. -/
theorem sound_occupied (h : p.Claims i) : (p.occupied i).Sound where
  store := h.store.setRecord i _
  recordSize := h.recordSize
  live_size := by
    show (p.live.setIfInBounds i true).size = p.allocated
    rw [Array.size_setIfInBounds, h.live_size]
  allocated_le_generations := h.allocated_le_generations
  allocated_le_capacity := h.allocated_le_capacity
  free_nodup := h.free_nodup
  mem_free_iff := by
    intro a
    show a ∈ p.free ↔ (p.live.setIfInBounds i true)[a]? = some false
    rw [h.mem_free_iff, Array.getElem?_setIfInBounds]
    by_cases hia : i = a
    · subst hia
      simp [h.live_size, h.lt_allocated]
    · rw [if_neg hia]
      exact ⟨And.right, fun hdead => ⟨Ne.symm hia, hdead⟩⟩

end Claims

/-- Taking the first free slot claims it. -/
theorem Sound.claims_of_free (h : p.Sound) {free : List RecordIndex} (hfree : p.free = i :: free) :
    ({ p with free } : Pool β).Claims i where
  store := h.store
  recordSize := h.recordSize
  live_size := h.live_size
  allocated_le_generations := h.allocated_le_generations
  allocated_le_capacity := h.allocated_le_capacity
  free_nodup := (List.nodup_cons.mp (hfree ▸ h.free_nodup)).2
  mem_free_iff := by
    intro a
    have hnotMem : i ∉ free := (List.nodup_cons.mp (hfree ▸ h.free_nodup)).1
    rw [← h.mem_free_iff, hfree, List.mem_cons]
    constructor
    · intro hmem
      exact ⟨fun hai => hnotMem (hai ▸ hmem), Or.inr hmem⟩
    · rintro ⟨hne, hor⟩
      exact hor.resolve_left hne
  dead := (h.mem_free_iff i).mp (hfree ▸ List.mem_cons_self)

/-- The first free slot is handed out before any new one. -/
theorem Sound.allocate_eq_occupied (h : p.Sound) {r : Reference} (hr : r.pool = p.id)
    {free : List RecordIndex} (hfree : p.free = i :: free) :
    p.allocate r = .ok (.ok i, ({ p with free } : Pool β).occupied i, p.referenceTo i) := by
  rw [allocate, demand_own hr, ok_bind, hfree]
  dsimp only
  rw [(h.claims_of_free hfree).occupy_eq hr]
  rfl

/-- A free slot that is handed out was not in use; the other slots wait on. -/
theorem Sound.allocate_of_free (h : p.Sound) {r : Reference} (hr : r.pool = p.id)
    {free : List RecordIndex} (hfree : p.free = i :: free) :
    ∃ p', p.allocate r = .ok (.ok i, p', p.referenceTo i) ∧ p.Allocates i p' ∧
      p'.allocated = p.allocated ∧ p'.free = free ∧ p'.store.capacity = p.store.capacity := by
  have hclaims := h.claims_of_free hfree
  have hfresh : ¬ p.IsLive i := fun hlive => by
    have hdead : p.live[i]? = some false := hclaims.dead
    rw [IsLive, hdead] at hlive
    cases hlive
  refine ⟨({ p with free } : Pool β).occupied i, h.allocate_eq_occupied hr hfree, ?_, rfl, rfl,
    rfl⟩
  exact {
    sound := hclaims.sound_occupied
    fresh := hfresh
    allocated := by
      rw [if_neg (by rw [hfree]; exact List.cons_ne_nil i free)]
      rfl
    live := fun j => hclaims.isLive_occupied
    kept := fun j hj =>
      contents_reset_of_ne h.store hclaims.lt_capacity fun hji => hfresh (hji ▸ hj)
    id := rfl
    layout := rfl
    reset := rfl
    listeners := rfl
    epoch := rfl
    referenceTo := rfl
    limit := rfl
    blockSize := rfl
    capacity_le := Nat.le_refl _ }

/-! ### New slots -/

section AddSlot

variable {store : Store β}

/-- A new slot has the generation that the pool remembers for it, or the
first one. -/
theorem referenceTo_addSlot : (p.addSlot store).referenceTo = p.referenceTo := by
  have hgeneration : ∀ k, (p.addSlot store).generations.getD k 0 = p.generations.getD k 0 := by
    intro k
    show (if p.generations.size ≤ p.allocated then p.generations.push 0
      else p.generations).getD k 0 = _
    split
    · rw [Array.getD_eq_getD_getElem?, Array.getD_eq_getD_getElem?, Array.getElem?_push]
      split
      · rename_i hk
        subst hk
        simp
      · rfl
    · rfl
  funext k
  rw [referenceTo, referenceTo, hgeneration]
  rfl

/-- A new slot is not in use. -/
theorem isLive_addSlot : (p.addSlot store).IsLive j ↔ p.IsLive j := by
  show (p.live.push false)[j]? = some true ↔ p.live[j]? = some true
  rw [Array.getElem?_push]
  split
  · rename_i hj
    subst hj
    simp
  · rfl

/-- A new slot is claimed, in a store that has room for it. -/
theorem Sound.claims_addSlot (h : p.Sound) (hext : p.store.Extends store)
    (hroom : p.allocated + 1 ≤ store.capacity) : (p.addSlot store).Claims p.allocated where
  store := hext.sound
  recordSize := hext.recordSize.trans h.recordSize
  live_size := by
    show (p.live.push false).size = p.allocated + 1
    rw [Array.size_push, h.live_size]
  allocated_le_generations := by
    show p.allocated + 1 ≤
      (if p.generations.size ≤ p.allocated then p.generations.push 0 else p.generations).size
    have hle := h.allocated_le_generations
    split
    · rw [Array.size_push]
      omega
    · omega
  allocated_le_capacity := hroom
  free_nodup := h.free_nodup
  mem_free_iff := by
    intro a
    show a ∈ p.free ↔ a ≠ p.allocated ∧ (p.live.push false)[a]? = some false
    rw [h.mem_free_iff, Array.getElem?_push, h.live_size]
    by_cases ha : a = p.allocated
    · subst ha
      simp [← h.live_size]
    · rw [if_neg ha]
      exact ⟨fun hdead => ⟨ha, hdead⟩, And.right⟩
  dead := by
    show (p.live.push false)[p.allocated]? = some false
    rw [← h.live_size, Array.getElem?_push_size]

end AddSlot

/-- There is memory for one more slot, or the store may still grow and its
memory stays within the machine range. -/
def HasRoom (p : Pool β) : Prop :=
  p.allocated < p.store.capacity ∨
    p.allocated < p.store.limit ∧ 2 ^ 31 * p.layout.size < sizeBound

/-- There is room for one more slot, or the store grows until there is. -/
theorem Sound.exists_room (h : p.Sound) (hroom : p.HasRoom) :
    ∃ grew store, p.store.reserve (p.allocated + 1) = .ok (.ok grew, store) ∧
      p.store.Extends store ∧ p.allocated + 1 ≤ store.capacity := by
  rcases hroom with hle | ⟨hlimit, hbound⟩
  · exact ⟨false, p.store, Store.reserve_of_le hle, h.store.extends_refl, hle⟩
  · exact h.store.reserve_eq hlimit (by rw [h.recordSize]; exact hbound)

/-- Without a free slot a pool asks its store for one more record. -/
theorem Sound.allocate_eq_reserve (h : p.Sound) {r : Reference} (hr : r.pool = p.id)
    (hfree : p.free = []) : p.allocate r = (do
      let (outcome, store) ← p.store.reserve (p.allocated + 1)
      match outcome with
      | .error refusal => pure (.error refusal, { p with store }, r)
      | .ok _ => do
          let (p', r') ← (p.addSlot store).occupy p.allocated r
          pure (.ok p.allocated, p', r')) := by
  have hsmall : p.allocated + 1 < countBound := by
    have hle := h.allocated_le_capacity.trans h.store.capacity_le
    have hbound : (2 : Nat) ^ 31 + 1 < countBound := by decide
    omega
  rw [allocate, demand_own hr, ok_bind, hfree]
  exact congrArg (· >>= _) (addCount_eq_ok hsmall)

/-- Without a free slot the next new one is handed out when the store grants
the memory for it. -/
theorem Sound.allocate_eq_addSlot (h : p.Sound) {r : Reference} (hr : r.pool = p.id)
    (hfree : p.free = []) {grew : Bool} {store : Store β}
    (hreserve : p.store.reserve (p.allocated + 1) = .ok (.ok grew, store))
    (hext : p.store.Extends store) (hcap : p.allocated + 1 ≤ store.capacity) :
    p.allocate r =
      .ok (.ok p.allocated, (p.addSlot store).occupied p.allocated, p.referenceTo p.allocated) := by
  rw [h.allocate_eq_reserve hr hfree, hreserve, ok_bind]
  dsimp only
  rw [(h.claims_addSlot hext hcap).occupy_eq hr, referenceTo_addSlot]
  rfl

/-- A new slot that is handed out was not in use, and no slot is free. -/
theorem Sound.allocate_of_granted (h : p.Sound) {r : Reference} (hr : r.pool = p.id)
    (hfree : p.free = []) {grew : Bool} {store : Store β}
    (hreserve : p.store.reserve (p.allocated + 1) = .ok (.ok grew, store))
    (hext : p.store.Extends store) (hcap : p.allocated + 1 ≤ store.capacity) :
    ∃ p', p.allocate r = .ok (.ok p.allocated, p', p.referenceTo p.allocated) ∧
      p.Allocates p.allocated p' ∧ p'.allocated = p.allocated + 1 ∧ p'.free = [] ∧
      p'.store.capacity = store.capacity := by
  have hclaims := h.claims_addSlot hext hcap
  have hfresh : ¬ p.IsLive p.allocated := fun hlive => by
    have := h.lt_allocated hlive
    omega
  refine ⟨(p.addSlot store).occupied p.allocated,
    h.allocate_eq_addSlot hr hfree hreserve hext hcap, ?_, rfl, hfree, rfl⟩
  exact {
    sound := hclaims.sound_occupied
    fresh := hfresh
    allocated := by
      rw [if_pos hfree]
      rfl
    live := fun j => hclaims.isLive_occupied.trans (or_congr_right isLive_addSlot)
    kept := by
      intro j hj
      have hne : j ≠ p.allocated := fun heq => hfresh (heq ▸ hj)
      exact (contents_reset_of_ne hext.sound hclaims.lt_capacity hne).trans
        (hext.kept j (h.lt_capacity hj))
    id := rfl
    layout := rfl
    reset := rfl
    listeners := rfl
    epoch := rfl
    referenceTo := by
      show (p.addSlot store).referenceTo = p.referenceTo
      exact referenceTo_addSlot
    limit := hext.limit
    blockSize := hext.blockSize
    capacity_le := hext.capacity_le }

/-- Without a free slot the next new one is handed out, as long as there is
room for it or the store may still grow. -/
theorem Sound.allocate_of_full (h : p.Sound) {r : Reference} (hr : r.pool = p.id)
    (hfree : p.free = []) (hroom : p.HasRoom) :
    ∃ p', p.allocate r = .ok (.ok p.allocated, p', p.referenceTo p.allocated) ∧
      p.Allocates p.allocated p' ∧ p'.allocated = p.allocated + 1 ∧ p'.free = [] := by
  obtain ⟨grew, store, hreserve, hext, hcap⟩ := h.exists_room hroom
  obtain ⟨p', heq, halloc, hcount, hfree', -⟩ :=
    h.allocate_of_granted hr hfree hreserve hext hcap
  exact ⟨p', heq, halloc, hcount, hfree'⟩

/-- A reference of another pool is not taken. -/
theorem allocate_of_foreign {r : Reference} (hr : r.pool ≠ p.id) :
    p.allocate r = .error (.broken .foreignReference) := by
  rw [allocate, demand_foreign hr]
  rfl

/-- **What asking for a slot can lead to.**  A slot that was not in use is
handed out; or the pool is full, and nothing changes; or the memory would
leave the machine range. -/
theorem Sound.allocate_cases (h : p.Sound) {r : Reference} (hr : r.pool = p.id) :
    (∃ i p', p.allocate r = .ok (.ok i, p', p.referenceTo i) ∧ p.Allocates i p') ∨
      (p.allocate r =
          .ok (.error (.capacityExceeded (p.allocated + 1) p.store.limit), p, r) ∧
        p.free = [] ∧ p.store.capacity ≤ p.allocated ∧ p.store.limit ≤ p.allocated) ∨
      p.allocate r = .error .arithmetic := by
  cases hfree : p.free with
  | cons i free =>
      obtain ⟨p', heq, halloc, -⟩ := h.allocate_of_free hr hfree
      exact Or.inl ⟨i, p', heq, halloc⟩
  | nil =>
      rcases h.store.reserve_cases (p.allocated + 1) with
        ⟨grew, store, hreserve, hext, hcap⟩ | ⟨hreserve, hcap, hlimit⟩ | ⟨hreserve, -⟩
      · obtain ⟨p', heq, halloc, -⟩ := h.allocate_of_granted hr hfree hreserve hext hcap
        exact Or.inl ⟨_, p', heq, halloc⟩
      · refine Or.inr (Or.inl ⟨?_, rfl, by omega, by omega⟩)
        rw [h.allocate_eq_reserve hr hfree, hreserve]
        rfl
      · refine Or.inr (Or.inr ?_)
        rw [h.allocate_eq_reserve hr hfree, hreserve]
        rfl

/-- Asking for a slot never leaves the machine range when the memory stays
within it however much the store grows. -/
theorem Sound.allocate_ne_arithmetic (h : p.Sound) {r : Reference} (hr : r.pool = p.id)
    (hbound : 2 ^ 31 * p.layout.size < sizeBound) : p.allocate r ≠ .error .arithmetic := by
  intro harithmetic
  cases hfree : p.free with
  | cons i free =>
      obtain ⟨p', heq, -⟩ := h.allocate_of_free hr hfree
      rw [heq] at harithmetic
      cases harithmetic
  | nil =>
      rw [h.allocate_eq_reserve hr hfree] at harithmetic
      rcases h.store.reserve_cases (p.allocated + 1) with
        ⟨grew, store, hreserve, hext, hcap⟩ | ⟨hreserve, -⟩ | ⟨-, -, hlimit, hover⟩
      · rw [← h.allocate_eq_reserve hr hfree, h.allocate_eq_addSlot hr hfree hreserve hext hcap]
          at harithmetic
        cases harithmetic
      · rw [hreserve] at harithmetic
        cases harithmetic
      · -- the block would be larger than the largest count of records
        have hle := Nat.mul_le_mul_right p.store.recordSize (h.store.blockFor_le hlimit)
        rw [h.recordSize] at hle hover
        omega

/-- Only references of the pool are taken. -/
theorem pool_eq_of_allocate {r : Reference} {result : Except PoolError RecordIndex × Pool β × Reference}
    (hallocate : p.allocate r = .ok result) : r.pool = p.id := by
  by_contra hr
  rw [allocate_of_foreign hr] at hallocate
  cases hallocate

/-- A slot that is handed out was not in use, and the reference points at it. -/
theorem Sound.allocates_of_allocate (h : p.Sound) {r r' : Reference}
    (hallocate : p.allocate r = .ok (.ok i, p', r')) :
    p.Allocates i p' ∧ r' = p.referenceTo i := by
  rcases h.allocate_cases (pool_eq_of_allocate hallocate) with
    ⟨j, p₁, heq, halloc⟩ | ⟨heq, -⟩ | heq
  · rw [heq] at hallocate
    cases hallocate
    exact ⟨halloc, rfl⟩
  · rw [heq] at hallocate
    cases hallocate
  · rw [heq] at hallocate
    cases hallocate

/-- A refused request changes neither the pool nor the reference. -/
theorem Sound.eq_of_allocate_refused (h : p.Sound) {r r' : Reference} {refusal : PoolError}
    (hallocate : p.allocate r = .ok (.error refusal, p', r')) :
    p' = p ∧ r' = r ∧ refusal = .capacityExceeded (p.allocated + 1) p.store.limit := by
  rcases h.allocate_cases (pool_eq_of_allocate hallocate) with
    ⟨j, p₁, heq, -⟩ | ⟨heq, -⟩ | heq
  · rw [heq] at hallocate
    cases hallocate
  · rw [heq] at hallocate
    cases hallocate
    exact ⟨rfl, rfl, rfl⟩
  · rw [heq] at hallocate
    cases hallocate

/-- **Handing out succeeds** when a slot is free, when there is room for a new
one, or when the store may still grow. -/
theorem Sound.allocate_eq (h : p.Sound) {r : Reference} (hr : r.pool = p.id)
    (hroom : p.free = [] → p.HasRoom) :
    ∃ i p', p.allocate r = .ok (.ok i, p', p.referenceTo i) ∧ p.Allocates i p' := by
  cases hfree : p.free with
  | nil =>
      obtain ⟨p', heq, halloc, -⟩ := h.allocate_of_full hr hfree (hroom hfree)
      exact ⟨_, p', heq, halloc⟩
  | cons i free =>
      obtain ⟨p', heq, halloc, -⟩ := h.allocate_of_free hr hfree
      exact ⟨i, p', heq, halloc⟩

/-- Creating a record is handing out a slot. -/
theorem allocate_eq_of_create {r r' : Reference} (hcreate : p.create r = .ok (i, p', r')) :
    p.allocate r = .ok (.ok i, p', r') := by
  obtain ⟨⟨outcome, p₁, r₁⟩, hallocate, hrest⟩ := bind_eq_ok_iff.mp hcreate
  cases outcome with
  | error refusal => cases hrest
  | ok index =>
      cases hrest
      exact hallocate

/-- Creating a record succeeds where handing out a slot does. -/
theorem Sound.create_eq (h : p.Sound) {r : Reference} (hr : r.pool = p.id)
    (hroom : p.free = [] → p.HasRoom) :
    ∃ i p', p.create r = .ok (i, p', p.referenceTo i) ∧ p.Allocates i p' := by
  obtain ⟨i, p', heq, halloc⟩ := h.allocate_eq hr hroom
  refine ⟨i, p', ?_, halloc⟩
  rw [create, heq]
  rfl

/-! ## Taking back -/

/-- The pool `p'` is `p` with the record `i` taken back; every other record in
use stays as it was, and so do the references to it. -/
structure Deletes (p : Pool β) (i : Nat) (p' : Pool β) : Prop where
  sound : p'.Sound
  live : ∀ j, p'.IsLive j ↔ j ≠ i ∧ p.IsLive j
  kept : ∀ j ≠ i, p'.contents j = p.contents j
  id : p'.id = p.id
  layout : p'.layout = p.layout
  reset : p'.reset = p.reset
  listeners : p'.listeners = p.listeners
  epoch : p'.epoch = p.epoch
  referenceTo : ∀ j ≠ i, p'.referenceTo j = p.referenceTo j
  allocated : p'.allocated = p.allocated
  free : p'.free = i :: p.free
  generation : p'.generations.getD i 0 = p.generations.getD i 0 + 1
  limit : p'.store.limit = p.store.limit
  blockSize : p'.store.blockSize = p.store.blockSize
  capacity : p'.store.capacity = p.store.capacity

/-- The pool after the record `i` was reset and its slot was freed, with the
next generation. -/
def vacated (p : Pool β) (i : Nat) : Pool β :=
  { p.setRecord i (p.reset.apply (p.contents i)) with
    generations := p.generations.setIfInBounds i (p.generations.getD i 0 + 1)
    live := p.live.setIfInBounds i false
    free := i :: p.free }

/-- A freed slot is the only one that is no longer in use. -/
theorem isLive_vacated : (p.vacated i).IsLive j ↔ j ≠ i ∧ p.IsLive j := by
  show (p.live.setIfInBounds i false)[j]? = some true ↔ j ≠ i ∧ p.live[j]? = some true
  rw [Array.getElem?_setIfInBounds]
  by_cases hij : i = j
  · subst hij
    simp
  · rw [if_neg hij]
    exact ⟨fun hlive => ⟨Ne.symm hij, hlive⟩, And.right⟩

/-- References to other records stay. -/
theorem referenceTo_vacated_of_ne (hne : j ≠ i) :
    (p.vacated i).referenceTo j = p.referenceTo j := by
  rw [referenceTo, referenceTo]
  show Reference.mk p.id (some ⟨j, (p.generations.setIfInBounds i _).getD j 0, p.epoch⟩) = _
  rw [Array.getD_eq_getD_getElem?, Array.getElem?_setIfInBounds, if_neg (Ne.symm hne),
    ← Array.getD_eq_getD_getElem?]

/-- Freeing the slot of a record in use keeps a pool sound. -/
theorem Sound.vacated (h : p.Sound) (hi : p.IsLive i) : (p.vacated i).Sound where
  store := h.store.setRecord i _
  recordSize := h.recordSize
  live_size := by
    show (p.live.setIfInBounds i false).size = p.allocated
    rw [Array.size_setIfInBounds, h.live_size]
  allocated_le_generations := by
    show p.allocated ≤ (p.generations.setIfInBounds i _).size
    rw [Array.size_setIfInBounds]
    exact h.allocated_le_generations
  allocated_le_capacity := h.allocated_le_capacity
  free_nodup := by
    refine List.nodup_cons.mpr ⟨fun hmem => ?_, h.free_nodup⟩
    rw [h.mem_free_iff, hi] at hmem
    cases hmem
  mem_free_iff := by
    intro a
    show a ∈ i :: p.free ↔ (p.live.setIfInBounds i false)[a]? = some false
    rw [Array.getElem?_setIfInBounds, List.mem_cons, h.mem_free_iff]
    by_cases hia : i = a
    · subst hia
      simp [h.live_size, h.lt_allocated hi]
    · rw [if_neg hia]
      exact ⟨fun hor => hor.resolve_left (Ne.symm hia), Or.inr⟩

/-- Taking back a record in use vacates its slot. -/
theorem Sound.delete_eq_vacated (h : p.Sound) (hi : p.IsLive i) :
    p.delete (p.referenceTo i) = .ok (p.vacated i) := by
  set q : Pool β := p.setRecord i (p.reset.apply (p.contents i)) with hq
  have hlive : q.live[i]? = some true := hi
  have hgeneration : q.generations[i]? = some (p.generations.getD i 0) :=
    h.generation_eq (h.lt_allocated hi)
  rw [delete, h.require_referenceTo hi, ok_bind, resetRecord_eq h.store (h.lt_capacity hi),
    ok_bind, ← hq, fetch_eq_ok hgeneration, ok_bind, fetch_eq_ok hlive, ok_bind]
  rfl

/-- **Taking back a record in use succeeds.** -/
theorem Sound.delete_eq (h : p.Sound) (hi : p.IsLive i) :
    ∃ p', p.delete (p.referenceTo i) = .ok p' ∧ p.Deletes i p' := by
  refine ⟨p.vacated i, h.delete_eq_vacated hi, ?_⟩
  exact {
    sound := h.vacated hi
    live := fun j => isLive_vacated
    kept := fun j hne => contents_reset_of_ne h.store (h.lt_capacity hi) hne
    id := rfl
    layout := rfl
    reset := rfl
    listeners := rfl
    epoch := rfl
    referenceTo := fun j hne => referenceTo_vacated_of_ne hne
    allocated := rfl
    free := rfl
    generation := by
      have hsize : i < p.generations.size :=
        lt_of_lt_of_le (h.lt_allocated hi) h.allocated_le_generations
      show (p.generations.setIfInBounds i (p.generations.getD i 0 + 1)).getD i 0 = _
      rw [Array.getD_eq_getD_getElem?, Array.getElem?_setIfInBounds_self_of_lt hsize,
        Option.getD_some]
    limit := rfl
    blockSize := rfl
    capacity := rfl }

/-! ## Clearing and making -/

/-- A cleared pool is sound. -/
theorem Sound.clear (h : p.Sound) : p.clear.Sound where
  store := h.store
  recordSize := h.recordSize
  live_size := rfl
  allocated_le_generations := Nat.zero_le _
  allocated_le_capacity := Nat.zero_le _
  free_nodup := List.nodup_nil
  mem_free_iff := fun i => by simp [Pool.clear]

/-- A cleared pool has no record in use. -/
theorem not_isLive_clear (p : Pool β) (i : Nat) : ¬ p.clear.IsLive i := by
  simp [IsLive, Pool.clear]

/-- A new pool has the layout that it was made for. -/
theorem layout_of_make {plan : StorePlan} {layout : Layout} {id : PoolId} {reset : Reset β}
    (hmake : make id layout plan reset = pure p) : p.layout = layout := by
  obtain ⟨_, -, hrest⟩ := bind_eq_pure_iff.mp hmake
  obtain ⟨store, -, hput⟩ := bind_eq_pure_iff.mp hrest
  cases hput
  rfl

/-- **A new pool** is sound and has no slot handed out. -/
theorem sound_of_make {plan : StorePlan} {layout : Layout} {id : PoolId} {reset : Reset β}
    (hrange : plan.InRange) (hmake : make id layout plan reset = pure p) :
    p.Sound ∧ p = ⟨id, layout, p.store, reset, 0, [], #[], #[], 0, []⟩ := by
  obtain ⟨_, hvalid, hrest⟩ := bind_eq_pure_iff.mp hmake
  obtain ⟨store, hstore, hput⟩ := bind_eq_pure_iff.mp hrest
  cases hput
  obtain ⟨hsound, hsize⟩ :=
    Store.sound_of_make (Except.ok.inj hvalid) hrange (eq_ok_of_lift hstore)
  exact ⟨⟨hsound, hsize, rfl, Nat.zero_le _, Nat.zero_le _, List.nodup_nil,
    fun i => by simp⟩, rfl⟩

/-- **A valid plan is followed.**  The new pool is sound, has no slot handed
out and keeps to the limit of the plan. -/
theorem make_eq {plan : StorePlan} {layout : Layout} (hvalid : plan.validate = .ok ())
    (hrange : plan.InRange) (hbound : 2 ^ 31 * layout.size < sizeBound) (id : PoolId)
    (reset : Reset β) :
    ∃ p : Pool β, make id layout plan reset = pure p ∧ p.Sound ∧ p.id = id ∧ p.layout = layout ∧
      p.reset = reset ∧ p.allocated = 0 ∧ p.free = [] ∧ p.store.limit = plan.limit ∧
      plan.initial ≤ p.store.capacity := by
  obtain ⟨store, hmake, hsound, hsize, -, hlimit, hroom, -⟩ :=
    Store.make_eq (β := β) hvalid hrange hbound
  refine ⟨⟨id, layout, store, reset, 0, [], #[], #[], 0, []⟩, ?_, ?_, rfl, rfl, rfl, rfl, rfl,
    hlimit, hroom⟩
  · rw [make, hvalid, hmake]
    rfl
  exact {
    store := hsound
    recordSize := hsize
    live_size := rfl
    allocated_le_generations := Nat.zero_le _
    allocated_le_capacity := Nat.zero_le _
    free_nodup := List.nodup_nil
    mem_free_iff := fun i => by simp }

end Pool

end RecordPool
