/-
# Pools in other stores

A store answers for the records that it has room for, and any other record
would be blank if it had room (`Store.padded`).  Seen so, growth changes
nothing at all.  A pool is rehoused when another store with the same padded
records takes the place of its own; the two pools then stay so under every
operation, and they hand out the same slots until one of them is denied memory.
-/
import RecordPool.Proofs.Pool.Calls

namespace RecordPool

variable {β F : Type} [Memory β F]

/-! ## Resetting padded records -/

namespace Store

variable {s s' : Store β} {i : Nat}

/-- Resetting a record changes one padded record. -/
theorem Sound.padded_reset (h : s.Sound) (hi : i < s.capacity) (reset : Reset β) :
    (s.setRecord i (reset.apply (s.contents i))).padded =
      Function.update s.padded i (reset.apply (s.padded i)) := by
  rw [h.padded_setRecord hi (by rw [reset.length_apply, h.length_contents hi]), padded_of_lt hi]

/-- Resetting one record of both stores keeps their padded records the same. -/
theorem padded_reset_eq (hpadded : s'.padded = s.padded) (h : s.Sound) (h' : s'.Sound)
    (hi : i < s.capacity) (hi' : i < s'.capacity) (reset : Reset β) :
    (s'.setRecord i (reset.apply (s'.contents i))).padded =
      (s.setRecord i (reset.apply (s.contents i))).padded := by
  rw [h.padded_reset hi, h'.padded_reset hi', hpadded]

end Store

namespace Pool

/-! ## Rehoused pools -/

/-- The second pool is the first one with another store in place of its own,
which holds the same records. -/
inductive Rehoused (l : Layout) : Pool β → Pool β → Prop where
  | intro {p : Pool β} {store : Store β} (layout : p.layout = l) (sound : p.Sound)
      (sound' : ({ p with store } : Pool β).Sound) (padded : store.padded = p.store.padded) :
      Rehoused l p { p with store }

variable {l : Layout} {p p' : Pool β} {i j : Nat} {r : Reference}

/-- **New pools** are rehoused ones of each other, whatever their plans are. -/
theorem rehoused_of_make {plan plan' : StorePlan} {id : PoolId} {reset : Reset β}
    (hrange : plan.InRange) (hrange' : plan'.InRange)
    (hmake : make id l plan reset = pure p) (hmake' : make id l plan' reset = pure p') :
    Rehoused l p p' := by
  obtain ⟨hsound, -⟩ := sound_of_make hrange hmake
  obtain ⟨hsound', -⟩ := sound_of_make hrange' hmake'
  obtain ⟨_, hvalid, hrest⟩ := bind_eq_pure_iff.mp hmake
  obtain ⟨store, hstore, hput⟩ := bind_eq_pure_iff.mp hrest
  obtain ⟨_, hvalid', hrest'⟩ := bind_eq_pure_iff.mp hmake'
  obtain ⟨store', hstore', hput'⟩ := bind_eq_pure_iff.mp hrest'
  cases hput
  cases hput'
  refine .intro rfl hsound hsound' ?_
  rw [Store.padded_of_make (Except.ok.inj hvalid) hrange (eq_ok_of_lift hstore),
    Store.padded_of_make (Except.ok.inj hvalid') hrange' (eq_ok_of_lift hstore')]

namespace Rehoused

theorem layout (h : Rehoused l p p') : p.layout = l := by
  cases h
  assumption

theorem sound (h : Rehoused l p p') : p.Sound := by
  cases h
  assumption

theorem sound' (h : Rehoused l p p') : p'.Sound := by
  cases h
  assumption

/-- Nothing but the store differs. -/
theorem frame (h : Rehoused l p p') : p' = { p with store := p'.store } := by
  cases h
  rfl

theorem layout' (h : Rehoused l p p') : p'.layout = l := by
  rw [h.frame]
  exact h.layout

theorem tables (h : Rehoused l p p') : SameTables p p' := by
  cases h
  exact .intro _ _ _

/-! ## Reading -/

/-- The records in use hold the same. -/
theorem contents_eq (h : Rehoused l p p') (hi : p.IsLive i) : p'.contents i = p.contents i := by
  have hi' := h.tables.isLive_iff.mpr hi
  obtain ⟨-, hsound, hsound', hpadded⟩ := h
  have hread := congrFun hpadded i
  rwa [Store.padded_of_lt (hsound.lt_capacity hi), Store.padded_of_lt (hsound'.lt_capacity hi')]
    at hread

/-- The same cells are read from a record in use. -/
theorem record_eq (h : Rehoused l p p') (hi : p.IsLive i) :
    p.store.record i = p'.store.record i := by
  rw [h.sound.store.record_eq (h.sound.lt_capacity hi),
    h.sound'.store.record_eq (h.sound'.lt_capacity (h.tables.isLive_iff.mpr hi))]
  exact congrArg Except.ok (h.contents_eq hi).symm

/-- **The same cells are read** through any reference. -/
theorem cells_eq (h : Rehoused l p p') (r : Reference) : p.cells r = p'.cells r :=
  h.tables.cells_eq h.sound (fun _ hi => h.record_eq hi) r

/-- The listeners are told the same. -/
theorem announce_eq (h : Rehoused l p p') (slot : Nat) (r : Reference) (offset size : Nat) :
    p.announce slot r offset size = p'.announce slot r offset size := by
  have hlisteners : p'.listeners = p.listeners := by
    rw [h.frame]
  exact h.tables.announce_eq h.sound (fun _ hi => h.record_eq hi) hlisteners slot r offset size

/-! ## Writing -/

/-- Records that are written alike leave rehoused pools. -/
theorem setRecord (h : Rehoused l p p') (hi : p.IsLive i) {cells : List β}
    (hcells : cells.length = l.size) :
    Rehoused l (p.setRecord i cells) (p'.setRecord i cells) := by
  have hi' := h.tables.isLive_iff.mpr hi
  obtain ⟨rfl, hsound, hsound', hpadded⟩ := h
  refine .intro rfl (hsound.setRecord i cells) (hsound'.setRecord i cells) ?_
  rw [hsound'.store.padded_setRecord (hsound'.lt_capacity hi')
    (hcells.trans hsound'.recordSize.symm), hpadded]
  exact (hsound.store.padded_setRecord (hsound.lt_capacity hi)
    (hcells.trans hsound.recordSize.symm)).symm

/-- **Patching** a record fits both or none. -/
theorem patch (h : Rehoused l p p') (hi : p.IsLive i) (offset : Nat) (values : List β) :
    Alike (Rehoused l) (p.patch i offset values) (p'.patch i offset values) := by
  have hi' := h.tables.isLive_iff.mpr hi
  by_cases hfit : offset + values.length ≤ l.size
  · rw [h.sound.patch_eq hi (h.layout ▸ hfit), h.sound'.patch_eq hi' (h.layout' ▸ hfit),
      h.contents_eq hi]
    refine alike_ok (h.setRecord hi ?_)
    have hlength : (p.contents i).length = l.size := h.layout ▸ h.sound.length_contents hi
    rw [length_paste (by omega), hlength]
  · rw [h.sound.patch_of_outside hi (by rw [h.layout]; omega),
      h.sound'.patch_of_outside hi' (by rw [h.layout']; omega)]
    exact alike_error _

/-- **Copying** within a block is like copying from one block to another. -/
theorem copy (h : Rehoused l p p') (source target : Reference) :
    Alike (Rehoused l) (p.copy source target) (p'.copy source target) := by
  refine h.tables.alike_required h.sound source fun i hi =>
    h.tables.alike_required h.sound target fun j hj => ?_
  by_cases hij : i = j
  · -- a record is not copied over itself
    rw [Store.copy, Store.copy, if_pos hij, if_pos hij]
    exact alike_pure h
  · have hi' := h.tables.isLive_iff.mpr hi
    have hj' := h.tables.isLive_iff.mpr hj
    have hlength : (p.contents i).length = l.size := h.layout ▸ h.sound.length_contents hi
    have hset := h.setRecord hj hlength
    rw [h.sound.store.copy_eq (h.sound.lt_capacity hi) (h.sound.lt_capacity hj) (Ne.symm hij),
      h.sound'.store.copy_eq (h.sound'.lt_capacity hi') (h.sound'.lt_capacity hj') (Ne.symm hij),
      show p'.store.contents i = p.store.contents i from h.contents_eq hi]
    exact alike_pure hset

/-- Listeners are registered apart from the store. -/
theorem listen (h : Rehoused l p p') (listener : Listener) :
    Rehoused l (p.listen listener) (p'.listen listener) := by
  obtain ⟨hlayout, hsound, hsound', hpadded⟩ := h
  exact .intro hlayout (hsound.withListeners _) (hsound'.withListeners _) hpadded

/-! ## Taking back -/

/-- Clearing leaves the memory as it is. -/
theorem clear (h : Rehoused l p p') : Rehoused l p.clear p'.clear := by
  obtain ⟨hlayout, hsound, hsound', hpadded⟩ := h
  exact .intro hlayout hsound.clear hsound'.clear hpadded

/-- **Taking a record back** leaves rehoused pools. -/
theorem delete (h : Rehoused l p p') (r : Reference) :
    Alike (Rehoused l) (p.delete r) (p'.delete r) := by
  refine h.tables.alike_delete h.sound h.sound' r fun i hi => ?_
  have hi' := h.tables.isLive_iff.mpr hi
  obtain ⟨hlayout, hsound, hsound', hpadded⟩ := h
  refine .intro hlayout (hsound.vacated hi) (hsound'.vacated hi') ?_
  exact Store.padded_reset_eq hpadded hsound.store hsound'.store (hsound.lt_capacity hi)
    (hsound'.lt_capacity hi') p.reset

end Rehoused

/-! ## Handing out -/

/-- Pools that are about to put one slot into use stay rehoused. -/
theorem Claims.rehoused {store : Store β} (h : p.Claims i)
    (h' : ({ p with store } : Pool β).Claims i) (hpadded : store.padded = p.store.padded) :
    Rehoused p.layout (p.occupied i) (({ p with store } : Pool β).occupied i) :=
  .intro rfl h.sound_occupied h'.sound_occupied
    (Store.padded_reset_eq hpadded h.store h'.store h.lt_capacity h'.lt_capacity p.reset)

/-- The pool gives no slot away: it has reached its limit, or its memory would
leave the machine range, which takes records that are far too large. -/
def Denies (p : Pool β) (r : Reference) : Prop :=
  (∃ requested max, p.allocate r = .ok (.error (.capacityExceeded requested max), p, r)) ∨
    p.allocate r = .error .arithmetic ∧ sizeBound ≤ 2 ^ 31 * p.layout.size

/-- Without a free slot the store grants the memory for a new one, or the pool
gives none away. -/
theorem Sound.granted_or_denies (h : p.Sound) (hr : r.pool = p.id) (hfree : p.free = []) :
    (∃ grew store, p.store.reserve (p.allocated + 1) = .ok (.ok grew, store) ∧
      p.store.Extends store ∧ p.allocated + 1 ≤ store.capacity) ∨ p.Denies r := by
  rcases h.store.reserve_cases (p.allocated + 1) with hgranted | ⟨hreserve, -, -⟩ |
    ⟨hreserve, -, hlimit, hover⟩
  · exact Or.inl hgranted
  · refine Or.inr (Or.inl ⟨p.allocated + 1, p.store.limit, ?_⟩)
    rw [h.allocate_eq_reserve hr hfree, hreserve]
    rfl
  · refine Or.inr (Or.inr ⟨?_, ?_⟩)
    · rw [h.allocate_eq_reserve hr hfree, hreserve]
      rfl
    · rw [← h.recordSize]
      exact hover.trans (Nat.mul_le_mul_right _ (h.store.blockFor_le hlimit))

/-- **Both pools hand out the same slot**, though one of them may have to grow
for it and the other not, unless one gives none away. -/
theorem Rehoused.allocate (h : Rehoused l p p') (hr : r.pool = p.id) :
    (∃ i q q', p.allocate r = .ok (.ok i, q, p.referenceTo i) ∧
      p'.allocate r = .ok (.ok i, q', p.referenceTo i) ∧ Rehoused l q q') ∨
      p.Denies r ∨ p'.Denies r := by
  obtain ⟨rfl, hsound, hsound', hpadded⟩ := h
  by_cases hfree : p.free = []
  · rcases hsound.granted_or_denies hr hfree with ⟨grew, grown, hreserve, hext, hroom⟩ | hdenies
    · rcases hsound'.granted_or_denies hr hfree with
        ⟨grew', grown', hreserve', hext', hroom'⟩ | hdenies
      · refine Or.inl ⟨p.allocated, _, _, hsound.allocate_eq_addSlot hr hfree hreserve hext hroom,
          hsound'.allocate_eq_addSlot hr hfree hreserve' hext' hroom', ?_⟩
        refine (hsound.claims_addSlot hext hroom).rehoused
          (hsound'.claims_addSlot hext' hroom') ?_
        rw [hext'.padded_eq, hpadded]
        exact hext.padded_eq.symm
      · exact Or.inr (Or.inr hdenies)
    · exact Or.inr (Or.inl hdenies)
  · obtain ⟨i, free, hfree⟩ := List.exists_cons_of_ne_nil hfree
    refine Or.inl ⟨i, _, _, hsound.allocate_eq_occupied hr hfree,
      hsound'.allocate_eq_occupied hr hfree, ?_⟩
    exact (hsound.claims_of_free hfree).rehoused (hsound'.claims_of_free hfree) hpadded

end Pool

end RecordPool
