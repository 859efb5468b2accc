/-
# Records of a pool

What one operation can do to a sound pool, and from it what holds after every
run: the tables of the pool agree with its history (`Pool.Recorded`).  A record
keeps its slot, its reference and its cells until it is taken back, dropped or
written.
-/
import RecordPool.Proofs.Pool.History
import RecordPool.Proofs.Store.Records

namespace RecordPool

variable {β F : Type} [Memory β F]

namespace Pool

variable {p p' p'' : Pool β} {h later events : History} {i j m n : Nat} {r r' : Reference}

/-! ## What one operation can do -/

/-- Patching a record in use sets its cells. -/
theorem Sound.eq_setRecord_of_patch (h : p.Sound) (hi : p.IsLive i) {offset : Nat}
    {values : List β} (hpatch : p.patch i offset values = .ok p') :
    ∃ cells, cells.length = p.layout.size ∧ p' = p.setRecord i cells := by
  have hlength := h.length_contents hi
  by_cases hfit : offset + values.length ≤ p.layout.size
  · rw [h.patch_eq hi hfit] at hpatch
    cases hpatch
    exact ⟨_, by rw [length_paste (by omega), hlength], rfl⟩
  · rw [h.patch_of_outside hi (by omega)] at hpatch
    cases hpatch

/-- Copying a record over a record in use, or over itself, gives that one its
contents. -/
theorem Sound.copy_eq_setRecord (h : p.Sound) (hi : p.IsLive i) (hj : p.IsLive j) :
    p.copy (p.referenceTo i) (p.referenceTo j) = .ok (p.setRecord j (p.contents i)) := by
  rw [copy, h.require_referenceTo hi, ok_bind, h.require_referenceTo hj, ok_bind,
    h.store.copy_eq_setRecord (h.lt_capacity hi) (h.lt_capacity hj), ok_bind]
  rfl

/-- What is copied sets the cells of the target. -/
theorem Sound.eq_setRecord_of_copy (h : p.Sound) {source target : Reference}
    (hrequire : p.require target = .ok i) (hcopy : p.copy source target = .ok p') :
    ∃ cells, cells.length = p.layout.size ∧ p' = p.setRecord i cells := by
  obtain ⟨hi, rfl⟩ := h.require_eq_ok_iff.mp hrequire
  obtain ⟨j, hsource, -⟩ := bind_eq_ok_iff.mp hcopy
  obtain ⟨hj, rfl⟩ := h.require_eq_ok_iff.mp hsource
  rw [h.copy_eq_setRecord hj hi] at hcopy
  cases hcopy
  exact ⟨_, h.length_contents hj, rfl⟩

/-- **What is written** is a record in use. -/
theorem Sound.eq_setRecord_of_does (h : p.Sound) (hdoes : p.Does [.written i] p') :
    p.IsLive i ∧ ∃ cells, cells.length = p.layout.size ∧ p' = p.setRecord i cells := by
  cases hdoes with
  | patch hrequire hpatch =>
      have hi := (h.require_eq_ok_iff.mp hrequire).1
      exact ⟨hi, h.eq_setRecord_of_patch hi hpatch⟩
  | copy hrequire hcopy =>
      exact ⟨(h.require_eq_ok_iff.mp hrequire).1, h.eq_setRecord_of_copy hrequire hcopy⟩

/-- A creation takes a slot that was not in use. -/
theorem Sound.allocates_of_does (h : p.Sound) (hdoes : p.Does [.created i] p') :
    p.Allocates i p' := by
  cases hdoes with
  | allocate hallocate => exact (h.allocates_of_allocate hallocate).1

/-- Handing a slot out puts a claimed one into use, after making room for one
more if all room was handed out. -/
theorem Sound.exists_claims_of_allocate (h : p.Sound)
    (hallocate : p.allocate r = .ok (.ok i, p', r')) :
    ∃ q : Pool β, q.Claims i ∧ q.reset = p.reset ∧ q.layout = p.layout ∧ p' = q.occupied i ∧
      (q.store = p.store ∨ (p.allocated = p.store.capacity ∧ p'.allocated = p.allocated + 1 ∧
        ∃ grew, p.store.reserve (p.allocated + 1) = .ok (.ok grew, q.store))) := by
  have hr := pool_eq_of_allocate hallocate
  cases hfree : p.free with
  | cons index free =>
      rw [h.allocate_eq_occupied hr hfree] at hallocate
      cases hallocate
      exact ⟨_, h.claims_of_free hfree, rfl, rfl, rfl, Or.inl rfl⟩
  | nil =>
      rcases h.store.reserve_cases (p.allocated + 1) with
        ⟨grew, store, hreserve, hext, hcap⟩ | ⟨hreserve, -⟩ | ⟨hreserve, -⟩
      · rw [h.allocate_eq_addSlot hr hfree hreserve hext hcap] at hallocate
        cases hallocate
        refine ⟨_, h.claims_addSlot hext hcap, rfl, rfl, rfl, ?_⟩
        by_cases hroom : p.allocated + 1 ≤ p.store.capacity
        · rw [Store.reserve_of_le hroom] at hreserve
          cases hreserve
          exact Or.inl rfl
        · have hle := h.allocated_le_capacity
          exact Or.inr ⟨by omega, rfl, grew, hreserve⟩
      · rw [h.allocate_eq_reserve hr hfree, hreserve] at hallocate
        cases hallocate
      · rw [h.allocate_eq_reserve hr hfree, hreserve] at hallocate
        cases hallocate

/-- It writes the record in the slot. -/
theorem Sound.store_of_allocate (h : p.Sound) (hallocate : p.allocate r = .ok (.ok i, p', r')) :
    ∃ store cells, p'.store = store.setRecord i cells ∧
      (store = p.store ∨ (p.allocated = p.store.capacity ∧ p'.allocated = p.allocated + 1 ∧
        ∃ grew, p.store.reserve (p.allocated + 1) = .ok (.ok grew, store))) := by
  obtain ⟨q, -, -, -, rfl, hstore⟩ := h.exists_claims_of_allocate hallocate
  exact ⟨q.store, _, rfl, hstore⟩

/-- **What an operation can do to a store.**  Unless it hands a slot out, it
writes one record at most. -/
theorem Sound.store_of_does (h : p.Sound) (hdoes : p.Does events p') :
    (∃ i r r', events = [.created i] ∧ p.allocate r = .ok (.ok i, p', r')) ∨
      p'.store = p.store ∨ ∃ i cells, p'.store = p.store.setRecord i cells := by
  cases hdoes with
  | allocate hallocate => exact Or.inl ⟨_, _, _, rfl, hallocate⟩
  | refuse hallocate =>
      obtain ⟨rfl, -⟩ := h.eq_of_allocate_refused hallocate
      exact Or.inr (Or.inl rfl)
  | delete hrequire hdelete =>
      obtain ⟨hi, rfl⟩ := h.require_eq_ok_iff.mp hrequire
      rw [h.delete_eq_vacated hi] at hdelete
      cases hdelete
      exact Or.inr (Or.inr ⟨_, _, rfl⟩)
  | clear => exact Or.inr (Or.inl rfl)
  | patch hrequire hpatch =>
      obtain ⟨-, cells, -, rfl⟩ := h.eq_setRecord_of_does (.patch hrequire hpatch)
      exact Or.inr (Or.inr ⟨_, cells, rfl⟩)
  | copy hrequire hcopy =>
      obtain ⟨-, cells, -, rfl⟩ := h.eq_setRecord_of_does (.copy hrequire hcopy)
      exact Or.inr (Or.inr ⟨_, cells, rfl⟩)
  | listen listener => exact Or.inr (Or.inl rfl)

/-- **What an operation can do to a sound pool.**  It hands a slot out, takes a
record back, drops all records, rewrites one record, or changes no record. -/
theorem Sound.does_cases (h : p.Sound) (hdoes : p.Does events p') :
    (∃ i, events = [.created i] ∧ p.Allocates i p') ∨
      (∃ i, events = [.deleted i] ∧ p.IsLive i ∧ p.Deletes i p') ∨
      (events = [.cleared] ∧ p' = p.clear) ∨
      (∃ i cells, events = [.written i] ∧ p.IsLive i ∧ p.Rewrites i cells p') ∨
      (events = [] ∧ p' = { p with listeners := p'.listeners }) := by
  cases hdoes with
  | allocate hallocate => exact Or.inl ⟨_, rfl, (h.allocates_of_allocate hallocate).1⟩
  | refuse hallocate =>
      obtain ⟨rfl, -⟩ := h.eq_of_allocate_refused hallocate
      exact Or.inr (Or.inr (Or.inr (Or.inr ⟨rfl, rfl⟩)))
  | @delete _ r i hrequire hdelete =>
      obtain ⟨hi, rfl⟩ := h.require_eq_ok_iff.mp hrequire
      obtain ⟨p₁, heq, hdel⟩ := h.delete_eq hi
      rw [heq] at hdelete
      cases hdelete
      exact Or.inr (Or.inl ⟨i, rfl, hi, hdel⟩)
  | clear => exact Or.inr (Or.inr (Or.inl ⟨rfl, rfl⟩))
  | patch hrequire hpatch =>
      obtain ⟨hi, cells, hcells, rfl⟩ := h.eq_setRecord_of_does (.patch hrequire hpatch)
      exact Or.inr (Or.inr (Or.inr (Or.inl ⟨_, cells, rfl, hi, h.rewrites_setRecord hi hcells⟩)))
  | copy hrequire hcopy =>
      obtain ⟨hi, cells, hcells, rfl⟩ := h.eq_setRecord_of_does (.copy hrequire hcopy)
      exact Or.inr (Or.inr (Or.inr (Or.inl ⟨_, cells, rfl, hi, h.rewrites_setRecord hi hcells⟩)))
  | listen listener => exact Or.inr (Or.inr (Or.inr (Or.inr ⟨rfl, rfl⟩)))

/-- **Every operation** keeps a pool sound, and its layout. -/
theorem Sound.does (h : p.Sound) (hdoes : p.Does events p') :
    p'.Sound ∧ p'.layout = p.layout := by
  rcases h.does_cases hdoes with ⟨i, -, halloc⟩ | ⟨i, -, -, hdel⟩ | ⟨-, rfl⟩ |
    ⟨i, cells, -, -, hrewrites⟩ | ⟨-, heq⟩
  · exact ⟨halloc.sound, halloc.layout⟩
  · exact ⟨hdel.sound, hdel.layout⟩
  · exact ⟨h.clear, rfl⟩
  · exact ⟨hrewrites.sound, hrewrites.layout⟩
  · rw [heq]
    exact ⟨h.withListeners p'.listeners, rfl⟩

/-! ## Tables and histories -/

/-- The tables of the pool say what its history says. -/
structure Recorded (p : Pool β) (h : History) : Prop where
  sound : p.Sound
  /-- The slots in use are those that hold a record. -/
  live_iff : ∀ i, p.IsLive i ↔ ∃ n, h.InUse n i
  /-- No slot holds two records. -/
  unique : ∀ m n i, h.InUse m i → h.InUse n i → m = n
  /-- The references to records in use are those that the history tells. -/
  referenceTo : ∀ i, p.referenceTo i = ⟨p.id, some (h.target i)⟩

/-- A new pool has no history. -/
theorem recorded_of_make {plan : StorePlan} {layout : Layout} {id : PoolId} {reset : Reset β}
    (hrange : plan.InRange) (hmake : make id layout plan reset = pure p) : p.Recorded [] := by
  obtain ⟨hsound, heq⟩ := sound_of_make hrange hmake
  rw [heq] at hsound ⊢
  exact {
    sound := hsound
    live_iff := by simp [IsLive, History.InUse]
    unique := by simp [History.InUse]
    referenceTo := by simp [Pool.referenceTo, History.target] }

/-- Creating a record adds it to those in use. -/
theorem Recorded.created (h : p.Recorded events) (halloc : p.Allocates i p') :
    p'.Recorded (events ++ [.created i]) where
  sound := halloc.sound
  live_iff := by
    intro j
    rw [halloc.live, h.live_iff]
    constructor
    · rintro (rfl | ⟨n, hn⟩)
      · exact ⟨events.length, History.inUse_concat.mpr (Or.inl ⟨rfl, rfl⟩)⟩
      · exact ⟨n, History.inUse_concat.mpr (Or.inr ⟨hn, by simp, by simp⟩)⟩
    · rintro ⟨n, hn⟩
      rcases History.inUse_concat.mp hn with ⟨-, heq⟩ | ⟨hn, -⟩
      · injection heq with heq
        exact Or.inl heq.symm
      · exact Or.inr ⟨n, hn⟩
  unique := by
    -- the slot was not in use, so that the new record is alone there
    have hfresh : ∀ n, ¬ events.InUse n i := fun n hn =>
      halloc.fresh ((h.live_iff i).mpr ⟨n, hn⟩)
    intro m n j hm hn
    rcases History.inUse_concat.mp hm with ⟨rfl, hj⟩ | ⟨hm, -⟩ <;>
      rcases History.inUse_concat.mp hn with ⟨rfl, hj'⟩ | ⟨hn, -⟩
    · rfl
    · injection hj with hj
      exact absurd (hj ▸ hn) (hfresh n)
    · injection hj' with hj'
      exact absurd (hj' ▸ hm) (hfresh m)
    · exact h.unique m n j hm hn
  referenceTo := by
    intro j
    rw [halloc.referenceTo, h.referenceTo, halloc.id]
    simp [History.target]

/-- Taking a record back ends it. -/
theorem Recorded.deleted (h : p.Recorded events) (hdel : p.Deletes i p') :
    p'.Recorded (events ++ [.deleted i]) where
  sound := hdel.sound
  live_iff := by
    intro j
    rw [hdel.live, h.live_iff]
    simp only [History.inUse_concat]
    constructor
    · rintro ⟨hne, n, hn⟩
      exact ⟨n, Or.inr ⟨hn, by simpa using hne.symm, by simp⟩⟩
    · rintro ⟨n, ⟨-, heq⟩ | ⟨hn, hne, -⟩⟩
      · cases heq
      · exact ⟨fun heq => hne (by rw [heq]), n, hn⟩
  unique := by
    intro m n j hm hn
    rcases History.inUse_concat.mp hm with ⟨-, heq⟩ | ⟨hm, -⟩
    · cases heq
    rcases History.inUse_concat.mp hn with ⟨-, heq⟩ | ⟨hn, -⟩
    · cases heq
    exact h.unique m n j hm hn
  referenceTo := by
    intro j
    by_cases hji : j = i
    · subst hji
      have hbefore := h.referenceTo j
      simp only [Pool.referenceTo, History.target, Reference.mk.injEq, Option.some.injEq,
        Target.mk.injEq, true_and] at hbefore
      simp only [Pool.referenceTo, History.target, hdel.generation, hdel.epoch, hbefore,
        List.count_append, List.count_singleton]
      simp
    · rw [hdel.referenceTo j hji, h.referenceTo, hdel.id]
      simp [History.target, Ne.symm hji]

/-- Clearing ends all records. -/
theorem Recorded.cleared (h : p.Recorded events) : p.clear.Recorded (events ++ [.cleared]) where
  sound := h.sound.clear
  live_iff := by
    intro j
    simp [not_isLive_clear, History.inUse_concat]
  unique := by
    intro m n j hm
    simp [History.inUse_concat] at hm
  referenceTo := by
    intro j
    have hbefore := h.referenceTo j
    simp only [Pool.referenceTo, History.target, Reference.mk.injEq, Option.some.injEq,
      Target.mk.injEq, true_and] at hbefore
    simp only [Pool.referenceTo, History.target, clear, hbefore, List.count_append,
      List.count_singleton]
    simp

/-- Writing changes nothing about the records in use. -/
theorem Recorded.written (h : p.Recorded events) {cells : List β}
    (hrewrites : p.Rewrites i cells p') : p'.Recorded (events ++ [.written i]) where
  sound := hrewrites.sound
  live_iff := by
    intro j
    rw [hrewrites.isLive_iff, h.live_iff]
    simp [History.inUse_concat]
  unique := by
    intro m n j hm hn
    simp [History.inUse_concat] at hm hn
    exact h.unique m n j hm hn
  referenceTo := by
    intro j
    rw [hrewrites.referenceTo, h.referenceTo, hrewrites.id]
    simp [History.target]

/-- **Every operation** keeps tables and history in step. -/
theorem Recorded.does (h : p.Recorded events) (hdoes : p.Does later p') :
    p'.Recorded (events ++ later) := by
  rcases h.sound.does_cases hdoes with ⟨i, rfl, halloc⟩ | ⟨i, rfl, -, hdel⟩ | ⟨rfl, rfl⟩ |
    ⟨i, cells, rfl, -, hrewrites⟩ | ⟨rfl, heq⟩
  · exact h.created halloc
  · exact h.deleted hdel
  · exact h.cleared
  · exact h.written hrewrites
  · rw [heq, List.append_nil]
    exact ⟨h.sound.withListeners p'.listeners, h.live_iff, h.unique, h.referenceTo⟩

/-- **Every run** keeps tables and history in step. -/
theorem Recorded.runs (h : p.Recorded events) (hruns : p.Runs later p') :
    p'.Recorded (events ++ later) := by
  induction hruns with
  | start =>
      rw [List.append_nil]
      exact h
  | step _ hdoes ih =>
      rw [← List.append_assoc]
      exact ih.does hdoes

/-! ## Records that stay -/

/-- An operation keeps the identity of a pool and its layout. -/
theorem Sound.kept_of_does (h : p.Sound) (hdoes : p.Does events p') :
    p'.id = p.id ∧ p'.layout = p.layout := by
  rcases h.does_cases hdoes with ⟨i, -, halloc⟩ | ⟨i, -, -, hdel⟩ | ⟨-, rfl⟩ |
    ⟨i, cells, -, -, hrewrites⟩ | ⟨-, heq⟩
  · exact ⟨halloc.id, halloc.layout⟩
  · exact ⟨hdel.id, hdel.layout⟩
  · exact ⟨rfl, rfl⟩
  · exact ⟨hrewrites.id, hrewrites.layout⟩
  · rw [heq]
    exact ⟨rfl, rfl⟩

/-- An operation that is not about a record leaves its cells alone. -/
theorem Sound.contents_of_does (h : p.Sound) (hdoes : p.Does events p') (hi : p.IsLive i)
    (hdeleted : .deleted i ∉ events) (hcleared : .cleared ∉ events)
    (hwritten : .written i ∉ events) : p'.contents i = p.contents i := by
  rcases h.does_cases hdoes with ⟨j, rfl, halloc⟩ | ⟨j, rfl, -, hdel⟩ | ⟨rfl, -⟩ |
    ⟨j, cells, rfl, -, hrewrites⟩ | ⟨-, heq⟩
  · exact halloc.kept i hi
  · exact hdel.kept i fun heq => hdeleted (by rw [heq]; exact List.mem_singleton_self _)
  · exact absurd (List.mem_singleton_self _) hcleared
  · exact hrewrites.contents_of_ne fun heq =>
      hwritten (by rw [heq]; exact List.mem_singleton_self _)
  · rw [heq]
    rfl

/-- A run keeps the identity of a pool and its layout. -/
theorem Recorded.kept_of_runs (h : p.Recorded events) (hruns : p.Runs later p') :
    p'.id = p.id ∧ p'.layout = p.layout := by
  induction hruns with
  | start => exact ⟨rfl, rfl⟩
  | step hbefore hdoes ih =>
      obtain ⟨hid, hlayout⟩ := (h.runs hbefore).sound.kept_of_does hdoes
      exact ⟨hid.trans ih.1, hlayout.trans ih.2⟩

/-- An operation keeps what a pool does to records that it hands out or takes
back. -/
theorem Sound.reset_of_does (h : p.Sound) (hdoes : p.Does events p') : p'.reset = p.reset := by
  rcases h.does_cases hdoes with ⟨i, -, halloc⟩ | ⟨i, -, -, hdel⟩ | ⟨-, rfl⟩ |
    ⟨i, cells, -, -, hrewrites⟩ | ⟨-, heq⟩
  · exact halloc.reset
  · exact hdel.reset
  · rfl
  · rw [hrewrites.frame]
  · rw [heq]

/-- A run keeps it as well. -/
theorem Recorded.reset_of_runs (h : p.Recorded events) (hruns : p.Runs later p') :
    p'.reset = p.reset := by
  induction hruns with
  | start => rfl
  | step hbefore hdoes ih => exact ((h.runs hbefore).sound.reset_of_does hdoes).trans ih

/-- The slot of a record in use is not handed out again. -/
theorem Recorded.not_created (hrec : p.Recorded events) (hn : events.InUse n i)
    (hruns : p.Runs later p') (hdeleted : .deleted i ∉ later) (hcleared : .cleared ∉ later) :
    .created i ∉ later := by
  intro hmem
  obtain ⟨before, after, rfl⟩ := List.append_of_mem hmem
  rw [List.mem_append, List.mem_cons, not_or, not_or] at hdeleted hcleared
  have hsplit : events ++ (before ++ .created i :: after) =
      ((events ++ before) ++ [.created i]) ++ after := by simp
  -- the slot would hold a second record, created in the course of the run
  have hagain : History.InUse (events ++ (before ++ .created i :: after))
      (events ++ before).length i := by
    rw [hsplit, History.inUse_append (by simp), History.inUse_concat]
    exact ⟨Or.inl ⟨rfl, rfl⟩, hdeleted.2.2, hcleared.2.2⟩
  have hfirst : History.InUse (events ++ (before ++ .created i :: after)) n i := by
    rw [History.inUse_append hn.lt_length]
    refine ⟨hn, ?_, ?_⟩
    · simpa using ⟨hdeleted.1, hdeleted.2.2⟩
    · simpa using ⟨hcleared.1, hcleared.2.2⟩
  have hlt := hn.lt_length
  have heq := (hrec.runs hruns).unique _ _ _ hfirst hagain
  rw [List.length_append] at heq
  omega

/-- The reference to a record in use stays the same. -/
theorem Recorded.referenceTo_of_runs (hrec : p.Recorded events) (hruns : p.Runs later p')
    (hdeleted : .deleted i ∉ later) (hcleared : .cleared ∉ later) :
    p'.referenceTo i = p.referenceTo i := by
  rw [(hrec.runs hruns).referenceTo, hrec.referenceTo, (hrec.kept_of_runs hruns).1, History.target,
    History.target, List.count_append, List.count_append, List.count_eq_zero_of_not_mem hdeleted,
    List.count_eq_zero_of_not_mem hcleared]
  rfl

/-- A record in use that is not written keeps its cells. -/
theorem Recorded.contents_of_runs (hrec : p.Recorded events) (hn : events.InUse n i)
    (hruns : p.Runs later p') (hdeleted : .deleted i ∉ later) (hcleared : .cleared ∉ later)
    (hwritten : .written i ∉ later) : p'.contents i = p.contents i := by
  induction hruns with
  | start => rfl
  | @step before last p₁ p₂ hbefore hdoes ih =>
      rw [List.mem_append, not_or] at hdeleted hcleared hwritten
      have hrec₁ := hrec.runs hbefore
      have hlive : p₁.IsLive i := (hrec₁.live_iff i).mpr
        ⟨n, (History.inUse_append hn.lt_length).mpr ⟨hn, hdeleted.1, hcleared.1⟩⟩
      rw [hrec₁.sound.contents_of_does hdoes hlive hdeleted.2 hcleared.2 hwritten.2]
      exact ih hdeleted.1 hcleared.1 hwritten.1

end Pool

end RecordPool
