/-
# Reuse before growth

A pool takes a new slot only when every slot that it handed out is in use, and
its store grows only when moreover there is no room left.  So the number of
slots handed out is the largest number of records that were in use at once
since the pool was made or last cleared, whatever was created and taken back
in between.
-/
import RecordPool.Proofs.Pool.Integrity

namespace RecordPool

variable {β F : Type} [Memory β F]

/-! ## Populations -/

namespace History

/-- The slots that hold a record, in the order of its creation. -/
def slotsInUse (h : History) : List Nat :=
  (List.range h.length).filterMap h.slot?

/-- The number of records in use. -/
def population (h : History) : Nat :=
  h.slotsInUse.length

/-- The numbers of records that were in use at once, at each moment since the
pool was made or last cleared. -/
def populations (h : History) : Set Nat :=
  {count | ∃ earlier later, earlier ++ later = h ∧ .cleared ∉ later ∧ count = population earlier}

variable {h : History} {e : Event} {i count peak : Nat}

theorem mem_slotsInUse : i ∈ h.slotsInUse ↔ ∃ n, h.InUse n i := by
  simp only [slotsInUse, List.mem_filterMap, List.mem_range, slot?_eq_some_iff]
  exact ⟨fun ⟨n, _, hn⟩ => ⟨n, hn⟩, fun ⟨n, hn⟩ => ⟨n, hn.lt_length, hn⟩⟩

/-- A slot that holds one record at most is listed once. -/
theorem nodup_slotsInUse (hunique : ∀ m n i, h.InUse m i → h.InUse n i → m = n) :
    h.slotsInUse.Nodup := by
  refine List.Nodup.filterMap (fun m n i hm hn => ?_) List.nodup_range
  exact hunique m n i (slot?_eq_some_iff.mp hm) (slot?_eq_some_iff.mp hn)

/-- A creation adds its slot. -/
theorem slotsInUse_created : slotsInUse (h ++ [.created i]) = h.slotsInUse ++ [i] := by
  have hlast : slot? (h ++ [.created i]) h.length = some i :=
    slot?_eq_some_iff.mpr (inUse_concat.mpr (Or.inl ⟨rfl, rfl⟩))
  have hbefore : ∀ n ∈ List.range h.length, slot? (h ++ [.created i]) n = h.slot? n := by
    intro n hn
    have hne : n ≠ h.length := by
      have := List.mem_range.mp hn
      omega
    refine Option.ext fun j => ?_
    rw [slot?_eq_some_iff, slot?_eq_some_iff, inUse_concat]
    simp [hne]
  rw [slotsInUse, List.length_append, List.length_singleton, List.range_succ,
    List.filterMap_append, List.filterMap_congr hbefore, List.filterMap_cons, hlast]
  rfl

/-- Clearing leaves no slot. -/
theorem slotsInUse_cleared : slotsInUse (h ++ [.cleared]) = [] := by
  rw [List.eq_nil_iff_forall_not_mem]
  intro i hi
  obtain ⟨n, hn⟩ := mem_slotsInUse.mp hi
  simp [inUse_concat] at hn

/-- After one more event the present population counts, and those before
unless the event was a clearing. -/
theorem mem_populations_concat : count ∈ populations (h ++ [e]) ↔
    count = population (h ++ [e]) ∨ e ≠ .cleared ∧ count ∈ h.populations := by
  constructor
  · rintro ⟨earlier, later, heq, hcleared, rfl⟩
    rcases List.eq_nil_or_concat later with rfl | ⟨before, last, rfl⟩
    · rw [List.append_nil] at heq
      exact Or.inl (by rw [heq])
    · rw [List.concat_eq_append] at heq hcleared
      rw [← List.append_assoc] at heq
      obtain ⟨hbefore, hlast⟩ := List.append_inj' heq rfl
      cases hlast
      rw [List.mem_append, not_or, List.mem_singleton] at hcleared
      exact Or.inr ⟨Ne.symm hcleared.2, earlier, before, hbefore, hcleared.1, rfl⟩
  · rintro (rfl | ⟨hne, earlier, later, rfl, hcleared, rfl⟩)
    · exact ⟨h ++ [e], [], List.append_nil _, List.not_mem_nil, rfl⟩
    · refine ⟨earlier, later ++ [e], (List.append_assoc earlier later [e]).symm, ?_, rfl⟩
      rw [List.mem_append, not_or, List.mem_singleton]
      exact ⟨hcleared, Ne.symm hne⟩

/-- At first no record was ever in use. -/
theorem isGreatest_nil : IsGreatest (populations []) 0 := by
  refine ⟨⟨[], [], rfl, List.not_mem_nil, rfl⟩, ?_⟩
  rintro count ⟨earlier, later, heq, -, rfl⟩
  rw [(List.append_eq_nil_iff.mp heq).1]
  exact Nat.le_refl 0

/-- Clearing starts anew. -/
theorem isGreatest_cleared : IsGreatest (populations (h ++ [.cleared])) 0 := by
  have hpopulation : population (h ++ [.cleared]) = 0 := congrArg List.length slotsInUse_cleared
  refine ⟨mem_populations_concat.mpr (Or.inl hpopulation.symm), fun count hcount => ?_⟩
  rcases mem_populations_concat.mp hcount with rfl | ⟨hne, -⟩
  · exact Nat.le_of_eq hpopulation
  · exact absurd rfl hne

/-- Every other event raises the peak to the present population, if that is
larger. -/
theorem isGreatest_concat (hpeak : IsGreatest h.populations peak) (hne : e ≠ .cleared) :
    IsGreatest (populations (h ++ [e])) (max (population (h ++ [e])) peak) := by
  have heq : populations (h ++ [e]) = insert (population (h ++ [e])) h.populations := by
    ext count
    rw [mem_populations_concat, Set.mem_insert_iff, and_iff_right hne]
  rw [heq]
  exact hpeak.insert _

end History

/-! ## Figures of a store -/

/-- The room of a store, how often it has grown, and its memory. -/
def Store.figures (s : Store β) : Nat × Nat × Nat :=
  (s.capacity, s.growths, s.memory)

/-- Writing a record leaves the figures of the store alone. -/
theorem Store.Sound.figures_setRecord {s : Store β} (h : s.Sound) (i : Nat) (cells : List β) :
    (s.setRecord i cells).figures = s.figures := by
  rw [figures, figures, h.memory_eq, (h.setRecord i cells).memory_eq]
  rfl

namespace Pool

variable {p p' p₀ : Pool β} {h later events : History} {i : Nat} {r r' : Reference}

/-! ## The peak -/

/-- A slot that was handed out holds a record or is free. -/
theorem Recorded.population_add (hrec : p.Recorded h) :
    h.population + p.free.length = p.allocated :=
  hrec.sound.length_add_length (History.nodup_slotsInUse hrec.unique) fun i =>
    History.mem_slotsInUse.trans (hrec.live_iff i).symm

/-- The size of a pool is its population. -/
theorem Recorded.size_eq (hrec : p.Recorded h) : p.size = .ok h.population := by
  have hsum := hrec.population_add
  rw [size, subSize_eq_ok (by omega)]
  exact congrArg Except.ok (by omega)

/-- An event that hands no slot out keeps the peak. -/
theorem Recorded.peak_concat {e : Event} (hrec : p'.Recorded (h ++ [e]))
    (hpeak : IsGreatest h.populations p.allocated) (hne : e ≠ .cleared)
    (hsame : p'.allocated = p.allocated) :
    IsGreatest (History.populations (h ++ [e])) p'.allocated := by
  have hsum := hrec.population_add
  have hmax : max (History.population (h ++ [e])) p.allocated = p'.allocated := by omega
  rw [← hmax]
  exact History.isGreatest_concat hpeak hne

/-- A creation raises the peak when no slot was free. -/
theorem Recorded.peak_created (hrec : p.Recorded h)
    (hpeak : IsGreatest h.populations p.allocated) (halloc : p.Allocates i p') :
    IsGreatest (History.populations (h ++ [.created i])) p'.allocated := by
  have hrec' := hrec.created halloc
  by_cases hfree : p.free = []
  · have hcount : p'.allocated = p.allocated + 1 := by rw [halloc.allocated, if_pos hfree]
    -- every slot was in use, and the new one is too
    have hfull : h.population = p.allocated := by
      rw [← hrec.population_add, hfree, List.length_nil, Nat.add_zero]
    have hnew : History.population (h ++ [.created i]) = h.population + 1 := by
      rw [History.population, History.slotsInUse_created, List.length_append]
      rfl
    have hmax : max (History.population (h ++ [.created i])) p.allocated = p'.allocated := by
      omega
    rw [← hmax]
    exact History.isGreatest_concat hpeak (by simp)
  · exact hrec'.peak_concat hpeak (by simp) (by rw [halloc.allocated, if_neg hfree])

/-- **Every operation** keeps the number of slots handed out at the peak. -/
theorem Recorded.peak_does (hrec : p.Recorded h) (hpeak : IsGreatest h.populations p.allocated)
    (hdoes : p.Does events p') : IsGreatest (History.populations (h ++ events)) p'.allocated := by
  rcases hrec.sound.does_cases hdoes with ⟨i, rfl, halloc⟩ | ⟨i, rfl, -, hdel⟩ | ⟨rfl, rfl⟩ |
    ⟨i, cells, rfl, -, hrewrites⟩ | ⟨rfl, heq⟩
  · exact hrec.peak_created hpeak halloc
  · exact (hrec.deleted hdel).peak_concat hpeak (by simp) hdel.allocated
  · exact History.isGreatest_cleared
  · exact (hrec.written hrewrites).peak_concat hpeak (by simp) (by rw [hrewrites.frame])
  · rw [heq, List.append_nil]
    exact hpeak

/-- **Every run** of a new pool keeps the number of slots handed out at the
peak. -/
theorem Recorded.peak_runs (hrec : p₀.Recorded []) (hnone : p₀.allocated = 0)
    (hruns : p₀.Runs h p) : IsGreatest h.populations p.allocated := by
  induction hruns with
  | start =>
      rw [hnone]
      exact History.isGreatest_nil
  | step hbefore hdoes ih => exact (hrec.runs hbefore).peak_does ih hdoes

/-! ## Room -/

/-- The capacity never decreases. -/
theorem Recorded.capacity_le (hrec : p.Recorded h) (hruns : p.Runs later p') :
    p.store.capacity ≤ p'.store.capacity := by
  induction hruns with
  | start => exact Nat.le_refl _
  | step hbefore hdoes ih =>
      refine ih.trans ?_
      rcases (hrec.runs hbefore).sound.does_cases hdoes with ⟨i, -, halloc⟩ | ⟨i, -, -, hdel⟩ |
        ⟨-, rfl⟩ | ⟨i, cells, -, -, hrewrites⟩ | ⟨-, heq⟩
      · exact halloc.capacity_le
      · exact Nat.le_of_eq hdel.capacity.symm
      · exact Nat.le_refl _
      · exact Nat.le_of_eq hrewrites.capacity.symm
      · rw [heq]

/-- **Which slot is handed out.**  The first free one, or without a free one
the next new one; only for a new slot may the store grow, and only without
room. -/
theorem Sound.slot_of_allocate (h : p.Sound) (hallocate : p.allocate r = .ok (.ok i, p', r')) :
    (p.free = i :: p'.free ∧ p'.allocated = p.allocated ∧ p'.store.figures = p.store.figures) ∨
      (p.free = [] ∧ i = p.allocated ∧ p'.allocated = p.allocated + 1 ∧
        (p'.store.figures = p.store.figures ∨ p.allocated = p.store.capacity)) := by
  have hr := pool_eq_of_allocate hallocate
  cases hfree : p.free with
  | cons index free =>
      rw [h.allocate_eq_occupied hr hfree] at hallocate
      cases hallocate
      exact Or.inl ⟨rfl, rfl, h.store.figures_setRecord i _⟩
  | nil =>
      right
      rcases h.store.reserve_cases (p.allocated + 1) with
        ⟨grew, store, hreserve, hext, hcap⟩ | ⟨hreserve, -⟩ | ⟨hreserve, -⟩
      · rw [h.allocate_eq_addSlot hr hfree hreserve hext hcap] at hallocate
        cases hallocate
        refine ⟨rfl, rfl, rfl, ?_⟩
        by_cases hroom : p.allocated + 1 ≤ p.store.capacity
        · rw [Store.reserve_of_le hroom] at hreserve
          cases hreserve
          exact Or.inl (h.store.figures_setRecord p.allocated _)
        · have hle := h.allocated_le_capacity
          exact Or.inr (by omega)
      · rw [h.allocate_eq_reserve hr hfree, hreserve] at hallocate
        cases hallocate
      · rw [h.allocate_eq_reserve hr hfree, hreserve] at hallocate
        cases hallocate

/-- **When the store grows.**  Only to hand a new slot out, and only when no
slot is free and there is no room for another one. -/
theorem Sound.figures_of_does (h : p.Sound) (hdoes : p.Does events p') :
    p'.store.figures = p.store.figures ∨
      (events = [.created p.allocated] ∧ p.free = [] ∧ p.allocated = p.store.capacity) := by
  rcases h.store_of_does hdoes with ⟨i, r, r', rfl, hallocate⟩ | heq | ⟨i, cells, heq⟩
  · rcases h.slot_of_allocate hallocate with ⟨-, -, heq⟩ | ⟨hfree, rfl, -, heq | hfull⟩
    · exact Or.inl heq
    · exact Or.inl heq
    · exact Or.inr ⟨rfl, hfree, hfull⟩
  · exact Or.inl (congrArg Store.figures heq)
  · rw [heq]
    exact Or.inl (h.store.figures_setRecord i cells)

/-- A creation is refused only when no slot is free and the room, which is no
less than the limit, was all handed out. -/
theorem Sound.full_of_refused (h : p.Sound) {refusal : PoolError}
    (hallocate : p.allocate r = .ok (.error refusal, p', r')) :
    p.free = [] ∧ p.allocated = p.store.capacity ∧ p.store.limit ≤ p.allocated := by
  rcases h.allocate_cases (pool_eq_of_allocate hallocate) with
    ⟨i, p₁, heq, -⟩ | ⟨-, hfree, hcap, hlimit⟩ | heq
  · rw [heq] at hallocate
    cases hallocate
  · exact ⟨hfree, Nat.le_antisymm h.allocated_le_capacity hcap, hlimit⟩
  · rw [heq] at hallocate
    cases hallocate

/-! ## Every run -/

/-- Every slot that was handed out is in use. -/
def Full (p : Pool β) : Prop :=
  ∀ i < p.allocated, p.isLive i = .ok true

/-- Without a free slot a pool is full. -/
theorem Sound.full_of_free (h : p.Sound) (hfree : p.free = []) : p.Full := fun _ hi =>
  h.isLive_eq_true_iff.mpr (h.isLive_of_full hfree hi)

/-- A pool with the history `h` takes no slot and no memory that it could do
without. -/
structure Thrifty (p : Pool β) (h : History) : Prop where
  /-- The slots handed out are as many as records were ever in use at once,
  since the pool was made or last cleared. -/
  peak : IsGreatest h.populations p.allocated
  /-- The size is the number of records in use. -/
  size_eq : p.size = .ok h.population
  /-- A creation takes a new slot only when every slot is in use. -/
  create : ∀ (r r' : Reference) (i : RecordIndex) (p' : Pool β),
    p.allocate r = .ok (.ok i, p', r') ∨ p.create r = .ok (i, p', r') →
      (p.free = i :: p'.free ∧ p'.allocated = p.allocated) ∨
        (i = p.allocated ∧ p'.allocated = p.allocated + 1 ∧ p.Full)
  /-- The store grows only for a new slot, and only when moreover all its room
  was handed out. -/
  grow : ∀ (events : History) (p' : Pool β), p.Does events p' →
    p'.store.figures = p.store.figures ∨
      (events = [.created p.allocated] ∧ p.Full ∧ p.allocated = p.store.capacity)
  /-- A creation that is refused changes neither the pool nor the reference; it
  is refused only when there is no slot, no room and no growth left. -/
  refuse : ∀ (r r' : Reference) (refusal : PoolError) (p' : Pool β),
    p.allocate r = .ok (.error refusal, p', r') →
      (p' = p ∧ r' = r ∧ refusal = .capacityExceeded (p.allocated + 1) p.store.limit) ∧
        p.Full ∧ p.allocated = p.store.capacity ∧ p.store.limit ≤ p.allocated
  /-- The capacity never decreases. -/
  capacity_le : ∀ (later : History) (p' : Pool β), p.Runs later p' →
    p.store.capacity ≤ p'.store.capacity

/-- A pool whose tables say what its history says, and that handed out as many
slots as its peak, is thrifty. -/
theorem Recorded.thrifty (hrec : p.Recorded h) (hpeak : IsGreatest h.populations p.allocated) :
    p.Thrifty h where
  peak := hpeak
  size_eq := hrec.size_eq
  create := by
    intro r r' i p' hcreate
    obtain ⟨r₁, r₁', hallocate⟩ : ∃ r₁ r₁', p.allocate r₁ = .ok (.ok i, p', r₁') := by
      cases hcreate.elim Does.allocate Does.create with
      | allocate hallocate => exact ⟨_, _, hallocate⟩
    rcases hrec.sound.slot_of_allocate hallocate with ⟨hfree, hsame, -⟩ | ⟨hfree, rfl, hnext, -⟩
    · exact Or.inl ⟨hfree, hsame⟩
    · exact Or.inr ⟨rfl, hnext, hrec.sound.full_of_free hfree⟩
  grow := by
    intro events p' hdoes
    rcases hrec.sound.figures_of_does hdoes with heq | ⟨rfl, hfree, hroom⟩
    · exact Or.inl heq
    · exact Or.inr ⟨rfl, hrec.sound.full_of_free hfree, hroom⟩
  refuse := by
    intro r r' refusal p' hrefused
    obtain ⟨hfree, hroom, hlimit⟩ := hrec.sound.full_of_refused hrefused
    exact ⟨hrec.sound.eq_of_allocate_refused hrefused, hrec.sound.full_of_free hfree, hroom, hlimit⟩
  capacity_le := fun later p' hlater => hrec.capacity_le hlater

/-- **Reuse before growth.**  After every run a pool is thrifty: the number of
slots handed out is the peak since the pool was made or last cleared, and no
slot and no memory is taken while a slot is free. -/
theorem reuse_before_growth {id : PoolId} {layout : Layout} {plan : StorePlan} {reset : Reset β}
    {p₀ p : Pool β} {h : History} (hrange : plan.InRange)
    (hmake : make id layout plan reset = pure p₀) (hruns : p₀.Runs h p) : p.Thrifty h := by
  have hrec₀ : p₀.Recorded [] := recorded_of_make hrange hmake
  have hnone : p₀.allocated = 0 := by rw [(sound_of_make hrange hmake).2]
  exact Recorded.thrifty (hrec₀.runs hruns) (hrec₀.peak_runs hnone hruns)

/-- A pool of counters in blocks of one, two of them at most. -/
def cappedPool (blocks : Nat) (free : List RecordIndex) (live : Array Bool)
    (generations : Array UInt32) : Pool UInt8 :=
  ⟨0, counterLayout, ⟨(List.replicate blocks ⟨#[0, 0, 0, 0], 4⟩).toArray, 4, some 1, 0, 0,
    blocks, 2, blocks - 1⟩, .keep, live.size, free, live, generations, 0, []⟩

/-- A pool that grows for a second record and refuses a third one keeps its
peak of two when a record is taken back. -/
theorem peak_after_refusal : ((StorePlan.blocks 1 1).withLimit 2).InRange ∧
    ∃ p₀ p : Pool UInt8,
      make 0 counterLayout ((StorePlan.blocks 1 1).withLimit 2) .keep = pure p₀ ∧
        p₀.Runs [.created 0, .created 1, .deleted 0] p ∧
        IsGreatest (History.populations [.created 0, .created 1, .deleted 0]) 2 ∧
        p.size = .ok 1 := by
  have hrange : ((StorePlan.blocks 1 1).withLimit 2).InRange := by
    rintro size ⟨⟩
    decide
  have hmake : make 0 counterLayout ((StorePlan.blocks 1 1).withLimit 2) .keep =
      pure (cappedPool 1 [] #[] #[]) := rfl
  have hfirst : (cappedPool 1 [] #[] #[]).allocate (.unpointed 0) =
      .ok (.ok 0, cappedPool 1 [] #[true] #[0], ⟨0, some ⟨0, 0, 0⟩⟩) := rfl
  have hsecond : (cappedPool 1 [] #[true] #[0]).allocate (.unpointed 0) =
      .ok (.ok 1, cappedPool 2 [] #[true, true] #[0, 0], ⟨0, some ⟨1, 0, 0⟩⟩) := rfl
  have hthird : (cappedPool 2 [] #[true, true] #[0, 0]).allocate (.unpointed 0) =
      .ok (.error (.capacityExceeded 3 2), cappedPool 2 [] #[true, true] #[0, 0],
        .unpointed 0) := rfl
  have hrequire : (cappedPool 2 [] #[true, true] #[0, 0]).require ⟨0, some ⟨0, 0, 0⟩⟩ = .ok 0 := rfl
  have hdelete : (cappedPool 2 [] #[true, true] #[0, 0]).delete ⟨0, some ⟨0, 0, 0⟩⟩ =
      .ok (cappedPool 2 [0] #[false, true] #[1, 0]) := rfl
  have hruns : (cappedPool 1 [] #[] #[]).Runs [.created 0, .created 1, .deleted 0]
      (cappedPool 2 [0] #[false, true] #[1, 0]) :=
    (((Runs.start.step (.allocate hfirst)).step (.allocate hsecond)).step (.refuse hthird)).step
      (.delete hrequire hdelete)
  have hthrifty := reuse_before_growth hrange hmake hruns
  exact ⟨hrange, _, _, hmake, hruns, hthrifty.peak, hthrifty.size_eq⟩

end Pool

end RecordPool
