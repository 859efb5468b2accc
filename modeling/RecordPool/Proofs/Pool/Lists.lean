/-
# Lists beside their pools

A list keeps the slots of the records that were added to it, and nothing that
tells two records of one slot apart.  It answers for the record that is in the
slot now: the one that was added as long as that one is in use, and any later
one after the slot was taken back and reused.
-/
import RecordPool.Proofs.Pool.Foreign
import RecordPool.Proofs.Pool.SideTables

namespace RecordPool

variable {β F : Type} [Memory β F]

/-! ## Slots of creations -/

namespace History

variable {h later : History} {m n i : Nat}

/-- The slot in which the event `n` created a record. -/
def birth? (h : History) (n : Nat) : Option Nat :=
  match h[n]? with
  | some (.created i) => some i
  | _ => none

/-- The slot of a creation is the one that its event names. -/
theorem birth?_eq_some_iff : h.birth? n = some i ↔ h[n]? = some (.created i) := by
  rw [birth?]
  cases h[n]? with
  | none => simp
  | some e => cases e <;> simp

/-- What comes later does not change the slot of a creation. -/
theorem birth?_append (hn : h.birth? n = some i) : birth? (h ++ later) n = some i := by
  rw [birth?_eq_some_iff] at hn ⊢
  rw [List.getElem?_append_left (List.getElem?_eq_some_iff.mp hn).1]
  exact hn

/-- A record in use is in the slot of its creation. -/
theorem InUse.eq_of_birth? (hm : h.InUse n m) (hn : h.birth? n = some i) : m = i := by
  rw [birth?_eq_some_iff, hm.1] at hn
  simpa using hn

end History

/-- The record of a reference is told as long as it points at one. -/
theorem Reference.index_eq_ok_iff {r : Reference} {i : RecordIndex} :
    r.index = .ok i ↔ r.index? = some i := by
  rw [index, index?]
  cases r.target with
  | none => exact iff_of_false (by rintro ⟨⟩) (by simp)
  | some target => simp [pure, Except.pure]

/-- The references that a pool hands out are told the same when they have one
slot. -/
theorem Pool.sameRecord_referenceTo (p : Pool β) (i j : Nat) :
    (p.referenceTo i).sameRecord (p.referenceTo j) = decide (i = j) := by
  rw [Bool.eq_iff_iff]
  simp [Reference.sameRecord, Pool.referenceTo, Reference.isPointed, Reference.index?]

/-! ## References in a world -/

namespace World

variable {w w' : World β} {id : PoolId} {p : Pool β} {l l' : RecordList} {records : List Nat}
  {x y : Tracked} {r r' : Reference} {k m n i : Nat}

/-- A tracked reference that points at a record remembers the slot of its
creation. -/
theorem Sound.index?_eq_some_iff (hw : w.Sound) (hx : x ∈ w.references) :
    x.reference.index? = some i ↔
      ∃ n, x.record = some n ∧ (w.histories x.reference.pool).birth? n = some i := by
  have hfollows := hw.follows x hx
  obtain ⟨reference, record⟩ := x
  cases record with
  | none =>
      have htarget : reference.target = none := hfollows
      simp [Reference.index?, htarget]
  | some n =>
      obtain ⟨j, hcreated, htarget⟩ := hfollows
      have hindex : reference.index? = some j := congrArg (Option.map Target.index) htarget
      have hbirth := History.birth?_eq_some_iff.mpr hcreated
      simp only [hindex, hbirth, Option.some.injEq, exists_eq_left']

/-! ## Lists beside their pools -/

/-- A run of pools and references, with a list of records of the pool `id` and
the records, named by their creations, that were added as its elements. -/
inductive WithList (id : PoolId) : World β → RecordList → List Nat → Prop where
  | make {w : World β} {p : Pool β} :
      Steps empty w → w.pools id = some p → WithList id w (.empty p) []
  | step {w w' : World β} {l : RecordList} {records : List Nat} :
      WithList id w l records → Step w w' → WithList id w' l records
  | add {w : World β} {l l' : RecordList} {records : List Nat} {x : Tracked} {n : Nat} :
      WithList id w l records → x ∈ w.references → x.record = some n →
      l.add x.reference = .ok l' → WithList id w l' (records ++ [n])
  | pointAt {w : World β} {l : RecordList} {records : List Nat} {id' : PoolId} {p : Pool β}
      {j k : Nat} {x : Tracked} {r' : Reference} :
      WithList id w l records → w.pools id' = some p → w.references[j]? = some x →
      l.pointAt k p x.reference = .ok r' →
      WithList id (w.point j (.ofSlot r' (w.histories id'))) l records
  | remove {w : World β} {l : RecordList} {records : List Nat} (k : Nat) :
      WithList id w l records → WithList id w (l.remove k).2 (records.eraseIdx k)
  | clear {w : World β} {l : RecordList} {records : List Nat} :
      WithList id w l records → WithList id w l.clear []

/-- Pointing a reference at an element is a step of the world. -/
theorem step_of_pointAt (hp : w.pools id = some p) (hx : w.references[k]? = some x)
    (hpoint : l.pointAt n p x.reference = .ok r') :
    Step w (w.point k (.ofSlot r' (w.histories id))) := by
  obtain ⟨i, -, hpoint⟩ := bind_eq_ok_iff.mp hpoint
  exact .pointAt hp hx hpoint

/-- The world of a run with a list is one that is run, and its pool is there. -/
theorem WithList.reached (h : WithList id w l records) :
    Steps empty w ∧ ∃ p, w.pools id = some p := by
  induction h with
  | make hsteps hp => exact ⟨hsteps, _, hp⟩
  | step _ hstep ih =>
      obtain ⟨hsteps, p, hp⟩ := ih
      obtain ⟨p', -, hp', -⟩ := hstep.exists_later hp
      exact ⟨hsteps.tail hstep, p', hp'⟩
  | pointAt _ hp hx hpoint ih =>
      exact ⟨ih.1.tail (step_of_pointAt hp hx hpoint), ih.2⟩
  | add _ _ _ _ ih => exact ih
  | remove _ _ ih => exact ih
  | clear _ ih => exact ih

/-- **In every run** the elements of the list are the slots of the creations of
the records that were added. -/
theorem WithList.births (h : WithList id w l records) :
    l.pool = id ∧ records.map (w.histories id).birth? = l.indices.map some := by
  induction h with
  | @make w p hsteps hp => exact ⟨(sound_empty.steps hsteps).id id p hp, rfl⟩
  | @step w w' l records h hstep ih =>
      obtain ⟨-, p, hp⟩ := h.reached
      obtain ⟨p', later, -, hlater⟩ := hstep.exists_later hp
      refine ⟨ih.1, ?_⟩
      rw [← ih.2, hlater]
      refine List.map_congr_left fun n hn => ?_
      have hmem : (w.histories id).birth? n ∈ l.indices.map some := by
        rw [← ih.2]
        exact List.mem_map_of_mem hn
      obtain ⟨i, -, hi⟩ := List.mem_map.mp hmem
      rw [← hi]
      exact History.birth?_append hi.symm
  | @add w l l' records x n h hx hrecord hadd ih =>
      obtain ⟨_, hown, hrest⟩ := bind_eq_ok_iff.mp hadd
      obtain ⟨i, hindex, hput⟩ := bind_eq_ok_iff.mp hrest
      cases hput
      have hpool : x.reference.pool = id :=
        (by simpa using eq_true_of_demand hown : x.reference.pool = l.pool).trans ih.1
      obtain ⟨n', hrecord', hbirth⟩ := ((sound_empty.steps h.reached.1).index?_eq_some_iff hx).mp
        (Reference.index_eq_ok_iff.mp hindex)
      obtain rfl : n = n' := Option.some.inj (hrecord.symm.trans hrecord')
      rw [hpool] at hbirth
      refine ⟨ih.1, ?_⟩
      rw [List.map_append, List.map_append, ih.2, List.map_singleton, List.map_singleton, hbirth]
  | pointAt _ _ _ _ ih => exact ih
  | remove k _ ih =>
      refine ⟨ih.1, ?_⟩
      rw [RecordList.remove, ← List.eraseIdx_map, ← List.eraseIdx_map, ih.2]
  | clear _ ih => exact ⟨ih.1, rfl⟩

/-- The element at which a record was added is the slot of its creation. -/
theorem WithList.element_iff (h : WithList id w l records) : l.indices[k]? = some i ↔
    ∃ n, records[k]? = some n ∧ (w.histories id).birth? n = some i := by
  have hget := congrArg (·[k]?) h.births.2
  simp only [List.getElem?_map] at hget
  constructor
  · intro hi
    rw [hi] at hget
    exact Option.map_eq_some_iff.mp hget
  · rintro ⟨n, hn, hbirth⟩
    rw [hn, Option.map_some, hbirth] at hget
    obtain ⟨j, hj, heq⟩ := Option.map_eq_some_iff.mp hget.symm
    rw [hj, Option.some.inj heq]

/-- The elements are the slots of the creations of the records that were added. -/
theorem WithList.mem_indices_iff (h : WithList id w l records) :
    i ∈ l.indices ↔ ∃ n ∈ records, (w.histories id).birth? n = some i := by
  rw [List.mem_iff_getElem?]
  simp only [h.element_iff]
  constructor
  · rintro ⟨k, n, hn, hbirth⟩
    exact ⟨n, List.mem_of_getElem? hn, hbirth⟩
  · rintro ⟨n, hn, hbirth⟩
    obtain ⟨k, hk⟩ := List.mem_iff_getElem?.mp hn
    exact ⟨k, n, hk, hbirth⟩

/-! ## What a list answers for -/

/-- An element is looked up in the slot of the record that was added; whatever
record is in use there is found. -/
theorem WithList.pointAt_eq (h : WithList id w l records) (hp : w.pools id = some p)
    (hr : r.pool = id) (hn : records[k]? = some n) (hbirth : (w.histories id).birth? n = some i) :
    (∀ m, (w.histories id).InUse m i → l.pointAt k p r = .ok (p.referenceTo i)) ∧
      ((∀ m, ¬ (w.histories id).InUse m i) →
        l.pointAt k p r = .error (.broken (.notLive i))) := by
  have hw : w.Sound := sound_empty.steps h.reached.1
  have hrec := hw.recorded id p hp
  have hown : r.pool = p.id := hr.trans (hw.id id p hp).symm
  have hget : l.indices[k]? = some i := h.element_iff.mpr ⟨n, hn, hbirth⟩
  constructor
  · intro m hm
    exact (RecordList.pointAt_eq_ok_iff hrec.sound).mpr
      ⟨hown, i, hget, (hrec.live_iff i).mpr ⟨m, hm⟩, rfl⟩
  · intro hnone
    have hfree : ¬ p.IsLive i := fun hi => by
      obtain ⟨m, hm⟩ := (hrec.live_iff i).mp hi
      exact hnone m hm
    rw [RecordList.pointAt, fetchAt_eq_ok hget, ok_bind, Pool.pointAt, Pool.demand_own hown, ok_bind,
      hrec.sound.isLive_eq_false hfree, ok_bind]
    rfl

/-- What an element is found to be: the record that is in use in the slot of the
one that was added, and so that one itself exactly as long as it is in use. -/
theorem WithList.of_pointAt (h : WithList id w l records) (hp : w.pools id = some p)
    (hpoint : l.pointAt k p r = .ok r') : ∃ n i m, records[k]? = some n ∧
      (w.histories id).birth? n = some i ∧ (w.histories id).InUse m i ∧
      Tracked.ofSlot r' (w.histories id) = ⟨p.referenceTo i, some m⟩ ∧
      (m = n ↔ (w.histories id).InUse n i) := by
  have hw : w.Sound := sound_empty.steps h.reached.1
  have hrec := hw.recorded id p hp
  obtain ⟨-, i, hget, hi, rfl⟩ := (RecordList.pointAt_eq_ok_iff hrec.sound).mp hpoint
  obtain ⟨n, hn, hbirth⟩ := h.element_iff.mp hget
  obtain ⟨m₀, hm₀⟩ := (hrec.live_iff i).mp hi
  obtain ⟨m, hm⟩ := History.exists_occupant? hm₀
  have huse := History.inUse_of_occupant? hm
  refine ⟨n, i, m, hn, hbirth, huse, congrArg (Tracked.mk _) hm, ?_⟩
  constructor
  · rintro rfl
    exact huse
  · intro hn
    exact hrec.unique m n i huse hn

/-- A list contains every reference to the slot of a record that was added. -/
theorem WithList.contains_eq (h : WithList id w l records) (hx : x ∈ w.references)
    (hm : x.record = some m) (hbirth : (w.histories x.reference.pool).birth? m = some i) :
    l.contains x.reference =
      .ok (decide (∃ n ∈ records, (w.histories id).birth? n = some i)) := by
  have hw : w.Sound := sound_empty.steps h.reached.1
  have hindex := (hw.index?_eq_some_iff hx).mpr ⟨m, hm, hbirth⟩
  obtain ⟨target, htarget, rfl⟩ := Option.map_eq_some_iff.mp hindex
  exact RecordList.contains_eq_ok_iff.mpr
    ⟨target, htarget, decide_eq_decide.mpr h.mem_indices_iff.symm⟩

/-- Two references are told the same when their records were created in one slot. -/
theorem Sound.sameRecord_iff (hw : w.Sound) (hx : x ∈ w.references) (hy : y ∈ w.references) :
    x.reference.sameRecord y.reference = true ↔
      x.reference.pool = y.reference.pool ∧ ∃ m n i, x.record = some m ∧ y.record = some n ∧
        (w.histories x.reference.pool).birth? m = some i ∧
        (w.histories x.reference.pool).birth? n = some i := by
  have hpointed : x.reference.isPointed = x.reference.index?.isSome := by
    rw [Reference.isPointed, Reference.index?, Option.isSome_map]
  rw [Reference.sameRecord, Bool.and_eq_true, Bool.and_eq_true, beq_iff_eq, beq_iff_eq, hpointed,
    Option.isSome_iff_exists, and_assoc]
  refine and_congr_right fun hpool => ?_
  constructor
  · rintro ⟨⟨i, hi⟩, hsame⟩
    obtain ⟨m, hm, hmi⟩ := (hw.index?_eq_some_iff hx).mp hi
    obtain ⟨n, hn, hni⟩ := (hw.index?_eq_some_iff hy).mp (hsame.symm.trans hi)
    exact ⟨m, n, i, hm, hn, hmi, hpool ▸ hni⟩
  · rintro ⟨m, n, i, hm, hn, hmi, hni⟩
    have hi := (hw.index?_eq_some_iff hx).mpr ⟨m, hm, hmi⟩
    rw [hpool] at hni
    exact ⟨⟨i, hi⟩, hi.trans ((hw.index?_eq_some_iff hy).mpr ⟨n, hn, hni⟩).symm⟩

/-- A list whose records are all in use contains the references to them. -/
theorem WithList.contains_referenceTo (h : WithList id w l records) (hp : w.pools id = some p)
    (hn : (w.histories id).InUse n i) (hall : ∀ m ∈ records, ∃ j, (w.histories id).InUse m j) :
    l.contains (p.referenceTo i) = .ok (decide (n ∈ records)) := by
  have hrec := (sound_empty.steps h.reached.1).recorded id p hp
  refine RecordList.contains_eq_ok_iff.mpr ⟨_, rfl, decide_eq_decide.mpr ?_⟩
  have hbirth := History.birth?_eq_some_iff.mpr hn.1
  rw [show Target.index _ = i from rfl, h.mem_indices_iff]
  constructor
  · intro hmem
    exact ⟨n, hmem, hbirth⟩
  · rintro ⟨m, hmem, hm⟩
    obtain ⟨j, huse⟩ := hall m hmem
    obtain rfl := huse.eq_of_birth? hm
    rw [hrec.unique n m _ hn huse]
    exact hmem

/-- **A list answers for whatever record is in the slot now.**  In every run, an
element is found exactly when some record is in use in the slot of the one that
was added, and it is the added one exactly as long as that one is in use; a free
slot is refused.  A list contains every reference to a slot of its elements, and
two references are told the same when their records had one slot.  References
that the pool accepts are told the same only for one record, and a list whose
records are all in use contains only the references to them. -/
theorem list_answers_by_slot (h : WithList id w l records) (hp : w.pools id = some p) :
    (∀ r k r', l.pointAt k p r = .ok r' → ∃ n i m, records[k]? = some n ∧
        (w.histories id).birth? n = some i ∧ (w.histories id).InUse m i ∧
        Tracked.ofSlot r' (w.histories id) = ⟨p.referenceTo i, some m⟩ ∧
        (m = n ↔ (w.histories id).InUse n i)) ∧
      (∀ r k n i, r.pool = id → records[k]? = some n → (w.histories id).birth? n = some i →
        (∀ m, (w.histories id).InUse m i → l.pointAt k p r = .ok (p.referenceTo i)) ∧
          ((∀ m, ¬ (w.histories id).InUse m i) →
            l.pointAt k p r = .error (.broken (.notLive i)))) ∧
      (∀ x ∈ w.references, ∀ m i, x.record = some m →
        (w.histories x.reference.pool).birth? m = some i → l.contains x.reference =
          .ok (decide (∃ n ∈ records, (w.histories id).birth? n = some i))) ∧
      (∀ x ∈ w.references, ∀ y ∈ w.references, x.reference.sameRecord y.reference = true ↔
        x.reference.pool = y.reference.pool ∧ ∃ m n i, x.record = some m ∧ y.record = some n ∧
          (w.histories x.reference.pool).birth? m = some i ∧
          (w.histories x.reference.pool).birth? n = some i) ∧
      ((w.histories id).Few → ∀ x ∈ w.references, p.check x.reference = pure () →
        ∃ n, x.record = some n ∧
          (∀ y ∈ w.references, p.check y.reference = pure () →
            (x.reference.sameRecord y.reference = true ↔ y.record = some n)) ∧
          ((∀ m ∈ records, ∃ i, (w.histories id).InUse m i) →
            l.contains x.reference = .ok (decide (n ∈ records)))) := by
  have hw : w.Sound := sound_empty.steps h.reached.1
  have hrec := hw.recorded id p hp
  refine ⟨fun r k r' => h.of_pointAt hp, fun r k n i => h.pointAt_eq hp,
    fun x hx m i => h.contains_eq hx, fun x hx y hy => hw.sameRecord_iff hx hy, ?_⟩
  intro hfew x hx hcheck
  obtain ⟨n, i, hn, huse, href⟩ := hw.record_of_check hfew hp hx hcheck
  refine ⟨n, hn, ?_, fun hall => ?_⟩
  · intro y hy hcheck'
    obtain ⟨m, j, hm, huse', href'⟩ := hw.record_of_check hfew hp hy hcheck'
    rw [href, href', Pool.sameRecord_referenceTo, decide_eq_true_iff, hm, Option.some.injEq]
    constructor
    · rintro rfl
      exact hrec.unique m n i huse' huse
    · rintro rfl
      exact huse.slot_unique huse'
  · rw [href]
    exact h.contains_referenceTo hp huse hall

/-- A record was created in the only slot and aliased. -/
def aliased : World UInt8 :=
  ((((empty.advance 0 (Pool.counterPool 0 [] #[] #[] 0) []).issue ⟨.unpointed 0, none⟩).advance 0
    (Pool.counterPool 1 [] #[true] #[0] 0) [.created 0]).point 0
      ⟨⟨0, some ⟨0, 0, 0⟩⟩, some 0⟩).issue ⟨⟨0, some ⟨0, 0, 0⟩⟩, some 0⟩

/-- The aliased record was taken back. -/
def vacated : World UInt8 :=
  aliased.advance 0 (Pool.counterPool 1 [0] #[false] #[1] 0) [.deleted 0]

/-- Another record was created in the slot of the aliased one. -/
def reused : World UInt8 :=
  (vacated.advance 0 (Pool.counterPool 1 [] #[true] #[1] 0) [.created 0]).point 0
    ⟨⟨0, some ⟨0, 1, 0⟩⟩, some 2⟩

/-- The aliased record is reached. -/
theorem steps_aliased : Steps empty aliased := by
  have hmake : Pool.make 0 Pool.counterLayout (.single 1) .keep =
      pure (Pool.counterPool 0 [] #[] #[] 0) := rfl
  have hfirst : (Pool.counterPool 0 [] #[] #[] 0).allocate (.unpointed 0) =
      .ok (.ok 0, Pool.counterPool 1 [] #[true] #[0] 0, ⟨0, some ⟨0, 0, 0⟩⟩) := rfl
  let w₁ : World UInt8 := empty.advance 0 (Pool.counterPool 0 [] #[] #[] 0) []
  let w₂ := w₁.issue ⟨.unpointed 0, none⟩
  let w₃ := (w₂.advance 0 (Pool.counterPool 1 [] #[true] #[0] 0) [.created 0]).point 0
    ⟨⟨0, some ⟨0, 0, 0⟩⟩, some 0⟩
  have h₁ : Step empty w₁ := .make rfl (StorePlan.inRange_single 1) hmake
  have h₂ : Step w₁ w₂ := .newReference (show w₁.pools 0 = some _ from rfl)
  have h₃ : Step w₂ w₃ :=
    .allocate (show w₂.pools 0 = some _ from rfl) (show w₂.references[0]? = some _ from rfl) hfirst
  have h₄ : Step w₃ aliased := .duplicate (show w₃.references[0]? = some _ from rfl)
  exact (((Relation.ReflTransGen.single h₁).tail h₂).tail h₃).tail h₄

/-- The aliased record can be taken back. -/
theorem step_vacated : Step aliased vacated := by
  have hrequire : (Pool.counterPool 1 [] #[true] #[0] 0).require ⟨0, some ⟨0, 0, 0⟩⟩ = .ok 0 := rfl
  have hdelete : (Pool.counterPool 1 [] #[true] #[0] 0).delete ⟨0, some ⟨0, 0, 0⟩⟩ =
      .ok (Pool.counterPool 1 [0] #[false] #[1] 0) := rfl
  exact .operate (show aliased.pools 0 = some _ from rfl) (.delete hrequire hdelete)

/-- Its slot can be used again. -/
theorem step_reused : Step vacated reused := by
  have hsecond : (Pool.counterPool 1 [0] #[false] #[1] 0).allocate ⟨0, some ⟨0, 0, 0⟩⟩ =
      .ok (.ok 0, Pool.counterPool 1 [] #[true] #[1] 0, ⟨0, some ⟨0, 1, 0⟩⟩) := rfl
  exact .allocate (show vacated.pools 0 = some _ from rfl)
    (show vacated.references[0]? = some _ from rfl) hsecond

/-- The record was listed before it was taken back. -/
theorem withList_vacated : WithList 0 vacated ⟨0, [0]⟩ [0] := by
  have hpool : aliased.pools 0 = some (Pool.counterPool 1 [] #[true] #[0] 0) := rfl
  have halias : (⟨⟨0, some ⟨0, 0, 0⟩⟩, some 0⟩ : Tracked) ∈ aliased.references :=
    List.mem_of_getElem? (show aliased.references[1]? = some _ from rfl)
  exact ((WithList.make steps_aliased hpool).add halias rfl rfl).step step_vacated

/-- Creating another record in the slot leaves the list as it is. -/
theorem withList_reused : WithList 0 reused ⟨0, [0]⟩ [0] :=
  withList_vacated.step step_reused

/-- After its record was taken back an element is refused, as long as the slot
is free. -/
theorem element_refused_in_free_slot : ∃ p : Pool UInt8, WithList 0 vacated ⟨0, [0]⟩ [0] ∧
    vacated.pools 0 = some p ∧
    (RecordList.mk 0 [0]).pointAt 0 p (.unpointed 0) = .error (.broken (.notLive 0)) := by
  have hpool : vacated.pools 0 = some (Pool.counterPool 1 [0] #[false] #[1] 0) := rfl
  refine ⟨_, withList_vacated, hpool, ?_⟩
  obtain ⟨-, hanswer, -⟩ := list_answers_by_slot withList_vacated hpool
  refine (hanswer (.unpointed 0) 0 0 0 rfl rfl rfl).2 ?_
  intro m hm
  have hlt : m < 2 := hm.lt_length
  change History.InUse [.created 0, .deleted 0] m 0 at hm
  interval_cases m <;> exact absurd hm (by decide)

/-- **A reused slot is taken for the listed record.**  A record is listed, taken
back, and another one is created in its slot: the element is found although its
record is gone, and what is found is the other record.  The list contains the
reference to that one, and the stale alias of the first record is told to be the
same record. -/
theorem reused_slot_taken_for_listed : ∃ (p : Pool UInt8) (current old : Tracked),
    WithList 0 reused ⟨0, [0]⟩ [0] ∧ reused.pools 0 = some p ∧
      reused.references = [current, old] ∧ current.record = some 2 ∧ old.record = some 0 ∧
      ¬ old.InUse (reused.histories 0) ∧ p.check old.reference ≠ pure () ∧
      (RecordList.mk 0 [0]).pointAt 0 p (.unpointed 0) = .ok current.reference ∧
      Tracked.ofSlot current.reference (reused.histories 0) = current ∧
      (RecordList.mk 0 [0]).contains current.reference = .ok true ∧
      old.reference.sameRecord current.reference = true := by
  refine ⟨Pool.counterPool 1 [] #[true] #[1] 0, ⟨⟨0, some ⟨0, 1, 0⟩⟩, some 2⟩,
    ⟨⟨0, some ⟨0, 0, 0⟩⟩, some 0⟩, withList_reused, rfl, rfl, rfl, rfl, ?_, ?_, rfl, rfl, rfl, rfl⟩
  · rintro ⟨n, i, hn, huse⟩
    cases hn
    change History.InUse [.created 0, .deleted 0, .created 0] 0 i at huse
    have hi : Event.created 0 = .created i := Option.some.inj huse.1
    cases hi
    exact absurd huse (by decide)
  · rintro ⟨⟩

end World

end RecordPool
