/-
# Detecting stale references

Any number of pools are run side by side while references are issued, pointed
and repointed.  Every step keeps each reference in step with the record that it
was last pointed at, so that a pool accepts exactly the references whose record
is in use, and tells foreign, unpointed and stale ones apart.
-/
import RecordPool.Proofs.Pool.Integrity
import RecordPool.Proofs.Pool.Tracking

namespace RecordPool

variable {β F : Type} [Memory β F]

/-! ## Pools side by side -/

/-- Pools with their histories, and the references that were issued. -/
structure World (β : Type) where
  /-- The pools that were made. -/
  pools : PoolId → Option (Pool β)
  /-- The events of each pool. -/
  histories : PoolId → History
  /-- The references. -/
  references : List Tracked

namespace World

/-- Nothing was made yet. -/
def empty : World β :=
  ⟨fun _ => none, fun _ => [], []⟩

/-- The pool `id` became `p`, with more events. -/
def advance (w : World β) (id : PoolId) (p : Pool β) (events : History) : World β :=
  { w with
    pools := Function.update w.pools id (some p)
    histories := Function.update w.histories id (w.histories id ++ events) }

/-- One more reference. -/
def issue (w : World β) (t : Tracked) : World β :=
  { w with references := w.references ++ [t] }

/-- The reference `k` became `t`. -/
def point (w : World β) (k : Nat) (t : Tracked) : World β :=
  { w with references := w.references.set k t }

/-- What can happen: a pool is made or operated, or a reference is issued or
pointed at a record, which a creation, a look-up, another reference or a walk
names. -/
inductive Step : World β → World β → Prop where
  | make {w : World β} {id : PoolId} {layout : Layout} {plan : StorePlan} {reset : Reset β}
      {p : Pool β} : w.pools id = none → plan.InRange →
      Pool.make id layout plan reset = pure p → Step w (w.advance id p [])
  | operate {w : World β} {id : PoolId} {p p' : Pool β} {events : History} :
      w.pools id = some p → p.Does events p' → Step w (w.advance id p' events)
  | newReference {w : World β} {id : PoolId} {p : Pool β} :
      w.pools id = some p → Step w (w.issue ⟨p.newReference, none⟩)
  | allocate {w : World β} {id : PoolId} {p p' : Pool β} {k : Nat} {t : Tracked}
      {i : RecordIndex} {r' : Reference} : w.pools id = some p → w.references[k]? = some t →
      p.allocate t.reference = .ok (.ok i, p', r') →
      Step w ((w.advance id p' [.created i]).point k ⟨r', some (w.histories id).length⟩)
  | refuse {w : World β} {id : PoolId} {p p' : Pool β} {k : Nat} {t : Tracked}
      {refusal : PoolError} {r' : Reference} :
      w.pools id = some p → w.references[k]? = some t →
      p.allocate t.reference = .ok (.error refusal, p', r') →
      Step w ((w.advance id p' []).point k ⟨r', t.record⟩)
  | pointAt {w : World β} {id : PoolId} {p : Pool β} {k : Nat} {t : Tracked} {i : RecordIndex}
      {r' : Reference} : w.pools id = some p → w.references[k]? = some t →
      p.pointAt i t.reference = .ok r' → Step w (w.point k (.ofSlot r' (w.histories id)))
  | repoint {w : World β} {k m : Nat} {t other : Tracked} {r' : Reference} :
      w.references[k]? = some t → w.references[m]? = some other →
      t.reference.repoint other.reference = .ok r' → Step w (w.point k ⟨r', other.record⟩)
  | duplicate {w : World β} {k : Nat} {t : Tracked} :
      w.references[k]? = some t → Step w (w.issue t)
  | found {w : World β} {id : PoolId} {p : Pool β} {k : Nat} {t : Tracked} {c c' : Cursor}
      {r' : Reference} : w.pools id = some p → w.references[k]? = some t →
      c.advance p t.reference = .ok (true, c', r') →
      Step w (w.point k (.ofSlot r' (w.histories id)))
  | ended {w : World β} {id : PoolId} {p : Pool β} {k : Nat} {t : Tracked} {c c' : Cursor}
      {r' : Reference} : w.pools id = some p → w.references[k]? = some t →
      c.advance p t.reference = .ok (false, c', r') → Step w (w.point k ⟨r', t.record⟩)
  | yield {w : World β} {id : PoolId} {p : Pool β} {c c' : Cursor} {r' : Reference} :
      w.pools id = some p → c.yield? p = .ok (some r', c') →
      Step w (w.issue (.ofSlot r' (w.histories id)))

/-- Any number of steps. -/
abbrev Steps : World β → World β → Prop :=
  Relation.ReflTransGen Step

/-- No counter of any pool has wrapped around. -/
def Few (w : World β) : Prop :=
  ∀ id, (w.histories id).Few

/-- Every pool says what its history says, and every reference follows the
record that it was last pointed at. -/
structure Sound (w : World β) : Prop where
  id : ∀ id p, w.pools id = some p → p.id = id
  recorded : ∀ id p, w.pools id = some p → p.Recorded (w.histories id)
  fresh : ∀ id, w.pools id = none → w.histories id = []
  follows : ∀ t ∈ w.references, t.Follows (w.histories t.reference.pool)

variable {w w' : World β} {id : PoolId} {p p' : Pool β} {events : History} {t : Tracked} {k : Nat}

/-! ## Steps keep a world sound -/

theorem pools_advance (w : World β) (id : PoolId) (p : Pool β) (events : History) :
    (w.advance id p events).pools = Function.update w.pools id (some p) := rfl

theorem histories_advance (w : World β) (id : PoolId) (p : Pool β) (events : History) :
    (w.advance id p events).histories =
      Function.update w.histories id (w.histories id ++ events) := rfl

/-- Before anything was made all is well. -/
theorem sound_empty : (empty : World β).Sound where
  id := by rintro id p ⟨⟩
  recorded := by rintro id p ⟨⟩
  fresh := fun _ _ => rfl
  follows := by simp [empty]

/-- A pool may go on to where its history goes on to. -/
theorem Sound.advance (hw : w.Sound) (hid : p.id = id)
    (hrec : p.Recorded (w.histories id ++ events)) : (w.advance id p events).Sound where
  id := by
    intro id' p' hp'
    rw [pools_advance] at hp'
    by_cases heq : id' = id
    · subst heq
      rw [Function.update_self] at hp'
      rw [← Option.some.inj hp', hid]
    · rw [Function.update_of_ne heq] at hp'
      exact hw.id id' p' hp'
  recorded := by
    intro id' p' hp'
    rw [pools_advance] at hp'
    rw [histories_advance]
    by_cases heq : id' = id
    · subst heq
      rw [Function.update_self] at hp' ⊢
      rw [← Option.some.inj hp']
      exact hrec
    · rw [Function.update_of_ne heq] at hp' ⊢
      exact hw.recorded id' p' hp'
  fresh := by
    intro id' hp'
    rw [pools_advance] at hp'
    rw [histories_advance]
    by_cases heq : id' = id
    · subst heq
      rw [Function.update_self] at hp'
      cases hp'
    · rw [Function.update_of_ne heq] at hp' ⊢
      exact hw.fresh id' hp'
  follows := by
    intro t ht
    rw [histories_advance]
    by_cases heq : t.reference.pool = id
    · rw [heq, Function.update_self, ← heq]
      exact (hw.follows t ht).append events
    · rw [Function.update_of_ne heq]
      exact hw.follows t ht

/-- A reference that follows a record may be issued. -/
theorem Sound.issue (hw : w.Sound) (ht : t.Follows (w.histories t.reference.pool)) :
    (w.issue t).Sound where
  id := hw.id
  recorded := hw.recorded
  fresh := hw.fresh
  follows := by
    intro t' ht'
    rcases List.mem_append.mp ht' with ht' | ht'
    · exact hw.follows t' ht'
    · rw [List.mem_singleton.mp ht']
      exact ht

/-- A reference may be pointed at a record that it follows. -/
theorem Sound.point (hw : w.Sound) (ht : t.Follows (w.histories t.reference.pool)) (k : Nat) :
    (w.point k t).Sound where
  id := hw.id
  recorded := hw.recorded
  fresh := hw.fresh
  follows := by
    intro t' ht'
    rcases List.mem_or_eq_of_mem_set ht' with ht' | rfl
    · exact hw.follows t' ht'
    · exact ht

/-- A reference to a record in use follows it. -/
theorem Sound.follows_ofSlot (hw : w.Sound) (hp : w.pools id = some p) {i : Nat}
    (hi : p.IsLive i) : (Tracked.ofSlot (p.referenceTo i) (w.histories id)).Follows
      (w.histories (Tracked.ofSlot (p.referenceTo i) (w.histories id)).reference.pool) := by
  have hid : (Tracked.ofSlot (p.referenceTo i) (w.histories id)).reference.pool = id := hw.id id p hp
  rw [hid]
  exact Tracked.follows_ofSlot (hw.recorded id p hp) hi

/-- **Every step** keeps a world sound. -/
theorem Sound.step (hw : w.Sound) (hstep : Step w w') : w'.Sound := by
  cases hstep with
  | @make id layout plan reset p hnone hrange hmake =>
      refine hw.advance ?_ ?_
      · rw [(Pool.sound_of_make hrange hmake).2]
      · rw [hw.fresh id hnone]
        exact Pool.recorded_of_make hrange hmake
  | @operate id p p' events hp hdoes =>
      have hrec := hw.recorded id p hp
      exact hw.advance ((hrec.sound.kept_of_does hdoes).1.trans (hw.id id p hp)) (hrec.does hdoes)
  | newReference hp => exact hw.issue rfl
  | @allocate id p p' k t i r' hp ht hallocate =>
      have hrec := hw.recorded id p hp
      obtain ⟨halloc, rfl⟩ := hrec.sound.allocates_of_allocate hallocate
      have hw' := hw.advance (halloc.id.trans (hw.id id p hp)) (hrec.created halloc)
      refine hw'.point ?_ k
      have hpool : (p.referenceTo i).pool = id := hw.id id p hp
      rw [histories_advance, hpool, Function.update_self]
      apply Tracked.follows_of_created
      rw [hrec.referenceTo]
  | @refuse id p p' k t refusal r' hp ht hallocate =>
      have hrec := hw.recorded id p hp
      obtain ⟨rfl, rfl, -⟩ := hrec.sound.eq_of_allocate_refused hallocate
      have hw' : (w.advance id p' []).Sound :=
        hw.advance (hw.id id p' hp) (by rw [List.append_nil]; exact hrec)
      exact hw'.point (hw'.follows t (List.mem_of_getElem? ht)) k
  | @pointAt id p k t i r' hp ht hpoint =>
      obtain ⟨hi, rfl⟩ := (hw.recorded id p hp).sound.eq_of_pointAt hpoint
      exact hw.point (hw.follows_ofSlot hp hi) k
  | @repoint k m t other r' ht hother hrepoint =>
      obtain ⟨hpool, rfl⟩ := Reference.eq_of_repoint hrepoint
      refine hw.point ?_ k
      have hfollows := hw.follows other (List.mem_of_getElem? hother)
      rw [← hpool] at hfollows
      exact hfollows
  | duplicate ht => exact hw.issue (hw.follows _ (List.mem_of_getElem? ht))
  | @found id p k t c c' r' hp ht hadvance =>
      obtain ⟨i, hi, rfl⟩ := (hw.recorded id p hp).sound.exists_of_advance hadvance
      exact hw.point (hw.follows_ofSlot hp hi) k
  | ended hp ht hadvance =>
      obtain rfl := Cursor.eq_of_advance_end hadvance
      exact hw.point (hw.follows _ (List.mem_of_getElem? ht)) _
  | @yield id p c c' r' hp hyield =>
      obtain ⟨i, hi, rfl⟩ := (hw.recorded id p hp).sound.exists_of_yield hyield
      exact hw.issue (hw.follows_ofSlot hp hi)

/-- **Every run** keeps a world sound. -/
theorem Sound.steps (hw : w.Sound) (hsteps : Steps w w') : w'.Sound := by
  induction hsteps with
  | refl => exact hw
  | tail _ hstep ih => exact ih.step hstep

/-- Going on with one pool keeps every pool and its history. -/
theorem exists_advanced (hp : w.pools id = some p) (id' : PoolId) (p' : Pool β)
    (events : History) : ∃ p'' later, (w.advance id' p' events).pools id = some p'' ∧
      (w.advance id' p' events).histories id = w.histories id ++ later := by
  by_cases heq : id = id'
  · subst heq
    exact ⟨p', events, Function.update_self .., Function.update_self ..⟩
  · refine ⟨p, [], ?_, ?_⟩
    · rw [pools_advance, Function.update_of_ne heq, hp]
    · rw [histories_advance, Function.update_of_ne heq, List.append_nil]

/-- A pool that was made stays, and its history only grows. -/
theorem Step.exists_later (hstep : Step w w') (hp : w.pools id = some p) :
    ∃ p' later, w'.pools id = some p' ∧ w'.histories id = w.histories id ++ later := by
  have hsame : ∃ p' later, w.pools id = some p' ∧ w.histories id = w.histories id ++ later :=
    ⟨p, [], hp, (List.append_nil _).symm⟩
  cases hstep with
  | make => exact exists_advanced hp _ _ _
  | operate => exact exists_advanced hp _ _ _
  | allocate => exact exists_advanced hp _ _ _
  | refuse => exact exists_advanced hp _ _ _
  | _ => exact hsame

/-- A history only grows in a run. -/
theorem exists_later_of_steps (hsteps : Steps w w') (hp : w.pools id = some p) :
    ∃ p' later, w'.pools id = some p' ∧ w'.histories id = w.histories id ++ later := by
  induction hsteps with
  | refl => exact ⟨p, [], hp, (List.append_nil _).symm⟩
  | tail _ hstep ih =>
      obtain ⟨p₁, later, hp₁, hlater⟩ := ih
      obtain ⟨p₂, more, hp₂, hmore⟩ := hstep.exists_later hp₁
      exact ⟨p₂, later ++ more, hp₂, by rw [hmore, hlater, List.append_assoc]⟩

/-! ## What the check finds out -/

/-- The four outcomes of a check, told apart by the history. -/
theorem Sound.check_cases (hw : w.Sound) (hfew : w.Few) (ht : t ∈ w.references)
    (hp : w.pools id = some p) :
    (t.reference.pool ≠ id ∧
        p.check t.reference = throw (.foreignReference id t.reference.pool)) ∨
      (t.reference.pool = id ∧ t.reference.isPointed = false ∧ ¬ t.InUse (w.histories id) ∧
        p.check t.reference = throw .unpointed) ∨
      (t.reference.pool = id ∧ t.reference.isPointed = true ∧ t.InUse (w.histories id) ∧
        p.check t.reference = pure ()) ∨
      (t.reference.pool = id ∧ t.reference.isPointed = true ∧ ¬ t.InUse (w.histories id) ∧
        ∃ index expected found,
          p.check t.reference = throw (.staleReference index expected found)) := by
  have hid := hw.id id p hp
  have hrec := hw.recorded id p hp
  by_cases hpool : t.reference.pool = id
  · have hown : t.reference.pool = p.id := hpool.trans hid.symm
    have hfollows := hw.follows t ht
    rw [hpool] at hfollows
    have hvalid := hfollows.valid_iff hrec (hfew id) hown
    cases htarget : t.reference.target with
    | none =>
        have hunpointed : ¬ t.InUse (w.histories id) := by
          rw [← hvalid]
          rintro ⟨i, -, href⟩
          rw [href] at htarget
          cases htarget
        refine Or.inr (Or.inl ⟨hpool, by rw [Reference.isPointed, htarget]; rfl, hunpointed, ?_⟩)
        exact Pool.check_of_refused (Pool.resolve_of_unpointed hown htarget)
    | some target =>
        have hpointed : t.reference.isPointed = true := by
          rw [Reference.isPointed, htarget]
          rfl
        by_cases huse : t.InUse (w.histories id)
        · refine Or.inr (Or.inr (Or.inl ⟨hpool, hpointed, huse, ?_⟩))
          exact hrec.sound.check_eq_pure_iff.mpr (hvalid.mpr huse)
        · have hstale := hrec.sound.resolve_of_stale hown htarget fun hlive =>
            huse (hvalid.mp ⟨target.index, hlive⟩)
          exact Or.inr (Or.inr (Or.inr ⟨hpool, hpointed, huse, _, _, _,
            Pool.check_of_refused hstale⟩))
  · refine Or.inl ⟨hpool, ?_⟩
    rw [← hid]
    exact Pool.check_of_refused (Pool.resolve_of_foreign (hid ▸ hpool))

/-- A reference whose record is no longer in use is never accepted again. -/
theorem Sound.not_valid_later (hw : w.Sound) (ht : t ∈ w.references) (hp : w.pools id = some p)
    (hunused : ¬ t.InUse (w.histories id)) (hsteps : Steps w w') (hfew : w'.Few)
    (hp' : w'.pools id = some p') : p'.check t.reference ≠ pure () := by
  have hw' := hw.steps hsteps
  intro hcheck
  rw [(hw'.recorded id p' hp').sound.check_eq_pure_iff] at hcheck
  have hpool : t.reference.pool = p'.id := by
    obtain ⟨i, -, href⟩ := hcheck
    rw [href]
    rfl
  have hid : t.reference.pool = id := hpool.trans (hw'.id id p' hp')
  have hfollows := hw.follows t ht
  rw [hid] at hfollows
  obtain ⟨p₁, later, -, hlater⟩ := exists_later_of_steps hsteps hp
  have hrec' := hw'.recorded id p' hp'
  have hfew' := hfew id
  rw [hlater] at hrec' hfew'
  exact hunused (hfollows.inUse_of_append
    (((hfollows.append later).valid_iff hrec' hfew' hpool).mp hcheck))

/-- **Stale references are found out, and no others.**  In every run of any
number of pools in which no counter wraps around, a pool accepts a reference
exactly when the record that it was last pointed at is still in use; it calls
the references of other pools foreign and the ones that point at nothing
unpointed, and all others stale.  Once the record of a reference was taken
back or dropped the reference is never accepted again. -/
theorem check_iff_inUse {w : World β} (hsteps : Steps empty w) (hfew : w.Few) {t : Tracked}
    (ht : t ∈ w.references) {id : PoolId} {p : Pool β} (hp : w.pools id = some p) :
    (p.check t.reference = pure () ↔ t.reference.pool = id ∧ t.InUse (w.histories id)) ∧
      (p.check t.reference = throw (.foreignReference id t.reference.pool) ↔
        t.reference.pool ≠ id) ∧
      (p.check t.reference = throw .unpointed ↔
        t.reference.pool = id ∧ t.reference.isPointed = false) ∧
      ((∃ index expected found,
          p.check t.reference = throw (.staleReference index expected found)) ↔
        t.reference.pool = id ∧ t.reference.isPointed = true ∧ ¬ t.InUse (w.histories id)) ∧
      ∀ (w' : World β) (p' : Pool β), ¬ t.InUse (w.histories id) → Steps w w' → w'.Few →
        w'.pools id = some p' → p'.check t.reference ≠ pure () := by
  have hw : w.Sound := sound_empty.steps hsteps
  rw [← and_assoc, ← and_assoc, ← and_assoc]
  refine ⟨?_, fun w' p' hunused hlater hfew' hp' =>
    hw.not_valid_later ht hp hunused hlater hfew' hp'⟩
  rcases hw.check_cases hfew ht hp with ⟨hpool, hcheck⟩ | ⟨hpool, hpointed, huse, hcheck⟩ |
    ⟨hpool, hpointed, huse, hcheck⟩ | ⟨hpool, hpointed, huse, index, expected, found, hcheck⟩
  · simp [hcheck, hpool, throw_eq_throw_iff, throw_ne_pure]
  · simp [hcheck, hpool, hpointed, huse, throw_eq_throw_iff, throw_ne_pure]
  · simp [hcheck, hpool, hpointed, huse, throw_ne_pure.symm]
  · simp [hcheck, hpool, hpointed, huse, throw_eq_throw_iff, throw_ne_pure]

/-- A record is created, aliased and taken back, and another one is created in
its slot: the reference to the new record is accepted, the alias of the old
one, which points at the same slot, is not. -/
theorem alias_stale_after_reuse : ∃ (w : World UInt8) (p : Pool UInt8) (current old : Tracked),
    Steps empty w ∧ w.Few ∧ w.pools 0 = some p ∧ w.references = [current, old] ∧
      current.reference.index? = old.reference.index? ∧
      p.check current.reference = pure () ∧ p.check old.reference ≠ pure () := by
  have hmake : Pool.make 0 Pool.counterLayout (.single 1) .keep =
      pure (Pool.counterPool 0 [] #[] #[] 0) := rfl
  have hfirst : (Pool.counterPool 0 [] #[] #[] 0).allocate (.unpointed 0) =
      .ok (.ok 0, Pool.counterPool 1 [] #[true] #[0] 0, ⟨0, some ⟨0, 0, 0⟩⟩) := rfl
  have hrequire : (Pool.counterPool 1 [] #[true] #[0] 0).require ⟨0, some ⟨0, 0, 0⟩⟩ = .ok 0 := rfl
  have hdelete : (Pool.counterPool 1 [] #[true] #[0] 0).delete ⟨0, some ⟨0, 0, 0⟩⟩ =
      .ok (Pool.counterPool 1 [0] #[false] #[1] 0) := rfl
  have hsecond : (Pool.counterPool 1 [0] #[false] #[1] 0).allocate ⟨0, some ⟨0, 0, 0⟩⟩ =
      .ok (.ok 0, Pool.counterPool 1 [] #[true] #[1] 0, ⟨0, some ⟨0, 1, 0⟩⟩) := rfl
  let w₁ : World UInt8 := empty.advance 0 (Pool.counterPool 0 [] #[] #[] 0) []
  let w₂ := w₁.issue ⟨.unpointed 0, none⟩
  let w₃ := (w₂.advance 0 (Pool.counterPool 1 [] #[true] #[0] 0) [.created 0]).point 0
    ⟨⟨0, some ⟨0, 0, 0⟩⟩, some 0⟩
  let w₄ := w₃.issue ⟨⟨0, some ⟨0, 0, 0⟩⟩, some 0⟩
  let w₅ := w₄.advance 0 (Pool.counterPool 1 [0] #[false] #[1] 0) [.deleted 0]
  let w₆ := (w₅.advance 0 (Pool.counterPool 1 [] #[true] #[1] 0) [.created 0]).point 0
    ⟨⟨0, some ⟨0, 1, 0⟩⟩, some 2⟩
  have h₁ : Step empty w₁ := .make rfl (StorePlan.inRange_single 1) hmake
  have h₂ : Step w₁ w₂ := .newReference (show w₁.pools 0 = some _ from rfl)
  have h₃ : Step w₂ w₃ :=
    .allocate (show w₂.pools 0 = some _ from rfl) (show w₂.references[0]? = some _ from rfl) hfirst
  have h₄ : Step w₃ w₄ := .duplicate (show w₃.references[0]? = some _ from rfl)
  have h₅ : Step w₄ w₅ :=
    .operate (show w₄.pools 0 = some _ from rfl) (.delete hrequire hdelete)
  have h₆ : Step w₅ w₆ :=
    .allocate (show w₅.pools 0 = some _ from rfl) (show w₅.references[0]? = some _ from rfl) hsecond
  have hsteps : Steps empty w₆ := (((((Relation.ReflTransGen.single h₁).tail h₂).tail h₃).tail
    h₄).tail h₅).tail h₆
  have hfew : w₆.Few := by
    intro id
    by_cases hid : id = 0
    · subst hid
      exact History.few_of_length_lt (show 3 < 2 ^ 32 by decide)
    · refine History.few_of_length_lt ?_
      simp [w₆, w₅, w₄, w₃, w₂, w₁, World.point, World.issue, World.advance, empty, hid]
  have hpool : w₆.pools 0 = some (Pool.counterPool 1 [] #[true] #[1] 0) := rfl
  have hreferences : w₆.references =
      [⟨⟨0, some ⟨0, 1, 0⟩⟩, some 2⟩, ⟨⟨0, some ⟨0, 0, 0⟩⟩, some 0⟩] := rfl
  refine ⟨w₆, _, _, _, hsteps, hfew, hpool, hreferences, rfl, ?_, ?_⟩
  · refine (check_iff_inUse hsteps hfew (hreferences ▸ List.mem_cons_self) hpool).1.mpr
      ⟨rfl, 2, 0, rfl, ?_⟩
    show History.InUse [.created 0, .deleted 0, .created 0] 2 0
    decide
  · intro hcheck
    obtain ⟨-, n, i, hn, huse⟩ := (check_iff_inUse hsteps hfew
      (hreferences ▸ List.mem_cons_of_mem _ List.mem_cons_self) hpool).1.mp hcheck
    cases hn
    change History.InUse [.created 0, .deleted 0, .created 0] 0 i at huse
    have hi : Event.created 0 = .created i := Option.some.inj huse.1
    cases hi
    exact absurd huse (by decide)

end World

end RecordPool
