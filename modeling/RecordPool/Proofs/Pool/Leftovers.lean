/-
# What side tables keep of former records

An entry of a side table is stale once the record that it was set for is taken
back or dropped.  The table is not told, so that the value stays in it until the
table is touched: setting a value in the slot replaces the entry, pruning drops
all stale entries, and clearing drops every entry.  Removing empties a slot only
of the value of the record that is there now, so that a stale entry outlives it.
-/
import RecordPool.Proofs.Pool.Lists

namespace RecordPool

variable {α β F : Type} [Memory β F]

namespace SideTable

/-! ## Touching a table -/

/-- The entry does not carry the stamp of the record in the slot, if there is
one. -/
def Stale (p : Pool β) (i : RecordIndex) (e : Entry α) : Prop :=
  p.stamp? i ≠ .ok (some e.stamp)

/-- What is done to the entries of a table. -/
inductive Touch where
  /-- A value was set for the record in the slot. -/
  | set (slot : RecordIndex)
  /-- The value of the record in the slot was removed. -/
  | remove (slot : RecordIndex)
  /-- The stale entries were dropped. -/
  | prune
  /-- All entries were dropped. -/
  | clear
  deriving DecidableEq, Repr

/-- The touch drops a stale entry of the slot `i`. -/
def Touch.Drops (i : RecordIndex) : Touch → Prop
  | set slot => slot = i
  | remove _ => False
  | prune | clear => True

/-- Every entry was set for a record, whose stamp it carries. -/
def Dated (t : SideTable α) (h : History) : Prop :=
  ∀ i e, t.entryAt? i = some e →
    ∃ n, h[n]? = some (.created i) ∧ e.stamp = ((h.before n).target i).stamp

variable {t t' : SideTable α} {p : Pool β} {h later : History} {n i : Nat} {e : Entry α}
  {stamp : Stamp}

/-- A recorded pool finds an entry stale when its history has another stamp for
the slot, or none. -/
theorem stale_iff (hrec : p.Recorded h) : Stale p i e ↔ h.stamp? i ≠ some e.stamp := by
  rw [Stale, hrec.stamp?_eq, ne_eq, Except.ok.injEq]

/-- A table stays dated when more happens to its pool. -/
theorem Dated.append (hd : t.Dated h) (later : History) : t.Dated (h ++ later) := by
  intro i e he
  obtain ⟨n, hcreated, hstamp⟩ := hd i e he
  have hlt : n < h.length := (List.getElem?_eq_some_iff.mp hcreated).1
  refine ⟨n, ?_, ?_⟩
  · rw [List.getElem?_append_left hlt]
    exact hcreated
  · rw [History.before_append (Nat.le_of_lt hlt)]
    exact hstamp

/-- A table of which entries were dropped is still dated. -/
theorem Dated.of_dropped (hd : t.Dated h)
    (hsub : ∀ i e, t'.entryAt? i = some e → t.entryAt? i = some e) : t'.Dated h :=
  fun i e he => hd i e (hsub i e he)

/-- A table is dated after a value was set with the stamp of its slot. -/
theorem Dated.store (hd : t.Dated h) (hstamp : h.stamp? i = some stamp) (v : α) :
    (t.store i ⟨stamp, v⟩).Dated h := by
  intro j e he
  rw [entryAt?_store] at he
  split at he
  · rename_i hj
    subst hj
    obtain ⟨n, hn, rfl⟩ := History.inUse_of_stamp? hstamp
    obtain rfl := Option.some.inj he
    exact ⟨n, hn.1, congrArg Target.stamp hn.target_eq⟩
  · exact hd j e he

/-- **A stale entry stays stale**, whatever happens to the pool, as long as no
counter wraps around. -/
theorem stamp?_ne_of_append (hcreated : h[n]? = some (.created i))
    (hstamp : e.stamp = ((h.before n).target i).stamp) (hstale : h.stamp? i ≠ some e.stamp)
    (hfew : History.Few (h ++ later)) : History.stamp? (h ++ later) i ≠ some e.stamp := by
  intro heq
  have hlt : n < h.length := (List.getElem?_eq_some_iff.mp hcreated).1
  -- equal stamps belong to one record, which would have been in use all the time
  obtain ⟨m, hm, htarget⟩ := History.inUse_of_stamp? heq
  have hcreated' : (h ++ later)[n]? = some (.created i) := by
    rw [List.getElem?_append_left hlt]
    exact hcreated
  have hsame : History.target (h ++ later) i = (History.before (h ++ later) n).target i := by
    rw [History.before_append (Nat.le_of_lt hlt)]
    have hstamps := htarget.symm.trans hstamp
    simpa [Target.stamp, History.target] using hstamps
  have huse := History.inUse_of_target_eq hfew hcreated' hsame
  have hbefore : h.InUse n i := ((History.inUse_append hlt).mp huse).1
  apply hstale
  rw [hbefore.stamp?_eq, hbefore.target_eq, hstamp]

end SideTable

namespace World

open SideTable

variable {id : PoolId} {w w' w₀ : World β} {p p₀ : Pool β} {t t' t₀ : SideTable α}
  {touches later : List Touch} {n i : Nat} {e : Entry α} {r : Reference}

/-! ## Runs with a table -/

/-- A run of pools and references, with what is done meanwhile to a side table
for the records of the pool `id`. -/
inductive TableRun (id : PoolId) (w₀ : World β) (t₀ : SideTable α) :
    World β → SideTable α → List Touch → Prop where
  | start : TableRun id w₀ t₀ w₀ t₀ []
  | step {w w' : World β} {t : SideTable α} {touches : List Touch} :
      TableRun id w₀ t₀ w t touches → Step w w' → TableRun id w₀ t₀ w' t touches
  | set {w : World β} {p : Pool β} {t t' : SideTable α} {touches : List Touch} {r : Reference}
      {i : RecordIndex} {previous : Option α} (v : α) : TableRun id w₀ t₀ w t touches →
      w.pools id = some p → p.require r = .ok i → t.set p r v = .ok (previous, t') →
      TableRun id w₀ t₀ w t' (touches ++ [.set i])
  | remove {w : World β} {p : Pool β} {t t' : SideTable α} {touches : List Touch} {r : Reference}
      {i : RecordIndex} {previous : Option α} : TableRun id w₀ t₀ w t touches →
      w.pools id = some p → p.require r = .ok i → t.remove p r = .ok (previous, t') →
      TableRun id w₀ t₀ w t' (touches ++ [.remove i])
  | prune {w : World β} {p : Pool β} {t t' : SideTable α} {touches : List Touch} :
      TableRun id w₀ t₀ w t touches → w.pools id = some p → t.prune p = .ok t' →
      TableRun id w₀ t₀ w t' (touches ++ [.prune])
  | clear {w : World β} {t : SideTable α} {touches : List Touch} :
      TableRun id w₀ t₀ w t touches → TableRun id w₀ t₀ w t.clear (touches ++ [.clear])

/-- A run with a table runs its world. -/
theorem TableRun.steps (h : TableRun id w₀ t₀ w t touches) : Steps w₀ w := by
  induction h with
  | start => exact .refl
  | step _ hstep ih => exact ih.tail hstep
  | set _ _ _ _ _ ih | remove _ _ _ _ ih | prune _ _ _ ih | clear _ ih => exact ih

section Touching

variable (hw : w.Sound) (hp : w.pools id = some p) (hpool : t.pool = id)
include hw hp hpool

/-- **Setting** replaces whatever the slot had by an entry with its stamp. -/
theorem Sound.set_entries (hrequire : p.require r = .ok i) (v : α) :
    ∃ previous t' stamp, t.set p r v = .ok (previous, t') ∧ t'.pool = id ∧
      (w.histories id).stamp? i = some stamp ∧ t' = t.store i ⟨stamp, v⟩ := by
  have hrec := hw.recorded id p hp
  obtain ⟨hi, rfl⟩ := hrec.sound.require_eq_ok_iff.mp hrequire
  obtain ⟨n, hn⟩ := (hrec.live_iff i).mp hi
  exact ⟨_, _, _, set_eq_store (hpool.trans (hw.id id p hp).symm) hrec hi hn.stamp?_eq v, hpool,
    hn.stamp?_eq, rfl⟩

/-- **Removing** drops the entry of a slot unless it is stale. -/
theorem Sound.remove_entries (hrequire : p.require r = .ok i) :
    ∃ previous t', t.remove p r = .ok (previous, t') ∧ t'.pool = id ∧
      (∀ e, t'.entryAt? i = some e ↔ t.entryAt? i = some e ∧ Stale p i e) ∧
      ∀ j ≠ i, t'.entryAt? j = t.entryAt? j := by
  have hrec := hw.recorded id p hp
  obtain ⟨hi, rfl⟩ := hrec.sound.require_eq_ok_iff.mp hrequire
  obtain ⟨t', heq, hpool', hentries⟩ :=
    remove_eq_filter (hpool.trans (hw.id id p hp).symm) hrec hi
  refine ⟨_, t', heq, hpool'.trans hpool, fun e => ?_, fun j hj => by rw [hentries, if_neg hj]⟩
  rw [hentries, if_pos rfl, Option.filter_eq_some_iff, stale_iff hrec, decide_eq_true_eq, ne_comm]

/-- **Pruning** drops the stale entries and no others. -/
theorem Sound.prune_entries : ∃ t', t.prune p = .ok t' ∧ t'.pool = id ∧
    ∀ i e, t'.entryAt? i = some e ↔ t.entryAt? i = some e ∧ ¬ Stale p i e := by
  have hrec := hw.recorded id p hp
  refine ⟨_, prune_eq_fresh hrec, hpool, fun i e => ?_⟩
  rw [stale_iff hrec, not_not, ← eq_comm (a := some e.stamp)]
  show (t.fresh (w.histories id))[i]?.join = some e ↔ _
  rw [getElem?_fresh, Option.filter_eq_some_iff, decide_eq_true_eq]

end Touching

/-! ## Runs keep tables dated -/

/-- **In every run** the table stays one of its pool, and every entry carries the
stamp of the record that it was set for. -/
theorem TableRun.dated (h : TableRun id w₀ t₀ w t touches) (hw₀ : w₀.Sound)
    (hp₀ : w₀.pools id = some p₀) (hpool : t₀.pool = id) (hd : t₀.Dated (w₀.histories id)) :
    t.pool = id ∧ t.Dated (w.histories id) := by
  induction h with
  | start => exact ⟨hpool, hd⟩
  | step hrun hstep ih =>
      obtain ⟨p, _, hp, -⟩ := exists_later_of_steps hrun.steps hp₀
      obtain ⟨_, later, -, hlater⟩ := hstep.exists_later hp
      rw [hlater]
      exact ⟨ih.1, ih.2.append later⟩
  | set v hrun hp hrequire hset ih =>
      obtain ⟨_, t₁, stamp, heq, hpool₁, hstamp, rfl⟩ :=
        (hw₀.steps hrun.steps).set_entries hp ih.1 hrequire v
      cases heq.symm.trans hset
      exact ⟨hpool₁, ih.2.store hstamp v⟩
  | @remove w p t t' touches r i previous hrun hp hrequire hremove ih =>
      obtain ⟨_, t₁, heq, hpool₁, hentry, hothers⟩ :=
        (hw₀.steps hrun.steps).remove_entries hp ih.1 hrequire
      cases heq.symm.trans hremove
      refine ⟨hpool₁, ih.2.of_dropped fun j e he => ?_⟩
      by_cases hj : j = i
      · subst hj
        exact ((hentry e).mp he).1
      · rwa [hothers j hj] at he
  | prune hrun hp hprune ih =>
      obtain ⟨t₁, heq, hpool₁, hentries⟩ := (hw₀.steps hrun.steps).prune_entries hp ih.1
      cases heq.symm.trans hprune
      exact ⟨hpool₁, ih.2.of_dropped fun i e he => ((hentries i e).mp he).1⟩
  | clear _ ih => exact ⟨ih.1, fun i e he => by simp [SideTable.clear, entryAt?] at he⟩

/-- **A stale entry is kept** until a value is set in its slot, or the table is
pruned or cleared, and no longer. -/
theorem TableRun.kept_iff (h : TableRun id w₀ t₀ w t touches) (hw₀ : w₀.Sound)
    (hp₀ : w₀.pools id = some p₀) (hpool : t₀.pool = id) (hd : t₀.Dated (w₀.histories id))
    (hentry : t₀.entryAt? i = some e) (hstale : Stale p₀ i e) (hfew : (w.histories id).Few) :
    (∀ p, w.pools id = some p → Stale p i e) ∧
      (t.entryAt? i = some e ↔ ∀ touch ∈ touches, ¬ touch.Drops i) := by
  obtain ⟨n, hcreated, hstamp⟩ := hd i e hentry
  rw [stale_iff (hw₀.recorded id p₀ hp₀)] at hstale
  -- the entry is stale at every moment of the run
  have hlater : ∀ {w : World β}, Steps w₀ w → (w.histories id).Few →
      (w.histories id).stamp? i ≠ some e.stamp := by
    intro w hsteps hfew
    obtain ⟨_, later, -, hlater⟩ := exists_later_of_steps hsteps hp₀
    rw [hlater] at hfew ⊢
    exact stamp?_ne_of_append hcreated hstamp hstale hfew
  have hstale' : ∀ {w : World β} {p : Pool β}, Steps w₀ w → (w.histories id).Few →
      w.pools id = some p → Stale p i e := fun hsteps hfew hp =>
    (stale_iff ((hw₀.steps hsteps).recorded id _ hp)).mpr (hlater hsteps hfew)
  refine ⟨fun p hp => hstale' h.steps hfew hp, ?_⟩
  induction h with
  | start => simp [hentry]
  | step hrun hstep ih =>
      obtain ⟨p, _, hp, -⟩ := exists_later_of_steps hrun.steps hp₀
      obtain ⟨_, later, -, hgrown⟩ := hstep.exists_later hp
      rw [hgrown] at hfew
      exact ih hfew.of_append
  | @set w p t t' touches r j previous v hrun hp hrequire hset ih =>
      obtain ⟨_, t₁, stamp, heq, -, hstamp', rfl⟩ := (hw₀.steps hrun.steps).set_entries hp
        (hrun.dated hw₀ hp₀ hpool hd).1 hrequire v
      cases heq.symm.trans hset
      rw [entryAt?_store, List.forall_mem_append, ← ih hfew, List.forall_mem_singleton,
        Touch.Drops]
      by_cases hj : i = j
      · subst hj
        -- the new entry carries the stamp of the slot, which the stale one does not
        have hne : (⟨stamp, v⟩ : Entry α) ≠ e := by
          rintro rfl
          exact hlater hrun.steps hfew hstamp'
        simp [hne]
      · simp [hj, Ne.symm hj]
  | @remove w p t t' touches r j previous hrun hp hrequire hremove ih =>
      obtain ⟨_, t₁, heq, -, hremoved, hothers⟩ := (hw₀.steps hrun.steps).remove_entries hp
        (hrun.dated hw₀ hp₀ hpool hd).1 hrequire
      cases heq.symm.trans hremove
      have hkept : t'.entryAt? i = some e ↔ t.entryAt? i = some e := by
        by_cases hj : i = j
        · subst hj
          rw [hremoved, and_iff_left (hstale' hrun.steps hfew hp)]
        · rw [hothers i hj]
      rw [hkept, ih hfew, List.forall_mem_append, List.forall_mem_singleton, Touch.Drops]
      simp
  | prune hrun hp hprune ih =>
      obtain ⟨t₁, heq, -, hentries⟩ := (hw₀.steps hrun.steps).prune_entries hp
        (hrun.dated hw₀ hp₀ hpool hd).1
      cases heq.symm.trans hprune
      rw [hentries, List.forall_mem_append, List.forall_mem_singleton, Touch.Drops]
      simp [hstale' hrun.steps hfew hp]
  | clear hrun ih =>
      rw [List.forall_mem_append, List.forall_mem_singleton, Touch.Drops]
      simp [SideTable.clear, entryAt?]

/-- **A value outlives its record until its slot is set or the table is pruned.**
In every run, setting through a reference that the pool accepts leaves the stamp
of the record that is there now in the slot, and pruning leaves no stale entry and
takes no other.  Removing drops the entry of the slot only if it is not stale: a
stale entry stays through any run of pool and table operations, as long as no
counter wraps around, until a value is set in its slot or the table is pruned or
cleared. -/
theorem leftovers_kept_until_set_or_pruned (hmade : Steps empty w₀)
    (hp₀ : w₀.pools id = some p₀) (hrun : TableRun id w₀ (.empty p₀) w t touches)
    (hp : w.pools id = some p) :
    (∀ r i, p.require r = .ok i →
        (∀ v, ∃ previous t' stamp, t.set p r v = .ok (previous, t') ∧
          p.stamp? i = .ok (some stamp) ∧ t'.entryAt? i = some ⟨stamp, v⟩ ∧
          ∀ j ≠ i, t'.entryAt? j = t.entryAt? j) ∧
        ∃ previous t', t.remove p r = .ok (previous, t') ∧
          (∀ e, t'.entryAt? i = some e ↔ t.entryAt? i = some e ∧ Stale p i e) ∧
          ∀ j ≠ i, t'.entryAt? j = t.entryAt? j) ∧
      (∃ t', t.prune p = .ok t' ∧
        ∀ i e, t'.entryAt? i = some e ↔ t.entryAt? i = some e ∧ ¬ Stale p i e) ∧
      ∀ i e, t.entryAt? i = some e → Stale p i e →
        ∀ later w' t', TableRun id w t w' t' later → (w'.histories id).Few →
          (∀ p', w'.pools id = some p' → Stale p' i e) ∧
            (t'.entryAt? i = some e ↔ ∀ touch ∈ later, ¬ touch.Drops i) := by
  have hw₀ : w₀.Sound := sound_empty.steps hmade
  have hnone : (SideTable.empty p₀ : SideTable α).Dated (w₀.histories id) := by
    rintro i e ⟨⟩
  obtain ⟨hpool, hd⟩ := hrun.dated hw₀ hp₀ (hw₀.id id p₀ hp₀) hnone
  have hw := hw₀.steps hrun.steps
  refine ⟨fun r i hrequire => ⟨fun v => ?_, ?_⟩, ?_, ?_⟩
  · obtain ⟨previous, t', stamp, hset, -, hstamp, rfl⟩ := hw.set_entries hp hpool hrequire v
    refine ⟨previous, _, stamp, hset, ?_, ?_, fun j hj => ?_⟩
    · rw [(hw.recorded id p hp).stamp?_eq, hstamp]
    · rw [entryAt?_store, if_pos rfl]
    · rw [entryAt?_store, if_neg hj]
  · obtain ⟨previous, t', hremove, -, hentries⟩ := hw.remove_entries hp hpool hrequire
    exact ⟨previous, t', hremove, hentries⟩
  · obtain ⟨t', hprune, -, hentries⟩ := hw.prune_entries hp hpool
    exact ⟨t', hprune, hentries⟩
  · intro i e hentry hstale later w' t' hlater hfew
    exact hlater.kept_iff hw hp hpool hd hentry hstale hfew

/-- A record was given the value 7 before it was taken back and its slot was used
again. -/
theorem tableRun_reused :
    TableRun 0 aliased (.empty (Pool.counterPool 1 [] #[true] #[0] 0)) reused
      (⟨0, [some ⟨⟨0, 0⟩, 7⟩]⟩ : SideTable Nat) [.set 0] := by
  have hset : (SideTable.empty (Pool.counterPool 1 [] #[true] #[0] 0)).set
      (Pool.counterPool 1 [] #[true] #[0] 0) ⟨0, some ⟨0, 0, 0⟩⟩ 7 =
      .ok (none, ⟨0, [some ⟨⟨0, 0⟩, 7⟩]⟩) := rfl
  have hrequire : (Pool.counterPool 1 [] #[true] #[0] 0).require ⟨0, some ⟨0, 0, 0⟩⟩ = .ok 0 := rfl
  exact ((TableRun.start.set 7 (show aliased.pools 0 = some _ from rfl) hrequire hset).step
    step_vacated).step step_reused

/-- After the reuse of its slot the value 7 is still there when the value of the
new record is removed, and gone when the table is pruned. -/
theorem leftover_removed_then_pruned : ∃ removed pruned : SideTable Nat,
    TableRun 0 reused ⟨0, [some ⟨⟨0, 0⟩, 7⟩]⟩ reused removed [.remove 0] ∧
      removed.entryAt? 0 = some ⟨⟨0, 0⟩, 7⟩ ∧
      TableRun 0 reused ⟨0, [some ⟨⟨0, 0⟩, 7⟩]⟩ reused pruned [.remove 0, .prune] ∧
      pruned.entryAt? 0 ≠ some ⟨⟨0, 0⟩, 7⟩ := by
  have hpool : reused.pools 0 = some (Pool.counterPool 1 [] #[true] #[1] 0) := rfl
  have hrequire : (Pool.counterPool 1 [] #[true] #[1] 0).require ⟨0, some ⟨0, 1, 0⟩⟩ = .ok 0 := rfl
  have hstale : Stale (Pool.counterPool 1 [] #[true] #[1] 0) 0 (⟨⟨0, 0⟩, 7⟩ : Entry Nat) := by
    rintro ⟨⟩
  have hfew : (reused.histories 0).Few := History.few_of_length_lt (show 3 < 2 ^ 32 by decide)
  obtain ⟨htouch, ⟨pruned, hprune, -⟩, hkept⟩ := leftovers_kept_until_set_or_pruned
    steps_aliased (show aliased.pools 0 = some _ from rfl) tableRun_reused hpool
  obtain ⟨-, previous, removed, hremove, -⟩ := htouch _ 0 hrequire
  have hremoved := TableRun.start.remove hpool hrequire hremove
  have hentry := (hkept 0 _ rfl hstale _ _ _ hremoved hfew).2.mpr (by simp [Touch.Drops])
  obtain ⟨-, ⟨pruned, hprune, -⟩, -⟩ := leftovers_kept_until_set_or_pruned steps_aliased
    (show aliased.pools 0 = some _ from rfl) (tableRun_reused.remove hpool hrequire hremove) hpool
  have hpruned := hremoved.prune hpool hprune
  refine ⟨removed, pruned, hremoved, hentry, hpruned, fun heq => ?_⟩
  have hdropped := (hkept 0 _ rfl hstale _ _ _ hpruned hfew).2.mp heq .prune (by simp)
  exact hdropped trivial

/-- **A stale value outlives the next removal in its slot.**  A record is given the
value 7 and taken back, and another one is created in its slot.  Removing the value
of the new record finds none, and the value 7 of the former record stays in the
table, although the slot was just touched through a valid reference. -/
theorem leftover_kept_by_removing : ∃ (p : Pool UInt8) (t t' : SideTable Nat) (r : Reference),
    Steps empty aliased ∧
      TableRun 0 aliased (.empty (Pool.counterPool 1 [] #[true] #[0] 0)) reused t [.set 0] ∧
      reused.pools 0 = some p ∧ p.check r = pure () ∧ p.require r = .ok 0 ∧
      t.remove p r = .ok (none, t') ∧
      p.stamp? 0 = .ok (some ⟨1, 0⟩) ∧ t'.entryAt? 0 = some ⟨⟨0, 0⟩, 7⟩ :=
  ⟨Pool.counterPool 1 [] #[true] #[1] 0, _, _, ⟨0, some ⟨0, 1, 0⟩⟩, steps_aliased, tableRun_reused,
    rfl, rfl, rfl, rfl, rfl, rfl⟩

end World

end RecordPool
