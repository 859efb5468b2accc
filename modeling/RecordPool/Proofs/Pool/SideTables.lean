/-
# Side tables as maps from records

Beside a side table stands a map from records, named by their creations, to
values.  Entries become stale without the table being told: an entry counts as
long as the stamp of its slot is the one that it carries, and while no counter
of the pool wraps around that is exactly as long as its record is in use.  So
the table answers as the map does that forgets every record which is taken back
or dropped.
-/
import RecordPool.Pool.SideTable
import RecordPool.Proofs.Pool.Staleness

namespace RecordPool

variable {α β F : Type} [Memory β F]

/-! ## Stamps of records in use -/

/-- The part of a target that a stamp keeps. -/
def Target.stamp (target : Target) : Stamp :=
  ⟨target.generation, target.epoch⟩

namespace History

/-- The stamp of the record in use in a slot, if there is one. -/
def stamp? (h : History) (i : Nat) : Option Stamp :=
  (h.occupant? i).map fun _ => (h.target i).stamp

/-- What is left of a map when the records that are not in use are forgotten. -/
def surviving (h : History) (m : Nat → Option α) : Nat → Option α :=
  fun n => (h.slot? n).bind fun _ => m n

variable {h later : History} {m : Nat → Option α} {n i j : Nat} {v : α}

/-- What is left of a map are the values of records in use. -/
theorem surviving_eq_some_iff :
    h.surviving m n = some v ↔ (∃ i, h.InUse n i) ∧ m n = some v := by
  simp only [surviving, Option.bind_eq_some_iff, slot?_eq_some_iff, exists_and_right]

/-- A slot that holds a record has its stamp. -/
theorem InUse.stamp?_eq (hn : h.InUse n i) : h.stamp? i = some (h.target i).stamp := by
  obtain ⟨m, hm⟩ := exists_occupant? hn
  rw [stamp?, hm, Option.map_some]

/-- A slot with a stamp holds a record. -/
theorem inUse_of_stamp? {s : Stamp} (hs : h.stamp? i = some s) :
    ∃ n, h.InUse n i ∧ s = (h.target i).stamp := by
  obtain ⟨n, hn, rfl⟩ := Option.map_eq_some_iff.mp hs
  exact ⟨n, inUse_of_occupant? hn, rfl⟩

/-- The counters had not wrapped around before. -/
theorem Few.of_append (hfew : Few (h ++ later)) : h.Few := by
  have hcount : ∀ e, h.count e ≤ (h ++ later).count e := by
    intro e
    rw [List.count_append]
    omega
  exact ⟨fun i => lt_of_le_of_lt (hcount _) (hfew.1 i), lt_of_le_of_lt (hcount _) hfew.2⟩

end History

/-- The pool stamps its slots as its history does. -/
theorem Pool.Recorded.stamp?_eq {p : Pool β} {h : History} (hrec : p.Recorded h) (i : Nat) :
    p.stamp? i = .ok (h.stamp? i) := by
  rw [Pool.stamp?]
  by_cases hi : p.IsLive i
  · obtain ⟨n, hn⟩ := (hrec.live_iff i).mp hi
    have hlt : i < p.generations.size :=
      lt_of_lt_of_le (hrec.sound.lt_allocated hi) hrec.sound.allocated_le_generations
    have hget : p.generations[i]? = some (p.generations.getD i 0) := by
      simp [hlt]
    have htarget := hrec.referenceTo i
    simp only [Pool.referenceTo, Reference.mk.injEq, Option.some.injEq, true_and] at htarget
    rw [hrec.sound.isLive_eq_true_iff.mpr hi, ok_bind, if_pos rfl, fetch_eq_ok hget, ok_bind,
      hn.stamp?_eq, ← htarget]
    rfl
  · have hnone : h.stamp? i = none := by
      rw [Option.eq_none_iff_forall_ne_some]
      intro s hs
      obtain ⟨n, hn, -⟩ := History.inUse_of_stamp? hs
      exact hi ((hrec.live_iff i).mpr ⟨n, hn⟩)
    rw [hrec.sound.isLive_eq_false hi, ok_bind, hnone]
    rfl

namespace SideTable

/-! ## Entries by slot -/

variable {t t' : SideTable α} {p : Pool β} {h later : History} {m : Nat → Option α}
  {n i j : Nat} {v : α} {e : Entry α} {r : Reference}

/-- An entry counts when it carries the given stamp. -/
theorem valueFor?_eq_some_iff {stamp : Option Stamp} {entry : Option (Entry α)} :
    valueFor? stamp entry = some v ↔
      ∃ e, entry = some e ∧ some e.stamp = stamp ∧ e.value = v := by
  cases entry with
  | none => simp [valueFor?]
  | some e => simp [valueFor?]

/-- Storing an entry replaces the one in its slot. -/
theorem entryAt?_store : (t.store i e).entryAt? j = if j = i then some e else t.entryAt? j := by
  unfold entryAt? store
  dsimp only
  rw [List.getElem?_set]
  by_cases hij : j = i
  · subst hij
    have hlt : j < (t.entries ++ List.replicate (j + 1 - t.entries.length) none).length := by
      rw [List.length_append, List.length_replicate]
      omega
    rw [if_pos rfl, if_pos hlt, if_pos rfl]
    rfl
  · rw [if_neg (Ne.symm hij), if_neg hij]
    rcases Nat.lt_or_ge j t.entries.length with hlt | hge
    · rw [List.getElem?_append_left hlt]
    · -- an empty slot was added, or none
      rw [List.getElem?_append_right hge, List.getElem?_eq_none hge, List.getElem?_replicate]
      split <;> rfl

/-- Emptying a slot leaves the others as they are. -/
theorem entryAt?_set_none :
    entryAt? { t with entries := t.entries.set i none } j = if j = i then none else t.entryAt? j := by
  unfold entryAt?
  dsimp only
  rw [List.getElem?_set]
  by_cases hij : j = i
  · subst hij
    rw [if_pos rfl, if_pos rfl]
    split <;> rfl
  · rw [if_neg (Ne.symm hij), if_neg hij]

/-- The entries that carry the stamps of their slots after the events `h`. -/
def fresh (t : SideTable α) (h : History) : List (Option (Entry α)) :=
  t.entries.zipIdx.map fun (entry, i) => entry.filter fun e => some e.stamp = h.stamp? i

/-- The program keeps the entries that carry the stamps of their slots. -/
theorem current_eq (hrec : p.Recorded h) : t.current p = .ok (t.fresh h) := by
  rw [current, fresh]
  apply mapM_eq_ok
  rintro ⟨entry, i⟩ -
  cases entry with
  | none => rfl
  | some e =>
    dsimp only
    rw [hrec.stamp?_eq, ok_bind, Option.filter_some]
    split <;> simp_all <;> rfl

/-- Of the entry in each slot what is left counts as before. -/
theorem getElem?_fresh :
    (t.fresh h)[i]?.join = (t.entryAt? i).filter fun e => some e.stamp = h.stamp? i := by
  unfold fresh entryAt?
  rw [List.getElem?_map, List.getElem?_zipIdx]
  cases t.entries[i]? with
  | none => rfl
  | some entry => simp

/-! ## Tables that mirror a map -/

/-- The table holds the values of the map, and what it holds besides was set for
records that are no longer in use. -/
structure Mirrors (t : SideTable α) (h : History) (m : Nat → Option α) : Prop where
  /-- Every value of the map is that of a record in use and stands in its slot. -/
  stored : ∀ n v, m n = some v →
    ∃ i, h.InUse n i ∧ t.entryAt? i = some ⟨(h.target i).stamp, v⟩
  /-- Every entry was set for a record, whose value it has as long as the record
  is in use. -/
  known : ∀ i e, t.entryAt? i = some e →
    ∃ n, h[n]? = some (.created i) ∧ e.stamp = ((h.before n).target i).stamp ∧
      (h.InUse n i → m n = some e.value)

/-- A table without entries has no values. -/
theorem mirrors_nil (id : PoolId) (h : History) :
    Mirrors ⟨id, []⟩ h fun _ => (none : Option α) where
  stored := by
    rintro n v ⟨⟩
  known := by
    rintro i e ⟨⟩

/-- **What a table answers** for a record in use is its value in the map, as long
as no counter wraps around. -/
theorem Mirrors.valueFor?_eq (hm : t.Mirrors h m) (hrec : p.Recorded h) (hfew : h.Few)
    (hn : h.InUse n i) : valueFor? (h.stamp? i) (t.entryAt? i) = m n := by
  apply Option.ext
  intro v
  rw [valueFor?_eq_some_iff, hn.stamp?_eq]
  constructor
  · rintro ⟨e, he, hstamp, rfl⟩
    obtain ⟨n', hcreated, htaken, hvalue⟩ := hm.known i e he
    -- the entry was set for the record that is in use, since the stamps are the same
    have htarget : h.target i = (h.before n').target i := by
      have heq := (Option.some.inj hstamp).symm.trans htaken
      simpa [Target.stamp, History.target] using heq
    have hn' : h.InUse n' i := History.inUse_of_target_eq hfew hcreated htarget
    rw [hrec.unique n n' i hn hn']
    exact hvalue hn'
  · intro hv
    obtain ⟨i', hn', he⟩ := hm.stored n v hv
    obtain rfl := hn.slot_unique hn'
    exact ⟨_, he, rfl, rfl⟩

/-- When more happens to the pool the table stays a mirror of what is left of
the map. -/
theorem Mirrors.append (hm : t.Mirrors h m) (later : History) :
    t.Mirrors (h ++ later) (History.surviving (h ++ later) m) := by
  constructor
  · intro n v hv
    obtain ⟨⟨i, hn⟩, hv⟩ := History.surviving_eq_some_iff.mp hv
    obtain ⟨i', hn', he⟩ := hm.stored n v hv
    have hlt := hn'.lt_length
    obtain ⟨hbefore, -⟩ := (History.inUse_append hlt).mp hn
    obtain rfl := hbefore.slot_unique hn'
    refine ⟨i, hn, ?_⟩
    rw [he, hn.target_eq, hbefore.target_eq, History.before_append (Nat.le_of_lt hlt)]
  · intro i e he
    obtain ⟨n, hcreated, hstamp, hvalue⟩ := hm.known i e he
    have hlt : n < h.length := (List.getElem?_eq_some_iff.mp hcreated).1
    refine ⟨n, ?_, ?_, ?_⟩
    · rw [List.getElem?_append_left hlt]
      exact hcreated
    · rw [History.before_append (Nat.le_of_lt hlt)]
      exact hstamp
    · intro hn
      rw [History.surviving_eq_some_iff]
      exact ⟨⟨i, hn⟩, hvalue ((History.inUse_append hlt).mp hn).1⟩

/-- Writing the slot of a record in use writes its value in the map. -/
theorem Mirrors.write (hm : t.Mirrors h m) (hrec : p.Recorded h) (hn : h.InUse n i)
    {value : Option α} (hwrite : ∀ j, t'.entryAt? j =
      if j = i then value.map (Entry.mk (h.target i).stamp) else t.entryAt? j) :
    t'.Mirrors h (Function.update m n value) := by
  constructor
  · intro n' v' hv
    by_cases heq : n' = n
    · subst heq
      rw [Function.update_self] at hv
      exact ⟨i, hn, by rw [hwrite, if_pos rfl, hv, Option.map_some]⟩
    · rw [Function.update_of_ne heq] at hv
      obtain ⟨i', hn', he⟩ := hm.stored n' v' hv
      -- no other record is in use in the slot
      have hne : i' ≠ i := fun hi => heq (hrec.unique n' n i (hi ▸ hn') hn)
      exact ⟨i', hn', by rw [hwrite, if_neg hne, he]⟩
  · intro i' e he
    rw [hwrite] at he
    split at he
    · rename_i hi
      subst hi
      obtain ⟨v, rfl, rfl⟩ := Option.map_eq_some_iff.mp he
      refine ⟨n, hn.1, congrArg Target.stamp hn.target_eq, fun _ => ?_⟩
      rw [Function.update_self]
    · rename_i hne
      obtain ⟨n', hcreated, hstamp, hvalue⟩ := hm.known i' e he
      refine ⟨n', hcreated, hstamp, fun hn' => ?_⟩
      rw [Function.update_of_ne, hvalue hn']
      rintro rfl
      exact hne (hn'.slot_unique hn)

/-- Dropping the stale entries changes nothing. -/
theorem Mirrors.fresh (hm : t.Mirrors h m) :
    Mirrors { t with entries := t.fresh h } h m := by
  have hentry : ∀ i, entryAt? { t with entries := t.fresh h } i =
      (t.entryAt? i).filter fun e => some e.stamp = h.stamp? i := fun i => getElem?_fresh
  constructor
  · intro n v hv
    obtain ⟨i, hn, he⟩ := hm.stored n v hv
    refine ⟨i, hn, ?_⟩
    rw [hentry, he, hn.stamp?_eq]
    simp
  · intro i e he
    rw [hentry] at he
    exact hm.known i e (Option.eq_some_of_filter_eq_some he)

/-! ## Operations -/

/-- The slot of a record in use and its stamp. -/
theorem slot_eq (hpool : t.pool = p.id) (hrec : p.Recorded h) (hi : p.IsLive i) :
    t.slot p (p.referenceTo i) = .ok (i, h.stamp? i) := by
  rw [slot, hpool, beq_self_eq_true, demand_true, ok_bind, hrec.sound.require_referenceTo hi,
    ok_bind, hrec.stamp?_eq, ok_bind]
  rfl

section Entries

variable (hpool : t.pool = p.id) (hrec : p.Recorded h) (hi : p.IsLive i)
include hpool hrec hi

/-- Setting a value stores it with the stamp of the slot. -/
theorem set_eq_store {stamp : Stamp} (hstamp : h.stamp? i = some stamp) (v : α) :
    t.set p (p.referenceTo i) v =
      .ok (valueFor? (some stamp) (t.entryAt? i), t.store i ⟨stamp, v⟩) := by
  rw [set, slot_eq hpool hrec hi, ok_bind, hstamp]
  rfl

/-- Removing a value empties the slot if its entry carries the stamp of the slot,
and leaves a stale entry there. -/
theorem remove_eq_filter : ∃ t', t.remove p (p.referenceTo i) =
      .ok (valueFor? (h.stamp? i) (t.entryAt? i), t') ∧ t'.pool = t.pool ∧
    ∀ j, t'.entryAt? j =
      if j = i then (t.entryAt? i).filter fun e => some e.stamp ≠ h.stamp? i
      else t.entryAt? j := by
  rw [remove, slot_eq hpool hrec hi, ok_bind]
  dsimp only
  cases hvalue : valueFor? (h.stamp? i) (t.entryAt? i) with
  | some v =>
    obtain ⟨e, he, hstamp, -⟩ := valueFor?_eq_some_iff.mp hvalue
    have hdropped : (some e).filter (fun e => some e.stamp ≠ h.stamp? i) = none := by
      simp [hstamp]
    exact ⟨_, rfl, rfl, fun j => by rw [entryAt?_set_none, he, hdropped]⟩
  | none =>
    refine ⟨t, rfl, rfl, fun j => ?_⟩
    by_cases hj : j = i
    · subst hj
      rw [if_pos rfl]
      cases he : t.entryAt? j with
      | none => rfl
      | some e =>
        -- without a value the entry, if there is one, is stale
        have hstale : some e.stamp ≠ h.stamp? j := fun heq => by
          simp [valueFor?, he, heq] at hvalue
        rw [Option.filter_some, if_pos (by simpa using hstale)]
    · rw [if_neg hj]

omit hpool hi in
/-- Pruning keeps the entries that carry the stamps of their slots. -/
theorem prune_eq_fresh : t.prune p = .ok { t with entries := t.fresh h } := by
  rw [prune, current_eq hrec, ok_bind]
  rfl

end Entries

section Answers

variable (hm : t.Mirrors h m) (hpool : t.pool = p.id) (hrec : p.Recorded h) (hfew : h.Few)
  (hn : h.InUse n i)

include hm hpool hrec hfew hn

/-- Looking a record up gives its value. -/
theorem Mirrors.get_eq : t.get p (p.referenceTo i) = .ok (m n) := by
  have hi : p.IsLive i := (hrec.live_iff i).mpr ⟨n, hn⟩
  rw [get, slot_eq hpool hrec hi, ok_bind]
  dsimp only
  rw [hm.valueFor?_eq hrec hfew hn]
  rfl

/-- Setting a value gives the one before and sets it in the map. -/
theorem Mirrors.set_eq (v : α) : ∃ t', t.set p (p.referenceTo i) v = .ok (m n, t') ∧
    t'.pool = p.id ∧ t'.Mirrors h (Function.update m n (some v)) := by
  have hi : p.IsLive i := (hrec.live_iff i).mpr ⟨n, hn⟩
  refine ⟨t.store i ⟨(h.target i).stamp, v⟩, ?_, hpool,
    hm.write hrec hn fun j => entryAt?_store⟩
  rw [set_eq_store hpool hrec hi hn.stamp?_eq, ← hm.valueFor?_eq hrec hfew hn, hn.stamp?_eq]

/-- Removing a value gives it and forgets it in the map. -/
theorem Mirrors.remove_eq : ∃ t', t.remove p (p.referenceTo i) = .ok (m n, t') ∧
    t'.pool = p.id ∧ t'.Mirrors h (Function.update m n none) := by
  have hi : p.IsLive i := (hrec.live_iff i).mpr ⟨n, hn⟩
  have hvalue := hm.valueFor?_eq hrec hfew hn
  rw [remove, slot_eq hpool hrec hi, ok_bind]
  dsimp only
  rw [hvalue]
  cases hmn : m n with
  | none =>
    refine ⟨t, rfl, hpool, ?_⟩
    rw [← hmn, Function.update_eq_self]
    exact hm
  | some v => exact ⟨_, rfl, hpool, hm.write hrec hn fun j => entryAt?_set_none⟩

end Answers

/-- The number of values in a list of slots. -/
theorem countP_isSome {γ : Type} (xs : List (Option γ)) :
    xs.countP (·.isSome) =
      ((Finset.range xs.length).filter fun i => (xs[i]?.join).isSome).card := by
  have hmap : (List.range xs.length).map (fun i => xs[i]?.join) = xs := by
    apply List.ext_getElem
    · simp
    · intro i hi hi'
      simp [List.getElem?_eq_getElem hi']
  have hcard : ((Finset.range xs.length).filter fun i => (xs[i]?.join).isSome).card =
      ((List.range xs.length).filter fun i => decide ((xs[i]?.join).isSome = true)).length := rfl
  conv_lhs => rw [← hmap, List.countP_map, List.countP_eq_length_filter]
  rw [hcard]
  simp [Function.comp_def]

/-- What is left of an entry is its value, if it counts. -/
theorem isSome_getElem?_fresh :
    ((t.fresh h)[i]?.join).isSome = (valueFor? (h.stamp? i) (t.entryAt? i)).isSome := by
  rw [getElem?_fresh]
  cases t.entryAt? i with
  | none => rfl
  | some e =>
    simp only [valueFor?, Option.filter_some, decide_eq_true_eq]
    split <;> rfl

/-- **The size of a table** is the number of records that have a value. -/
theorem Mirrors.size_eq (hm : t.Mirrors h m) (hrec : p.Recorded h) (hfew : h.Few) :
    ∃ keys : Finset Nat, (∀ n, n ∈ keys ↔ (m n).isSome) ∧ t.size p = .ok keys.card := by
  -- the slots whose entry counts, each with one record in use
  set slots := (Finset.range (t.fresh h).length).filter fun i =>
    (((t.fresh h)[i]?).join).isSome with hslots
  have hmem : ∀ i, i ∈ slots ↔ ∃ n, h.InUse n i ∧ (m n).isSome := by
    intro i
    rw [hslots, Finset.mem_filter, Finset.mem_range]
    constructor
    · rintro ⟨-, hentry⟩
      rw [isSome_getElem?_fresh] at hentry
      obtain ⟨v, hv⟩ := Option.isSome_iff_exists.mp hentry
      obtain ⟨e, -, hstamp, -⟩ := valueFor?_eq_some_iff.mp hv
      obtain ⟨n, hn, -⟩ := History.inUse_of_stamp? hstamp.symm
      refine ⟨n, hn, ?_⟩
      rw [← hm.valueFor?_eq hrec hfew hn]
      exact hentry
    · rintro ⟨n, hn, hvalue⟩
      rw [← hm.valueFor?_eq hrec hfew hn, ← isSome_getElem?_fresh] at hvalue
      refine ⟨?_, hvalue⟩
      by_contra hlt
      rw [List.getElem?_eq_none (by omega)] at hvalue
      cases hvalue
  have hoccupant : ∀ i n, h.InUse n i → h.occupant? i = some n := by
    intro i n hn
    obtain ⟨n', hn'⟩ := History.exists_occupant? hn
    rw [hn', hrec.unique n' n i (History.inUse_of_occupant? hn') hn]
  have hinj : Set.InjOn (fun i => (h.occupant? i).getD 0) slots := by
    intro i hi j hj heq
    obtain ⟨n, hn, -⟩ := (hmem i).mp hi
    obtain ⟨n', hn', -⟩ := (hmem j).mp hj
    simp only [hoccupant i n hn, hoccupant j n' hn', Option.getD_some] at heq
    subst heq
    exact hn.slot_unique hn'
  refine ⟨slots.image fun i => (h.occupant? i).getD 0, ?_, ?_⟩
  · intro n
    rw [Finset.mem_image]
    constructor
    · rintro ⟨i, hi, rfl⟩
      obtain ⟨n, hn, hvalue⟩ := (hmem i).mp hi
      rw [hoccupant i n hn, Option.getD_some]
      exact hvalue
    · intro hvalue
      obtain ⟨v, hv⟩ := Option.isSome_iff_exists.mp hvalue
      obtain ⟨i, hn, -⟩ := hm.stored n v hv
      exact ⟨i, (hmem i).mpr ⟨n, hn, hvalue⟩, by rw [hoccupant i n hn, Option.getD_some]⟩
  · rw [Finset.card_image_of_injOn hinj, size, current_eq hrec, ok_bind, countP_isSome]
    rfl

/-- Pruning succeeds and keeps the mirrored map. -/
theorem Mirrors.prune_eq (hm : t.Mirrors h m) (hpool : t.pool = p.id) (hrec : p.Recorded h) :
    ∃ t', t.prune p = .ok t' ∧ t'.pool = p.id ∧ t'.Mirrors h m := by
  exact ⟨⟨t.pool, t.fresh h⟩, prune_eq_fresh hrec, hpool, hm.fresh⟩

end SideTable

/-! ## Tables beside their pools -/

namespace World

variable {w w' : World β} {id : PoolId} {p : Pool β} {t t' : SideTable α}
  {m : Nat → Option α} {x : Tracked}

/-- A run of pools and references, with a side table for the records of the
pool `id` and the map from records, named by their creations, to values that
stands beside it. -/
inductive WithTable (id : PoolId) : World β → SideTable α → (Nat → Option α) → Prop where
  | make {w : World β} {p : Pool β} :
      Steps empty w → w.pools id = some p → WithTable id w (.empty p) fun _ => none
  | step {w w' : World β} {t : SideTable α} {m : Nat → Option α} :
      WithTable id w t m → Step w w' →
      WithTable id w' t (History.surviving (w'.histories id) m)
  | set {w : World β} {p : Pool β} {t t' : SideTable α} {m : Nat → Option α} {x : Tracked}
      {n : Nat} {previous : Option α} (v : α) : WithTable id w t m → w.pools id = some p →
      x ∈ w.references → x.record = some n → p.check x.reference = pure () →
      t.set p x.reference v = .ok (previous, t') →
      WithTable id w t' (Function.update m n (some v))
  | remove {w : World β} {p : Pool β} {t t' : SideTable α} {m : Nat → Option α} {x : Tracked}
      {n : Nat} {previous : Option α} : WithTable id w t m → w.pools id = some p →
      x ∈ w.references → x.record = some n → p.check x.reference = pure () →
      t.remove p x.reference = .ok (previous, t') →
      WithTable id w t' (Function.update m n none)
  | prune {w : World β} {p : Pool β} {t t' : SideTable α} {m : Nat → Option α} :
      WithTable id w t m → w.pools id = some p → t.prune p = .ok t' → WithTable id w t' m
  | clear {w : World β} {t : SideTable α} {m : Nat → Option α} :
      WithTable id w t m → WithTable id w t.clear fun _ => none

/-- A reference that the pool accepts is the one to the record that it was last
pointed at, as long as no counter wraps around. -/
theorem Sound.record_of_check (hw : w.Sound) (hfew : (w.histories id).Few)
    (hp : w.pools id = some p) (hx : x ∈ w.references) (hcheck : p.check x.reference = pure ()) :
    ∃ n i, x.record = some n ∧ (w.histories id).InUse n i ∧ x.reference = p.referenceTo i := by
  have hrec := hw.recorded id p hp
  obtain ⟨i, hi, href⟩ := hrec.sound.check_eq_pure_iff.mp hcheck
  have hown : x.reference.pool = p.id := by
    rw [href]
    rfl
  have hfollows := hw.follows x hx
  rw [hown.trans (hw.id id p hp)] at hfollows
  obtain ⟨n, j, hrecord, hn⟩ := (hfollows.valid_iff hrec hfew hown).mp ⟨i, hi, href⟩
  -- the reference remembers the slot of the record that it follows
  have hji : j = i := by
    obtain ⟨reference, record⟩ := x
    obtain rfl : record = some n := hrecord
    obtain ⟨j', hcreated, htarget⟩ := hfollows
    obtain rfl : j' = j := by
      have heq : some (Event.created j') = some (.created j) := hcreated.symm.trans hn.1
      simpa using heq
    have hindex := congrArg (Option.map Target.index) htarget
    rw [show reference = p.referenceTo i from href] at hindex
    simpa [Pool.referenceTo, History.target] using hindex.symm
  subst hji
  exact ⟨n, j, hrecord, hn, href⟩

/-- The world of a run with a table is one that is run, and its pool is there. -/
theorem WithTable.reached (h : WithTable id w t m) :
    Steps empty w ∧ ∃ p, w.pools id = some p := by
  induction h with
  | make hsteps hp => exact ⟨hsteps, _, hp⟩
  | step _ hstep ih =>
      obtain ⟨hsteps, p, hp⟩ := ih
      obtain ⟨p', -, hp', -⟩ := hstep.exists_later hp
      exact ⟨hsteps.tail hstep, p', hp'⟩
  | set _ _ _ _ _ _ _ ih => exact ih
  | remove _ _ _ _ _ _ ih => exact ih
  | prune _ _ _ ih => exact ih
  | clear _ ih => exact ih

/-- **In every run** the table mirrors the map. -/
theorem WithTable.mirrors (h : WithTable id w t m) (hfew : (w.histories id).Few) :
    t.pool = id ∧ t.Mirrors (w.histories id) m := by
  induction h with
  | @make w p hsteps hp =>
      have hw : w.Sound := sound_empty.steps hsteps
      exact ⟨hw.id id p hp, SideTable.mirrors_nil _ _⟩
  | @step w w' t m h hstep ih =>
      obtain ⟨-, p, hp⟩ := h.reached
      obtain ⟨p', later, -, hlater⟩ := hstep.exists_later hp
      rw [hlater] at hfew ⊢
      obtain ⟨hpool, hm⟩ := ih hfew.of_append
      exact ⟨hpool, hm.append later⟩
  | @set w p t t' m x n previous v h hp hx hrecord hcheck hset ih =>
      obtain ⟨hpool, hm⟩ := ih hfew
      have hw : w.Sound := sound_empty.steps h.reached.1
      have hid := hw.id id p hp
      obtain ⟨n', i, hrecord', hn, href⟩ := hw.record_of_check hfew hp hx hcheck
      obtain rfl : n = n' := Option.some.inj (hrecord.symm.trans hrecord')
      obtain ⟨t₁, heq, hpool₁, hm₁⟩ :=
        hm.set_eq (hpool.trans hid.symm) (hw.recorded id p hp) hfew hn v
      rw [href, heq] at hset
      cases hset
      exact ⟨hpool₁.trans hid, hm₁⟩
  | @remove w p t t' m x n previous h hp hx hrecord hcheck hremove ih =>
      obtain ⟨hpool, hm⟩ := ih hfew
      have hw : w.Sound := sound_empty.steps h.reached.1
      have hid := hw.id id p hp
      obtain ⟨n', i, hrecord', hn, href⟩ := hw.record_of_check hfew hp hx hcheck
      obtain rfl : n = n' := Option.some.inj (hrecord.symm.trans hrecord')
      obtain ⟨t₁, heq, hpool₁, hm₁⟩ :=
        hm.remove_eq (hpool.trans hid.symm) (hw.recorded id p hp) hfew hn
      rw [href, heq] at hremove
      cases hremove
      exact ⟨hpool₁.trans hid, hm₁⟩
  | @prune w p t t' m h hp hprune ih =>
      obtain ⟨hpool, hm⟩ := ih hfew
      have hw : w.Sound := sound_empty.steps h.reached.1
      have hid := hw.id id p hp
      obtain ⟨t₁, heq, hpool₁, hm₁⟩ :=
        hm.prune_eq (hpool.trans hid.symm) (hw.recorded id p hp)
      rw [heq] at hprune
      cases hprune
      exact ⟨hpool₁.trans hid, hm₁⟩
  | @clear w t m h ih =>
      exact ⟨(ih hfew).1, SideTable.mirrors_nil _ _⟩

/-- **A side table is a map from the records in use.**  In every run in which no
counter of the pool wraps around, the values of the map are those of records in
use, and through every reference that the pool accepts, the table answers for the
record that the reference was last pointed at: looking up, setting and removing
tell its value in the map, and nothing else.  The size is the number of records
that have a value, and pruning always succeeds. -/
theorem table_answers_as_map (h : WithTable id w t m) (hfew : (w.histories id).Few)
    (hp : w.pools id = some p) :
    (∀ n, (m n).isSome → ∃ i, (w.histories id).InUse n i) ∧
      (∀ x ∈ w.references, p.check x.reference = pure () → ∃ n, x.record = some n ∧
        t.get p x.reference = .ok (m n) ∧
        (∀ default, t.getD p x.reference default = .ok ((m n).getD default)) ∧
        t.isSet p x.reference = .ok (m n).isSome ∧
        (∀ v, ∃ t', t.set p x.reference v = .ok (m n, t')) ∧
        ∃ t', t.remove p x.reference = .ok (m n, t')) ∧
      (∃ keys : Finset Nat, (∀ n, n ∈ keys ↔ (m n).isSome) ∧ t.size p = .ok keys.card ∧
        t.isEmpty p = .ok (decide (keys = ∅))) ∧
      ∃ t', t.prune p = .ok t' := by
  obtain ⟨hpool, hm⟩ := h.mirrors hfew
  have hw : w.Sound := sound_empty.steps h.reached.1
  have hrec := hw.recorded id p hp
  have hown : t.pool = p.id := hpool.trans (hw.id id p hp).symm
  refine ⟨?_, ?_, ?_, ?_⟩
  · intro n hvalue
    obtain ⟨v, hv⟩ := Option.isSome_iff_exists.mp hvalue
    obtain ⟨i, hn, -⟩ := hm.stored n v hv
    exact ⟨i, hn⟩
  · intro x hx hcheck
    obtain ⟨n, i, hrecord, hn, href⟩ := hw.record_of_check hfew hp hx hcheck
    have hget := hm.get_eq hown hrec hfew hn
    rw [href]
    refine ⟨n, hrecord, hget, ?_, ?_, ?_, ?_⟩
    · intro default
      rw [SideTable.getD, hget]
      rfl
    · rw [SideTable.isSet, hget]
      rfl
    · intro v
      obtain ⟨t', hset, -⟩ := hm.set_eq hown hrec hfew hn v
      exact ⟨t', hset⟩
    · obtain ⟨t', hremove, -⟩ := hm.remove_eq hown hrec hfew hn
      exact ⟨t', hremove⟩
  · obtain ⟨keys, hkeys, hsize⟩ := hm.size_eq hrec hfew
    refine ⟨keys, hkeys, hsize, ?_⟩
    have hempty : (keys.card == 0) = decide (keys = ∅) := by
      rw [Bool.eq_iff_iff]
      simp
    rw [SideTable.isEmpty, hsize, ok_bind, ← hempty]
    rfl
  · obtain ⟨t', hprune, -⟩ := hm.prune_eq hown hrec
    exact ⟨t', hprune⟩

/-- A record is given the value 7 and taken back, and another one is created in
its slot: the new record has no value, though the old entry is still there. -/
theorem no_value_after_reuse : ∃ (w : World UInt8) (p : Pool UInt8) (t : SideTable Nat)
    (m : Nat → Option Nat) (x : Tracked),
    WithTable 0 w t m ∧ w.pools 0 = some p ∧ w.references = [x] ∧
      t.entries = [some ⟨⟨0, 0⟩, 7⟩] ∧ t.get p x.reference = .ok none ∧ t.size p = .ok 0 := by
  have hmake : Pool.make 0 Pool.counterLayout (.single 1) .keep =
      pure (Pool.counterPool 0 [] #[] #[] 0) := rfl
  have hfirst : (Pool.counterPool 0 [] #[] #[] 0).allocate (.unpointed 0) =
      .ok (.ok 0, Pool.counterPool 1 [] #[true] #[0] 0, ⟨0, some ⟨0, 0, 0⟩⟩) := rfl
  have hset : (SideTable.empty (Pool.counterPool 1 [] #[true] #[0] 0)).set
      (Pool.counterPool 1 [] #[true] #[0] 0) ⟨0, some ⟨0, 0, 0⟩⟩ 7 =
      .ok (none, ⟨0, [some ⟨⟨0, 0⟩, 7⟩]⟩) := rfl
  have hrequire : (Pool.counterPool 1 [] #[true] #[0] 0).require ⟨0, some ⟨0, 0, 0⟩⟩ = .ok 0 := rfl
  have hdelete : (Pool.counterPool 1 [] #[true] #[0] 0).delete ⟨0, some ⟨0, 0, 0⟩⟩ =
      .ok (Pool.counterPool 1 [0] #[false] #[1] 0) := rfl
  have hsecond : (Pool.counterPool 1 [0] #[false] #[1] 0).allocate ⟨0, some ⟨0, 0, 0⟩⟩ =
      .ok (.ok 0, Pool.counterPool 1 [] #[true] #[1] 0, ⟨0, some ⟨0, 1, 0⟩⟩) := rfl
  let w₁ : World UInt8 := empty.advance 0 (Pool.counterPool 0 [] #[] #[] 0) []
  let w₂ := w₁.issue ⟨.unpointed 0, none⟩
  let w₃ := (w₂.advance 0 (Pool.counterPool 1 [] #[true] #[0] 0) [.created 0]).point 0
    ⟨⟨0, some ⟨0, 0, 0⟩⟩, some 0⟩
  let w₄ := w₃.advance 0 (Pool.counterPool 1 [0] #[false] #[1] 0) [.deleted 0]
  let w₅ := (w₄.advance 0 (Pool.counterPool 1 [] #[true] #[1] 0) [.created 0]).point 0
    ⟨⟨0, some ⟨0, 1, 0⟩⟩, some 2⟩
  have h₁ : Step empty w₁ := .make rfl (StorePlan.inRange_single 1) hmake
  have h₂ : Step w₁ w₂ := .newReference (show w₁.pools 0 = some _ from rfl)
  have h₃ : Step w₂ w₃ :=
    .allocate (show w₂.pools 0 = some _ from rfl) (show w₂.references[0]? = some _ from rfl) hfirst
  have h₄ : Step w₃ w₄ :=
    .operate (show w₃.pools 0 = some _ from rfl) (.delete hrequire hdelete)
  have h₅ : Step w₄ w₅ :=
    .allocate (show w₄.pools 0 = some _ from rfl) (show w₄.references[0]? = some _ from rfl) hsecond
  have hcreated : Steps empty w₃ := ((Relation.ReflTransGen.single h₁).tail h₂).tail h₃
  have hpool₃ : w₃.pools 0 = some (Pool.counterPool 1 [] #[true] #[0] 0) := rfl
  have hvalued : WithTable 0 w₃ ⟨0, [some ⟨⟨0, 0⟩, 7⟩]⟩
      (Function.update (fun _ => none) 0 (some 7)) :=
    (WithTable.make hcreated hpool₃).set 7 hpool₃
      (List.mem_singleton_self (⟨⟨0, some ⟨0, 0, 0⟩⟩, some 0⟩ : Tracked)) rfl rfl hset
  have hreused := (hvalued.step h₄).step h₅
  have hpool₅ : w₅.pools 0 = some (Pool.counterPool 1 [] #[true] #[1] 0) := rfl
  have hfew : (w₅.histories 0).Few := History.few_of_length_lt (show 3 < 2 ^ 32 by decide)
  obtain ⟨hkeys, hanswers, ⟨keys, hmem, hsize, -⟩, -⟩ := table_answers_as_map hreused hfew hpool₅
  obtain ⟨n, hn, hget, -⟩ := hanswers ⟨⟨0, some ⟨0, 1, 0⟩⟩, some 2⟩ (List.mem_singleton_self _) rfl
  cases hn
  refine ⟨w₅, _, _, _, _, hreused, hpool₅, rfl, rfl, hget, ?_⟩
  have hnone : keys = ∅ := by
    rw [Finset.eq_empty_iff_forall_notMem]
    intro n hn
    have hvalue := (hmem n).mp hn
    obtain ⟨i, hi⟩ := hkeys n hvalue
    have hlt : n < 3 := hi.lt_length
    change (History.surviving [.created 0, .deleted 0, .created 0]
      (History.surviving [.created 0, .deleted 0]
        (Function.update (fun _ => none) 0 (some 7))) n).isSome = true at hvalue
    interval_cases n <;> exact absurd hvalue (by decide)
  rw [hsize, hnone]
  rfl

end World

end RecordPool
