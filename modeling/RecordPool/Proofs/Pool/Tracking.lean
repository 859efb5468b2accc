/-
# Tracked references

Beside a reference stands the record that it was last pointed at, as a creation
in the history of its pool.  As long as no counter of the pool wraps around,
the pool holds the reference for valid exactly when that record is still in
use, whatever became of its slot in between.
-/
import RecordPool.Pool.Cursor
import RecordPool.Proofs.Pool.Records

namespace RecordPool

variable {β F : Type} [Memory β F]

/-! ## Targets of records -/

namespace History

/-- The events before the event `n`. -/
def before (h : History) (n : Nat) : History :=
  h.take n

variable {h later : History} {n i : Nat}

/-- What comes later does not change what came before. -/
theorem before_append (hn : n ≤ h.length) : before (h ++ later) n = h.before n :=
  List.take_append_of_le_length hn

/-- An event stands between what came before and what came after it. -/
theorem eq_before_append {e : Event} (he : h[n]? = some e) :
    h = h.before n ++ e :: h.drop (n + 1) := by
  obtain ⟨hlt, hget⟩ := List.getElem?_eq_some_iff.mp he
  rw [before, ← hget, List.getElem_cons_drop, List.take_append_drop]

/-- While a record is in use its slot is remembered as it was at its creation. -/
theorem InUse.target_eq (hn : h.InUse n i) : h.target i = (h.before n).target i := by
  obtain ⟨hcreated, hdeleted, hcleared⟩ := hn
  have hsplit := eq_before_append hcreated
  have hcount : ∀ e ∉ h.drop (n + 1), e ≠ .created i → h.count e = (h.before n).count e := by
    intro e hmem hne
    conv_lhs => rw [hsplit]
    rw [List.count_append, List.count_cons_of_ne hne.symm, List.count_eq_zero_of_not_mem hmem,
      Nat.add_zero]
  rw [target, target, hcount _ hdeleted (by simp), hcount _ hcleared (by simp)]

/-- The counters of the history have not wrapped around. -/
def Few (h : History) : Prop :=
  (∀ i, h.count (.deleted i) < 2 ^ 32) ∧ h.count .cleared < 2 ^ 32

/-- The counters of a short history have not wrapped around. -/
theorem few_of_length_lt (hlength : h.length < 2 ^ 32) : h.Few :=
  ⟨fun _ => lt_of_le_of_lt List.count_le_length hlength,
    lt_of_le_of_lt List.count_le_length hlength⟩

/-- As long as no counter wraps around, only a record in use is remembered as
its slot is now. -/
theorem inUse_of_target_eq (hfew : h.Few) (hcreated : h[n]? = some (.created i))
    (htarget : h.target i = (h.before n).target i) : h.InUse n i := by
  have hsplit := eq_before_append hcreated
  -- equal counters below the bound are equal counts, so that nothing was counted since
  have hcount : ∀ e, h.count e < 2 ^ 32 →
      UInt32.ofNat (h.count e) = UInt32.ofNat ((h.before n).count e) → e ∉ h.drop (n + 1) := by
    intro e hbound hcounter hmem
    have hsum : h.count e = (h.before n).count e + (Event.created i :: h.drop (n + 1)).count e := by
      conv_lhs => rw [hsplit]
      rw [List.count_append]
    have hpos : 0 < (Event.created i :: h.drop (n + 1)).count e :=
      List.count_pos_iff.mpr (List.mem_cons_of_mem _ hmem)
    have hbound' : (h.before n).count e < UInt32.size := lt_of_le_of_lt (by omega) hbound
    have heq := congrArg UInt32.toNat hcounter
    rw [UInt32.toNat_ofNat_of_lt' hbound, UInt32.toNat_ofNat_of_lt' hbound'] at heq
    omega
  simp only [target, Target.mk.injEq, true_and] at htarget
  exact ⟨hcreated, hcount _ (hfew.1 i) htarget.1, hcount _ hfew.2 htarget.2⟩

end History

/-! ## References and their records -/

/-- A reference, and the record of its pool that it was last pointed at. -/
structure Tracked where
  /-- The reference. -/
  reference : Reference
  /-- The creation of the record, if the reference was ever pointed. -/
  record : Option Nat

namespace Tracked

/-- The record is in use after the events `h`. -/
def InUse (t : Tracked) (h : History) : Prop :=
  ∃ n i, t.record = some n ∧ h.InUse n i

/-- The reference remembers the slot of its record as it was at the creation
of the record. -/
def Follows (t : Tracked) (h : History) : Prop :=
  match t.record with
  | none => t.reference.target = none
  | some n => ∃ i, h[n]? = some (.created i) ∧ t.reference.target = some ((h.before n).target i)

variable {t : Tracked} {h later : History} {p : Pool β} {n i : Nat} {r : Reference}

/-- What comes later does not change what a reference follows. -/
theorem Follows.append (ht : t.Follows h) (later : History) : t.Follows (h ++ later) := by
  obtain ⟨r, record⟩ := t
  cases record with
  | none => exact ht
  | some n =>
      obtain ⟨i, hcreated, htarget⟩ := ht
      have hlt : n < h.length := (List.getElem?_eq_some_iff.mp hcreated).1
      refine ⟨i, ?_, ?_⟩
      · rw [List.getElem?_append_left hlt]
        exact hcreated
      · rw [History.before_append (Nat.le_of_lt hlt)]
        exact htarget

/-- A record that is in use later was in use before, if it was created then. -/
theorem Follows.inUse_of_append (ht : t.Follows h) (hlater : t.InUse (h ++ later)) : t.InUse h := by
  obtain ⟨r, record⟩ := t
  obtain ⟨n, i, rfl, hn⟩ := hlater
  obtain ⟨i', hcreated, -⟩ := ht
  have hlt : n < h.length := (List.getElem?_eq_some_iff.mp hcreated).1
  exact ⟨n, i, rfl, ((History.inUse_append hlt).mp hn).1⟩

/-- A reference that points at a record in use follows it. -/
theorem follows_of_inUse (hn : h.InUse n i) (htarget : r.target = some (h.target i)) :
    Tracked.Follows ⟨r, some n⟩ h :=
  ⟨i, hn.1, htarget.trans (congrArg some hn.target_eq)⟩

/-- A reference to a record that was just created follows it. -/
theorem follows_of_created (htarget : r.target = some (h.target i)) :
    Tracked.Follows ⟨r, some h.length⟩ (h ++ [.created i]) := by
  refine ⟨i, by simp, ?_⟩
  rw [History.before_append (Nat.le_refl _), History.before, List.take_length]
  exact htarget

/-- A pool accepts a reference that follows a record in use, and no other one
that follows a record as long as no counter wraps around. -/
theorem Follows.valid_iff (ht : t.Follows h) (hrec : p.Recorded h) (hfew : h.Few)
    (hr : t.reference.pool = p.id) :
    (∃ i, p.IsLive i ∧ t.reference = p.referenceTo i) ↔ t.InUse h := by
  obtain ⟨⟨pool, target⟩, record⟩ := t
  obtain rfl : pool = p.id := hr
  constructor
  · rintro ⟨i, hlive, href⟩
    rw [hrec.referenceTo] at href
    cases record with
    | none =>
        rw [show target = none from ht] at href
        cases href
    | some n =>
        obtain ⟨j, hcreated, htarget⟩ := ht
        rw [show target = some ((h.before n).target j) from htarget] at href
        have heq : (h.before n).target j = h.target i := Option.some.inj (Reference.mk.inj href).2
        obtain rfl : j = i := congrArg Target.index heq
        exact ⟨n, j, rfl, History.inUse_of_target_eq hfew hcreated heq.symm⟩
  · rintro ⟨n, i, rfl, hn⟩
    obtain ⟨j, hcreated, htarget⟩ := ht
    obtain rfl : j = i := by
      have heq : some (Event.created j) = some (.created i) := hcreated.symm.trans hn.1
      injection heq with heq
      injection heq
    refine ⟨j, (hrec.live_iff j).mpr ⟨n, hn⟩, ?_⟩
    rw [hrec.referenceTo, hn.target_eq]
    exact congrArg _ htarget

/-- The record that a pool now has in the slot of a reference. -/
def ofSlot (r : Reference) (h : History) : Tracked :=
  ⟨r, r.index?.bind h.occupant?⟩

/-- A reference to a record in use is followed from then on. -/
theorem follows_ofSlot (hrec : p.Recorded h) (hi : p.IsLive i) :
    (ofSlot (p.referenceTo i) h).Follows h := by
  obtain ⟨n, hn⟩ := (hrec.live_iff i).mp hi
  obtain ⟨m, hm⟩ := History.exists_occupant? hn
  have hrecord : ofSlot (p.referenceTo i) h = ⟨p.referenceTo i, some m⟩ :=
    congrArg (Tracked.mk _) hm
  rw [hrecord]
  refine follows_of_inUse (History.inUse_of_occupant? hm) ?_
  rw [hrec.referenceTo]

end Tracked

/-! ## Ways to point a reference -/

/-- Repointing takes over the target of another reference of the pool. -/
theorem Reference.eq_of_repoint {r other r' : Reference} (hrepoint : r.repoint other = .ok r') :
    r.pool = other.pool ∧ r' = ⟨r.pool, other.target⟩ := by
  obtain ⟨_, hdemand, hput⟩ := bind_eq_ok_iff.mp hrepoint
  cases hput
  exact ⟨by simpa using eq_true_of_demand hdemand, rfl⟩

/-- At the end of a walk the reference stays where it is. -/
theorem Cursor.eq_of_advance_end {c c' : Cursor} {p : Pool β} {r r' : Reference}
    (hadvance : c.advance p r = .ok (false, c', r')) : r' = r := by
  obtain ⟨⟨found, c₁⟩, -, hrest⟩ := bind_eq_ok_iff.mp hadvance
  cases found with
  | none =>
      cases hrest
      rfl
  | some i =>
      obtain ⟨_, -, hput⟩ := bind_eq_ok_iff.mp hrest
      cases hput

namespace Pool

variable {p : Pool β} {c c' : Cursor} {r r' : Reference}

/-- A walk points the reference at a record in use. -/
theorem Sound.exists_of_advance (h : p.Sound) (hadvance : c.advance p r = .ok (true, c', r')) :
    ∃ i, p.IsLive i ∧ r' = p.referenceTo i := by
  obtain ⟨⟨found, c₁⟩, -, hrest⟩ := bind_eq_ok_iff.mp hadvance
  cases found with
  | none => cases hrest
  | some i =>
      obtain ⟨_, hpoint, hput⟩ := bind_eq_ok_iff.mp hrest
      cases hput
      exact ⟨i, h.eq_of_pointAt hpoint⟩

/-- A walk yields references to records in use. -/
theorem Sound.exists_of_yield (h : p.Sound) (hyield : c.yield? p = .ok (some r', c')) :
    ∃ i, p.IsLive i ∧ r' = p.referenceTo i := by
  obtain ⟨⟨found, c₁, r₁⟩, hadvance, hrest⟩ := bind_eq_ok_iff.mp hyield
  cases found with
  | false => cases hrest
  | true =>
      cases hrest
      exact h.exists_of_advance hadvance

end Pool

end RecordPool
