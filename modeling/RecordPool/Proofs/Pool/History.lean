/-
# The history of a pool

A pool is run by its operations, each of which leaves an event for the slot it
is about.  A record is one particular creation, named by its position in the
history; it is in use until its slot is taken back or the pool is cleared.
The tables of a pool say about every slot what the history says
(`Pool.Recorded`), however deletions, clears and creations follow each other.
-/
import RecordPool.Pool.Attribute
import RecordPool.Proofs.Pool.Checks

namespace RecordPool

/-! ## Histories -/

/-- What an operation did to the slots of a pool. -/
inductive Event where
  /-- A record was created in the slot. -/
  | created (slot : Nat)
  /-- The record in the slot was taken back. -/
  | deleted (slot : Nat)
  /-- All records were dropped. -/
  | cleared
  /-- Cells of the record in the slot were written. -/
  | written (slot : Nat)
  deriving DecidableEq, Repr

/-- The events of a pool in their order. -/
abbrev History := List Event

namespace History

/-- The record created by the event `n` is in use in the slot `i`: neither was
it taken back since nor were all records dropped. -/
def InUse (h : History) (n i : Nat) : Prop :=
  h[n]? = some (.created i) ∧ .deleted i ∉ h.drop (n + 1) ∧ .cleared ∉ h.drop (n + 1)

instance (h : History) (n i : Nat) : Decidable (h.InUse n i) :=
  inferInstanceAs (Decidable (_ ∧ _ ∧ _))

/-- The record in use in the slot `i`, if there is one. -/
def occupant? (h : History) (i : Nat) : Option Nat :=
  (List.range h.length).find? fun n => h.InUse n i

/-- The slot in which the record `n` is in use, if it is. -/
def slot? (h : History) (n : Nat) : Option Nat :=
  match h[n]? with
  | some (.created i) => if h.InUse n i then some i else none
  | _ => none

/-- What a reference to the slot `i` remembers after the events `h`. -/
def target (h : History) (i : Nat) : Target :=
  ⟨i, UInt32.ofNat (h.count (.deleted i)), UInt32.ofNat (h.count .cleared)⟩

variable {h later : History} {n m i j : Nat} {e : Event}

/-- A record is created before it is used. -/
theorem InUse.lt_length (hn : h.InUse n i) : n < h.length :=
  (List.getElem?_eq_some_iff.mp hn.1).1

theorem slot?_eq_some_iff : h.slot? n = some i ↔ h.InUse n i := by
  unfold slot?
  constructor
  · intro hslot
    split at hslot
    · split at hslot
      · rename_i huse
        cases hslot
        exact huse
      · cases hslot
    · cases hslot
  · intro hn
    simp only [hn.1]
    rw [if_pos hn]

/-- A record is in use in one slot only. -/
theorem InUse.slot_unique (hi : h.InUse n i) (hj : h.InUse n j) : i = j := by
  have heq : some (Event.created i) = some (.created j) := hi.1.symm.trans hj.1
  simpa using heq

/-- A record stays in use as long as its slot is not taken back and the pool is
not cleared. -/
theorem inUse_append (hn : n < h.length) :
    InUse (h ++ later) n i ↔ h.InUse n i ∧ .deleted i ∉ later ∧ .cleared ∉ later := by
  unfold InUse
  rw [List.getElem?_append_left hn, List.drop_append_of_le_length (by omega), List.mem_append,
    List.mem_append]
  tauto

/-- After one more event the records in use are the ones before, unless the
event ended them, and a new one if the event created it. -/
theorem inUse_concat : InUse (h ++ [e]) n i ↔
    (n = h.length ∧ e = .created i) ∨ (h.InUse n i ∧ e ≠ .deleted i ∧ e ≠ .cleared) := by
  rcases Nat.lt_trichotomy n h.length with hlt | rfl | hgt
  · rw [inUse_append hlt, List.mem_singleton, List.mem_singleton, ne_comm (a := e),
      ne_comm (a := e)]
    have hne : n ≠ h.length := by omega
    tauto
  · have hnot : ¬ h.InUse h.length i := fun hn => lt_irrefl _ hn.lt_length
    simp only [hnot, false_and, or_false]
    simp [InUse]
  · have hnot : ¬ h.InUse n i := fun hn => by
      have := hn.lt_length
      omega
    have hnot' : ¬ InUse (h ++ [e]) n i := fun hn => by
      have := hn.lt_length
      rw [List.length_append, List.length_singleton] at this
      omega
    have hne : n ≠ h.length := by omega
    tauto

/-- The record found in a slot is in use there. -/
theorem inUse_of_occupant? (hn : h.occupant? i = some n) : h.InUse n i := by
  simpa using List.find?_some hn

/-- A slot with a record in use has an occupant. -/
theorem exists_occupant? (hn : h.InUse n i) : ∃ m, h.occupant? i = some m := by
  rw [← Option.isSome_iff_exists, occupant?, List.find?_isSome]
  exact ⟨n, List.mem_range.mpr hn.lt_length, by simpa using hn⟩

end History

namespace Pool

variable {β F : Type} [Memory β F]

/-! ## Operations -/

/-- An operation of a pool, with the event that it leaves.  Each way to write
cells patches or copies a record. -/
inductive Does : Pool β → History → Pool β → Prop where
  | allocate {p p' : Pool β} {r r' : Reference} {i : RecordIndex} :
      p.allocate r = .ok (.ok i, p', r') → Does p [.created i] p'
  | refuse {p p' : Pool β} {r r' : Reference} {refusal : PoolError} :
      p.allocate r = .ok (.error refusal, p', r') → Does p [] p'
  | delete {p p' : Pool β} {r : Reference} {i : RecordIndex} :
      p.require r = .ok i → p.delete r = .ok p' → Does p [.deleted i] p'
  | clear {p : Pool β} : Does p [.cleared] p.clear
  | patch {p p' : Pool β} {r : Reference} {i : RecordIndex} {offset : Nat} {values : List β} :
      p.require r = .ok i → p.patch i offset values = .ok p' → Does p [.written i] p'
  | copy {p p' : Pool β} {source target : Reference} {i : RecordIndex} :
      p.require target = .ok i → p.copy source target = .ok p' → Does p [.written i] p'
  | listen {p : Pool β} (listener : Listener) : Does p [] (p.listen listener)

/-- A run of operations, with the events that it leaves. -/
inductive Runs (p : Pool β) : History → Pool β → Prop where
  | start : Runs p [] p
  | step {h events : History} {p' p'' : Pool β} :
      Runs p h p' → Does p' events p'' → Runs p (h ++ events) p''

variable {p p' p'' : Pool β} {h events : History} {i : Nat} {r r' : Reference}

/-- One operation is a run. -/
theorem Does.runs (hdoes : p.Does events p') : p.Runs events p' :=
  .step .start hdoes

/-- Runs follow each other. -/
theorem Runs.trans (hruns : p.Runs h p') {later : History} (hlater : p'.Runs later p'') :
    p.Runs (h ++ later) p'' := by
  induction hlater with
  | start =>
      rw [List.append_nil]
      exact hruns
  | step _ hdoes ih =>
      rw [← List.append_assoc]
      exact ih.step hdoes

/-- Creating a record is handing out a slot. -/
theorem Does.create (hcreate : p.create r = .ok (i, p', r')) : p.Does [.created i] p' :=
  .allocate (allocate_eq_of_create hcreate)

/-- Creating many records creates them one after the other. -/
theorem Runs.createMany {count : Nat} {indices : List RecordIndex}
    (hcreate : p.createMany r count = .ok (indices, p', r')) :
    p.Runs (indices.map .created) p' := by
  induction count generalizing p r indices with
  | zero =>
      cases hcreate
      exact .start
  | succ count ih =>
      obtain ⟨⟨index, p₁, r₁⟩, hone, hrest⟩ := bind_eq_ok_iff.mp hcreate
      obtain ⟨⟨more, p₂, r₂⟩, hmore, hput⟩ := bind_eq_ok_iff.mp hrest
      cases hput
      exact (Does.create hone).runs.trans (ih hmore)

end Pool

/-- Writing a value is an operation of the pool. -/
theorem Attribute.does_of_put {β F : Type} [Memory β F] {kind : Kind} {a : Attribute kind}
    {p p' : Pool β} {r : Reference} {value : kind.Value F} (hput : a.put p r value = .ok p') :
    ∃ i, p.require r = .ok i ∧ p.Does [.written i] p' := by
  obtain ⟨i, hrequire, hrest⟩ := bind_eq_ok_iff.mp hput
  obtain ⟨encoded, -, hpatch⟩ := bind_eq_ok_iff.mp hrest
  exact ⟨i, hrequire, .patch hrequire hpatch⟩

namespace AttributeArray

variable {β F : Type} [Memory β F] {kind : Kind} {a : AttributeArray kind} {p p' : Pool β}
  {r : Reference} {value : kind.Value F} {k : Nat}

/-- Writing an element is an operation of the pool. -/
theorem does_of_put (hput : a.put p r k value = .ok p') :
    ∃ i, p.require r = .ok i ∧ p.Does [.written i] p' := by
  obtain ⟨offset, -, hrest⟩ := bind_eq_ok_iff.mp hput
  obtain ⟨i, hrequire, hrest⟩ := bind_eq_ok_iff.mp hrest
  obtain ⟨encoded, -, hpatch⟩ := bind_eq_ok_iff.mp hrest
  exact ⟨i, hrequire, .patch hrequire hpatch⟩

/-- Writing all elements is one operation of the pool. -/
theorem does_of_putAll {values : List (kind.Value F)} (hput : a.putAll p r values = .ok p') :
    ∃ i, p.require r = .ok i ∧ p.Does [.written i] p' := by
  obtain ⟨i, hrequire, hrest⟩ := bind_eq_ok_iff.mp hput
  obtain ⟨taken, -, hrest⟩ := bind_eq_ok_iff.mp hrest
  obtain ⟨encoded, -, hpatch⟩ := bind_eq_ok_iff.mp hrest
  exact ⟨i, hrequire, .patch hrequire hpatch⟩

end AttributeArray

end RecordPool
