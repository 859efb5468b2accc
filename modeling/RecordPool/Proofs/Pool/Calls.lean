/-
# Calls of a pool

What can be done with a pool, call by call, and what it answers.  Two pools are
companions if they have the same tables and the same cells in their records,
and if writing and taking back leaves companions again.  They then answer alike
whatever does not hand out a slot or tell a listener, and with a little more
about these two they answer every call alike.
-/
import RecordPool.Pool.Cursor
import RecordPool.Proofs.Alike
import RecordPool.Proofs.Pool.Checks
import RecordPool.Proofs.Pool.Items

namespace RecordPool

variable {β F : Type} [Memory β F]

namespace Pool

/-! ## Calls and their answers -/

/-- What can be asked of a pool. -/
inductive Query (F : Type) where
  | newReference
  | release (r : Reference)
  | pointAt (index : RecordIndex) (r : Reference)
  | check (r : Reference)
  | isLive (index : RecordIndex)
  | stamp (index : RecordIndex)
  | cells (r : Reference)
  | get (kind : Kind) (x : Item kind) (r : Reference)
  | getAll (kind : Kind) (a : AttributeArray kind) (r : Reference) (out : List (kind.Value F))
  | advance (c : Cursor) (r : Reference)
  | yield (c : Cursor)
  | walk
  | counts

/-- What can be done with a pool. -/
inductive Call (F : Type) where
  | ask (query : Query F)
  | allocate (r : Reference)
  | create (r : Reference)
  | createMany (r : Reference) (count : Nat)
  | delete (r : Reference)
  | clear
  | copy (source target : Reference)
  | put (kind : Kind) (x : Item kind) (r : Reference) (value : kind.Value F)
  | set (kind : Kind) (x : Item kind) (r : Reference) (value : kind.Value F)
  | putAll (kind : Kind) (a : AttributeArray kind) (r : Reference) (values : List (kind.Value F))
  | listen (listener : Listener)

/-- What a call answers; a reference that it was given is part of it, as it is
afterwards. -/
inductive Answer (β F : Type) where
  | done
  | reference (r : Reference)
  | checked (outcome : Except PoolError Unit)
  | flag (flag : Bool)
  | stamp (stamp : Option Stamp)
  | cells (cells : List β)
  | value (kind : Kind) (value : kind.Value F)
  | values (kind : Kind) (values : List (kind.Value F))
  | advanced (found : Bool) (c : Cursor) (r : Reference)
  | yielded (r : Option Reference) (c : Cursor)
  | records (records : List (Reference × Cursor))
  | counts (live free handedOut : Nat)
  | slot (outcome : Except PoolError RecordIndex) (r : Reference)
  | slots (indices : List RecordIndex) (r : Reference)
  | told (deliveries : List (Delivery β))

/-- Answers a question. -/
def ask (p : Pool β) : Query F → Checked (Answer β F)
  | .newReference => pure (.reference p.newReference)
  | .release r => do
      p.release r
      pure .done
  | .pointAt index r => do pure (.reference (← p.pointAt index r))
  | .check r => do pure (.checked (← (p.check r).run))
  | .isLive index => do pure (.flag (← p.isLive index))
  | .stamp index => do pure (.stamp (← p.stamp? index))
  | .cells r => do pure (.cells (← p.cells r))
  | .get kind x r => do pure (.value kind (← x.get p r))
  | .getAll kind a r out => do pure (.values kind (← a.getAll p r out))
  | .advance c r => do
      let (found, c, r) ← c.advance p r
      pure (.advanced found c r)
  | .yield c => do
      let (r, c) ← c.yield? p
      pure (.yielded r c)
  | .walk => do pure (.records (← p.walk))
  | .counts => do
      let o ← p.occupancy
      pure (.counts o.live o.free o.handedOut)

/-- Makes a call. -/
def answer (p : Pool β) : Call F → Checked (Answer β F × Pool β)
  | .ask query => do pure (← p.ask query, p)
  | .allocate r => do
      let (outcome, p, r) ← p.allocate r
      pure (.slot outcome r, p)
  | .create r => do
      let (index, p, r) ← p.create r
      pure (.slot (.ok index) r, p)
  | .createMany r count => do
      let (indices, p, r) ← p.createMany r count
      pure (.slots indices r, p)
  | .delete r => do pure (.done, ← p.delete r)
  | .clear => pure (.done, p.clear)
  | .copy source target => do pure (.done, ← p.copy source target)
  | .put _ x r value => do pure (.done, ← x.put p r value)
  | .set _ x r value => do
      let (deliveries, p) ← x.set p r value
      pure (.told deliveries, p)
  | .putAll _ a r values => do pure (.done, ← a.putAll p r values)
  | .listen listener => pure (.done, p.listen listener)

/-- The answers to calls that are made in turn.  A fault is the last one. -/
def answers : List (Call F) → Pool β → List (Except Fault (Answer β F))
  | [], _ => []
  | call :: calls, p =>
      match p.answer call with
      | .ok (answer, p) => .ok answer :: answers calls p
      | .error fault => [.error fault]

/-! ## Pools with the same tables -/

/-- The pools differ in their stores and their listeners at most. -/
inductive SameTables : Pool β → Pool β → Prop where
  | intro (p : Pool β) (store : Store β) (listeners : List Listener) :
      SameTables p { p with store, listeners }

end Pool

section Questions

open Pool

variable {p p' : Pool β} (h : SameTables p p')
include h

namespace Pool.SameTables

/-- References are checked without a look at the store. -/
theorem require_eq (r : Reference) : p'.require r = p.require r := by
  cases h
  rfl

theorem layout : p'.layout = p.layout := by
  cases h
  rfl

/-- The same slots are in use. -/
theorem isLive_iff {i : Nat} : p'.IsLive i ↔ p.IsLive i := by
  cases h
  rfl

/-- Their references are the same. -/
theorem referenceTo : p'.referenceTo = p.referenceTo := by
  cases h
  rfl

theorem isLive_eq (index : RecordIndex) : p.isLive index = p'.isLive index := by
  cases h
  rfl

theorem pointAt_eq (index : RecordIndex) (r : Reference) :
    p.pointAt index r = p'.pointAt index r := by
  cases h
  rfl

/-- What is alike for each record in use is so for the record of a reference. -/
theorem alike_required (hp : p.Sound) (r : Reference) {γ γ' : Type} {S : γ → γ' → Prop}
    {f : RecordIndex → Checked γ} {f' : RecordIndex → Checked γ'}
    (hf : ∀ i, p.IsLive i → Alike S (f i) (f' i)) :
    Alike S (p.require r >>= f) (p'.require r >>= f') := by
  rw [h.require_eq r]
  exact alike_bind _ fun i hrequire => hf i (hp.require_eq_ok_iff.mp hrequire).1

/-- Taking a record back is alike if it is for each record in use. -/
theorem alike_delete (hp : p.Sound) (hp' : p'.Sound) {R : Pool β → Pool β → Prop} (r : Reference)
    (hvacated : ∀ i, p.IsLive i → R (p.vacated i) (p'.vacated i)) :
    Alike R (p.delete r) (p'.delete r) := by
  cases hrequire : p.require r with
  | error e =>
      rw [delete, delete, h.require_eq r, hrequire]
      exact alike_error e
  | ok i =>
      obtain ⟨hi, rfl⟩ := hp.require_eq_ok_iff.mp hrequire
      rw [hp.delete_eq_vacated hi, ← h.referenceTo, hp'.delete_eq_vacated (h.isLive_iff.mpr hi)]
      exact alike_ok (hvacated i hi)

section Reading

variable (hp : p.Sound) (hrecord : ∀ i, p.IsLive i → p.store.record i = p'.store.record i)
include hp hrecord

/-- The same cells are read through any reference, if they are in the same
records. -/
theorem cells_eq (r : Reference) : p.cells r = p'.cells r := by
  refine (h.alike_required hp r fun i hi => ?_).eq
  rw [hrecord i hi]
  exact alike_refl _

/-- The same listeners are told the same. -/
theorem announce_eq (hlisteners : p'.listeners = p.listeners) (slot : Nat) (r : Reference)
    (offset size : Nat) : p.announce slot r offset size = p'.announce slot r offset size := by
  rw [announce, announce, hlisteners, h.layout]
  split
  · rfl
  refine (h.alike_required hp r fun i hi => ?_).eq
  rw [hrecord i hi]
  exact alike_refl _

end Reading

end Pool.SameTables

namespace Cursor

/-- The same record in use is found. -/
theorem scan_eq (count next : Nat) : scan p count next = scan p' count next := by
  induction count generalizing next with
  | zero => rfl
  | succ count ih => rw [scan, scan, h.isLive_eq next, ih]

theorem advance_eq (c : Cursor) (r : Reference) : c.advance p r = c.advance p' r := by
  have hremaining : c.remaining p = c.remaining p' := by
    cases h
    rfl
  rw [advance, advance, nextLive, nextLive, hremaining, scan_eq h]
  simp only [h.pointAt_eq]

theorem yield?_eq (c : Cursor) : c.yield? p = c.yield? p' := by
  have hnew : p.newReference = p'.newReference := by
    cases h
    rfl
  rw [yield?, yield?, hnew, advance_eq h]

/-- The same records come in the same order. -/
theorem rest_eq (count : Nat) (c : Cursor) : rest p count c = rest p' count c := by
  induction count generalizing c with
  | zero => rfl
  | succ count ih =>
      rw [rest, rest, yield?_eq h]
      simp only [ih]

end Cursor

/-- **No question tells pools apart** that have the same tables and the same
cells in their records. -/
theorem Pool.SameTables.ask_eq (hcells : ∀ r, p.cells r = p'.cells r) (query : Query F) :
    p.ask query = p'.ask query := by
  cases query with
  | cells r => rw [ask, ask, hcells r]
  | get kind x r =>
      cases x with
      | value a =>
          rw [ask, ask, Item.get, Item.get, Attribute.get, Attribute.get, hcells r]
      | element a k =>
          rw [ask, ask, Item.get, Item.get, AttributeArray.get, AttributeArray.get, hcells r]
  | getAll kind a r out =>
      rw [ask, ask, AttributeArray.getAll, AttributeArray.getAll, hcells r]
  | advance c r => rw [ask, ask, Cursor.advance_eq h]
  | yield c => rw [ask, ask, Cursor.yield?_eq h]
  | walk =>
      have hallocated : p.allocated = p'.allocated := by
        cases h
        rfl
      rw [ask, ask, walk, walk, hallocated, Cursor.rest_eq h]
  | counts =>
      have hsize : p.size = p'.size := by
        cases h
        rfl
      have hcounts : p.free.length = p'.free.length ∧ p.allocated = p'.allocated := by
        cases h
        exact ⟨rfl, rfl⟩
      rw [ask, ask, occupancy, occupancy, hsize, hcounts.1, hcounts.2]
      cases p'.size with
      | error e => rfl
      | ok live => rfl
  | newReference | release r | pointAt index r | check r | isLive index | stamp index =>
      cases h
      rfl

end Questions

namespace Pool

/-! ## Companions -/

/-- Pools related by `R` have the same tables and the same cells in their
records, and writing and taking back leaves related pools or the same fault. -/
structure Companions (R : Pool β → Pool β → Prop) : Prop where
  tables : ∀ {p p'}, R p p' → SameTables p p'
  cells : ∀ {p p'}, R p p' → ∀ r, p.cells r = p'.cells r
  delete : ∀ {p p'}, R p p' → ∀ r, Alike R (p.delete r) (p'.delete r)
  clear : ∀ {p p'}, R p p' → R p.clear p'.clear
  patch : ∀ {p p'}, R p p' → ∀ {r i}, p.require r = .ok i → ∀ offset values,
    Alike R (p.patch i offset values) (p'.patch i offset values)
  copy : ∀ {p p'}, R p p' → ∀ source target,
    Alike R (p.copy source target) (p'.copy source target)
  listen : ∀ {p p'}, R p p' → ∀ listener, R (p.listen listener) (p'.listen listener)

/-- Related pools after the same was handed out. -/
def Dealt {γ : Type} (R : Pool β → Pool β → Prop) (x x' : γ × Pool β × Reference) : Prop :=
  x.1 = x'.1 ∧ R x.2.1 x'.2.1 ∧ x.2.2 = x'.2.2

/-- Related pools after the same was answered. -/
def Replied {γ : Type} (R : Pool β → Pool β → Prop) (x x' : γ × Pool β) : Prop :=
  x.1 = x'.1 ∧ R x.2 x'.2

/-- The call neither hands out a slot nor tells a listener of a change. -/
def Call.Plain : Call F → Prop
  | .allocate _ | .create _ | .createMany _ _ | .set _ _ _ _ => False
  | _ => True

namespace Companions

variable {R : Pool β → Pool β → Prop} {p p' : Pool β} {kind : Kind}

/-! ## Writing -/

section Writing

variable (hR : Companions R) (h : R p p')
include hR h

/-- Patching the record of a reference leaves companions. -/
theorem patch_required (r : Reference) (offset : Nat) (encoded : Checked (List β)) :
    Alike R (do let i ← p.require r; p.patch i offset (← encoded))
      (do let i ← p'.require r; p'.patch i offset (← encoded)) := by
  rw [(hR.tables h).require_eq]
  refine alike_bind _ fun i hrequire => alike_bind _ fun cells _ => ?_
  exact hR.patch h hrequire offset cells

/-- Writing an item leaves companions. -/
theorem put (x : Item kind) (r : Reference) (value : kind.Value F) :
    Alike R (x.put p r value) (x.put p' r value) := by
  cases x with
  | value a => exact hR.patch_required h r a.offset _
  | element a k =>
      exact alike_bind (a.elementOffset k) fun offset _ => hR.patch_required h r offset _

/-- Writing a whole array leaves companions. -/
theorem putAll (a : AttributeArray kind) (r : Reference) (values : List (kind.Value F)) :
    Alike R (a.putAll p r values) (a.putAll p' r values) := by
  unfold AttributeArray.putAll
  rw [(hR.tables h).require_eq]
  refine alike_bind _ fun i hrequire => alike_bind _ fun taken _ => alike_bind _ fun encoded _ => ?_
  exact hR.patch h hrequire a.offset encoded.flatten

/-- Writing an item and telling the listeners leaves companions, if the
listeners are told the same. -/
theorem set (hannounce : ∀ slot r offset size,
      p.announce slot r offset size = p'.announce slot r offset size)
    (x : Item kind) (r : Reference) (value : kind.Value F) :
    Alike (Replied R) (x.set p r value) (x.set p' r value) := by
  cases x with
  | value a =>
      rw [Item.set, Item.set, Attribute.set, Attribute.set, hannounce]
      refine alike_bind _ fun deliveries _ => ?_
      exact (hR.put h (.value a) r value).bind fun q q' hq => alike_pure ⟨rfl, hq⟩
  | element a k =>
      refine alike_bind (a.elementOffset k) fun offset _ => ?_
      rw [hannounce]
      refine alike_bind _ fun deliveries _ => ?_
      exact (hR.put h (.element a k) r value).bind fun q q' hq => alike_pure ⟨rfl, hq⟩

/-- **Companions answer plain calls alike.** -/
theorem answer_plain {call : Call F} (hplain : call.Plain) :
    Alike (Replied R) (p.answer call) (p'.answer call) := by
  cases call with
  | ask query =>
      rw [answer, answer, (hR.tables h).ask_eq (hR.cells h)]
      exact alike_bind _ fun answer _ => alike_pure ⟨rfl, h⟩
  | delete r => exact (hR.delete h r).bind fun q q' hq => alike_pure ⟨rfl, hq⟩
  | clear => exact alike_pure ⟨rfl, hR.clear h⟩
  | copy source target =>
      exact (hR.copy h source target).bind fun q q' hq => alike_pure ⟨rfl, hq⟩
  | put kind x r value => exact (hR.put h x r value).bind fun q q' hq => alike_pure ⟨rfl, hq⟩
  | putAll kind a r values =>
      exact (hR.putAll h a r values).bind fun q q' hq => alike_pure ⟨rfl, hq⟩
  | listen listener => exact alike_pure ⟨rfl, hR.listen h listener⟩
  | allocate r | create r | createMany r count | set kind x r value => exact hplain.elim

end Writing

/-! ## Handing out -/

section Handing

variable (hR : Companions R)
  (hallocate : ∀ {p p'}, R p p' → ∀ r, Alike (Dealt R) (p.allocate r) (p'.allocate r))
include hallocate

/-- Creating a record takes the same slot of both. -/
theorem create (h : R p p') (r : Reference) :
    Alike (Dealt R) (p.create r) (p'.create r) := by
  refine (hallocate h r).bind fun x x' hx => ?_
  obtain ⟨outcome, q, r₁⟩ := x
  obtain ⟨outcome', q', r₁'⟩ := x'
  obtain ⟨rfl, hq, rfl⟩ := hx
  cases outcome with
  | error refusal => exact alike_error _
  | ok index => exact alike_pure ⟨rfl, hq, rfl⟩

/-- Creating many records takes the same slots of both. -/
theorem createMany (h : R p p') (r : Reference) (count : Nat) :
    Alike (Dealt R) (p.createMany r count) (p'.createMany r count) := by
  induction count generalizing p p' r with
  | zero => exact alike_pure ⟨rfl, h, rfl⟩
  | succ count ih =>
      rw [Pool.createMany, Pool.createMany]
      refine (create hallocate h r).bind fun x x' hx => ?_
      obtain ⟨index, q, r₁⟩ := x
      obtain ⟨index', q', r₁'⟩ := x'
      obtain ⟨rfl, hq, rfl⟩ := hx
      refine (ih hq r₁).bind fun y y' hy => ?_
      obtain ⟨indices, q₂, r₂⟩ := y
      obtain ⟨indices', q₂', r₂'⟩ := y'
      obtain ⟨rfl, hq₂, rfl⟩ := hy
      exact alike_pure ⟨rfl, hq₂, rfl⟩

include hR

/-- **Companions that hand out the same slots** answer alike all calls of which
no listener is told. -/
theorem answer_silent (h : R p p') {call : Call F} (hset : ∀ kind x r v, call ≠ .set kind x r v) :
    Alike (Replied R) (p.answer call) (p'.answer call) := by
  cases call with
  | allocate r =>
      refine (hallocate h r).bind fun x x' hx => ?_
      exact alike_pure ⟨by rw [hx.1, hx.2.2], hx.2.1⟩
  | create r =>
      refine (create hallocate h r).bind fun x x' hx => ?_
      exact alike_pure ⟨by rw [hx.1, hx.2.2], hx.2.1⟩
  | createMany r count =>
      refine (createMany hallocate h r count).bind fun x x' hx => ?_
      exact alike_pure ⟨by rw [hx.1, hx.2.2], hx.2.1⟩
  | set kind x r v => exact absurd rfl (hset kind x r v)
  | ask | delete | clear | copy | put | putAll | listen => exact hR.answer_plain h trivial

end Handing

end Companions

/-- **Pools that answer every call alike** give the same answers to any calls. -/
theorem answers_eq_of_alike {R : Pool β → Pool β → Prop} {p p' : Pool β}
    (halike : ∀ {p p'}, R p p' → ∀ call : Call F,
      Alike (Replied R) (p.answer call) (p'.answer call))
    (h : R p p') (calls : List (Call F)) : answers calls p = answers calls p' := by
  induction calls generalizing p p' with
  | nil => rfl
  | cons call calls ih =>
      have hanswer := halike h call
      rw [answers, answers]
      revert hanswer
      cases p.answer call with
      | error e =>
          cases p'.answer call with
          | error e' =>
              rintro (rfl : e = e')
              rfl
          | ok x' => exact False.elim
      | ok x =>
          cases p'.answer call with
          | error e' => exact False.elim
          | ok x' =>
              rintro ⟨heq, hq⟩
              dsimp only
              rw [heq, ih hq]

end Pool

end RecordPool
