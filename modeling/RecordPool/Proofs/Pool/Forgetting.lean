/-
# Forgetting former records

A pool that makes records blank when it hands them out or takes them back does
not remember the ones that are gone.  Two runs of the same operations may write
different values to records that have been taken back or dropped in the end, as
long as these are not copied; afterwards both pools give the same answers to
every call.  The cells of free slots may well differ, since clearing leaves the
memory alone, but the pools agree on the slots of all other records
(`Pool.Akin`), and a slot is made blank in both before it is used again.
-/
import RecordPool.Proofs.Pool.Calls
import RecordPool.Proofs.Pool.Limit
import RecordPool.Proofs.Pool.Records
import RecordPool.Proofs.Store.Resembling

namespace RecordPool

variable {β F : Type} [Memory β F]

/-- Whatever the cells of a record are, blank ones take their place. -/
theorem Reset.blank_apply (cells : List β) :
    Reset.blank.apply cells = List.replicate cells.length Memory.blank :=
  List.map_const' ..

/-! ## Stores that agree on some records -/

namespace Store

variable {s s' t t' : Store β} {shown shown' : Set Nat} {i : Nat}

/-- Writing a record of both stores leaves an agreement on the others, and on
this one if the same is written. -/
theorem eqOn_setRecord (h : s.Sound) (h' : s'.Sound) (hres : s.Resembles s')
    (heq : Set.EqOn s'.contents s.contents shown) (hi : i < s.capacity) {cells cells' : List β}
    (hcells : cells.length = s.recordSize) (hcells' : cells'.length = s.recordSize)
    (hsub : shown' ⊆ insert i shown) (hsame : i ∈ shown' → cells' = cells) :
    Set.EqOn (s'.setRecord i cells').contents (s.setRecord i cells).contents shown' := by
  intro (j : Nat) hj
  rw [h'.contents_setRecord (hres.capacity.symm ▸ hi) (hcells'.trans hres.recordSize.symm),
    h.contents_setRecord hi hcells]
  by_cases hji : j = i
  · subst hji
    rw [Function.update_self, Function.update_self, hsame hj]
  · rw [Function.update_of_ne hji, Function.update_of_ne hji, heq ((hsub hj).resolve_left hji)]

/-- Growth keeps an agreement: new records are blank. -/
theorem eqOn_of_extends (hres : s.Resembles s') (hext : s.Extends t) (hext' : s'.Extends t')
    (hres' : t.Resembles t') (heq : Set.EqOn s'.contents s.contents shown) :
    Set.EqOn t'.contents t.contents shown := by
  intro (j : Nat) hj
  by_cases hold : j < s.capacity
  · rw [hext'.kept j (hres.capacity.symm ▸ hold), hext.kept j hold, heq hj]
  by_cases hnew : j < t.capacity
  · rw [hext'.fresh j (by rw [hres.capacity]; omega) (hres'.capacity.symm ▸ hnew),
      hext.fresh j (by omega) hnew, hres.recordSize]
  · rw [contents, contents, if_neg hnew, if_neg (by rw [hres'.capacity]; exact hnew)]

/-- **A record that is made blank** in both stores is one more on which they
agree. -/
theorem eqOn_blank (h : s.Sound) (h' : s'.Sound) (hres : s.Resembles s')
    (heq : Set.EqOn s'.contents s.contents shown) (hi : i < s.capacity) {reset : Reset β}
    (hblank : reset = .blank) :
    Set.EqOn (s'.setRecord i (reset.apply (s'.contents i))).contents
      (s.setRecord i (reset.apply (s.contents i))).contents (insert i shown) := by
  have hlength := h.length_contents hi
  have hlength' := h'.length_contents (hres.capacity.symm ▸ hi)
  rw [hres.recordSize] at hlength'
  rw [hblank, Reset.blank_apply, Reset.blank_apply, hlength, hlength']
  exact eqOn_setRecord h h' hres heq hi List.length_replicate List.length_replicate subset_rfl
    fun _ => rfl

end Store

namespace Pool

/-! ## Akin pools -/

/-- The second pool is the first one with another store in place of its own,
which has the same room and holds the same in the slots `shown`.  Both make a
record blank when they hand it out or take it back. -/
inductive Akin (shown : Set Nat) : Pool β → Pool β → Prop where
  | intro {p : Pool β} {store : Store β} (blank : p.reset = .blank) (sound : p.Sound)
      (sound' : ({ p with store } : Pool β).Sound) (resembles : p.store.Resembles store)
      (contents : Set.EqOn store.contents p.store.contents shown) :
      Akin shown p { p with store }

variable {p p' q q' p₀ : Pool β} {shown shown' : Set Nat} {i : Nat} {r : Reference}

/-- A pool is akin to itself. -/
theorem Sound.akin (h : p.Sound) (hblank : p.reset = .blank) : Akin shown p p := by
  show Akin shown p { p with store := p.store }
  exact .intro hblank h h ⟨rfl, rfl, rfl, rfl⟩ (Set.eqOn_refl _ _)

namespace Akin

theorem tables (h : Akin shown p p') : SameTables p p' := by
  cases h
  exact .intro _ _ _

theorem sound (h : Akin shown p p') : p.Sound := by
  cases h
  assumption

theorem sound' (h : Akin shown p p') : p'.Sound := by
  cases h
  assumption

/-- Nothing but the store differs. -/
theorem frame (h : Akin shown p p') : p' = { p with store := p'.store } := by
  cases h
  rfl

/-- The slots that are shown hold the same. -/
theorem contents (h : Akin shown p p') : Set.EqOn p'.contents p.contents shown := by
  cases h
  assumption

/-- The pools agree on fewer slots as well. -/
theorem mono (h : Akin shown p p') (hsub : shown' ⊆ shown) : Akin shown' p p' := by
  obtain ⟨hblank, hsound, hsound', hres, heq⟩ := h
  exact .intro hblank hsound hsound' hres (heq.mono hsub)

/-! ## Reading -/

/-- The same cells are read from a record that is shown. -/
theorem record_eq (h : Akin shown p p') (hi : p.IsLive i) (hshown : i ∈ shown) :
    p.store.record i = p'.store.record i := by
  rw [h.sound.store.record_eq (h.sound.lt_capacity hi),
    h.sound'.store.record_eq (h.sound'.lt_capacity (h.tables.isLive_iff.mpr hi))]
  exact congrArg Except.ok (h.contents hshown).symm

/-! ## Writing -/

/-- **Rewriting a record** of both pools leaves them akin, if they get the same
cells or the record is not shown. -/
theorem rewrite (h : Akin shown p p') (hi : p.IsLive i) {cells cells' : List β}
    (hcells : cells.length = p.layout.size) (hcells' : cells'.length = p.layout.size)
    (hsame : i ∈ shown → cells' = cells) :
    Akin shown (p.setRecord i cells) (p'.setRecord i cells') := by
  obtain ⟨hblank, hsound, hsound', hres, heq⟩ := h
  refine .intro hblank (hsound.setRecord i cells) (hsound'.setRecord i cells') ?_ ?_
  · exact hres.setRecord i _ _
  · exact Store.eqOn_setRecord hsound.store hsound'.store hres heq (hsound.lt_capacity hi)
      (hcells.trans hsound.recordSize.symm) (hcells'.trans hsound.recordSize.symm)
      (Set.subset_insert i shown) hsame

/-- **Patching** fits both records or none, and puts the same over the same. -/
theorem patch (h : Akin shown p p') (hi : p.IsLive i) (offset : Nat) (values : List β) :
    Alike (Akin shown) (p.patch i offset values) (p'.patch i offset values) := by
  have hi' := h.tables.isLive_iff.mpr hi
  have hlength := h.sound.length_contents hi
  have hlength' := h.sound'.length_contents hi'
  rw [h.tables.layout] at hlength'
  by_cases hfit : offset + values.length ≤ p.layout.size
  · rw [h.sound.patch_eq hi hfit, h.sound'.patch_eq hi' (h.tables.layout ▸ hfit)]
    refine alike_ok (h.rewrite hi ?_ ?_ fun hshown => ?_)
    · rw [length_paste (by omega), hlength]
    · rw [length_paste (by omega), hlength']
    · rw [h.contents hshown]
  · rw [h.sound.patch_of_outside hi (by omega),
      h.sound'.patch_of_outside hi' (by rw [h.tables.layout]; omega)]
    exact alike_error _

/-- **Copying** a record that is shown writes the same to both pools. -/
theorem copy (h : Akin shown p p') {source : Reference} (target : Reference)
    (hshown : ∀ i, p.require source = .ok i → i ∈ shown) :
    Alike (Akin shown) (p.copy source target) (p'.copy source target) := by
  rw [Pool.copy, Pool.copy, h.tables.require_eq, h.tables.require_eq]
  refine alike_bind _ fun i hsource => alike_bind _ fun j htarget => ?_
  obtain ⟨hi, -⟩ := h.sound.require_eq_ok_iff.mp hsource
  obtain ⟨hj, -⟩ := h.sound.require_eq_ok_iff.mp htarget
  have hi' := h.sound'.lt_capacity (h.tables.isLive_iff.mpr hi)
  have hj' := h.sound'.lt_capacity (h.tables.isLive_iff.mpr hj)
  have hlength := h.sound.length_contents hi
  rw [h.sound.store.copy_eq_setRecord (h.sound.lt_capacity hi) (h.sound.lt_capacity hj),
    h.sound'.store.copy_eq_setRecord hi' hj']
  have heq : p'.store.contents i = p.store.contents i := h.contents (hshown i hsource)
  exact alike_pure (h.rewrite hj hlength (by rw [heq]; exact hlength) fun _ => heq)

/-- Listeners are registered apart from the store. -/
theorem listen (h : Akin shown p p') (listener : Listener) :
    Akin shown (p.listen listener) (p'.listen listener) := by
  obtain ⟨hblank, hsound, hsound', hres, heq⟩ := h
  exact .intro hblank (hsound.withListeners _) (hsound'.withListeners _) hres heq

/-! ## Taking back -/

/-- Clearing leaves the memory as it is. -/
theorem clear (h : Akin shown p p') : Akin shown p.clear p'.clear := by
  obtain ⟨hblank, hsound, hsound', hres, heq⟩ := h
  exact .intro hblank hsound.clear hsound'.clear hres heq

/-- **Taking a record back** makes it blank in both pools. -/
theorem delete (h : Akin shown p p') (r : Reference) :
    Alike (Akin shown) (p.delete r) (p'.delete r) := by
  refine h.tables.alike_delete h.sound h.sound' r fun i hi => ?_
  have hi' := h.tables.isLive_iff.mpr hi
  obtain ⟨hblank, hsound, hsound', hres, heq⟩ := h
  refine .intro hblank (hsound.vacated hi) (hsound'.vacated hi') (hres.setRecord i _ _) ?_
  have hreset := Store.eqOn_blank hsound.store hsound'.store hres heq (hsound.lt_capacity hi) hblank
  exact hreset.mono (Set.subset_insert i shown)

end Akin

/-! ## Handing out -/

/-- Putting a claimed slot into use shows it. -/
theorem Claims.akin {store : Store β} (h : p.Claims i) (h' : ({ p with store } : Pool β).Claims i)
    (hblank : p.reset = .blank) (hres : p.store.Resembles store)
    (heq : Set.EqOn store.contents p.store.contents shown) :
    Akin (insert i shown) (p.occupied i) (({ p with store } : Pool β).occupied i) := by
  refine .intro hblank h.sound_occupied h'.sound_occupied ?_ ?_
  · exact hres.setRecord i _ _
  · exact Store.eqOn_blank h.store h'.store hres heq h.lt_capacity hblank

/-- The same was handed out, a slot that is shown from then on or none. -/
inductive HandedOut (shown : Set Nat) :
    Except PoolError RecordIndex × Pool β × Reference →
      Except PoolError RecordIndex × Pool β × Reference → Prop where
  | granted {i : RecordIndex} {p p' : Pool β} {r : Reference} :
      Akin (insert i shown) p p' → HandedOut shown (.ok i, p, r) (.ok i, p', r)
  | refused {refusal : PoolError} {p p' : Pool β} {r : Reference} :
      Akin shown p p' → HandedOut shown (.error refusal, p, r) (.error refusal, p', r)

/-- **Both pools hand out the same slot**, or both are full. -/
theorem Akin.allocate (h : Akin shown p p') (r : Reference) :
    Alike (HandedOut shown) (p.allocate r) (p'.allocate r) := by
  by_cases hr : r.pool = p.id
  · obtain ⟨hblank, hsound, hsound', hres, heq⟩ := h
    by_cases hfree : p.free = []
    · rcases hres.reserve hsound.store hsound'.store hsound.allocated_le_capacity with
        ⟨hfirst, hsecond, hext, hext', hres', hroom⟩ | ⟨hfirst, hsecond⟩ | ⟨hfirst, hsecond⟩
      · have hroom' := hres'.capacity.symm ▸ hroom
        rw [hsound.allocate_eq_addSlot hr hfree hfirst hext hroom,
          hsound'.allocate_eq_addSlot hr hfree hsecond hext' hroom']
        refine alike_ok (.granted ?_)
        exact (hsound.claims_addSlot hext hroom).akin (hsound'.claims_addSlot hext' hroom') hblank
          hres' (Store.eqOn_of_extends hres hext hext' hres' heq)
      · rw [hsound.allocate_eq_reserve hr hfree, hsound'.allocate_eq_reserve hr hfree, hfirst,
          hsecond]
        exact alike_ok (.refused (.intro hblank hsound hsound' hres heq))
      · rw [hsound.allocate_eq_reserve hr hfree, hsound'.allocate_eq_reserve hr hfree, hfirst,
          hsecond]
        exact alike_error _
    · obtain ⟨i, free, hfree⟩ := List.exists_cons_of_ne_nil hfree
      rw [hsound.allocate_eq_occupied hr hfree, hsound'.allocate_eq_occupied hr hfree]
      refine alike_ok (.granted ?_)
      exact (hsound.claims_of_free hfree).akin (hsound'.claims_of_free hfree) hblank hres heq
  · have hr' : r.pool ≠ p'.id := by
      rw [h.frame]
      exact hr
    rw [allocate_of_foreign hr, allocate_of_foreign hr']
    exact alike_error _

/-! ## Pools that agree on all records -/

/-- Akin pools that show every record in use. -/
def Kin (p p' : Pool β) : Prop :=
  Akin {i | p.IsLive i} p p'

/-- **Pools that agree on all records are companions.** -/
theorem companions_kin : Companions (β := β) Kin where
  tables := fun h => Akin.tables h
  cells := fun h => (Akin.tables h).cells_eq (Akin.sound h) fun i hi => Akin.record_eq h hi hi
  delete := by
    intro p p' h r
    refine (Akin.delete h r).mono_of_ok fun q q' hdelete hq => hq.mono ?_
    obtain ⟨i, hrequire, -⟩ := bind_eq_ok_iff.mp hdelete
    obtain ⟨hi, rfl⟩ := (Akin.sound h).require_eq_ok_iff.mp hrequire
    rw [(Akin.sound h).delete_eq_vacated hi] at hdelete
    cases hdelete
    exact fun j hj => (isLive_vacated.mp hj).2
  clear := fun {p _} h => (Akin.clear h).mono fun j hj => absurd hj (not_isLive_clear p j)
  patch := by
    intro p p' h r i hrequire offset values
    have hi := (Akin.sound h).require_eq_ok_iff.mp hrequire |>.1
    refine (Akin.patch h hi offset values).mono_of_ok fun q q' hpatch hq => ?_
    obtain ⟨cells, -, rfl⟩ := (Akin.sound h).eq_setRecord_of_patch hi hpatch
    exact hq
  copy := by
    intro p p' h source target
    have hshown : ∀ i, p.require source = .ok i → i ∈ {i | p.IsLive i} :=
      fun i hsource => ((Akin.sound h).require_eq_ok_iff.mp hsource).1
    refine (Akin.copy h target hshown).mono_of_ok fun q q' hcopy hq => ?_
    obtain ⟨_, -, hrest⟩ := bind_eq_ok_iff.mp hcopy
    obtain ⟨i, htarget, -⟩ := bind_eq_ok_iff.mp hrest
    obtain ⟨cells, -, rfl⟩ := (Akin.sound h).eq_setRecord_of_copy htarget hcopy
    exact hq
  listen := fun h listener => Akin.listen h listener

namespace Kin

/-- They hand out the same slots. -/
theorem allocate (h : Kin p p') (r : Reference) :
    Alike (Dealt Kin) (p.allocate r) (p'.allocate r) := by
  refine (Akin.allocate h r).mono_of_ok fun x x' hallocate hx => ?_
  cases hx with
  | granted hakin =>
      obtain ⟨halloc, -⟩ := (Akin.sound h).allocates_of_allocate hallocate
      exact ⟨rfl, hakin.mono fun j hj => (halloc.live j).mp hj, rfl⟩
  | refused hakin =>
      obtain ⟨rfl, -⟩ := (Akin.sound h).eq_of_allocate_refused hallocate
      exact ⟨rfl, hakin, rfl⟩

/-- The listeners are told the same. -/
theorem announce_eq (h : Kin p p') (slot : Nat) (r : Reference) (offset size : Nat) :
    p.announce slot r offset size = p'.announce slot r offset size := by
  have hlisteners : p'.listeners = p.listeners := by
    rw [Akin.frame h]
  exact (Akin.tables h).announce_eq (Akin.sound h) (fun i hi => Akin.record_eq h hi hi) hlisteners
    slot r offset size

/-- **Every call is answered alike.** -/
theorem answer (h : Kin p p') (call : Call F) :
    Alike (Replied Kin) (p.answer call) (p'.answer call) := by
  cases call with
  | set kind x r value =>
      refine (companions_kin.set h h.announce_eq x r value).bind fun y y' hy => ?_
      exact alike_pure ⟨by rw [hy.1], hy.2⟩
  | ask | allocate | create | createMany | delete | clear | copy | put | putAll | listen =>
      exact companions_kin.answer_silent Kin.allocate h (by rintro _ _ _ _ ⟨⟩)

end Kin

/-! ## Two runs -/

/-- The slots of the records in use that are not doomed. -/
def spared (doomed : Set Nat) (h : History) : Set Nat :=
  {i | ∃ n ∉ doomed, h.InUse n i}

/-- Two runs of the same operations from the pool `p₀`, which has the history
`h`, with the events that they leave.  They may differ in what they write to the
records `doomed`, and they copy none of these to a record that is not doomed.
What is read in between leaves no trace. -/
inductive Abreast (doomed : Set Nat) (p₀ : Pool β) (h : History) :
    History → Pool β → Pool β → Prop where
  | start : Abreast doomed p₀ h [] p₀ p₀
  | create {later : History} {p p' q q' : Pool β} {r s s' : Reference} {i : RecordIndex}
      {outcome : Except PoolError RecordIndex} :
      Abreast doomed p₀ h later p p' → p.allocate r = .ok (.ok i, q, s) →
        p'.allocate r = .ok (outcome, q', s') → Abreast doomed p₀ h (later ++ [.created i]) q q'
  | refuse {later : History} {p p' q q' : Pool β} {r s s' : Reference} {refusal : PoolError}
      {outcome : Except PoolError RecordIndex} :
      Abreast doomed p₀ h later p p' → p.allocate r = .ok (.error refusal, q, s) →
        p'.allocate r = .ok (outcome, q', s') → Abreast doomed p₀ h later q q'
  | delete {later : History} {p p' q q' : Pool β} {r : Reference} {i : RecordIndex} :
      Abreast doomed p₀ h later p p' → p.require r = .ok i → p.delete r = .ok q →
        p'.delete r = .ok q' → Abreast doomed p₀ h (later ++ [.deleted i]) q q'
  | clear {later : History} {p p' : Pool β} :
      Abreast doomed p₀ h later p p' → Abreast doomed p₀ h (later ++ [.cleared]) p.clear p'.clear
  | patch {later : History} {p p' q q' : Pool β} {r : Reference} {i i' : RecordIndex}
      {offset : Nat} {values : List β} :
      Abreast doomed p₀ h later p p' → p.require r = .ok i → p.patch i offset values = .ok q →
        p'.require r = .ok i' → p'.patch i' offset values = .ok q' →
        Abreast doomed p₀ h (later ++ [.written i]) q q'
  /-- A record that is not doomed is copied over any other. -/
  | copy {later : History} {p p' q q' : Pool β} {source target : Reference} {i j : RecordIndex} :
      Abreast doomed p₀ h later p p' → p.require source = .ok j →
        (∀ n ∈ doomed, ¬ History.InUse (h ++ later) n j) → p.require target = .ok i →
        p.copy source target = .ok q → p'.copy source target = .ok q' →
        Abreast doomed p₀ h (later ++ [.written i]) q q'
  /-- A doomed record is patched or copied over, in each run in its own way. -/
  | write {later : History} {p p' q q' : Pool β} {n : Nat} {i : RecordIndex} :
      Abreast doomed p₀ h later p p' → n ∈ doomed → History.InUse (h ++ later) n i →
        p.Does [.written i] q → p'.Does [.written i] q' →
        Abreast doomed p₀ h (later ++ [.written i]) q q'
  | listen {later : History} {p p' : Pool β} (listener : Listener) :
      Abreast doomed p₀ h later p p' →
        Abreast doomed p₀ h later (p.listen listener) (p'.listen listener)

variable {doomed : Set Nat} {h later : History} {e : Event}

/-- A slot that is spared was so before, unless its record was just created. -/
theorem mem_spared_concat (hi : i ∈ spared doomed (h ++ [e])) :
    e = .created i ∨ i ∈ spared doomed h := by
  obtain ⟨n, hn, huse⟩ := hi
  rcases History.inUse_concat.mp huse with ⟨-, rfl⟩ | ⟨huse, -⟩
  · exact Or.inl rfl
  · exact Or.inr ⟨n, hn, huse⟩

/-- Only a creation adds to the slots that are spared. -/
theorem spared_concat_subset (he : ∀ i, e ≠ .created i) :
    spared doomed (h ++ [e]) ⊆ spared doomed h :=
  fun i hi => (mem_spared_concat hi).resolve_left (he i)

namespace Abreast

/-- The first of the two is a run with these events. -/
theorem runs (habreast : Abreast doomed p₀ h later q q') : p₀.Runs later q := by
  induction habreast with
  | start => exact .start
  | create _ hallocate _ ih => exact ih.step (.allocate hallocate)
  | @refuse later _ _ _ _ _ _ _ _ _ _ hallocate _ ih =>
      rw [← List.append_nil later]
      exact ih.step (.refuse hallocate)
  | delete _ hrequire hdelete _ ih => exact ih.step (.delete hrequire hdelete)
  | clear _ ih => exact ih.step .clear
  | patch _ hrequire hpatch _ _ ih => exact ih.step (.patch hrequire hpatch)
  | copy _ _ _ htarget hcopy _ ih => exact ih.step (.copy htarget hcopy)
  | write _ _ _ hdoes _ ih => exact ih.step hdoes
  | @listen later _ _ listener _ ih =>
      rw [← List.append_nil later]
      exact ih.step (.listen listener)

/-- **Runs side by side** leave pools that agree on the records that are not
doomed. -/
theorem akin (hrec : p₀.Recorded h) (hblank : p₀.reset = .blank)
    (habreast : Abreast doomed p₀ h later q q') : Akin (spared doomed (h ++ later)) q q' := by
  induction habreast with
  | start => exact hrec.sound.akin hblank
  | create _ hallocate hallocate' ih =>
      rw [← List.append_assoc]
      cases (ih.allocate _).of_eq_ok hallocate hallocate' with
      | granted hq =>
          refine hq.mono fun j hj => ?_
          rcases mem_spared_concat hj with heq | hj
          · cases heq
            exact Set.mem_insert _ _
          · exact Set.mem_insert_of_mem _ hj
  | refuse _ hallocate hallocate' ih =>
      cases (ih.allocate _).of_eq_ok hallocate hallocate' with
      | refused hq => exact hq
  | delete _ _ hdelete hdelete' ih =>
      rw [← List.append_assoc]
      exact ((ih.delete _).of_eq_ok hdelete hdelete').mono (spared_concat_subset (by simp))
  | clear _ ih =>
      rw [← List.append_assoc]
      exact ih.clear.mono (spared_concat_subset (by simp))
  | patch _ hrequire hpatch hrequire' hpatch' ih =>
      rw [← List.append_assoc]
      rw [ih.tables.require_eq, hrequire] at hrequire'
      cases hrequire'
      have hi := (ih.sound.require_eq_ok_iff.mp hrequire).1
      exact ((ih.patch hi _ _).of_eq_ok hpatch hpatch').mono (spared_concat_subset (by simp))
  | @copy later p _ _ _ source target _ j hbefore hsource hspared _ hcopy hcopy' ih =>
      rw [← List.append_assoc]
      -- what is copied is a record in use, and it is not doomed
      have hshown : ∀ k, p.require source = .ok k → k ∈ spared doomed (h ++ later) := by
        intro k hk
        rw [hsource] at hk
        cases hk
        have hj := (ih.sound.require_eq_ok_iff.mp hsource).1
        obtain ⟨n, hn⟩ := ((hrec.runs hbefore.runs).live_iff j).mp hj
        exact ⟨n, fun hdoomed => hspared n hdoomed hn, hn⟩
      exact ((ih.copy target hshown).of_eq_ok hcopy hcopy').mono (spared_concat_subset (by simp))
  | @write later _ _ _ _ _ i hbefore hdoomed hn hdoes hdoes' ih =>
      rw [← List.append_assoc]
      obtain ⟨hi, cells, hcells, rfl⟩ := ih.sound.eq_setRecord_of_does hdoes
      obtain ⟨-, cells', hcells', rfl⟩ := ih.sound'.eq_setRecord_of_does hdoes'
      rw [ih.tables.layout] at hcells'
      -- no other record is in the slot, so that it is not spared
      have hhidden : i ∉ spared doomed (h ++ later) := by
        rintro ⟨m, hm, huse⟩
        exact hm ((hrec.runs hbefore.runs).unique m _ i huse hn ▸ hdoomed)
      refine (ih.rewrite hi hcells hcells' fun hshown => absurd hshown hhidden).mono ?_
      exact spared_concat_subset (by simp)
  | listen listener _ ih => exact ih.listen listener

/-- **When the doomed records are gone**, the pools agree on all records. -/
theorem kin (hrec : p₀.Recorded h) (hblank : p₀.reset = .blank)
    (habreast : Abreast doomed p₀ h later q q')
    (hgone : ∀ n ∈ doomed, ∀ i, ¬ History.InUse (h ++ later) n i) : Kin q q' := by
  refine (habreast.akin hrec hblank).mono fun i hi => ?_
  obtain ⟨n, hn⟩ := ((hrec.runs habreast.runs).live_iff i).mp hi
  exact ⟨n, fun hdoomed => hgone n hdoomed i hn, hn⟩

end Abreast

/-! ## New records -/

/-- **A new record is blank**, whatever its slot held before. -/
theorem Sound.cells_of_allocate (hp : p.Sound) (hblank : p.reset = .blank) {r' : Reference}
    (hallocate : p.allocate r = .ok (.ok i, p', r')) :
    p'.cells r' = .ok (List.replicate p.layout.size Memory.blank) := by
  obtain ⟨halloc, rfl⟩ := hp.allocates_of_allocate hallocate
  obtain ⟨q, hclaims, hreset, hlayout, rfl, -⟩ := hp.exists_claims_of_allocate hallocate
  have hlength := hclaims.store.length_contents hclaims.lt_capacity
  rw [← halloc.referenceTo, halloc.sound.cells_eq ((halloc.live i).mpr (Or.inl rfl))]
  show Except.ok ((q.store.setRecord i (q.reset.apply (q.store.contents i))).contents i) = _
  rw [hreset, hblank, Reset.blank_apply, hlength, hclaims.store.contents_setRecord
    hclaims.lt_capacity List.length_replicate, Function.update_self, hclaims.recordSize, hlayout]

/-! ## Every pool -/

/-- **Former records are forgotten.**  In two runs of the same operations, which
differ only in what they write to records that are taken back or dropped in the
end and copy none of these, every record in use reads the same at the end, and
so does whatever is done with both pools from then on.  Every record that is
handed out, in any run, is blank. -/
theorem former_records_forgotten {id : PoolId} {layout : Layout} {plan : StorePlan}
    (hrange : plan.InRange) (hmake : make id layout plan .blank = pure p) (hruns : p.Runs h p₀)
    (habreast : Abreast doomed p₀ h later q q')
    (hgone : ∀ n ∈ doomed, ∀ i, ¬ History.InUse (h ++ later) n i) :
    (∀ n i, History.InUse (h ++ later) n i → ∃ cells, q.cells (q.referenceTo i) = .ok cells ∧
      q'.cells (q.referenceTo i) = .ok cells) ∧
    (∀ calls : List (Call F), answers calls q = answers calls q') ∧
    ∀ (events : History) (t t' : Pool β) (r s : Reference) (i : RecordIndex), p.Runs events t →
      t.allocate r = .ok (.ok i, t', s) →
        t'.cells s = .ok (List.replicate layout.size Memory.blank) := by
  have hmade := recorded_of_make hrange hmake
  have hblank : ∀ {events : History} {t : Pool β}, p.Runs events t → t.reset = .blank := by
    intro events t ht
    rw [hmade.reset_of_runs ht, (sound_of_make hrange hmake).2]
  have hrec := hmade.runs hruns
  have hkin := habreast.kin hrec (hblank hruns) hgone
  refine ⟨?_, ?_, ?_⟩
  · intro n i hn
    have hq := hrec.runs habreast.runs
    have hcells := hq.sound.cells_eq ((hq.live_iff i).mpr ⟨n, hn⟩)
    exact ⟨_, hcells, (companions_kin.cells hkin _).symm.trans hcells⟩
  · exact answers_eq_of_alike Kin.answer hkin
  · intro events t t' r s i ht hallocate
    have hlayout := (hmade.kept_of_runs ht).2.trans (layout_of_make hmake)
    rw [← hlayout]
    exact (hmade.runs ht).sound.cells_of_allocate (hblank ht) hallocate

/-- A pool with room for two counters, which makes them blank. -/
def twoCounters (cells : Array UInt8) (allocated : Nat) (live : Array Bool)
    (generations : Array UInt32) (epoch : UInt32) : Pool UInt8 :=
  ⟨0, counterLayout, ⟨#[⟨cells, 4⟩], 4, none, 0, 0, 2, indexLimit, 0⟩, .blank, allocated, [],
    live, generations, epoch, []⟩

/-- The second of two counters is `7` in one run and `9` in the other, and both
are dropped before another counter is created.  What is in the second slot
differs then, but it cannot be told. -/
theorem dropped_counter_forgotten : ∃ p q q' : Pool UInt8,
    make 0 counterLayout (.single 2) .blank = pure p ∧
      Abreast {1} p [] [.created 0, .created 1, .written 1, .cleared, .created 0] q q' ∧
      q.store.record 1 = .ok [7, 0, 0, 0] ∧ q'.store.record 1 = .ok [9, 0, 0, 0] ∧
      ∀ calls : List (Call Double), answers calls q = answers calls q' := by
  have hmake : make 0 counterLayout (.single 2) .blank =
      pure (twoCounters #[0, 0, 0, 0, 0, 0, 0, 0] 0 #[] #[] 0) := rfl
  have hfirst : (twoCounters #[0, 0, 0, 0, 0, 0, 0, 0] 0 #[] #[] 0).allocate (.unpointed 0) =
      .ok (.ok 0, twoCounters #[0, 0, 0, 0, 0, 0, 0, 0] 1 #[true] #[0] 0,
        ⟨0, some ⟨0, 0, 0⟩⟩) := rfl
  have hsecond : (twoCounters #[0, 0, 0, 0, 0, 0, 0, 0] 1 #[true] #[0] 0).allocate (.unpointed 0) =
      .ok (.ok 1, twoCounters #[0, 0, 0, 0, 0, 0, 0, 0] 2 #[true, true] #[0, 0] 0,
        ⟨0, some ⟨1, 0, 0⟩⟩) := rfl
  have hrequire : (twoCounters #[0, 0, 0, 0, 0, 0, 0, 0] 2 #[true, true] #[0, 0] 0).require
      ⟨0, some ⟨1, 0, 0⟩⟩ = .ok 1 := rfl
  have hseven : (twoCounters #[0, 0, 0, 0, 0, 0, 0, 0] 2 #[true, true] #[0, 0] 0).patch 1 0 [7] =
      .ok (twoCounters #[0, 0, 0, 0, 7, 0, 0, 0] 2 #[true, true] #[0, 0] 0) := rfl
  have hnine : (twoCounters #[0, 0, 0, 0, 0, 0, 0, 0] 2 #[true, true] #[0, 0] 0).patch 1 0 [9] =
      .ok (twoCounters #[0, 0, 0, 0, 9, 0, 0, 0] 2 #[true, true] #[0, 0] 0) := rfl
  have hagain : (twoCounters #[0, 0, 0, 0, 7, 0, 0, 0] 2 #[true, true] #[0, 0] 0).clear.allocate
      (.unpointed 0) = .ok (.ok 0, twoCounters #[0, 0, 0, 0, 7, 0, 0, 0] 1 #[true] #[0, 0] 1,
        ⟨0, some ⟨0, 0, 1⟩⟩) := rfl
  have hagain' : (twoCounters #[0, 0, 0, 0, 9, 0, 0, 0] 2 #[true, true] #[0, 0] 0).clear.allocate
      (.unpointed 0) = .ok (.ok 0, twoCounters #[0, 0, 0, 0, 9, 0, 0, 0] 1 #[true] #[0, 0] 1,
        ⟨0, some ⟨0, 0, 1⟩⟩) := rfl
  have hcreated : Abreast {1} (twoCounters #[0, 0, 0, 0, 0, 0, 0, 0] 0 #[] #[] 0) []
      [.created 0, .created 1] _ _ := (Abreast.start.create hfirst hfirst).create hsecond hsecond
  have hwritten := hcreated.write (Set.mem_singleton 1) (by decide) (.patch hrequire hseven)
    (.patch hrequire hnine)
  have hend := hwritten.clear.create hagain hagain'
  refine ⟨_, _, _, hmake, hend, rfl, rfl, ?_⟩
  refine (former_records_forgotten (StorePlan.inRange_single 2) hmake .start hend ?_).2.1
  rintro n rfl i ⟨-, -, hkept⟩
  exact hkept (by decide)

end Pool

end RecordPool
