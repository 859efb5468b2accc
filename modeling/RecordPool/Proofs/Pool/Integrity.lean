/-
# Integrity of allocation

However a pool is run, its free list has no duplicates, the slots handed out
are in use or free and never both, each creation takes a slot that was not in
use, and nothing the pool does looks outside its tables.
-/
import RecordPool.Pool.Cursor
import RecordPool.Proofs.Pool.Limit
import RecordPool.Proofs.Pool.Records

namespace RecordPool

variable {β F : Type} [Memory β F]

namespace Pool

variable {p p' : Pool β} {h : History} {i : Nat} {r r' : Reference}

/-! ## The size -/

/-- The size of a pool is the number of its slots in use. -/
theorem Sound.size_eq (h : p.Sound) :
    p.size = .ok ((List.range p.allocated).filter fun i => p.live[i]? = some true).length := by
  have hcount := h.length_add_length
    (List.nodup_range.filter fun i => decide (p.live[i]? = some true)) fun i => by
      rw [List.mem_filter, List.mem_range, decide_eq_true_eq]
      exact ⟨And.right, fun hlive => ⟨h.lt_allocated hlive, hlive⟩⟩
  rw [size, subSize_eq_ok (by omega)]
  exact congrArg Except.ok (by omega)

/-! ## Faults of the program -/

/-- No operation of the pool is cut short by the fault. -/
structure Uninterrupted (p : Pool β) (fault : Fault) : Prop where
  size : Avoids fault p.size
  occupancy : Avoids fault p.occupancy
  isLive : ∀ i, Avoids fault (p.isLive i)
  stamp : ∀ i, Avoids fault (p.stamp? i)
  check : ∀ r, Avoids fault (p.check r).run
  allocate : ∀ r, Avoids fault (p.allocate r)
  create : ∀ r, Avoids fault (p.create r)
  createMany : ∀ r count, Avoids fault (p.createMany r count)
  delete : ∀ r, Avoids fault (p.delete r)
  pointAt : ∀ i r, Avoids fault (p.pointAt i r)
  cells : ∀ r, Avoids fault (p.cells r)
  copy : ∀ source target, Avoids fault (p.copy source target)
  advance : ∀ (c : Cursor) r, Avoids fault (c.advance p r)
  walk : Avoids fault p.walk

/-- No operation of the pool looks outside a table. -/
structure Accessible (p : Pool β) : Prop where
  size : InBounds p.size
  occupancy : InBounds p.occupancy
  isLive : ∀ i, InBounds (p.isLive i)
  stamp : ∀ i, InBounds (p.stamp? i)
  check : ∀ r, InBounds (p.check r).run
  allocate : ∀ r, InBounds (p.allocate r)
  create : ∀ r, InBounds (p.create r)
  createMany : ∀ r count, InBounds (p.createMany r count)
  delete : ∀ r, InBounds (p.delete r)
  pointAt : ∀ i r, InBounds (p.pointAt i r)
  cells : ∀ r, InBounds (p.cells r)
  copy : ∀ source target, InBounds (p.copy source target)
  advance : ∀ (c : Cursor) r, InBounds (c.advance p r)
  walk : InBounds p.walk

section Faults

variable {fault : Fault}

/-- Resolving a reference has an outcome. -/
theorem Sound.avoids_resolve (h : p.Sound) (r : Reference) : Avoids fault (p.resolve r).run := by
  by_cases hr : r.pool = p.id
  · cases htarget : r.target with
    | none =>
        rw [resolve_of_unpointed hr htarget]
        rintro ⟨⟩
    | some target =>
        by_cases hvalid : p.IsLive target.index ∧ r = p.referenceTo target.index
        · rw [hvalid.2, h.resolve_referenceTo hvalid.1]
          rintro ⟨⟩
        · rw [h.resolve_of_stale hr htarget hvalid]
          rintro ⟨⟩
  · rw [resolve_of_foreign hr]
    rintro ⟨⟩

/-- Handing out is cut short by nothing but a foreign reference or memory
beyond the machine range. -/
theorem Sound.avoids_allocate (h : p.Sound) (hfault : fault.IsInternal)
    (hbound : fault = .arithmetic → 2 ^ 31 * p.layout.size < sizeBound) (r : Reference) :
    Avoids fault (p.allocate r) := by
  by_cases hr : r.pool = p.id
  · rcases h.allocate_cases hr with ⟨i, p', heq, -⟩ | ⟨heq, -⟩ | heq
    · exact avoids_of_eq_ok heq
    · exact avoids_of_eq_ok heq
    · rintro herror
      rw [heq] at herror
      cases herror
      exact h.allocate_ne_arithmetic hr (hbound rfl) heq
  · rw [allocate_of_foreign hr]
    exact avoids_violate hfault _

/-- Creating keeps a pool sound. -/
theorem Sound.of_create (h : p.Sound) (hcreate : p.create r = .ok (i, p', r')) :
    p'.Sound ∧ p'.layout = p.layout := by
  have halloc := (h.allocates_of_allocate (allocate_eq_of_create hcreate)).1
  exact ⟨halloc.sound, halloc.layout⟩

/-- A step of a walk is not cut short. -/
theorem Sound.avoids_scan (h : p.Sound) (count next : Nat) :
    Avoids fault (Cursor.scan p count next) := by
  induction count generalizing next with
  | zero => exact avoids_ok _
  | succ count ih =>
      refine (avoids_of_eq_ok (h.isLive_eq next)).bind fun live _ => ?_
      cases live with
      | false => exact ih (next + 1)
      | true => exact avoids_ok _

variable (hfault : fault.IsInternal)
include hfault

/-- Requiring a reference is cut short by a refusal only. -/
theorem Sound.avoids_require (h : p.Sound) (r : Reference) : Avoids fault (p.require r) := by
  refine (h.avoids_resolve r).bind fun outcome _ => ?_
  cases outcome with
  | error refusal => exact avoids_violate hfault _
  | ok i => exact avoids_ok i

/-- Creating is cut short by a full pool or as handing out is. -/
theorem Sound.avoids_create (h : p.Sound)
    (hbound : fault = .arithmetic → 2 ^ 31 * p.layout.size < sizeBound) (r : Reference) :
    Avoids fault (p.create r) := by
  refine (h.avoids_allocate hfault hbound r).bind ?_
  rintro ⟨outcome, p', r'⟩ -
  cases outcome with
  | error refusal => exact avoids_violate hfault _
  | ok i => exact avoids_ok _

/-- Creating many records is cut short as creating one is. -/
theorem Sound.avoids_createMany (h : p.Sound)
    (hbound : fault = .arithmetic → 2 ^ 31 * p.layout.size < sizeBound) (r : Reference)
    (count : Nat) : Avoids fault (p.createMany r count) := by
  induction count generalizing p r with
  | zero => exact avoids_ok _
  | succ count ih =>
      refine (h.avoids_create hfault hbound r).bind ?_
      rintro ⟨i, p', r'⟩ hcreate
      obtain ⟨hsound, hlayout⟩ := h.of_create hcreate
      rw [← hlayout] at hbound
      exact (ih hsound hbound r').bind fun _ _ => avoids_ok _

/-- Pointing at a record is cut short by a broken precondition only. -/
theorem Sound.avoids_pointAt (h : p.Sound) (i : Nat) (r : Reference) :
    Avoids fault (p.pointAt i r) := by
  refine (avoids_demand hfault _ _).bind fun _ hr => ?_
  refine (avoids_of_eq_ok (h.isLive_eq i)).bind fun live hlive => ?_
  refine (avoids_demand hfault _ _).bind fun _ hdemand => ?_
  cases live with
  | false => cases hdemand
  | true =>
      have hlt := h.lt_allocated (h.isLive_eq_true_iff.mp hlive)
      rw [fetch_eq_ok (h.generation_eq hlt)]
      exact avoids_ok _

/-- Walking on is cut short by a foreign reference only. -/
theorem Sound.avoids_advance (h : p.Sound) (c : Cursor) (r : Reference) :
    Avoids fault (c.advance p r) := by
  refine (h.avoids_scan _ _).bind ?_
  rintro ⟨found, c'⟩ -
  cases found with
  | none => exact avoids_ok _
  | some i => exact (h.avoids_pointAt hfault i r).bind fun _ _ => avoids_ok _

/-- A walk is not cut short. -/
theorem Sound.avoids_rest (h : p.Sound) (count : Nat) (c : Cursor) :
    Avoids fault (Cursor.rest p count c) := by
  induction count generalizing c with
  | zero => exact avoids_ok _
  | succ count ih =>
      have hyield : Avoids fault (c.yield? p) := by
        refine (h.avoids_advance hfault c p.newReference).bind ?_
        rintro ⟨found, c', r⟩ -
        cases found <;> exact avoids_ok _
      refine hyield.bind ?_
      rintro ⟨found, c'⟩ -
      cases found with
      | none => exact avoids_ok _
      | some r => exact (ih c').bind fun _ _ => avoids_ok _

/-- **A sound pool is never cut short by a fault of its own**, and not by one
of arithmetic either as long as its memory stays within the machine range. -/
theorem Sound.uninterrupted (h : p.Sound)
    (hbound : fault = .arithmetic → 2 ^ 31 * p.layout.size < sizeBound) :
    p.Uninterrupted fault where
  size := avoids_of_eq_ok h.size_eq
  occupancy := (avoids_of_eq_ok h.size_eq).bind fun _ _ => avoids_ok _
  isLive := fun i => avoids_of_eq_ok (h.isLive_eq i)
  stamp := by
    intro i
    refine (avoids_of_eq_ok (h.isLive_eq i)).bind fun live hlive => ?_
    cases live with
    | false => exact avoids_ok _
    | true =>
        have hlt := h.lt_allocated (h.isLive_eq_true_iff.mp hlive)
        exact (avoids_of_eq_ok (fetch_eq_ok (h.generation_eq hlt))).bind fun _ _ => avoids_ok _
  check := by
    intro r
    refine (h.avoids_resolve r).bind fun outcome _ => ?_
    cases outcome <;> exact avoids_ok _
  allocate := h.avoids_allocate hfault hbound
  create := h.avoids_create hfault hbound
  createMany := h.avoids_createMany hfault hbound
  delete := by
    intro r
    by_cases hvalid : ∃ i, p.require r = .ok i
    · obtain ⟨i, hrequire⟩ := hvalid
      obtain ⟨hi, rfl⟩ := h.require_eq_ok_iff.mp hrequire
      obtain ⟨p', hdelete, -⟩ := h.delete_eq hi
      exact avoids_of_eq_ok hdelete
    · exact (h.avoids_require hfault r).bind fun i hrequire => absurd ⟨i, hrequire⟩ hvalid
  pointAt := h.avoids_pointAt hfault
  cells := by
    intro r
    refine (h.avoids_require hfault r).bind fun i hrequire => ?_
    have hi := (h.require_eq_ok_iff.mp hrequire).1
    exact avoids_of_eq_ok (h.store.record_eq (h.lt_capacity hi))
  copy := by
    intro source target
    refine (h.avoids_require hfault source).bind fun i hsource => ?_
    refine (h.avoids_require hfault target).bind fun j htarget => ?_
    have hi := h.lt_capacity (h.require_eq_ok_iff.mp hsource).1
    have hj := h.lt_capacity (h.require_eq_ok_iff.mp htarget).1
    refine Avoids.bind ?_ fun _ _ => avoids_ok _
    by_cases hne : j = i
    · rw [hne, Store.copy, if_pos rfl]
      exact avoids_ok _
    · exact avoids_of_eq_ok (h.store.copy_eq hi hj hne)
  advance := h.avoids_advance hfault
  walk := h.avoids_rest hfault _ _

end Faults

/-- **A sound pool never looks outside a table.** -/
theorem Sound.accessible (h : p.Sound) : p.Accessible := by
  have hall : p.Uninterrupted .bounds := h.uninterrupted (by rintro violation ⟨⟩) (by rintro ⟨⟩)
  exact ⟨hall.size, hall.occupancy, hall.isLive, hall.stamp, hall.check, hall.allocate,
    hall.create, hall.createMany, hall.delete, hall.pointAt, hall.cells, hall.copy, hall.advance,
    hall.walk⟩

/-! ## Every run -/

/-- What holds of a pool after the events `h`. -/
structure Intact (p : Pool β) (h : History) : Prop where
  /-- No slot is free twice. -/
  free_nodup : p.free.Nodup
  /-- Only slots that were handed out are free. -/
  lt_of_free : ∀ i ∈ p.free, i < p.allocated
  /-- A slot that was handed out is in use or free, never both; no other slot
  is in use. -/
  isLive_eq : ∀ i, p.isLive i = .ok (decide (i < p.allocated ∧ i ∉ p.free))
  /-- Each slot that was handed out has its liveness. -/
  live_size : p.live.size = p.allocated
  /-- Each slot that was handed out has its generation. -/
  allocated_le_generations : p.allocated ≤ p.generations.size
  /-- Each slot that was handed out has its memory. -/
  allocated_le_capacity : p.allocated ≤ p.store.capacity
  /-- The size is the number of slots in use. -/
  size_eq : p.size =
    .ok ((List.range p.allocated).filter fun i => p.isLive i = .ok true).length
  /-- The slots in use are those that hold a record. -/
  isLive_iff : ∀ i, p.isLive i = .ok true ↔ ∃ n, h.InUse n i
  /-- No slot holds two records. -/
  unique : ∀ m n i, h.InUse m i → h.InUse n i → m = n
  /-- Nothing looks outside the tables. -/
  accessible : p.Accessible

/-- A pool whose tables say what its history says is intact. -/
theorem Recorded.intact (hrec : p.Recorded h) : p.Intact h where
  free_nodup := hrec.sound.free_nodup
  lt_of_free := by
    intro i hi
    rw [hrec.sound.mem_free_iff] at hi
    rw [← hrec.sound.live_size]
    exact (Array.getElem?_eq_some_iff.mp hi).1
  isLive_eq := hrec.sound.isLive_eq
  live_size := hrec.sound.live_size
  allocated_le_generations := hrec.sound.allocated_le_generations
  allocated_le_capacity := hrec.sound.allocated_le_capacity
  size_eq := by
    rw [hrec.sound.size_eq]
    congr 2
    apply List.filter_congr
    intro i _
    exact decide_eq_decide.mpr hrec.sound.isLive_eq_true_iff.symm
  isLive_iff := fun i => hrec.sound.isLive_eq_true_iff.trans (hrec.live_iff i)
  unique := hrec.unique
  accessible := hrec.sound.accessible

/-- **Integrity of allocation.**  After every run a pool is intact, each
creation takes a slot that was not in use, and a record in use keeps its slot,
its reference and, unless it is written, its cells until it is taken back or
dropped. -/
theorem intact_of_runs {id : PoolId} {layout : Layout} {plan : StorePlan} {reset : Reset β}
    {p₀ p : Pool β} {h : History} (hrange : plan.InRange)
    (hmake : make id layout plan reset = pure p₀) (hruns : p₀.Runs h p) :
    p.Intact h ∧
      (∀ (r r' : Reference) (i : RecordIndex) (p' : Pool β),
        p.allocate r = .ok (.ok i, p', r') ∨ p.create r = .ok (i, p', r') →
          p.isLive i = .ok false ∧ p'.isLive i = .ok true ∧
            History.InUse (h ++ [.created i]) h.length i) ∧
      ∀ (later : History) (p' : Pool β) (n i : Nat), p.Runs later p' → h.InUse n i →
        .deleted i ∉ later → .cleared ∉ later →
          History.InUse (h ++ later) n i ∧ p'.isLive i = .ok true ∧ .created i ∉ later ∧
            p'.referenceTo i = p.referenceTo i ∧
            (.written i ∉ later → p'.cells (p.referenceTo i) = p.cells (p.referenceTo i)) := by
  have hrec : p.Recorded h := by
    simpa using (recorded_of_make hrange hmake).runs hruns
  refine ⟨hrec.intact, ?_, ?_⟩
  · intro r r' i p' hcreate
    have halloc := hrec.sound.allocates_of_does (hcreate.elim .allocate .create)
    refine ⟨hrec.sound.isLive_eq_false halloc.fresh, ?_, ?_⟩
    · exact halloc.sound.isLive_eq_true_iff.mpr ((halloc.live i).mpr (Or.inl rfl))
    · exact History.inUse_concat.mpr (Or.inl ⟨rfl, rfl⟩)
  · intro later p' n i hlater hn hdeleted hcleared
    have hrec' := hrec.runs hlater
    have hn' : History.InUse (h ++ later) n i :=
      (History.inUse_append hn.lt_length).mpr ⟨hn, hdeleted, hcleared⟩
    have hlive : p.IsLive i := (hrec.live_iff i).mpr ⟨n, hn⟩
    have hlive' : p'.IsLive i := (hrec'.live_iff i).mpr ⟨n, hn'⟩
    have href := hrec.referenceTo_of_runs hlater hdeleted hcleared
    refine ⟨hn', hrec'.sound.isLive_eq_true_iff.mpr hlive',
      hrec.not_created hn hlater hdeleted hcleared, href, fun hwritten => ?_⟩
    rw [hrec.sound.cells_eq hlive, ← href, hrec'.sound.cells_eq hlive',
      hrec.contents_of_runs hn hlater hdeleted hcleared hwritten]

/-- A pool of counters with memory for one, none of them set. -/
def counterPool (allocated : Nat) (free : List RecordIndex) (live : Array Bool)
    (generations : Array UInt32) (epoch : UInt32) : Pool UInt8 :=
  ⟨0, counterLayout, ⟨#[⟨#[0, 0, 0, 0], 4⟩], 4, none, 0, 0, 1, indexLimit, 0⟩, .keep, allocated,
    free, live, generations, epoch, []⟩

/-- A pool that creates a record, takes it back, is cleared and creates another
one in the same slot is intact; its slot remembers the deletion. -/
theorem intact_after_reuse : ∃ p₀ p : Pool UInt8,
    make 0 counterLayout (.single 1) .keep = pure p₀ ∧
      p₀.Runs [.created 0, .deleted 0, .cleared, .created 0] p ∧
      p.Intact [.created 0, .deleted 0, .cleared, .created 0] ∧ p.generations = #[1] := by
  have hmake : make 0 counterLayout (.single 1) .keep = pure (counterPool 0 [] #[] #[] 0) := rfl
  have hfirst : (counterPool 0 [] #[] #[] 0).allocate (.unpointed 0) =
      .ok (.ok 0, counterPool 1 [] #[true] #[0] 0, ⟨0, some ⟨0, 0, 0⟩⟩) := rfl
  have hrequire : (counterPool 1 [] #[true] #[0] 0).require ⟨0, some ⟨0, 0, 0⟩⟩ = .ok 0 := rfl
  have hdelete : (counterPool 1 [] #[true] #[0] 0).delete ⟨0, some ⟨0, 0, 0⟩⟩ =
      .ok (counterPool 1 [0] #[false] #[1] 0) := rfl
  have hsecond : (counterPool 1 [0] #[false] #[1] 0).clear.allocate (.unpointed 0) =
      .ok (.ok 0, counterPool 1 [] #[true] #[1] 1, ⟨0, some ⟨0, 1, 1⟩⟩) := rfl
  have hruns : (counterPool 0 [] #[] #[] 0).Runs [.created 0, .deleted 0, .cleared, .created 0]
      (counterPool 1 [] #[true] #[1] 1) :=
    (((Runs.start.step (.allocate hfirst)).step (.delete hrequire hdelete)).step .clear).step
      (.allocate hsecond)
  exact ⟨_, _, hmake, hruns, (intact_of_runs (StorePlan.inRange_single 1) hmake hruns).1, rfl⟩

end Pool

end RecordPool
