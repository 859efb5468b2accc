/-
# Objects of other pools

A pool knows the references, lists and tables that belong to it by its identity,
and most operations look at that first: they refuse a reference of another pool,
and a table refuses other pools.  Some do not: a list looks its elements up in
whatever pool is given and searches for an index instead of a reference, a table
is counted and pruned by the stamps of whatever pool is given, and a queue looks
at a reference only when its comparator does.
-/
import RecordPool.Pool.RecordList
import RecordPool.Proofs.Pool.Heap
import RecordPool.Proofs.Pool.SideTables

namespace RecordPool

variable {α β γ F : Type} [Memory β F]

/-! ## Calls that fail -/

/-- The computation is cut short. -/
def Fails (x : Checked γ) : Prop :=
  ∃ fault, x = .error fault

/-- A sequence fails when its first step does. -/
theorem Fails.bind {x : Checked α} (h : Fails x) (f : α → Checked γ) : Fails (x >>= f) := by
  obtain ⟨fault, rfl⟩ := h
  exact ⟨fault, rfl⟩

/-- A sequence fails when its rest does. -/
theorem fails_bind {f : α → Checked γ} (h : ∀ a, Fails (f a)) (x : Checked α) :
    Fails (x >>= f) := by
  cases x with
  | error fault => exact ⟨fault, rfl⟩
  | ok a => exact h a

/-! ## What is refused -/

/-- No operation of the table gives an answer about the reference. -/
structure SideTable.Refuses (t : SideTable α) (p : Pool β) (r : Reference) (fault : Fault) :
    Prop where
  get : t.get p r = .error fault
  getD : ∀ default, t.getD p r default = .error fault
  isSet : t.isSet p r = .error fault
  set : ∀ v, t.set p r v = .error fault
  remove : t.remove p r = .error fault

/-- Operations of a table fail where its slot is not found. -/
theorem SideTable.refuses_of_slot {t : SideTable α} {p : Pool β} {r : Reference} {fault : Fault}
    (h : t.slot p r = .error fault) : t.Refuses p r fault := by
  have hget : t.get p r = .error fault := by
    rw [SideTable.get, h]
    rfl
  constructor
  · exact hget
  · intro default
    rw [SideTable.getD, hget]
    rfl
  · rw [SideTable.isSet, hget]
    rfl
  · intro v
    rw [SideTable.set, h]
    rfl
  · rw [SideTable.remove, h]
    rfl

/-- **A table refuses every other pool**, whatever reference it is given. -/
theorem SideTable.refuses_of_foreign {t : SideTable α} {p : Pool β} (h : t.pool ≠ p.id)
    (r : Reference) : t.Refuses p r (.broken .foreignTable) := by
  apply SideTable.refuses_of_slot
  rw [SideTable.slot, demand, if_neg (by simpa using h)]
  rfl

/-- A list takes no reference of another pool. -/
theorem RecordList.add_of_foreign {l : RecordList} {r : Reference} (h : r.pool ≠ l.pool) :
    l.add r = .error (.broken .foreignReference) := by
  rw [RecordList.add, demand, if_neg (by simpa using h)]
  rfl

namespace Pool

variable {p : Pool β} {r : Reference}

/-- The fault for a reference of another pool where a record is needed. -/
def foreignFault (p : Pool β) (r : Reference) : Fault :=
  .broken (.refused (.foreignReference p.id r.pool))

/-- The operations of the pool refuse the reference: they have no result, so that
nothing is changed. -/
structure Rejects (p : Pool β) (r : Reference) : Prop where
  check : p.check r = throw (.foreignReference p.id r.pool)
  allocate : p.allocate r = .error (.broken .foreignReference)
  create : p.create r = .error (.broken .foreignReference)
  createMany : ∀ count, p.createMany r (count + 1) = .error (.broken .foreignReference)
  pointAt : ∀ i, p.pointAt i r = .error (.broken .foreignReference)
  release : p.release r = .error (.broken .foreignRelease)
  delete : p.delete r = .error (p.foreignFault r)
  cells : p.cells r = .error (p.foreignFault r)
  copy_from : ∀ target, p.copy r target = .error (p.foreignFault r)
  copy_to : ∀ source, Fails (p.copy source r)
  get : ∀ (kind : Kind) (a : Attribute kind), a.get p r = .error (p.foreignFault r)
  put : ∀ (kind : Kind) (a : Attribute kind) value, a.put p r value = .error (p.foreignFault r)
  set : ∀ (kind : Kind) (a : Attribute kind) value, a.set p r value = .error (p.foreignFault r)
  getElement : ∀ (kind : Kind) (a : AttributeArray kind) k,
    a.get p r k = .error (p.foreignFault r)
  putElement : ∀ (kind : Kind) (a : AttributeArray kind) k value, Fails (a.put p r k value)
  setElement : ∀ (kind : Kind) (a : AttributeArray kind) k value, Fails (a.set p r k value)
  getAll : ∀ (kind : Kind) (a : AttributeArray kind) out,
    a.getAll p r out = .error (p.foreignFault r)
  putAll : ∀ (kind : Kind) (a : AttributeArray kind) values,
    a.putAll p r values = .error (p.foreignFault r)
  /-- A walk that comes to its end leaves the reference where it is. -/
  advance : ∀ (c c' : Cursor) found r', c.advance p r = .ok (found, c', r') →
    found = false ∧ r' = r
  listed : ∀ (l : RecordList) k, Fails (l.pointAt k p r)
  table : ∀ {α : Type} (t : SideTable α), t.pool = p.id → t.Refuses p r (p.foreignFault r)

/-- A reference of another pool has no record here. -/
theorem require_of_foreign (hr : r.pool ≠ p.id) : p.require r = .error (p.foreignFault r) := by
  rw [require, resolve_of_foreign hr]
  rfl

/-- A reference of another pool is pointed at no record. -/
theorem pointAt_of_foreign (hr : r.pool ≠ p.id) (i : Nat) :
    p.pointAt i r = .error (.broken .foreignReference) := by
  rw [pointAt, demand_foreign hr]
  rfl

/-- Nobody is told of a change through a reference of another pool. -/
theorem put_after_announce (hr : r.pool ≠ p.id) (slot offset size : Nat) {put : Checked γ}
    (hput : put = .error (p.foreignFault r)) :
    (p.announce slot r offset size >>= fun deliveries => put >>= fun p' => pure (deliveries, p')) =
      .error (p.foreignFault r) := by
  rw [announce]
  split
  · rw [hput]
    rfl
  · rw [require_of_foreign hr]
    rfl

/-- **A pool rejects the references of all other pools.** -/
theorem rejects_of_foreign (hr : r.pool ≠ p.id) : p.Rejects r := by
  have hrequire := require_of_foreign hr
  have hpoint := pointAt_of_foreign hr
  have hcells : p.cells r = .error (p.foreignFault r) := by
    rw [cells, hrequire]
    rfl
  have hcreate : p.create r = .error (.broken .foreignReference) := by
    rw [create, allocate_of_foreign hr]
    rfl
  have hput : ∀ (kind : Kind) (a : Attribute kind) value,
      a.put p r value = .error (p.foreignFault r) := by
    intro kind a value
    rw [Attribute.put, hrequire]
    rfl
  have hputElement : ∀ (kind : Kind) (a : AttributeArray kind) k value,
      Fails (a.put p r k value) := by
    intro kind a k value
    apply fails_bind
    intro offset
    rw [hrequire]
    exact ⟨_, rfl⟩
  constructor
  case check => exact check_of_refused (resolve_of_foreign hr)
  case allocate => exact allocate_of_foreign hr
  case create => exact hcreate
  case createMany =>
    intro count
    rw [createMany, hcreate]
    rfl
  case pointAt => exact hpoint
  case release =>
    rw [release, demand, if_neg (by simpa using hr)]
    rfl
  case delete =>
    rw [delete, hrequire]
    rfl
  case cells => exact hcells
  case copy_from =>
    intro target
    rw [copy, hrequire]
    rfl
  case copy_to =>
    intro source
    apply fails_bind
    intro i
    rw [hrequire]
    exact ⟨_, rfl⟩
  case get =>
    intro kind a
    rw [Attribute.get, hcells]
    rfl
  case put => exact hput
  case set =>
    intro kind a value
    exact put_after_announce hr _ _ _ (hput kind a value)
  case getElement =>
    intro kind a k
    rw [AttributeArray.get, hcells]
    rfl
  case putElement => exact hputElement
  case setElement =>
    intro kind a k value
    apply fails_bind
    intro offset
    apply fails_bind
    intro deliveries
    exact (hputElement kind a k value).bind _
  case getAll =>
    intro kind a out
    rw [AttributeArray.getAll, hcells]
    rfl
  case putAll =>
    intro kind a values
    rw [AttributeArray.putAll, hrequire]
    rfl
  case advance =>
    intro c c' found r' hadvance
    obtain ⟨⟨next, c₁⟩, -, hrest⟩ := bind_eq_ok_iff.mp hadvance
    cases next with
    | none =>
      cases hrest
      exact ⟨rfl, rfl⟩
    | some i =>
      dsimp only at hrest
      rw [hpoint] at hrest
      cases hrest
  case listed =>
    intro l k
    apply fails_bind
    intro i
    exact ⟨_, hpoint i⟩
  case table =>
    intro α t ht
    apply SideTable.refuses_of_slot
    rw [SideTable.slot, ht, beq_self_eq_true, demand_true, ok_bind, hrequire]
    rfl

end Pool

/-! ## Queues -/

/-- The comparator reads the records of both references from the pool, the first
one first. -/
def Comparator.Reads (order : Comparator) (p : Pool β) : Prop :=
  ∀ r x : Reference, r.pool ≠ p.id → order r x = .error (p.foreignFault r)

/-- Comparing numbers reads the records. -/
theorem Comparator.reads_byDouble [Arithmetic F] (a : Attribute .double) (p : Pool β) :
    (byDouble a p).Reads p := by
  intro r x hr
  rw [byDouble, (Pool.rejects_of_foreign hr).get]
  rfl

/-- Comparing integers reads the records. -/
theorem Comparator.reads_byInt (a : Attribute .int) (p : Pool β) : (byInt a p).Reads p := by
  intro r x hr
  rw [byInt, (Pool.rejects_of_foreign hr).get]
  rfl

/-- Comparing the other way round reads the records, too. -/
theorem Comparator.Reads.reversed {order : Comparator} {p : Pool β} (h : order.Reads p) :
    order.reversed.Reads p := by
  intro r x hr
  rw [Comparator.reversed, h r x hr]
  rfl

namespace PriorityQueue

variable {q : PriorityQueue} {order : Comparator} {p : Pool β} {r : Reference}

/-- Without another element nothing is compared. -/
theorem offer_of_nil (h : q.elements = []) : q.offer order r = .ok ⟨#[r]⟩ := by
  have hheap : q.heap = #[] := Array.toList_eq_nil_iff.mp h
  rw [offer, hheap, siftUp]
  rfl

/-- A new element is compared with one that is there. -/
theorem offer_of_reads (h : order.Reads p) (hr : r.pool ≠ p.id) (hne : q.elements ≠ []) :
    q.offer order r = .error (p.foreignFault r) := by
  have hsize : q.heap.size ≠ 0 := by
    intro hzero
    apply hne
    rw [elements, Array.toList_eq_nil_iff]
    exact Array.eq_empty_of_size_eq_zero hzero
  have hlast : (q.heap.push r)[q.heap.size]? = some r := Array.getElem?_push_size
  have hparent : (q.heap.push r)[(q.heap.size - 1) / 2]? = some q.heap[(q.heap.size - 1) / 2] := by
    rw [Array.getElem?_push_lt (by omega)]
  rw [offer, siftUp, if_neg hsize]
  dsimp only
  rw [precedes, fetch_eq_ok hlast, ok_bind, fetch_eq_ok hparent, ok_bind, h _ _ hr]
  rfl

/-- Where all are equal nothing is read and nothing moves. -/
theorem offer_indifferent : q.offer .indifferent r = .ok ⟨q.heap.push r⟩ := by
  have hlast : (q.heap.push r)[q.heap.size]? = some r := Array.getElem?_push_size
  rw [offer, siftUp]
  by_cases hzero : q.heap.size = 0
  · rw [if_pos hzero]
    rfl
  · have hparent : (q.heap.push r)[(q.heap.size - 1) / 2]? =
        some q.heap[(q.heap.size - 1) / 2] := by
      rw [Array.getElem?_push_lt (by omega)]
    rw [if_neg hzero]
    dsimp only
    rw [precedes, fetch_eq_ok hlast, ok_bind, fetch_eq_ok hparent, ok_bind]
    rfl

/-- A reference is pointed at no record of another pool. -/
theorem repoint_of_foreign {x : Reference} (h : r.pool ≠ x.pool) :
    r.repoint x = .error (.broken .foreignRepoint) := by
  rw [Reference.repoint, demand, if_neg (by simpa using h)]
  rfl

/-- The first element is given to no reference of another pool, whether it stays
or not. -/
theorem poll_of_foreign (hne : q.elements ≠ []) (h : ∀ x ∈ q.elements, r.pool ≠ x.pool) :
    q.poll order r = .error (.broken .foreignRepoint) ∧
      q.peek r = .error (.broken .foreignRepoint) := by
  obtain ⟨x, rest, hheap⟩ := List.exists_cons_of_ne_nil hne
  have hmem : ∀ {i : Nat} {y : Reference}, q.heap[i]? = some y → y ∈ q.elements := by
    intro i y hy
    rw [elements, Array.mem_toList_iff]
    exact Array.mem_of_getElem? hy
  have htop : q.heap[0]? = some x := by
    rw [← Array.getElem?_toList, show q.heap.toList = x :: rest from hheap]
    rfl
  constructor
  · obtain ⟨last, hlast⟩ : ∃ last, q.heap.back? = some last := by
      rw [← Option.isSome_iff_exists, Array.back?_isSome]
      rintro hempty
      rw [hempty] at htop
      cases htop
    have hlast' : q.heap[q.heap.size - 1]? = some last := by
      rw [← Array.back?_eq_getElem?]
      exact hlast
    rw [poll, hlast]
    dsimp only
    cases hfirst : q.heap.pop[0]? with
    | none =>
      dsimp only
      rw [repoint_of_foreign (h last (hmem hlast'))]
      rfl
    | some top =>
      have htop' : q.heap[0]? = some top := by
        rw [Array.getElem?_pop] at hfirst
        split at hfirst
        · exact hfirst
        · cases hfirst
      dsimp only
      rw [repoint_of_foreign (h top (hmem htop'))]
      rfl
  · rw [peek, htop]
    dsimp only
    rw [repoint_of_foreign (h x (hmem htop))]
    rfl

end PriorityQueue

/-! ## What is not refused -/

namespace RecordList

variable {p : Pool β} {l : RecordList} {r r' : Reference} {k : Nat} {found : Bool}

/-- **An element is looked up in the pool that is given**, whether or not the
list belongs to it. -/
theorem pointAt_eq_ok_iff (h : p.Sound) : l.pointAt k p r = .ok r' ↔
    r.pool = p.id ∧ ∃ i, l.indices[k]? = some i ∧ p.IsLive i ∧ r' = p.referenceTo i := by
  rw [pointAt]
  constructor
  · intro hpoint
    obtain ⟨i, hfetch, hpoint⟩ := bind_eq_ok_iff.mp hpoint
    have hr : r.pool = p.id := by
      by_contra hr
      rw [Pool.pointAt_of_foreign hr] at hpoint
      cases hpoint
    obtain ⟨hi, rfl⟩ := h.eq_of_pointAt hpoint
    refine ⟨hr, i, ?_, hi, rfl⟩
    rw [fetchAt] at hfetch
    split at hfetch
    · rename_i hget
      cases hfetch
      exact hget
    · cases hfetch
  · rintro ⟨hr, i, hget, hi, rfl⟩
    rw [fetchAt_eq_ok hget, ok_bind, h.pointAt_eq hi hr]

/-- **A list is searched for an index**, whatever pool the reference is of. -/
theorem contains_eq_ok_iff : l.contains r = .ok found ↔
    ∃ target, r.target = some target ∧ found = decide (target.index ∈ l.indices) := by
  rw [contains, Reference.index]
  cases r.target with
  | none =>
    constructor
    · rintro ⟨⟩
    · rintro ⟨target, ⟨⟩, -⟩
  | some target =>
    simp only [Option.some.injEq, exists_eq_left', List.contains_eq_mem]
    constructor
    · rintro ⟨⟩
      rfl
    · rintro rfl
      rfl

end RecordList

namespace Pool

/-- **What is refused, and what is not.**  A pool rejects every reference of
another pool, also where its queues read their elements; a table refuses every
other pool and a list every reference of another pool.  That is all: a list looks
its elements up in any pool and searches for the mere index of a reference, any
pool counts and prunes a table by its own stamps, and a queue takes any reference
as its first element or where its comparator reads nothing.  An operation of a queue
that is refused is cut short, and what the queue holds then is not told: the
reference is inserted before it is compared, and the least element is removed before
a reference is pointed at it. -/
theorem foreign_objects_refused {id : PoolId} {layout : Layout} {plan : StorePlan}
    {reset : Reset β} {p₀ p : Pool β} {h : History} (hrange : plan.InRange)
    (hmake : make id layout plan reset = pure p₀) (hruns : p₀.Runs h p) :
    (∀ r, r.pool ≠ p.id → p.Rejects r ∧
      ∀ (q : PriorityQueue) (order : Comparator), order.Reads p → q.elements ≠ [] →
        q.offer order r = .error (p.foreignFault r)) ∧
      (∀ (t : SideTable α) r, t.pool ≠ p.id → t.Refuses p r (.broken .foreignTable)) ∧
      (∀ (l : RecordList) r, r.pool ≠ l.pool → l.add r = .error (.broken .foreignReference)) ∧
      (∀ (q : PriorityQueue) order r, q.elements ≠ [] → (∀ x ∈ q.elements, r.pool ≠ x.pool) →
        q.poll order r = .error (.broken .foreignRepoint) ∧
          q.peek r = .error (.broken .foreignRepoint)) ∧
      (∀ (l : RecordList) k r r', l.pointAt k p r = .ok r' ↔
        r.pool = p.id ∧ ∃ i, l.indices[k]? = some i ∧ p.IsLive i ∧ r' = p.referenceTo i) ∧
      (∀ (l : RecordList) r found, l.contains r = .ok found ↔
        ∃ target, r.target = some target ∧ found = decide (target.index ∈ l.indices)) ∧
      (∀ t : SideTable α, t.size p = .ok ((t.fresh h).countP (·.isSome)) ∧
        t.prune p = .ok ⟨t.pool, t.fresh h⟩) ∧
      ∀ (q : PriorityQueue) r, (∀ order, q.elements = [] → q.offer order r = .ok ⟨#[r]⟩) ∧
        q.offer .indifferent r = .ok ⟨q.heap.push r⟩ := by
  have hrec : p.Recorded h := (recorded_of_make hrange hmake).runs hruns
  refine ⟨?_, ?_, ?_, ?_, ?_, ?_, ?_, ?_⟩
  · intro r hr
    exact ⟨rejects_of_foreign hr, fun q order horder hne =>
      PriorityQueue.offer_of_reads horder hr hne⟩
  · intro t r ht
    exact SideTable.refuses_of_foreign ht r
  · intro l r hr
    exact RecordList.add_of_foreign hr
  · intro q order r hne hforeign
    exact PriorityQueue.poll_of_foreign hne hforeign
  · intro l k r r'
    exact RecordList.pointAt_eq_ok_iff hrec.sound
  · intro l r found
    exact RecordList.contains_eq_ok_iff
  · intro t
    constructor
    · rw [SideTable.size, SideTable.current_eq hrec]
      rfl
    · rw [SideTable.prune, SideTable.current_eq hrec]
      rfl
  · intro q r
    exact ⟨fun order hnil => PriorityQueue.offer_of_nil hnil, PriorityQueue.offer_indifferent⟩

/-- A pool in which a record was created, taken back and created again. -/
def reusedPool : Pool UInt8 :=
  counterPool 1 [] #[true] #[1] 0

/-- Another pool, in which one record was created. -/
def otherPool : Pool UInt8 :=
  { counterPool 1 [] #[true] #[0] 0 with id := 1 }

/-- A pool of one record, made and run like any other. -/
theorem runs_reusedPool : (counterPool 0 [] #[] #[] 0).Runs
    [.created 0, .deleted 0, .created 0] reusedPool := by
  have hfirst : (counterPool 0 [] #[] #[] 0).allocate (.unpointed 0) =
      .ok (.ok 0, counterPool 1 [] #[true] #[0] 0, ⟨0, some ⟨0, 0, 0⟩⟩) := rfl
  have hrequire : (counterPool 1 [] #[true] #[0] 0).require ⟨0, some ⟨0, 0, 0⟩⟩ = .ok 0 := rfl
  have hdelete : (counterPool 1 [] #[true] #[0] 0).delete ⟨0, some ⟨0, 0, 0⟩⟩ =
      .ok (counterPool 1 [0] #[false] #[1] 0) := rfl
  have hsecond : (counterPool 1 [0] #[false] #[1] 0).allocate ⟨0, some ⟨0, 0, 0⟩⟩ =
      .ok (.ok 0, counterPool 1 [] #[true] #[1] 0, ⟨0, some ⟨0, 1, 0⟩⟩) := rfl
  exact ((Runs.start.step (.allocate hfirst)).step (.delete hrequire hdelete)).step
    (.allocate hsecond)

/-- The reused pool rejects the reference to the record of the other pool and
the table of that pool. -/
theorem reusedPool_rejects_other :
    reusedPool.Rejects ⟨1, some ⟨0, 0, 0⟩⟩ ∧
      (SideTable.mk 1 [some ⟨⟨0, 0⟩, 7⟩]).Refuses reusedPool ⟨0, some ⟨0, 1, 0⟩⟩
        (.broken .foreignTable) ∧
      (PriorityQueue.mk #[⟨0, some ⟨0, 1, 0⟩⟩]).poll .indifferent ⟨1, some ⟨0, 0, 0⟩⟩ =
        .error (.broken .foreignRepoint) := by
  have hmake : make 0 counterLayout (.single 1) .keep =
      pure (counterPool 0 [] #[] #[] 0 : Pool UInt8) := rfl
  obtain ⟨hrejects, hrefuses, -, hpoll, -⟩ :=
    foreign_objects_refused (α := Nat) (StorePlan.inRange_single 1) hmake runs_reusedPool
  refine ⟨(hrejects _ (by decide)).1, hrefuses _ _ (by decide), ?_⟩
  refine (hpoll _ _ _ (by decide) ?_).1
  decide

/-- **Objects of another pool are taken for its own.**  An element of a list of
the other pool is looked up in the reused pool, whose reference that list also
contains; a queue on the reused pool takes a reference of the other one; the
reused pool finds no value in a table of the other one that has one, and prunes
it away. -/
theorem foreign_objects_accepted : ∃ (l : RecordList) (t t' : SideTable Nat),
    make 0 counterLayout (.single 1) .keep = pure (counterPool 0 [] #[] #[] 0 : Pool UInt8) ∧
      (counterPool 0 [] #[] #[] 0).Runs [.created 0, .deleted 0, .created 0] reusedPool ∧
      make 1 counterLayout (.single 1) .keep =
        pure { (counterPool 0 [] #[] #[] 0 : Pool UInt8) with id := 1 } ∧
      Runs { counterPool 0 [] #[] #[] 0 with id := 1 } [.created 0] otherPool ∧
      reusedPool.check ⟨0, some ⟨0, 1, 0⟩⟩ = pure () ∧
      otherPool.check ⟨1, some ⟨0, 0, 0⟩⟩ = pure () ∧
      (RecordList.empty otherPool).add ⟨1, some ⟨0, 0, 0⟩⟩ = .ok l ∧
      l.pointAt 0 reusedPool (.unpointed 0) = .ok ⟨0, some ⟨0, 1, 0⟩⟩ ∧
      l.contains ⟨0, some ⟨0, 1, 0⟩⟩ = .ok true ∧
      PriorityQueue.empty.offer (.byInt ⟨0, 0⟩ reusedPool) ⟨1, some ⟨0, 0, 0⟩⟩ =
        .ok ⟨#[⟨1, some ⟨0, 0, 0⟩⟩]⟩ ∧
      (SideTable.empty otherPool).set otherPool ⟨1, some ⟨0, 0, 0⟩⟩ 7 = .ok (none, t) ∧
      t.get otherPool ⟨1, some ⟨0, 0, 0⟩⟩ = .ok (some 7) ∧ t.size reusedPool = .ok 0 ∧
      t.prune reusedPool = .ok t' ∧ t'.get otherPool ⟨1, some ⟨0, 0, 0⟩⟩ = .ok none := by
  have hcreate : ({ counterPool 0 [] #[] #[] 0 with id := 1 } : Pool UInt8).allocate
      (.unpointed 1) = .ok (.ok 0, otherPool, ⟨1, some ⟨0, 0, 0⟩⟩) := rfl
  refine ⟨⟨1, [0]⟩, ⟨1, [some ⟨⟨0, 0⟩, 7⟩]⟩, ⟨1, [none]⟩, rfl, runs_reusedPool, rfl,
    Runs.start.step (.allocate hcreate), rfl, rfl, rfl, rfl, rfl, ?_, rfl, rfl, rfl, rfl, rfl⟩
  exact PriorityQueue.offer_of_nil rfl

end Pool

end RecordPool
