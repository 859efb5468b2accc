/-
# Arithmetic of pools within the machine range

Whatever is created, taken back, dropped or asked for, a pool of a valid plan
never computes a number that leaves the machine range, as long as all records
that there could be fit into the memory.  Blocks are appended up to the first
whole number of them beyond the limit, which may be all of the largest count
of records but never more; so each index that is handed out can be stored in
an index attribute.
-/
import RecordPool.Proofs.Pool.Attributes
import RecordPool.Proofs.Pool.Integrity
import RecordPool.Proofs.Store.Strict

namespace RecordPool

variable {β F : Type} [Memory β F]

/-! ## Walks -/

namespace Cursor

/-- A step of a walk looks at no more slots than it was told to. -/
theorem next_of_scan {p : Pool β} {count next : Nat} {found : Option RecordIndex}
    {c : Cursor} (hscan : scan p count next = .ok (found, c)) : c.next ≤ next + count := by
  induction count generalizing next with
  | zero =>
      cases hscan
      exact Nat.le_refl next
  | succ count ih =>
      obtain ⟨live, -, hrest⟩ := bind_eq_ok_iff.mp hscan
      cases live with
      | false =>
          have hle := ih hrest
          omega
      | true =>
          cases hrest
          show next + 1 ≤ next + (count + 1)
          omega

/-- A walk does not go beyond the slots handed out. -/
theorem next_of_advance {p : Pool β} {c c' : Cursor} {r r' : Reference} {more : Bool}
    (hadvance : c.advance p r = .ok (more, c', r')) : c'.next ≤ max c.next p.allocated := by
  obtain ⟨⟨found, c₁⟩, hscan, hrest⟩ := bind_eq_ok_iff.mp hadvance
  have hle : c₁.next ≤ c.next + (p.allocated - c.next) := next_of_scan hscan
  cases found with
  | none =>
      cases hrest
      omega
  | some i =>
      obtain ⟨r₁, -, hput⟩ := bind_eq_ok_iff.mp hrest
      cases hput
      omega

end Cursor

namespace Pool

variable {p p' : Pool β} {h events : History} {id : PoolId} {layout : Layout} {plan : StorePlan}
  {reset : Reset β} {i : Nat} {r r' : Reference}

/-! ## Pools in operation -/

/-- A pool after any operations, and after any requests to its store. -/
inductive Operated (id : PoolId) (layout : Layout) (plan : StorePlan) (reset : Reset β) :
    Pool β → Prop where
  | made {p : Pool β} : make id layout plan reset = pure p → Operated id layout plan reset p
  | does {p p' : Pool β} {events : History} :
      Operated id layout plan reset p → p.Does events p' → Operated id layout plan reset p'
  | reserve {p : Pool β} {required : Nat} {outcome : Except PoolError Bool} {store : Store β} :
      Operated id layout plan reset p → p.store.reserve required = .ok (outcome, store) →
        Operated id layout plan reset { p with store }

/-- A sound pool of the layout whose store keeps to the plan. -/
structure Regular (p : Pool β) (layout : Layout) (plan : StorePlan) : Prop where
  sound : p.Sound
  layout_eq : p.layout = layout
  store : p.store.Regular layout.size plan

section Regular

variable (hbound : 2 ^ 31 * layout.size < sizeBound)
include hbound

/-- **Every operation** keeps a pool regular. -/
theorem Regular.does (hreg : p.Regular layout plan) (hdoes : p.Does events p') :
    p'.Regular layout plan := by
  obtain ⟨hsound, hlayout⟩ := hreg.sound.does hdoes
  refine ⟨hsound, hlayout.trans hreg.layout_eq, ?_⟩
  rcases hreg.sound.store_of_does hdoes with ⟨i, r, r', -, hallocate⟩ | heq | ⟨i, cells, heq⟩
  · obtain ⟨store, cells, heq, rfl | ⟨-, -, grew, hreserve⟩⟩ :=
      hreg.sound.store_of_allocate hallocate
    · rw [heq]
      exact hreg.store.setRecord i cells
    · rw [heq]
      exact (hreg.store.reserve hbound hreserve).1.setRecord i cells
  · rw [heq]
    exact hreg.store
  · rw [heq]
    exact hreg.store.setRecord i cells

/-- **Every request** to the store keeps a pool regular. -/
theorem Regular.reserve (hreg : p.Regular layout plan) {required : Nat}
    {outcome : Except PoolError Bool} {store : Store β}
    (hreserve : p.store.reserve required = .ok (outcome, store)) :
    ({ p with store } : Pool β).Regular layout plan := by
  obtain ⟨hstore, hcapacity⟩ := hreg.store.reserve hbound hreserve
  have hs := hreg.sound
  exact {
    sound := {
      store := hstore.sound
      recordSize := hstore.recordSize.trans (congrArg Layout.size hreg.layout_eq).symm
      live_size := hs.live_size
      allocated_le_generations := hs.allocated_le_generations
      allocated_le_capacity := hs.allocated_le_capacity.trans hcapacity
      free_nodup := hs.free_nodup
      mem_free_iff := hs.mem_free_iff }
    layout_eq := hreg.layout_eq
    store := hstore }

/-- **Every pool in operation** is regular. -/
theorem Operated.regular (hrange : plan.InRange) (hop : Operated id layout plan reset p) :
    p.Regular layout plan := by
  induction hop with
  | @made p hmake =>
      obtain ⟨_, hvalid, hrest⟩ := bind_eq_pure_iff.mp hmake
      obtain ⟨store, hstore, hput⟩ := bind_eq_pure_iff.mp hrest
      refine ⟨(sound_of_make hrange hmake).1, layout_of_make hmake, ?_⟩
      cases hput
      exact Store.Regular.of_make (Except.ok.inj hvalid) hrange hbound (eq_ok_of_lift hstore)
  | does _ hdoes ih => exact ih.does hbound hdoes
  | reserve _ hreserve ih => exact ih.reserve hbound hreserve

end Regular

/-! ## Indices -/

/-- The index can be stored: where a record in use has an attribute for
indices, it is written there, is not too large, and is read back. -/
def RoundTrips (β : Type) {F : Type} [Memory β F] (i : RecordIndex) : Prop :=
  ∀ (q : Pool β) (s : Reference) (j : RecordIndex) (a : Attribute .index), q.Sound →
    q.require s = .ok j → a.Within q.layout.size →
      ∃ q' : Pool β, a.put (F := F) q s (some i) = .ok q' ∧ a.get (F := F) q' s = .ok (some i)

/-- An index within its signed form can be stored. -/
theorem roundTrips (hi : i ≤ indexLimit) : RoundTrips β i := by
  intro q s j a hq hrequire hfit
  obtain ⟨hj, rfl⟩ := hq.require_eq_ok_iff.mp hrequire
  have hvalue : Kind.Storable (F := F) .index (some i) := hi
  obtain ⟨q', cells, hput, hrewrites, hwrites⟩ := Attribute.put_eq hq hj hfit hvalue
  refine ⟨q', hput, ?_⟩
  have hread := Attribute.get_eq (F := F) hrewrites.sound (hrewrites.isLive_iff.mpr hj)
    (hrewrites.layout ▸ hfit)
  rw [hrewrites.referenceTo] at hread
  rw [hread, hrewrites.contents_self, hwrites.read]

/-! ## Every pool in operation -/

/-- Every number that the pool computes is within the machine range. -/
structure WithinRange (p : Pool β) (plan : StorePlan) : Prop where
  /-- There is room for no more than the largest count of records. -/
  capacity_le : p.store.capacity ≤ 2 ^ 31
  /-- A block is not empty nor larger than that, and the blocks hold exactly
  the capacity. -/
  blocks : ∀ size, plan.blockSize = some size →
    0 < size ∧ size ≤ 2 ^ 31 ∧ p.store.capacity = p.store.blocks.size * size
  /-- The number of slots handed out may be counted up. -/
  allocated_lt : p.allocated + 1 < countBound
  /-- The index of each slot handed out is within its signed form. -/
  index_le : ∀ i < p.allocated, i ≤ indexLimit
  /-- No operation of the pool is cut short by its arithmetic. -/
  uninterrupted : p.Uninterrupted .arithmetic
  /-- No request is cut short by its arithmetic. -/
  reserve : ∀ required, Avoids .arithmetic (p.store.reserve required)
  /-- No count is cut off in a request. -/
  strict : ∀ required, p.store.reserveStrict required = p.store.reserve required
  /-- Nor is a sum of cells. -/
  memory : p.store.memoryStrict = .ok p.store.memory
  /-- A record is found without leaving the range. -/
  record : ∀ i < p.store.capacity, Avoids .arithmetic (p.store.record i)
  /-- So it is to be written. -/
  write : ∀ i < p.store.capacity, ∀ cells, Avoids .arithmetic (p.store.write i cells)
  /-- So it is to be copied. -/
  copy : ∀ i < p.store.capacity, ∀ j < p.store.capacity, Avoids .arithmetic (p.store.copy i j)
  /-- A walk counts no further than to the slots handed out. -/
  next_le : ∀ (c c' : Cursor) (r r' : Reference) (more : Bool),
    c.advance p r = .ok (more, c', r') → c'.next ≤ max c.next p.allocated

/-- A regular pool is within the machine range. -/
theorem Regular.withinRange (hbound : 2 ^ 31 * layout.size < sizeBound)
    (hreg : p.Regular layout plan) : p.WithinRange plan := by
  have hsound := hreg.sound
  have hstore := hsound.store
  have hallocated := hsound.allocated_le_capacity.trans hstore.capacity_le
  have hfits : 2 ^ 31 * p.store.recordSize < sizeBound := by
    rw [hreg.store.recordSize]
    exact hbound
  exact {
    capacity_le := hstore.capacity_le
    blocks := by
      intro size hmode
      have hmode' := hreg.store.blockSize.trans hmode
      have hdvd := hstore.divides size hmode'
      exact ⟨Nat.pos_of_dvd_of_pos hdvd (by decide), Nat.le_of_dvd (by decide) hdvd,
        (hstore.size_mul_eq hmode').symm⟩
    allocated_lt := by
      unfold countBound
      omega
    index_le := by
      intro i hi
      unfold indexLimit
      omega
    uninterrupted := by
      apply hsound.uninterrupted
      · rintro violation ⟨⟩
      · intro _
        rw [hreg.layout_eq]
        exact hbound
    reserve := by
      intro required
      rcases hstore.reserve_outcomes hfits required with
        ⟨-, heq⟩ | ⟨s', heq, -⟩ | ⟨heq, -⟩ <;>
      exact avoids_of_eq_ok heq
    strict := hreg.store.reserveStrict_eq hbound
    memory := hstore.memoryStrict_eq hfits
    record := fun i hi => avoids_of_eq_ok (hstore.record_eq hi)
    write := fun i hi cells => hstore.avoids_write hi cells
    copy := fun i hi j hj => avoids_of_eq_ok (hstore.copy_eq_setRecord hi hj)
    next_le := fun c c' r r' more hadvance => Cursor.next_of_advance hadvance }

/-- **Index arithmetic stays in range.**  A pool of a valid plan can be made,
and whatever is done with it then, no number that it computes leaves the
machine range or is cut off; each index that it hands out is no larger than
the signed form allows, so that it can be stored. -/
theorem within_range_of_operated (hvalid : plan.validate = .ok ()) (hrange : plan.InRange)
    (hbound : 2 ^ 31 * layout.size < sizeBound) (id : PoolId) (reset : Reset β) :
    (Store.makeStrict layout.size plan : Checked (Store β)) = Store.make layout.size plan ∧
      (∃ p : Pool β, make id layout plan reset = pure p) ∧
      ∀ p : Pool β, Operated id layout plan reset p → p.WithinRange plan ∧
        ∀ (r r' : Reference) (i : Nat) (p' : Pool β),
          p.allocate r = .ok (.ok i, p', r') ∨ p.create r = .ok (i, p', r') →
            i ≤ indexLimit ∧ i ≠ countBound - 1 ∧ RoundTrips β i := by
  obtain ⟨p₀, hmake, -⟩ := make_eq (β := β) hvalid hrange hbound id reset
  refine ⟨Store.makeStrict_eq hvalid hrange hbound, ⟨p₀, hmake⟩, fun p hop => ?_⟩
  have hreg := hop.regular hbound hrange
  refine ⟨hreg.withinRange hbound, fun r r' i p' hcreate => ?_⟩
  have hdoes : p.Does [.created i] p' := hcreate.elim .allocate .create
  have hreg' := hreg.does hbound hdoes
  have hlt : i < p'.allocated := by
    apply hreg'.sound.lt_allocated
    exact ((hreg.sound.allocates_of_does hdoes).live i).mpr (Or.inl rfl)
  have hle := (hreg'.withinRange hbound).index_le i hlt
  refine ⟨hle, ?_, roundTrips hle⟩
  unfold indexLimit at hle
  unfold countBound
  omega

/-- The first record of a pool takes a block of the largest size, which is more
than the pool may hold, and everything stays within the machine range. -/
theorem within_range_of_largest_block :
    (StorePlan.blocks 0 (2 ^ 31)).validate = .ok () ∧ (StorePlan.blocks 0 (2 ^ 31)).InRange ∧
      2 ^ 31 * counterLayout.size < sizeBound ∧
      ∃ p : Pool UInt8, Operated 0 counterLayout (.blocks 0 (2 ^ 31)) .keep p ∧
        p.WithinRange (.blocks 0 (2 ^ 31)) ∧ p.allocated = 1 ∧ p.store.capacity = 2 ^ 31 ∧
        p.store.limit < p.store.capacity := by
  have hvalid : (StorePlan.blocks 0 (2 ^ 31)).validate = .ok () := by
    rw [StorePlan.validate_eq_ok_iff]
    refine ⟨by decide, Nat.le_refl _, Nat.zero_le _, ?_⟩
    rintro size ⟨⟩
    decide
  have hrange : (StorePlan.blocks 0 (2 ^ 31)).InRange := by
    rintro size ⟨⟩
    decide
  have hbound : 2 ^ 31 * counterLayout.size < sizeBound := by decide
  obtain ⟨p₀, hmake, hsound, hid, hlayout, -, hnone, hfree, hlimit, -⟩ :=
    make_eq (β := UInt8) hvalid hrange hbound 0 .keep
  have hroom : p₀.HasRoom := by
    refine Or.inr ⟨?_, ?_⟩
    · rw [hnone, hlimit]
      decide
    · rw [hlayout]
      exact hbound
  obtain ⟨p, hallocate, -, hcount, -⟩ :=
    hsound.allocate_of_full (r := .unpointed 0) hid.symm hfree hroom
  have hmade : Operated 0 counterLayout (.blocks 0 (2 ^ 31)) .keep p₀ := .made hmake
  have hop : Operated 0 counterLayout (.blocks 0 (2 ^ 31)) .keep p :=
    hmade.does (.allocate hallocate)
  have hwithin := (within_range_of_operated hvalid hrange hbound 0 .keep).2.2 p hop
  have hcapacity : p.store.capacity = 2 ^ 31 := by
    have hle := hwithin.1.capacity_le
    have hroomy := (hop.regular hbound hrange).sound.allocated_le_capacity
    have hblocks := (hwithin.1.blocks (2 ^ 31) rfl).2.2
    omega
  refine ⟨hvalid, hrange, hbound, p, hop, hwithin.1, by omega, hcapacity, ?_⟩
  rw [(hop.regular hbound hrange).store.limit, hcapacity]
  decide

end Pool

end RecordPool
