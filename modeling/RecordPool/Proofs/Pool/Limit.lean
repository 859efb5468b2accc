/-
# The limit of a pool

How many slots a pool can hand out over any run, and when it refuses another
one.  A single array stops at the limit of its plan.  Blocks are appended
whole and a request within the present capacity is never refused, so that a
pool of blocks stops at the ceiling of its plan, the limit rounded up to whole
blocks: the limit binds exactly for the plans whose blocks fill it.
-/
import RecordPool.Pool.Attribute
import RecordPool.Proofs.Pool.Allocation

namespace RecordPool

variable {β F : Type} [Memory β F]

/-! ## Stores -/

namespace Store

/-- The store follows the plan: it has the arrangement and the limit of the
plan, consists of whole blocks, appends such blocks and stays below the
ceiling. -/
structure Follows (s : Store β) (plan : StorePlan) : Prop where
  blockSize : s.blockSize = plan.blockSize
  limit : s.limit = plan.limit
  whole : ∀ size, plan.blockSize = some size → size ∣ s.capacity
  mask : ∀ size, plan.blockSize = some size → s.mask + 1 = size
  capacity_le : s.capacity ≤ plan.ceiling

variable {s s' : Store β} {plan : StorePlan}

/-- Writing a record changes neither the arrangement nor the room. -/
theorem Follows.write (h : s.Follows plan) {index : Nat} {values : List β}
    (hwrite : s.write index values = .ok s') : s'.Follows plan ∧ s'.capacity = s.capacity := by
  obtain ⟨block, -, hrest⟩ := bind_eq_ok_iff.mp hwrite
  obtain ⟨start, -, hput⟩ := bind_eq_ok_iff.mp hrest
  split at hput
  · cases hput
    exact ⟨⟨h.blockSize, h.limit, h.whole, h.mask, h.capacity_le⟩, rfl⟩
  · cases hput

/-- Appending a block below the limit stays below the ceiling. -/
theorem Follows.appendBlock (h : s.Follows plan) (hvalid : plan.validate = .ok ())
    (hrange : plan.InRange) {size : Nat} (hmode : plan.blockSize = some size)
    (hlimit : s.capacity < plan.limit) (happend : s.appendBlock = .ok s') :
    s'.Follows plan ∧ s'.capacity = s.capacity + size := by
  obtain ⟨-, hpos⟩ := StorePlan.dvd_of_validate hvalid hrange hmode
  obtain ⟨hwhole, hle, -⟩ := StorePlan.ceiling_spec hpos hmode
  have hceiling := StorePlan.ceiling_le hvalid hrange
  have hroom : s.capacity + size ≤ plan.ceiling :=
    StorePlan.add_le_of_dvd_of_lt (h.whole size hmode) hwhole (by omega)
  have hsum : addCountCapped s.capacity size = s.capacity + size := by
    unfold addCountCapped countBound
    omega
  obtain ⟨next, hcount, hrest⟩ := bind_eq_ok_iff.mp happend
  obtain rfl : next = size := (eq_of_addCount hcount).trans (h.mask size hmode)
  obtain ⟨block, -, hput⟩ := bind_eq_ok_iff.mp hrest
  cases hput
  refine ⟨⟨h.blockSize, h.limit, fun size' hsize' => ?_, h.mask, ?_⟩, hsum⟩
  · obtain rfl : next = size' := Option.some.inj (hmode.symm.trans hsize')
    show next ∣ addCountCapped s.capacity next
    rw [hsum]
    exact Nat.dvd_add (h.whole next hmode) (Nat.dvd_refl next)
  · show addCountCapped s.capacity next ≤ plan.ceiling
    rw [hsum]
    exact hroom

/-- Appending blocks for a request within the limit stays below the ceiling
and makes the room. -/
theorem Follows.appendUntil (hvalid : plan.validate = .ok ()) (hrange : plan.InRange)
    {size required fuel : Nat} (hmode : plan.blockSize = some size)
    (hrequired : required ≤ plan.limit) (h : s.Follows plan)
    (hfuel : required ≤ s.capacity + fuel)
    (happend : appendUntil required fuel s = .ok s') :
    s'.Follows plan ∧ required ≤ s'.capacity := by
  obtain ⟨-, hpos⟩ := StorePlan.dvd_of_validate hvalid hrange hmode
  induction fuel generalizing s with
  | zero =>
      cases happend
      exact ⟨h, hfuel⟩
  | succ fuel ih =>
      rw [Store.appendUntil] at happend
      split at happend
      · obtain ⟨s₁, hone, hrest⟩ := bind_eq_ok_iff.mp happend
        obtain ⟨h₁, hcap⟩ := h.appendBlock hvalid hrange hmode (by omega) hone
        exact ih h₁ (by omega) hrest
      · cases happend
        exact ⟨h, by omega⟩

/-- A new store follows its plan. -/
theorem follows_of_make {recordSize : Nat} (hvalid : plan.validate = .ok ())
    (hrange : plan.InRange) (hmake : make recordSize plan = .ok s) : s.Follows plan := by
  obtain ⟨-, -, hinitial, -⟩ := StorePlan.validate_eq_ok_iff.mp hvalid
  obtain ⟨shift, mask, haddressing, hmade⟩ := make_eq_ok_iff.mp hmake
  have hmask : ∀ size, plan.blockSize = some size → mask + 1 = size := fun size hsize =>
    (StorePlan.splits_of_addressing hvalid hrange haddressing hsize).succ_mask
  cases hmade with
  | single hmode _ heq =>
      subst heq
      refine ⟨hmode.symm, rfl, fun size hsize => ?_, hmask, ?_⟩
      · rw [hmode] at hsize
        cases hsize
      · show plan.initial ≤ plan.ceiling
        rw [StorePlan.ceiling, hmode]
        exact hinitial
  | blocks hmode happend =>
      refine (Follows.appendUntil hvalid hrange hmode hinitial ?_ ?_ happend).1
      · exact ⟨hmode.symm, rfl, fun _ _ => Nat.dvd_zero _, hmask, Nat.zero_le _⟩
      · exact Nat.le_add_left _ _

/-- **What a request can lead to.**  It is refused when it exceeds both the
capacity and the limit, and otherwise leaves enough room in a store that still
follows the plan. -/
theorem Follows.reserve (h : s.Follows plan) (hvalid : plan.validate = .ok ())
    (hrange : plan.InRange) {required : Nat} {outcome : Except PoolError Bool}
    (hreserve : s.reserve required = .ok (outcome, s')) :
    (outcome = .error (.capacityExceeded required plan.limit) ∧ s.capacity < required ∧
        plan.limit < required ∧ s' = s) ∨
      ((∃ grew, outcome = .ok grew) ∧ s'.Follows plan ∧ required ≤ s'.capacity ∧
        (required ≤ s.capacity ∨ required ≤ plan.limit)) := by
  rw [Store.reserve] at hreserve
  split at hreserve
  · rename_i hle
    cases hreserve
    exact Or.inr ⟨⟨false, rfl⟩, h, hle, Or.inl hle⟩
  rename_i hgt
  split at hreserve
  · rename_i hlimit
    cases hreserve
    rw [h.limit] at hlimit ⊢
    exact Or.inl ⟨rfl, by omega, hlimit, rfl⟩
  rename_i hlimit
  rw [h.limit] at hlimit
  obtain ⟨grown, henlarge, hput⟩ := bind_eq_ok_iff.mp hreserve
  cases hput
  -- counting the growth changes nothing that the plan is about
  suffices hgrown : grown.Follows plan ∧ required ≤ grown.capacity from
    Or.inr ⟨⟨true, rfl⟩, ⟨hgrown.1.blockSize, hgrown.1.limit, hgrown.1.whole, hgrown.1.mask,
      hgrown.1.capacity_le⟩, hgrown.2, Or.inr (by omega)⟩
  rw [enlarge] at henlarge
  split at henlarge
  · rename_i hmode
    rw [h.blockSize] at hmode
    obtain ⟨hge, hle⟩ := grownCapacity_spec (s := s) (by rw [h.limit]; omega : required ≤ s.limit)
    obtain ⟨first, -, hrest⟩ := bind_eq_ok_iff.mp henlarge
    obtain ⟨block, -, hput⟩ := bind_eq_ok_iff.mp hrest
    cases hput
    refine ⟨⟨h.blockSize, h.limit, fun size hsize => ?_, h.mask, ?_⟩, hge⟩
    · rw [hmode] at hsize
      cases hsize
    · show s.grownCapacity required ≤ plan.ceiling
      rw [StorePlan.ceiling, hmode, ← h.limit]
      exact hle
  · rename_i size hmode
    rw [h.blockSize] at hmode
    exact Follows.appendUntil hvalid hrange hmode (by omega) h (by omega) henlarge

end Store

/-! ## Pools -/

namespace Pool

/-- The pools that arise from a plan by handing out, taking back and clearing
in any order; a refused request is a step as well. -/
inductive Reachable (plan : StorePlan) : Pool β → Prop where
  | make {id : PoolId} {layout : Layout} {reset : Reset β} {p : Pool β} :
      Pool.make id layout plan reset = pure p → Reachable plan p
  | allocate {p p' : Pool β} {r r' : Reference} {outcome : Except PoolError RecordIndex} :
      Reachable plan p → p.allocate r = .ok (outcome, p', r') → Reachable plan p'
  | delete {p p' : Pool β} {r : Reference} :
      Reachable plan p → p.delete r = .ok p' → Reachable plan p'
  | clear {p : Pool β} : Reachable plan p → Reachable plan p.clear

/-- The pool's store follows the plan and has memory for each slot that was
handed out. -/
structure Follows (p : Pool β) (plan : StorePlan) : Prop where
  store : p.store.Follows plan
  allocated_le : p.allocated ≤ p.store.capacity

/-- The pool refuses to hand out a slot because it is full. -/
def Refuses (p : Pool β) (r : Reference) : Prop :=
  ∃ requested max p' r', p.allocate r = .ok (.error (.capacityExceeded requested max), p', r')

variable {p p' : Pool β} {plan : StorePlan} {r r' : Reference}

/-- Resetting a slot touches cells only. -/
theorem Follows.resetRecord (h : p.Follows plan) {index : Nat}
    (hreset : p.resetRecord index = .ok p') : p'.Follows plan := by
  obtain ⟨cells, -, hrest⟩ := bind_eq_ok_iff.mp hreset
  obtain ⟨store, hwrite, hput⟩ := bind_eq_ok_iff.mp hrest
  obtain ⟨hstore, hcap⟩ := h.store.write hwrite
  cases hput
  exact ⟨hstore, by rw [hcap]; exact h.allocated_le⟩

/-- Putting a slot into use hands out no further one. -/
theorem Follows.occupy (h : p.Follows plan) {index : Nat}
    (hoccupy : p.occupy index r = .ok (p', r')) : p'.Follows plan := by
  obtain ⟨wasLive, -, hrest⟩ := bind_eq_ok_iff.mp hoccupy
  obtain ⟨p₁, hreset, hrest⟩ := bind_eq_ok_iff.mp hrest
  obtain ⟨generation, -, hput⟩ := bind_eq_ok_iff.mp hrest
  have h₁ := h.resetRecord hreset
  cases hput
  exact ⟨h₁.store, h₁.allocated_le⟩

/-- Handing out keeps to the plan, and is refused only by a pool without free
slots whose capacity and limit are both used up. -/
theorem Follows.allocate (h : p.Follows plan) (hvalid : plan.validate = .ok ())
    (hrange : plan.InRange) {outcome : Except PoolError RecordIndex}
    (hallocate : p.allocate r = .ok (outcome, p', r')) :
    p'.Follows plan ∧ (∀ refusal, outcome = .error refusal →
      p.free = [] ∧ p.store.capacity ≤ p.allocated ∧ plan.limit ≤ p.allocated) := by
  obtain ⟨-, -, hrest⟩ := bind_eq_ok_iff.mp hallocate
  cases hfree : p.free with
  | cons index free =>
      rw [hfree] at hrest
      obtain ⟨⟨p₁, r₁⟩, hoccupy, hput⟩ := bind_eq_ok_iff.mp hrest
      have hq : ({ p with free } : Pool β).Follows plan := ⟨h.store, h.allocated_le⟩
      have h₁ := hq.occupy hoccupy
      cases hput
      exact ⟨h₁, fun refusal hrefusal => by cases hrefusal⟩
  | nil =>
      rw [hfree] at hrest
      obtain ⟨required, hcount, hrest⟩ := bind_eq_ok_iff.mp hrest
      obtain rfl := eq_of_addCount hcount
      obtain ⟨⟨granted, store⟩, hreserve, hrest⟩ := bind_eq_ok_iff.mp hrest
      rcases h.store.reserve hvalid hrange hreserve with
        ⟨rfl, hcap, hlimit, rfl⟩ | ⟨⟨grew, rfl⟩, hstore, hroom, -⟩
      · cases hrest
        exact ⟨⟨h.store, h.allocated_le⟩, fun _ _ => ⟨rfl, by omega, by omega⟩⟩
      · obtain ⟨⟨p₁, r₁⟩, hoccupy, hput⟩ := bind_eq_ok_iff.mp hrest
        have hq : (p.addSlot store).Follows plan := ⟨hstore, hroom⟩
        have h₁ := hq.occupy hoccupy
        cases hput
        exact ⟨h₁, fun refusal hrefusal => by cases hrefusal⟩

/-- Writing a record touches cells only. -/
theorem Follows.setRecord (h : p.Follows plan) (i : Nat) (cells : List β) :
    (p.setRecord i cells).Follows plan :=
  ⟨⟨h.store.blockSize, h.store.limit, h.store.whole, h.store.mask, h.store.capacity_le⟩,
    h.allocated_le⟩

/-- Taking a record back leaves the store as it is, but for cells. -/
theorem Follows.delete (h : p.Follows plan) (hdelete : p.delete r = .ok p') :
    p'.Follows plan := by
  obtain ⟨index, -, hrest⟩ := bind_eq_ok_iff.mp hdelete
  obtain ⟨p₁, hreset, hrest⟩ := bind_eq_ok_iff.mp hrest
  obtain ⟨generation, -, hrest⟩ := bind_eq_ok_iff.mp hrest
  obtain ⟨wasLive, -, hput⟩ := bind_eq_ok_iff.mp hrest
  have h₁ := h.resetRecord hreset
  cases hput
  exact ⟨h₁.store, h₁.allocated_le⟩

/-- Every pool that arises from a valid plan follows it. -/
theorem Reachable.follows (h : Reachable plan p) (hvalid : plan.validate = .ok ())
    (hrange : plan.InRange) : p.Follows plan := by
  induction h with
  | @make id layout reset p hmake =>
      rw [Pool.make, hvalid] at hmake
      cases hstore : (Store.make layout.size plan : Checked (Store β)) with
      | error fault =>
          rw [hstore] at hmake
          cases hmake
      | ok store =>
          rw [hstore] at hmake
          cases hmake
          exact ⟨Store.follows_of_make hvalid hrange hstore, Nat.zero_le _⟩
  | allocate _ hallocate ih => exact (ih.allocate hvalid hrange hallocate).1
  | delete _ hdelete ih => exact ih.delete hdelete
  | clear _ ih => exact ⟨ih.store, Nat.zero_le _⟩

/-! ## Where a pool stops -/

/-- A store that reaches the limit reaches the ceiling, as it consists of
whole blocks. -/
theorem Follows.ceiling_le_capacity (h : p.Follows plan) (hvalid : plan.validate = .ok ())
    (hrange : plan.InRange) (hlimit : plan.limit ≤ p.store.capacity) :
    plan.ceiling ≤ p.store.capacity := by
  cases hmode : plan.blockSize with
  | none =>
      rw [StorePlan.ceiling, hmode]
      exact hlimit
  | some size =>
      obtain ⟨-, hpos⟩ := StorePlan.dvd_of_validate hvalid hrange hmode
      exact StorePlan.ceiling_le_of_dvd hpos hmode (h.store.whole size hmode) hlimit

/-- The ceiling of a valid plan is not below its limit. -/
theorem limit_le_ceiling (hvalid : plan.validate = .ok ()) (hrange : plan.InRange) :
    plan.limit ≤ plan.ceiling :=
  StorePlan.limit_le_ceiling fun _ hmode => (StorePlan.dvd_of_validate hvalid hrange hmode).2

/-- A pool refuses exactly when no slot is free and the ceiling is reached. -/
theorem Follows.refuses_iff (h : p.Follows plan) (hvalid : plan.validate = .ok ())
    (hrange : plan.InRange) (hr : r.pool = p.id) :
    p.Refuses r ↔ p.free = [] ∧ p.allocated = plan.ceiling := by
  have hallocated := h.allocated_le
  have hcapacity := h.store.capacity_le
  constructor
  · rintro ⟨requested, max, p', r', hallocate⟩
    obtain ⟨hfree, hcap, hlimit⟩ := (h.allocate hvalid hrange hallocate).2 _ rfl
    have hceiling := h.ceiling_le_capacity hvalid hrange (by omega)
    exact ⟨hfree, by omega⟩
  · rintro ⟨hfree, hfull⟩
    have hlimit := limit_le_ceiling hvalid hrange
    have hceiling := StorePlan.ceiling_le hvalid hrange
    have hsmall : p.allocated + 1 < countBound := by
      have hbound : (2 : Nat) ^ 31 + 1 < countBound := by decide
      omega
    have hrefused : p.store.reserve (p.allocated + 1) =
        .ok (.error (.capacityExceeded (p.allocated + 1) plan.limit), p.store) := by
      rw [Store.reserve, if_neg (by omega), if_pos (by rw [h.store.limit]; omega), h.store.limit]
      rfl
    refine ⟨p.allocated + 1, plan.limit, { p with free := [] }, r, ?_⟩
    rw [Pool.allocate, demand_own hr, ok_bind, hfree]
    dsimp only
    rw [addCount_eq_ok hsmall, ok_bind, hrefused, ok_bind]
    rfl

/-- A record of one integer. -/
def counterLayout : Layout :=
  ⟨0, [⟨"value", .scalar .int, 0⟩], 4⟩

/-- Some run hands out any number of slots up to the ceiling: below the limit
the store grows, and once it reaches the limit it has memory up to the
ceiling. -/
theorem exists_reachable_of_le_ceiling (hvalid : plan.validate = .ok ()) (hrange : plan.InRange)
    {count : Nat} (hcount : count ≤ plan.ceiling) :
    ∃ p : Pool β, Reachable plan p ∧ p.Sound ∧ p.layout = counterLayout ∧
      p.store.limit = plan.limit ∧ p.free = [] ∧ p.allocated = count := by
  have hbound : 2 ^ 31 * counterLayout.size < sizeBound := by decide
  induction count with
  | zero =>
      obtain ⟨p, hmake, hsound, -, hlayout, -, hallocated, hfree, hlimit, -⟩ :=
        make_eq (β := β) hvalid hrange hbound 0 .keep
      exact ⟨p, .make hmake, hsound, hlayout, hlimit, hfree, hallocated⟩
  | succ count ih =>
      obtain ⟨p, hreach, hsound, hlayout, hlimit, hfree, rfl⟩ := ih (by omega)
      have hfollows := hreach.follows hvalid hrange
      have hroom : p.HasRoom := by
        by_cases hlt : p.allocated < plan.limit
        · exact Or.inr ⟨by omega, by rw [hlayout]; exact hbound⟩
        · -- the limit is used up, but the last block has slots beyond it
          have hallocated := hfollows.allocated_le
          have hceiling := hfollows.ceiling_le_capacity hvalid hrange (by omega)
          exact Or.inl (by omega)
      obtain ⟨p', hallocate, halloc, hallocated, hfree'⟩ :=
        hsound.allocate_of_full (r := p.newReference) rfl hfree hroom
      exact ⟨p', hreach.allocate hallocate, halloc.sound, halloc.layout.trans hlayout,
        halloc.limit.trans hlimit, hfree', hallocated⟩

/-- Over every run of the plan at most `bound` slots are handed out, and a
request is refused exactly when that many are handed out and none is free. -/
def StopsAt (β : Type) {F : Type} [Memory β F] (plan : StorePlan) (bound : Nat) : Prop :=
  ∀ p : Pool β, Reachable plan p → p.allocated ≤ bound ∧
    ∀ r : Reference, r.pool = p.id → (p.Refuses r ↔ p.free = [] ∧ p.allocated = bound)

/-- Every pool stops at the ceiling of its plan. -/
theorem stopsAt_ceiling (hvalid : plan.validate = .ok ()) (hrange : plan.InRange) :
    StopsAt β plan plan.ceiling := by
  intro p hreach
  have hfollows := hreach.follows hvalid hrange
  exact ⟨hfollows.allocated_le.trans hfollows.store.capacity_le,
    fun r hr => hfollows.refuses_iff hvalid hrange hr⟩

/-- A pool stops at one place only. -/
theorem eq_ceiling_of_stopsAt (hvalid : plan.validate = .ok ()) (hrange : plan.InRange)
    {bound : Nat} (hstops : StopsAt β plan bound) : bound = plan.ceiling := by
  obtain ⟨p, hreach, -, -, -, hfree, hfull⟩ :=
    exists_reachable_of_le_ceiling (β := β) hvalid hrange (Nat.le_refl plan.ceiling)
  have hrefuses : p.Refuses p.newReference :=
    ((hreach.follows hvalid hrange).refuses_iff hvalid hrange rfl).mpr ⟨hfree, hfull⟩
  have hbound := (((hstops p hreach).2 p.newReference rfl).mp hrefuses).2
  exact hbound.symm.trans hfull

/-- **The limit binds exactly when the blocks fill it.**  Every pool stops at
the ceiling of its plan, which is the limit for a single array and for blocks
that fill the limit without a rest, and lies above the limit otherwise. -/
theorem stopsAt_limit_iff_wholeBlocks (hvalid : plan.validate = .ok ()) (hrange : plan.InRange) :
    StopsAt β plan plan.ceiling ∧ (StopsAt β plan plan.limit ↔ plan.WholeBlocks) := by
  have hpos : ∀ size, plan.blockSize = some size → 0 < size := fun _ hmode =>
    (StorePlan.dvd_of_validate hvalid hrange hmode).2
  refine ⟨stopsAt_ceiling hvalid hrange, ?_⟩
  rw [← StorePlan.ceiling_eq_limit_iff hpos]
  constructor
  · intro hstops
    exact (eq_ceiling_of_stopsAt hvalid hrange hstops).symm
  · intro heq
    rw [← heq]
    exact stopsAt_ceiling hvalid hrange

/-- Blocks of four do not fill a limit of six: such a pool stops at eight. -/
theorem stopsAt_eight_of_blocks_four :
    StopsAt UInt8 ((StorePlan.blocks 0 4).withLimit 6) 8 ∧
      ¬ StopsAt UInt8 ((StorePlan.blocks 0 4).withLimit 6) 6 := by
  have hvalid : ((StorePlan.blocks 0 4).withLimit 6).validate = .ok () := by decide
  have hrange : ((StorePlan.blocks 0 4).withLimit 6).InRange := by
    rintro size ⟨⟩
    decide
  obtain ⟨hceiling, hlimit⟩ := stopsAt_limit_iff_wholeBlocks (β := UInt8) hvalid hrange
  refine ⟨hceiling, fun hstops => ?_⟩
  have hdvd : 4 ∣ 6 := hlimit.mp hstops 4 rfl
  omega

/-- With a limit of one and blocks of two, which a pool accepts, a run hands
out two slots. -/
theorem exists_two_slots_of_limit_one :
    ((StorePlan.blocks 0 2).withLimit 1).validate = .ok () ∧
      ∃ p : Pool UInt8, Reachable ((StorePlan.blocks 0 2).withLimit 1) p ∧ p.allocated = 2 := by
  have hvalid : ((StorePlan.blocks 0 2).withLimit 1).validate = .ok () := by decide
  have hrange : ((StorePlan.blocks 0 2).withLimit 1).InRange := by
    rintro size ⟨⟩
    decide
  have hceiling : 2 ≤ ((StorePlan.blocks 0 2).withLimit 1).ceiling := by decide
  obtain ⟨p, hreach, -, -, -, -, hallocated⟩ :=
    exists_reachable_of_le_ceiling (β := UInt8) hvalid hrange hceiling
  exact ⟨hvalid, p, hreach, hallocated⟩

end Pool

end RecordPool
