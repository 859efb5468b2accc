/-
# Growth policy

How much room a pool has is told by its plan and by the largest number of slots
that were ever handed out, whatever was created, taken back and dropped: a
single array doubles, from sixteen records on, so that it grows a logarithmic
number of times; blocks are as few as hold the slots, and each growth is one.
Clearing lowers the number of slots handed out but not the room, so that the
largest number counts and not the present one.
-/
import RecordPool.Proofs.Pool.Peak
import RecordPool.Proofs.Store.Resembling

namespace RecordPool

variable {β F : Type} [Memory β F]

namespace Store

variable {s : Store β} {size limit c most : Nat} {plan : StorePlan}

/-! ## Single steps -/

/-- An array within the index range doubles, from sixteen records on. -/
theorem nextCapacity_eq (hlimit : limit ≤ indexLimit) (hless : c < limit) :
    nextCapacity limit c = min (max (2 * c) 16) limit := by
  unfold nextCapacity doubleCountCapped leastGrowth countBound
  unfold indexLimit at hlimit
  omega

/-- The blocks of a store are as many as fill its room. -/
theorem Sound.blocks_size_eq (h : s.Sound) (hmode : s.blockSize = some size) (hpos : 0 < size) :
    s.blocks.size = s.capacity / size :=
  Nat.eq_div_of_mul_eq_left hpos.ne' (h.size_mul_eq hmode)

/-! ## Policies -/

/-- A relation between the largest number of slots ever handed out and the
store is kept whatever a pool does. -/
structure Policy (β : Type) {F : Type} [Memory β F] (kept : Nat → Store β → Prop) : Prop where
  /-- It is kept as long as the store does not grow. -/
  same : ∀ {s t : Store β} {most most' : Nat}, kept most s → s.Sound → t.Sound → s.Resembles t →
    t.growths = s.growths → most ≤ most' → most' ≤ s.capacity → kept most' t
  /-- It is kept when the full store grows for one more slot. -/
  grow : ∀ {s t : Store β} {most : Nat}, kept most s → s.Sound → t.Sound → most ≤ s.capacity →
    s.Grows t → kept (s.capacity + 1) t

/-! ## Single arrays -/

/-- How a single array that follows a plan stands when the largest number of
slots handed out is `most`. -/
structure SingleGrowth (plan : StorePlan) (most : Nat) (s : Store β) : Prop where
  blockSize : s.blockSize = none
  limit : s.limit = plan.limit
  /-- It doubles, from sixteen records on, unless the limit stops it. -/
  reached : 1 ≤ s.growths → min plan.limit (2 ^ (s.growths + 3)) ≤ s.capacity
  /-- It never shrinks. -/
  initial_le : plan.initial ≤ s.capacity
  /-- It has less than twice the room that was ever needed, unless that was
  there at first or is the least growth. -/
  capacity_le : s.capacity ≤ max (max plan.initial 16) (2 * most)
  /-- It keeps to the limit. -/
  capacity_le_limit : s.capacity ≤ plan.limit
  /-- It grows again only for more slots than it had doubled to. -/
  growths : s.growths ≤ 1 ∨ 2 ^ (s.growths + 2) < most

/-- The growths are at most logarithmic in the slots. -/
theorem SingleGrowth.growths_le (h : SingleGrowth plan most s) :
    s.growths ≤ max 1 (Nat.log 2 most - 2) := by
  rcases h.growths with hone | hpow
  · omega
  · have hlog : s.growths + 2 ≤ Nat.log 2 most := Nat.le_log_of_pow_le (by omega) hpow.le
    omega

/-- **A single array** stands as told whatever a pool does. -/
theorem policy_singleGrowth (plan : StorePlan) : Policy β (SingleGrowth plan) where
  same := by
    intro s t most most' h _ _ hres hgrowths hmost _
    have hcapacity := h.capacity_le
    have hcount := h.growths
    exact {
      blockSize := hres.blockSize.trans h.blockSize
      limit := hres.limit.trans h.limit
      reached := by
        rw [hgrowths, hres.capacity]
        exact h.reached
      initial_le := hres.capacity ▸ h.initial_le
      capacity_le := by
        rw [hres.capacity]
        omega
      capacity_le_limit := hres.capacity ▸ h.capacity_le_limit
      growths := by
        rw [hgrowths]
        omega }
  grow := by
    intro s t most h hs _ _ hgrows
    have hlimit := h.limit
    have hinitial := h.initial_le
    have hless := hgrows.lt_limit
    have hnext : t.capacity = min (max (2 * s.capacity) 16) plan.limit := by
      rw [hgrows.single h.blockSize, nextCapacity_eq hs.limit_le hless, hlimit]
    -- the room that the earlier growths reached, none of which the limit has stopped
    have hreached : s.growths = 0 ∨ 2 ^ (s.growths + 3) ≤ s.capacity := by
      have := h.reached
      omega
    have hpow : 2 ^ (s.growths + 4) = 2 * 2 ^ (s.growths + 3) := pow_succ' 2 (s.growths + 3)
    exact {
      blockSize := hgrows.blockSize.trans h.blockSize
      limit := hgrows.limit.trans hlimit
      reached := by
        intro _
        rw [hgrows.growths, show s.growths + 1 + 3 = s.growths + 4 from rfl, hnext]
        rcases hreached with hzero | hreached
        · rw [hzero]
          omega
        · omega
      initial_le := by omega
      capacity_le := by omega
      capacity_le_limit := by omega
      growths := by
        rw [hgrows.growths, show s.growths + 1 + 2 = s.growths + 3 from rfl]
        omega }

/-! ## Blocks -/

/-- How blocks of `size` records, `first` of them at the beginning, stand when
the largest number of slots handed out is `most`. -/
structure BlockGrowth (plan : StorePlan) (size first most : Nat) (s : Store β) : Prop where
  blockSize : s.blockSize = some size
  /-- They are as few as have room for these slots, and for what the plan wants
  at first. -/
  capacity : IsLeast {room | size ∣ room ∧ max plan.initial most ≤ room} s.capacity
  /-- Each growth appended one. -/
  blocks : s.blocks.size = first + s.growths

/-- **Blocks** stand as told whatever a pool does. -/
theorem policy_blockGrowth (plan : StorePlan) (first : Nat) (hpos : 0 < size) :
    Policy β (BlockGrowth plan size first) where
  same := by
    intro s t most most' h hs ht hres hgrowths hmost hroom
    have hmode := hres.blockSize.trans h.blockSize
    obtain ⟨⟨hwhole, hfit⟩, hleast⟩ := h.capacity
    refine ⟨hmode, ?_, ?_⟩
    · rw [hres.capacity]
      refine ⟨⟨hwhole, by omega⟩, fun room hmem => hleast ⟨hmem.1, ?_⟩⟩
      have := hmem.2
      omega
    · rw [ht.blocks_size_eq hmode hpos, hres.capacity, ← hs.blocks_size_eq h.blockSize hpos,
        hgrowths, h.blocks]
  grow := by
    intro s t most h hs ht _ hgrows
    have hmode := hgrows.blockSize.trans h.blockSize
    have hcap := hgrows.blocks size h.blockSize
    obtain ⟨⟨hwhole, hfit⟩, -⟩ := h.capacity
    refine ⟨hmode, ?_, ?_⟩
    · rw [hcap]
      refine ⟨⟨Nat.dvd_add_self_right.mpr hwhole, by omega⟩, fun room hmem => ?_⟩
      apply StorePlan.add_le_of_dvd_of_lt hwhole hmem.1
      have := hmem.2
      omega
    · rw [ht.blocks_size_eq hmode hpos, hcap, Nat.add_div_right _ hpos,
        ← hs.blocks_size_eq h.blockSize hpos, h.blocks, hgrows.growths]
      rfl

/-! ## New stores -/

/-- A new single array stands at the beginning. -/
theorem singleGrowth_of_make {recordSize : Nat} (hvalid : plan.validate = .ok ())
    (hmode : plan.blockSize = none) (hmake : make recordSize plan = .ok s) :
    SingleGrowth plan 0 s := by
  obtain ⟨-, -, hinitial, -⟩ := StorePlan.validate_eq_ok_iff.mp hvalid
  have hgrowths := growths_of_make hmake
  obtain ⟨shift, mask, -, hmade⟩ := make_eq_ok_iff.mp hmake
  cases hmade with
  | single _ _ heq =>
      have hcap : s.capacity = plan.initial := by rw [heq]
      exact {
        blockSize := by rw [heq]
        limit := by rw [heq]
        reached := by omega
        initial_le := by omega
        capacity_le := by omega
        capacity_le_limit := by omega
        growths := by omega }
  | blocks hsome _ =>
      rw [hmode] at hsome
      cases hsome

/-- New blocks stand at the beginning. -/
theorem blockGrowth_of_make {recordSize : Nat} (hvalid : plan.validate = .ok ())
    (hrange : plan.InRange) (hmode : plan.blockSize = some size)
    (hmake : make recordSize plan = .ok s) : BlockGrowth plan size s.blocks.size 0 s := by
  obtain ⟨-, hlimit, hinitial, -⟩ := StorePlan.validate_eq_ok_iff.mp hvalid
  obtain ⟨hdvd, -⟩ := StorePlan.dvd_of_validate hvalid hrange hmode
  have hindex : indexLimit < 2 ^ 31 := by decide
  have hgrowths := growths_of_make hmake
  obtain ⟨shift, mask, haddressing, hmade⟩ := make_eq_ok_iff.mp hmake
  cases hmade with
  | single hnone _ _ =>
      rw [hmode] at hnone
      cases hnone
  | blocks hsome happend =>
      obtain rfl := Option.some.inj (hmode.symm.trans hsome)
      have hmask := (StorePlan.splits_of_addressing hvalid hrange haddressing hmode).succ_mask
      have hleast := capacity_of_appendUntil hdvd (by omega) (Nat.le_add_left plan.initial 0)
        (Nat.dvd_zero size) hmask happend
      refine ⟨?_, ?_, by rw [hgrowths, Nat.add_zero]⟩
      · rw [frame_of_appendUntil happend]
      · rw [Nat.max_comm]
        exact hleast

end Store

namespace Pool

variable {p p' p₀ : Pool β} {h events : History} {moments : List (Pool β)} {most i : Nat}

/-! ## The moments of a run -/

/-- A run of operations, with all pools that it leads through, the last one
first. -/
inductive Passes (p : Pool β) : List (Pool β) → Pool β → Prop where
  | start : Passes p [p] p
  | step {moments : List (Pool β)} {events : History} {p' p'' : Pool β} :
      Passes p moments p' → Does p' events p'' → Passes p (p'' :: moments) p''

/-- The numbers of slots handed out, one for each of these pools. -/
def marks (moments : List (Pool β)) : Set Nat :=
  {mark | ∃ q ∈ moments, q.allocated = mark}

/-- One more pool adds its number. -/
theorem marks_cons : marks (p :: moments) = insert p.allocated (marks moments) := by
  ext mark
  simp [marks, eq_comm]

/-- A pool just made has the number zero only. -/
theorem isGreatest_marks_singleton : IsGreatest (marks [p]) p.allocated := by
  have heq : marks [p] = {p.allocated} := by
    ext mark
    simp [marks, eq_comm]
  rw [heq]
  exact isGreatest_singleton

/-- **Room and operations.**  An operation leaves the room as it is, unless
it hands out one more slot than there was room for. -/
theorem Sound.grows_of_does (h : p.Sound) (hdoes : p.Does events p') :
    (p.store.Resembles p'.store ∧ p'.store.growths = p.store.growths) ∨
      (p.allocated = p.store.capacity ∧ p'.allocated = p.allocated + 1 ∧
        p.store.Grows p'.store) := by
  rcases h.store_of_does hdoes with ⟨i, r, r', -, hallocate⟩ | heq | ⟨i, cells, heq⟩
  · obtain ⟨store, cells, heq, rfl | ⟨hfull, hnext, grew, hreserve⟩⟩ :=
      h.store_of_allocate hallocate
    · rw [heq]
      exact Or.inl ⟨Store.resembles_setRecord _ i cells, rfl⟩
    · rw [hfull] at hreserve
      have hgrows := h.store.grows_of_reserve hreserve
      rw [heq]
      exact Or.inr ⟨hfull, hnext, hgrows.blockSize, hgrows.limit, hgrows.lt_limit,
        hgrows.growths, hgrows.single, hgrows.blocks⟩
  · rw [heq]
    exact Or.inl ⟨⟨rfl, rfl, rfl, rfl⟩, rfl⟩
  · rw [heq]
    exact Or.inl ⟨Store.resembles_setRecord _ i cells, rfl⟩

/-- **What a policy keeps** holds after every run, for the largest number of
slots handed out in its course. -/
theorem Passes.kept {kept : Nat → Store β → Prop} (hpolicy : Store.Policy β kept)
    (hpasses : p₀.Passes moments p) (h₀ : p₀.Sound) (hstart : kept p₀.allocated p₀.store) :
    p.Sound ∧ ∃ most, IsGreatest (marks moments) most ∧ most ≤ p.store.capacity ∧
      kept most p.store := by
  induction hpasses with
  | start => exact ⟨h₀, _, isGreatest_marks_singleton, h₀.allocated_le_capacity, hstart⟩
  | @step moments events p p' _ hdoes ih =>
      obtain ⟨hsound, most, hmost, hroom, hkept⟩ := ih
      have hsound' := (hsound.does hdoes).1
      have hgreatest : IsGreatest (marks (p' :: moments)) (max p'.allocated most) := by
        rw [marks_cons]
        exact hmost.insert _
      have hle' := hsound'.allocated_le_capacity
      refine ⟨hsound', _, hgreatest, ?_⟩
      rcases hsound.grows_of_does hdoes with ⟨hres, hgrowths⟩ | ⟨hfull, hnext, hgrows⟩
      · rw [hres.capacity] at hle' ⊢
        exact ⟨by omega, hpolicy.same hkept hsound.store hsound'.store hres hgrowths (by omega)
          (by omega)⟩
      · have hmax : max p'.allocated most = p.store.capacity + 1 := by omega
        rw [hmax]
        exact ⟨by omega, hpolicy.grow hkept hsound.store hsound'.store hroom hgrows⟩

/-! ## Every run -/

/-- **Growth policy.**  After every run the room and the growths of a pool are
those that its plan tells for the largest number of slots that were ever handed
out. -/
theorem growth_policy {id : PoolId} {layout : Layout} {plan : StorePlan} {reset : Reset β}
    (hrange : plan.InRange) (hmake : make id layout plan reset = pure p₀)
    (hpasses : p₀.Passes moments p) :
    ∃ most, IsGreatest (marks moments) most ∧
      (plan.blockSize = none → Store.SingleGrowth plan most p.store ∧
        p.store.growths ≤ max 1 (Nat.log 2 most - 2)) ∧
      ∀ size, plan.blockSize = some size →
        Store.BlockGrowth plan size p₀.store.blocks.size most p.store := by
  obtain ⟨hsound, hnew⟩ := sound_of_make hrange hmake
  have hnone : p₀.allocated = 0 := by rw [hnew]
  obtain ⟨_, hvalid, hrest⟩ := bind_eq_pure_iff.mp hmake
  obtain ⟨store, hstore, hput⟩ := bind_eq_pure_iff.mp hrest
  have hvalid := Except.ok.inj hvalid
  have hstore : Store.make layout.size plan = .ok p₀.store := by
    cases hput
    exact eq_ok_of_lift hstore
  cases hmode : plan.blockSize with
  | none =>
      have hstart := Store.singleGrowth_of_make hvalid hmode hstore
      obtain ⟨-, most, hmost, -, hkept⟩ :=
        hpasses.kept (Store.policy_singleGrowth plan) hsound (hnone ▸ hstart)
      exact ⟨most, hmost, fun _ => ⟨hkept, hkept.growths_le⟩, by rintro size ⟨⟩⟩
  | some size =>
      have hpos := (StorePlan.dvd_of_validate hvalid hrange hmode).2
      have hstart := Store.blockGrowth_of_make hvalid hrange hmode hstore
      obtain ⟨-, most, hmost, -, hkept⟩ :=
        hpasses.kept (Store.policy_blockGrowth plan _ hpos) hsound (hnone ▸ hstart)
      refine ⟨most, hmost, by rintro ⟨⟩, ?_⟩
      rintro _ ⟨⟩
      exact hkept

/-- A pool of counters in a single array, three of them at most. -/
def doublingPool (capacity growths : Nat) (live : Array Bool) (generations : Array UInt32)
    (epoch : UInt32) : Pool UInt8 :=
  ⟨0, counterLayout, ⟨#[⟨(List.replicate (4 * capacity) 0).toArray, 4⟩], 4, none, 0, 0,
    capacity, 3, growths⟩, .keep, live.size, [], live, generations, epoch, []⟩

/-- A single array that grew for its second record, up to the limit, keeps its
room when the pool is cleared. -/
theorem room_after_clearing : ((StorePlan.single 1).withLimit 3).InRange ∧
    ∃ (p₀ p : Pool UInt8) (moments : List (Pool UInt8)) (most : Nat),
      make 0 counterLayout ((StorePlan.single 1).withLimit 3) .keep = pure p₀ ∧
        p₀.Passes moments p ∧ p.allocated = 0 ∧ p.store.growths = 1 ∧ p.store.capacity = 3 ∧
        IsGreatest (marks moments) most ∧
        Store.SingleGrowth ((StorePlan.single 1).withLimit 3) most p.store := by
  have hrange : ((StorePlan.single 1).withLimit 3).InRange := by
    rintro size ⟨⟩
  have hmake : make 0 counterLayout ((StorePlan.single 1).withLimit 3) .keep =
      pure (doublingPool 1 0 #[] #[] 0) := rfl
  have hfirst : (doublingPool 1 0 #[] #[] 0).allocate (.unpointed 0) =
      .ok (.ok 0, doublingPool 1 0 #[true] #[0] 0, ⟨0, some ⟨0, 0, 0⟩⟩) := rfl
  have hsecond : (doublingPool 1 0 #[true] #[0] 0).allocate (.unpointed 0) =
      .ok (.ok 1, doublingPool 3 1 #[true, true] #[0, 0] 0, ⟨0, some ⟨1, 0, 0⟩⟩) := rfl
  have hpasses := ((Passes.start.step (.allocate hfirst)).step (.allocate hsecond)).step .clear
  obtain ⟨most, hmost, hsingle, -⟩ := growth_policy hrange hmake hpasses
  exact ⟨hrange, _, _, _, most, hmake, hpasses, rfl, rfl, rfl, hmost, (hsingle rfl).1⟩

end Pool

end RecordPool
