/-
# Growth of stores

A store grows by enlarging its single block or by appending blocks.  Either
way the records it had keep their contents and the new ones are blank
(`Store.Extends`), so that growth does not show to one who takes the records
without memory to be blank.  A request within the limit is always granted, and
a store that a valid plan asks for can always be made.
-/
import RecordPool.Proofs.Store.Contents

namespace RecordPool

variable {β F : Type} [Memory β F]

namespace Store

/-- The store `s'` is `s` with more room: old records keep their contents and
new ones are blank. -/
structure Extends (s s' : Store β) : Prop where
  sound : s'.Sound
  recordSize : s'.recordSize = s.recordSize
  blockSize : s'.blockSize = s.blockSize
  limit : s'.limit = s.limit
  capacity_le : s.capacity ≤ s'.capacity
  kept : ∀ j < s.capacity, s'.contents j = s.contents j
  fresh : ∀ j, s.capacity ≤ j → j < s'.capacity →
    s'.contents j = List.replicate s.recordSize Memory.blank

variable {s s' s'' : Store β}

/-- A sound store extends itself. -/
theorem Sound.extends_refl (h : s.Sound) : s.Extends s where
  sound := h
  recordSize := rfl
  blockSize := rfl
  limit := rfl
  capacity_le := Nat.le_refl _
  kept := fun _ _ => rfl
  fresh := fun j hle hlt => absurd hlt (by omega)

/-- Extensions compose. -/
theorem Extends.trans (h : s.Extends s') (h' : s'.Extends s'') : s.Extends s'' where
  sound := h'.sound
  recordSize := h'.recordSize.trans h.recordSize
  blockSize := h'.blockSize.trans h.blockSize
  limit := h'.limit.trans h.limit
  capacity_le := h.capacity_le.trans h'.capacity_le
  kept := fun j hj => (h'.kept j (lt_of_lt_of_le hj h.capacity_le)).trans (h.kept j hj)
  fresh := by
    intro j hle hlt
    by_cases hj : j < s'.capacity
    · rw [h'.kept j hj, h.fresh j hle hj]
    · rw [h'.fresh j (by omega) hlt, h.recordSize]

/-! ## A single array -/

/-- The room a single array grows to lies between the request and the limit. -/
theorem grownCapacity_spec {required : Nat} (hlimit : required ≤ s.limit) :
    required ≤ s.grownCapacity required ∧ s.grownCapacity required ≤ s.limit := by
  unfold grownCapacity
  omega

/-- The store of a single array with another block and room for as many
records as that block holds. -/
def withBlock (s : Store β) (b : Block β) (capacity : Nat) : Store β :=
  { s with blocks := s.blocks.setIfInBounds 0 b, capacity }

/-- The records of a single array lie in its block one after the other. -/
theorem Sound.contents_of_single (h : s.Sound) (hmode : s.blockSize = none) {b : Block β}
    (hb : s.blocks[0]? = some b) {j : Nat} (hj : j < s.capacity) :
    s.contents j = window b.cells.toList (j * s.recordSize) s.recordSize := by
  have haddr := address_of_single hmode j
  rw [h.contents_eq_window hj (by rw [haddr]; exact hb), haddr]

/-- A block of the new size keeps the store of a single array sound. -/
theorem Sound.withBlock (h : s.Sound) (hmode : s.blockSize = none) {b : Block β} {capacity : Nat}
    (hcap : capacity ≤ 2 ^ 31) (hshape : b.Shaped capacity s.recordSize) :
    (s.withBlock b capacity).Sound := by
  have hone := h.single hmode
  have hroom : (s.withBlock b capacity).blockRoom = capacity := by
    show s.blockSize.getD capacity = capacity
    rw [hmode, Option.getD_none]
  exact {
    shaped := by
      intro c hc
      obtain ⟨k, hk⟩ := Array.mem_iff_getElem?.mp hc
      change (s.blocks.setIfInBounds 0 b)[k]? = some c at hk
      rw [Array.getElem?_setIfInBounds] at hk
      have hk0 : 0 = k := by
        by_contra hne
        rw [if_neg hne, Array.getElem?_eq_none (by omega)] at hk
        cases hk
      rw [if_pos hk0, if_pos (by omega)] at hk
      obtain rfl := Option.some.inj hk
      rw [hroom]
      exact hshape
    tiled := by
      show (s.blocks.setIfInBounds 0 b).size * _ = capacity
      rw [hroom, Array.size_setIfInBounds, hone, Nat.one_mul]
    single := fun _ => by
      show (s.blocks.setIfInBounds 0 b).size = 1
      rw [Array.size_setIfInBounds, hone]
    divides := h.divides
    splits := h.splits
    capacity_le := hcap
    limit_le := h.limit_le }

/-- Enlarging the block of a single array extends the store. -/
theorem Sound.extends_resize (h : s.Sound) (hmode : s.blockSize = none) (capacity : Nat)
    (hle : s.capacity ≤ capacity) (hcap : capacity ≤ 2 ^ 31)
    (hbound : capacity * s.recordSize < sizeBound) :
    ∃ b b' : Block β, s.blocks[0]? = some b ∧ b.resize capacity = .ok b' ∧
      s.Extends (s.withBlock b' capacity) := by
  have hone := h.single hmode
  have hroom : s.blockRoom = s.capacity := by
    rw [blockRoom, hmode, Option.getD_none]
  have hb : s.blocks[0]? = some s.blocks[0] := Array.getElem?_eq_getElem (by omega)
  have hshape : s.blocks[0].Shaped s.capacity s.recordSize :=
    hroom ▸ h.shaped _ (Array.getElem_mem (by omega))
  obtain ⟨b', hresize, hshape', hcells⟩ := hshape.resize_eq hle hbound
  have hsound := h.withBlock hmode hcap hshape'
  have hb' : (s.withBlock b' capacity).blocks[0]? = some b' :=
    Array.getElem?_setIfInBounds_self_of_lt (by omega)
  have hread : ∀ j < capacity, (s.withBlock b' capacity).contents j =
      window b'.cells.toList (j * s.recordSize) s.recordSize :=
    fun j hj => hsound.contents_of_single hmode hb' hj
  have hlength : s.blocks[0].cells.toList.length = s.capacity * s.recordSize := by
    rw [Array.length_toList, hshape.cells]
  refine ⟨s.blocks[0], b', hb, hresize, ?_⟩
  exact {
    sound := hsound
    recordSize := rfl
    blockSize := rfl
    limit := rfl
    capacity_le := hle
    kept := by
      intro j hj
      have hslot : j * s.recordSize + s.recordSize ≤ s.capacity * s.recordSize := by
        rw [← Nat.succ_mul]
        exact Nat.mul_le_mul_right _ hj
      rw [hread j (lt_of_lt_of_le hj hle), hcells, window_append_left (by omega),
        h.contents_of_single hmode hb hj]
    fresh := by
      intro j hge hlt
      have hskip : s.capacity * s.recordSize ≤ j * s.recordSize := Nat.mul_le_mul_right _ hge
      have hslot : j * s.recordSize + s.recordSize ≤ capacity * s.recordSize := by
        rw [← Nat.succ_mul]
        exact Nat.mul_le_mul_right _ hlt
      rw [hread j hlt, hcells, window_append_right (by omega), hlength,
        window_replicate (by omega)] }

/-! ## Blocks -/

/-- The store with one more block of `size` records. -/
def withNextBlock (s : Store β) (b : Block β) (size : Nat) : Store β :=
  { s with blocks := s.blocks.push b, capacity := s.capacity + size }

section NextBlock

variable {size : Nat} (h : s.Sound) (hmode : s.blockSize = some size)
include h hmode

/-- The blocks hold exactly the capacity. -/
theorem Sound.size_mul_eq : s.blocks.size * size = s.capacity := by
  have htiled := h.tiled
  rwa [blockRoom, hmode, Option.getD_some] at htiled

/-- Blocks fill the largest count of records without a rest, so that another
one fits below it. -/
theorem Sound.capacity_add_le (hcap : s.capacity < 2 ^ 31) : s.capacity + size ≤ 2 ^ 31 :=
  StorePlan.add_le_of_dvd_of_lt (Dvd.intro_left _ (h.size_mul_eq hmode)) (h.divides size hmode)
    hcap

/-- One more block keeps a store sound. -/
theorem Sound.withNextBlock {b : Block β} (hcap : s.capacity < 2 ^ 31)
    (hshape : b.Shaped size s.recordSize) : (s.withNextBlock b size).Sound := by
  have hroom : s.blockRoom = size := by
    rw [blockRoom, hmode, Option.getD_some]
  have hroom' : (s.withNextBlock b size).blockRoom = size := by
    show s.blockSize.getD _ = size
    rw [hmode, Option.getD_some]
  exact {
    shaped := by
      intro c hc
      rw [hroom']
      rcases Array.mem_push.mp hc with hc | rfl
      · exact hroom ▸ h.shaped c hc
      · exact hshape
    tiled := by
      show (s.blocks.push b).size * _ = s.capacity + size
      rw [hroom', Array.size_push, Nat.succ_mul, h.size_mul_eq hmode]
    single := fun hnone => by
      rw [show s.blockSize = none from hnone] at hmode
      cases hmode
    divides := h.divides
    splits := h.splits
    capacity_le := h.capacity_add_le hmode hcap
    limit_le := h.limit_le }

/-- The records of the next block come after those of the old ones. -/
theorem Sound.address_of_le {j : Nat} (hge : s.capacity ≤ j) (hlt : j < s.capacity + size) :
    (s.address j).1 = s.blocks.size ∧ (s.address j).2 < size := by
  have htiled := h.size_mul_eq hmode
  rw [h.address_eq hmode]
  refine ⟨Nat.div_eq_of_lt_le ?_ ?_, Nat.mod_lt j (by omega)⟩
  · rw [htiled]
    exact hge
  · rw [Nat.succ_mul, htiled]
    exact hlt

/-- The mask tells the size of the next block. -/
theorem Sound.addCount_mask_eq : addCount s.mask 1 = .ok size := by
  have hmask := (h.splits size hmode).succ_mask
  have hle : size ≤ 2 ^ 31 := Nat.le_of_dvd (by decide) (h.divides size hmode)
  rw [addCount_eq_ok (lt_of_le_of_lt (hmask ▸ hle) (by decide)), hmask]

/-- Appending a block extends a store that has not reached the largest count
of records. -/
theorem Sound.appendBlock_eq (hcap : s.capacity < 2 ^ 31)
    (hbound : size * s.recordSize < sizeBound) :
    ∃ s', s.appendBlock = .ok s' ∧ s.Extends s' ∧ s'.capacity = s.capacity + size := by
  have hroomy := h.capacity_add_le hmode hcap
  obtain ⟨b, hmake, hshape, hcells⟩ := Block.make_eq_ok (β := β) hbound
  have hsum : addCountCapped s.capacity size = s.capacity + size := by
    unfold addCountCapped countBound
    omega
  have hsound := h.withNextBlock hmode hcap hshape
  refine ⟨s.withNextBlock b size, ?_, ?_, rfl⟩
  · rw [appendBlock, h.addCount_mask_eq hmode, ok_bind, hmake, ok_bind, hsum]
    rfl
  exact {
    sound := hsound
    recordSize := rfl
    blockSize := rfl
    limit := rfl
    capacity_le := Nat.le_add_right _ _
    kept := by
      intro j hj
      obtain ⟨c, hc, -⟩ := h.exists_block hj
      have hc' : (s.withNextBlock b size).blocks[(s.address j).1]? = some c := by
        show (s.blocks.push b)[(s.address j).1]? = some c
        rw [Array.getElem?_push_lt (h.address_spec hj).1]
        rw [← hc, Array.getElem?_eq_getElem]
      rw [hsound.contents_eq_window (lt_of_lt_of_le hj (Nat.le_add_right _ _)) hc',
        h.contents_eq_window hj hc]
      rfl
    fresh := by
      intro j hge hlt
      obtain ⟨hblock, hslot⟩ := h.address_of_le hmode hge hlt
      have hb' : (s.withNextBlock b size).blocks[(s.address j).1]? = some b := by
        show (s.blocks.push b)[(s.address j).1]? = some b
        rw [hblock, Array.getElem?_push_size]
      rw [hsound.contents_eq_window hlt hb', hcells]
      apply window_replicate
      show (s.address j).2 * s.recordSize + s.recordSize ≤ size * s.recordSize
      rw [← Nat.succ_mul]
      exact Nat.mul_le_mul_right _ hslot }

end NextBlock

/-- Appending blocks makes room for any request within the largest count of
records. -/
theorem Sound.appendUntil_eq (h : s.Sound) {size required fuel : Nat}
    (hmode : s.blockSize = some size) (hrequired : required ≤ 2 ^ 31)
    (hfuel : required ≤ s.capacity + fuel) (hbound : size * s.recordSize < sizeBound) :
    ∃ s', appendUntil required fuel s = .ok s' ∧ s.Extends s' ∧ required ≤ s'.capacity := by
  have hpos : 0 < size := by
    obtain ⟨m, hm⟩ := h.divides size hmode
    rcases Nat.eq_zero_or_pos size with rfl | hpos
    · omega
    · exact hpos
  induction fuel generalizing s with
  | zero => exact ⟨s, rfl, h.extends_refl, hfuel⟩
  | succ fuel ih =>
      rw [appendUntil]
      split
      · obtain ⟨s₁, happend, hext, hcap⟩ := h.appendBlock_eq hmode (by omega) hbound
        rw [happend, ok_bind]
        obtain ⟨s₂, heq, hext', hroom⟩ :=
          ih hext.sound (hext.blockSize.trans hmode) (by omega) (by rw [hext.recordSize]; exact hbound)
        exact ⟨s₂, heq, hext.trans hext', hroom⟩
      · exact ⟨s, rfl, h.extends_refl, by omega⟩

/-- A block beyond the machine range is never appended. -/
theorem Sound.appendUntil_of_overflow (h : s.Sound) {size required fuel : Nat}
    (hmode : s.blockSize = some size) (hcap : s.capacity < required) (hfuel : 0 < fuel)
    (hover : sizeBound ≤ size * s.recordSize) :
    appendUntil required fuel s = .error .arithmetic := by
  obtain ⟨fuel, rfl⟩ : ∃ n, fuel = n + 1 := ⟨fuel - 1, by omega⟩
  rw [appendUntil, if_pos hcap, appendBlock, h.addCount_mask_eq hmode, ok_bind, Block.make,
    mulSize_eq_error hover]
  rfl

/-! ## Requests -/

/-- The number of records of the block that a store makes when `required`
records are asked for. -/
def blockFor (s : Store β) (required : Nat) : Nat :=
  s.blockSize.getD (s.grownCapacity required)

section Requests

variable {required : Nat}

/-- A store that has room is left alone. -/
theorem reserve_of_le (h : required ≤ s.capacity) : s.reserve required = .ok (.ok false, s) := by
  rw [reserve, if_pos h]
  rfl

/-- A request beyond the limit is refused by a store without room for it. -/
theorem reserve_of_limit_lt (hcap : s.capacity < required) (hlimit : s.limit < required) :
    s.reserve required = .ok (.error (.capacityExceeded required s.limit), s) := by
  rw [reserve, if_neg (by omega), if_pos hlimit]
  rfl

/-- The block that is asked for is not larger than the largest count of
records. -/
theorem Sound.blockFor_le (h : s.Sound) (hlimit : required ≤ s.limit) :
    s.blockFor required ≤ 2 ^ 31 := by
  have hlimit_le := h.limit_le
  have hindex : indexLimit < 2 ^ 31 := by decide
  rw [blockFor]
  cases hmode : s.blockSize with
  | none =>
      have hle := (grownCapacity_spec hlimit).2
      rw [Option.getD_none]
      omega
  | some size => exact Nat.le_of_dvd (by omega) (h.divides size hmode)

/-- A single array grows when the room it grows to stays within the machine
range. -/
theorem Sound.enlarge_single (h : s.Sound) (hmode : s.blockSize = none)
    (hcap : s.capacity < required) (hlimit : required ≤ s.limit)
    (hfits : s.grownCapacity required * s.recordSize < sizeBound) :
    ∃ s', s.enlarge required = .ok s' ∧ s.Extends s' ∧ s'.capacity = s.grownCapacity required := by
  have hlimit_le := h.limit_le
  have hindex : indexLimit < 2 ^ 31 := by decide
  obtain ⟨hge, hle⟩ := grownCapacity_spec hlimit
  obtain ⟨b, b', hb, hresize, hext⟩ :=
    h.extends_resize hmode (s.grownCapacity required) (by omega) (by omega) hfits
  refine ⟨s.withBlock b' (s.grownCapacity required), ?_, hext, rfl⟩
  rw [enlarge]
  split
  · rw [fetch_eq_ok hb, ok_bind, hresize, ok_bind]
    rfl
  · rename_i size hsome
    rw [hmode] at hsome
    cases hsome

/-- A store grows when the block that this takes stays within the machine
range. -/
theorem Sound.enlarge_eq (h : s.Sound) (hcap : s.capacity < required) (hlimit : required ≤ s.limit)
    (hfits : s.blockFor required * s.recordSize < sizeBound) :
    ∃ s', s.enlarge required = .ok s' ∧ s.Extends s' ∧ required ≤ s'.capacity := by
  have hlimit_le := h.limit_le
  have hindex : indexLimit < 2 ^ 31 := by decide
  rw [blockFor] at hfits
  cases hmode : s.blockSize with
  | none =>
      rw [hmode, Option.getD_none] at hfits
      obtain ⟨s', henlarge, hext, hroom⟩ := h.enlarge_single hmode hcap hlimit hfits
      exact ⟨s', henlarge, hext, hroom ▸ (grownCapacity_spec hlimit).1⟩
  | some size =>
      rw [hmode, Option.getD_some] at hfits
      rw [enlarge, hmode]
      exact h.appendUntil_eq hmode (by omega) (by omega) hfits

/-- A store whose next block would leave the machine range stops with a fault. -/
theorem Sound.enlarge_of_overflow (h : s.Sound) (hcap : s.capacity < required)
    (hover : sizeBound ≤ s.blockFor required * s.recordSize) :
    s.enlarge required = .error .arithmetic := by
  rw [blockFor] at hover
  rw [enlarge]
  split
  · rename_i hmode
    rw [hmode, Option.getD_none] at hover
    have hone := h.single hmode
    have hb : s.blocks[0]? = some s.blocks[0] := Array.getElem?_eq_getElem (by omega)
    have hshape := h.shaped _ (Array.mem_of_getElem? hb)
    rw [fetch_eq_ok hb, ok_bind, Block.resize, hshape.recordSize, mulSize_eq_error hover]
    rfl
  · rename_i size hmode
    rw [hmode, Option.getD_some] at hover
    exact h.appendUntil_of_overflow hmode hcap (by omega) hover

/-- A request that makes the store grow counts the growth. -/
theorem Extends.reserve_eq {grown : Store β} (hcap : s.capacity < required)
    (hlimit : required ≤ s.limit) (henlarge : s.enlarge required = .ok grown)
    (hext : s.Extends grown) :
    s.reserve required = .ok (.ok true, { grown with growths := grown.growths + 1 }) ∧
      s.Extends { grown with growths := grown.growths + 1 } := by
  refine ⟨?_, ?_⟩
  · rw [reserve, if_neg (by omega), if_neg (by omega), henlarge, ok_bind]
    rfl
  · exact ⟨⟨hext.sound.shaped, hext.sound.tiled, hext.sound.single, hext.sound.divides,
      hext.sound.splits, hext.sound.capacity_le, hext.sound.limit_le⟩, hext.recordSize, hext.blockSize,
      hext.limit, hext.capacity_le, hext.kept, hext.fresh⟩

/-- A request whose block would leave the machine range stops with a fault. -/
theorem Sound.reserve_of_overflow (h : s.Sound) (hcap : s.capacity < required)
    (hlimit : required ≤ s.limit) (hover : sizeBound ≤ s.blockFor required * s.recordSize) :
    s.reserve required = .error .arithmetic := by
  rw [reserve, if_neg (by omega), if_neg (by omega), h.enlarge_of_overflow hcap hover]
  rfl

/-- **What a request can lead to.**  It is granted, and the store is extended
if it had too little room; or it is refused beyond the limit; or the memory
would leave the machine range. -/
theorem Sound.reserve_cases (h : s.Sound) (required : Nat) :
    (∃ grew s', s.reserve required = .ok (.ok grew, s') ∧ s.Extends s' ∧
        required ≤ s'.capacity) ∨
      (s.reserve required = .ok (.error (.capacityExceeded required s.limit), s) ∧
        s.capacity < required ∧ s.limit < required) ∨
      (s.reserve required = .error .arithmetic ∧ s.capacity < required ∧ required ≤ s.limit ∧
        sizeBound ≤ s.blockFor required * s.recordSize) := by
  by_cases hcap : required ≤ s.capacity
  · exact Or.inl ⟨false, s, reserve_of_le hcap, h.extends_refl, hcap⟩
  have hgt : s.capacity < required := by omega
  by_cases hlimit : s.limit < required
  · exact Or.inr (Or.inl ⟨reserve_of_limit_lt hgt hlimit, hgt, hlimit⟩)
  have hle : required ≤ s.limit := by omega
  by_cases hfits : s.blockFor required * s.recordSize < sizeBound
  · obtain ⟨grown, henlarge, hext, hroom⟩ := h.enlarge_eq hgt hle hfits
    obtain ⟨hreserve, hext'⟩ := hext.reserve_eq hgt hle henlarge
    exact Or.inl ⟨true, _, hreserve, hext', hroom⟩
  · have hover : sizeBound ≤ s.blockFor required * s.recordSize := by omega
    exact Or.inr (Or.inr ⟨h.reserve_of_overflow hgt hle hover, hgt, hle, hover⟩)

/-- **A request within the limit is granted** when the memory stays within the
machine range however much the store grows. -/
theorem Sound.reserve_eq (h : s.Sound) (hlimit : required ≤ s.limit)
    (hbound : 2 ^ 31 * s.recordSize < sizeBound) :
    ∃ grew s', s.reserve required = .ok (.ok grew, s') ∧ s.Extends s' ∧
      required ≤ s'.capacity := by
  rcases h.reserve_cases required with hgranted | ⟨-, -, hlt⟩ | ⟨-, -, -, hover⟩
  · exact hgranted
  · omega
  · have hle := Nat.mul_le_mul_right s.recordSize (h.blockFor_le hlimit)
    omega

end Requests

/-! ## Plans -/

section Plans

variable {recordSize shift mask limit : Nat} (hlimit : limit ≤ indexLimit)
include hlimit

/-- A single array is a sound store. -/
theorem sound_single {b : Block β} {capacity : Nat} (hshape : b.Shaped capacity recordSize)
    (hcapacity : capacity ≤ 2 ^ 31) :
    (⟨#[b], recordSize, none, shift, mask, capacity, limit, 0⟩ : Store β).Sound where
  shaped := by
    intro c hc
    obtain rfl : c = b := by simpa using hc
    exact hshape
  tiled := Nat.one_mul _
  single := fun _ => rfl
  divides := by rintro size ⟨⟩
  splits := by rintro size ⟨⟩
  capacity_le := hcapacity
  limit_le := hlimit

/-- A store of blocks that has none yet is sound. -/
theorem sound_bare {size : Nat} (hdvd : size ∣ 2 ^ 31)
    (hsplits : StorePlan.Splits shift mask size) :
    (⟨#[], recordSize, some size, shift, mask, 0, limit, 0⟩ : Store β).Sound where
  shaped := by simp
  tiled := Nat.zero_mul _
  single := by rintro ⟨⟩
  divides := by
    rintro size' ⟨⟩
    exact hdvd
  splits := by
    rintro size' ⟨⟩
    exact hsplits
  capacity_le := Nat.zero_le _
  limit_le := hlimit

/-- A single array of blank memory holds blank records. -/
theorem contents_of_blank {b : Block β} {capacity : Nat} (hshape : b.Shaped capacity recordSize)
    (hcapacity : capacity ≤ 2 ^ 31)
    (hcells : b.cells.toList = List.replicate (capacity * recordSize) Memory.blank) {j : Nat}
    (hj : j < capacity) :
    (⟨#[b], recordSize, none, shift, mask, capacity, limit, 0⟩ : Store β).contents j =
      List.replicate recordSize Memory.blank := by
  have hslot : j * recordSize + recordSize ≤ capacity * recordSize := by
    rw [← Nat.succ_mul]
    exact Nat.mul_le_mul_right _ hj
  rw [(sound_single hlimit hshape hcapacity).contents_of_single rfl (b := b) rfl hj, hcells]
  exact window_replicate hslot

end Plans

/-- How a store comes to be made.  A single array has its block from the start,
and blocks are appended to a store that has none. -/
inductive Made (recordSize : Nat) (plan : StorePlan) (shift mask : Nat) (s : Store β) : Prop
  | single {b : Block β} (mode : plan.blockSize = none)
      (block : Block.make plan.initial recordSize = .ok b)
      (eq : s = ⟨#[b], recordSize, none, shift, mask, plan.initial, plan.limit, 0⟩)
  | blocks {size : Nat} (mode : plan.blockSize = some size)
      (append : appendUntil plan.initial plan.initial
        ⟨#[], recordSize, some size, shift, mask, 0, plan.limit, 0⟩ = .ok s)

section Making

variable {plan : StorePlan} {recordSize : Nat}

/-- **What making a store amounts to.** -/
theorem make_eq_ok_iff : make recordSize plan = .ok s ↔
    ∃ shift mask, plan.addressing = .ok (shift, mask) ∧ Made recordSize plan shift mask s := by
  constructor
  · intro hmake
    obtain ⟨⟨shift, mask⟩, haddressing, hmake⟩ := bind_eq_ok_iff.mp hmake
    refine ⟨shift, mask, haddressing, ?_⟩
    dsimp only at hmake
    cases hmode : plan.blockSize with
    | none =>
        rw [hmode] at hmake
        obtain ⟨b, hblock, hput⟩ := bind_eq_ok_iff.mp hmake
        cases hput
        exact .single hmode hblock rfl
    | some size =>
        rw [hmode] at hmake
        exact .blocks hmode hmake
  · rintro ⟨shift, mask, haddressing, hmade⟩
    rw [make, haddressing, ok_bind]
    cases hmade with
    | single hmode hblock heq =>
        rw [hmode, heq]
        dsimp only
        rw [hblock]
        rfl
    | blocks hmode happend =>
        rw [hmode]
        exact happend

variable (hvalid : plan.validate = .ok ()) (hrange : plan.InRange)
include hvalid hrange

/-- The store that a valid plan asks for has one blank record for each index
below its capacity, and room for as many as the plan wants at first. -/
theorem make_eq (hbound : 2 ^ 31 * recordSize < sizeBound) :
    ∃ s : Store β, make recordSize plan = .ok s ∧ s.Sound ∧ s.recordSize = recordSize ∧
      s.blockSize = plan.blockSize ∧ s.limit = plan.limit ∧ plan.initial ≤ s.capacity ∧
      ∀ j < s.capacity, s.contents j = List.replicate recordSize Memory.blank := by
  obtain ⟨-, hlimit, hinitial, -⟩ := StorePlan.validate_eq_ok_iff.mp hvalid
  have hindex : indexLimit < 2 ^ 31 := by decide
  obtain ⟨shift, mask, haddressing, hsplits⟩ := StorePlan.exists_addressing hvalid hrange
  cases hmode : plan.blockSize with
  | none =>
      have hfit : plan.initial * recordSize < sizeBound :=
        lt_of_le_of_lt (Nat.mul_le_mul_right _ (by omega)) hbound
      obtain ⟨b, hblock, hshape, hcells⟩ := Block.make_eq_ok (β := β) hfit
      exact ⟨_, make_eq_ok_iff.mpr ⟨shift, mask, haddressing, .single hmode hblock rfl⟩,
        sound_single hlimit hshape (by omega), rfl, rfl, rfl, Nat.le_refl _,
        fun j hj => contents_of_blank hlimit hshape (by omega) hcells hj⟩
  | some size =>
      have hdvd := (StorePlan.dvd_of_validate hvalid hrange hmode).1
      have hfit : size * recordSize < sizeBound :=
        lt_of_le_of_lt (Nat.mul_le_mul_right _ (Nat.le_of_dvd (by omega) hdvd)) hbound
      obtain ⟨s, heq, hext, hroom⟩ :=
        (sound_bare (β := β) hlimit hdvd (hsplits size hmode)).appendUntil_eq rfl
          (by omega : plan.initial ≤ 2 ^ 31) (Nat.le_add_left plan.initial 0) hfit
      exact ⟨s, make_eq_ok_iff.mpr ⟨shift, mask, haddressing, .blocks hmode heq⟩, hext.sound,
        hext.recordSize, hext.blockSize, hext.limit, hroom,
        fun j hj => hext.fresh j (Nat.zero_le _) hj⟩

/-- **A store that a plan within the machine range gave** is sound, and its
records are blank. -/
theorem blank_of_make (hmake : make recordSize plan = .ok s) :
    s.Sound ∧ s.recordSize = recordSize ∧
      ∀ j < s.capacity, s.contents j = List.replicate recordSize Memory.blank := by
  obtain ⟨-, hlimit, hinitial, -⟩ := StorePlan.validate_eq_ok_iff.mp hvalid
  have hindex : indexLimit < 2 ^ 31 := by decide
  obtain ⟨shift, mask, haddressing, hmade⟩ := make_eq_ok_iff.mp hmake
  cases hmade with
  | single hmode hblock heq =>
      by_cases hfit : plan.initial * recordSize < sizeBound
      · obtain ⟨b, hblock', hshape, hcells⟩ := Block.make_eq_ok (β := β) hfit
        obtain rfl := Except.ok.inj (hblock'.symm.trans hblock)
        rw [heq]
        exact ⟨sound_single hlimit hshape (by omega), rfl,
          fun j hj => contents_of_blank hlimit hshape (by omega) hcells hj⟩
      · rw [Block.make, mulSize_eq_error (by omega)] at hblock
        cases hblock
  | @blocks size hmode happend =>
      have hbare :
          (⟨#[], recordSize, some size, shift, mask, 0, plan.limit, 0⟩ : Store β).Sound :=
        sound_bare hlimit (StorePlan.dvd_of_validate hvalid hrange hmode).1
          (StorePlan.splits_of_addressing hvalid hrange haddressing hmode)
      by_cases hfit : size * recordSize < sizeBound
      · obtain ⟨s', heq, hext, -⟩ := hbare.appendUntil_eq rfl
          (by omega : plan.initial ≤ 2 ^ 31) (Nat.le_add_left plan.initial 0) hfit
        obtain rfl := Except.ok.inj (heq.symm.trans happend)
        exact ⟨hext.sound, hext.recordSize, fun j hj => hext.fresh j (Nat.zero_le _) hj⟩
      · rcases Nat.eq_zero_or_pos plan.initial with hzero | hpos
        · rw [hzero] at happend
          cases happend
          exact ⟨hbare, rfl, fun j hj => absurd hj (Nat.not_lt_zero j)⟩
        · rw [hbare.appendUntil_of_overflow rfl hpos hpos (Nat.le_of_not_lt hfit)] at happend
          cases happend

/-- A store that a plan within the machine range gave is sound. -/
theorem sound_of_make (hmake : make recordSize plan = .ok s) :
    s.Sound ∧ s.recordSize = recordSize :=
  ⟨(blank_of_make hvalid hrange hmake).1, (blank_of_make hvalid hrange hmake).2.1⟩

end Making

/-! ## Padded records -/

/-- The cells that a record has, or would have if there were room for it. -/
def padded (s : Store β) (index : RecordIndex) : List β :=
  if index < s.capacity then s.contents index else List.replicate s.recordSize Memory.blank

variable {i : Nat}

/-- Where there is room, the padded record is the record. -/
theorem padded_of_lt (hi : i < s.capacity) : s.padded i = s.contents i :=
  if_pos hi

/-- **Growth does not show** in the padded records. -/
theorem Extends.padded_eq (h : s.Extends s') : s'.padded = s.padded := by
  funext (i : Nat)
  by_cases hi : i < s.capacity
  · rw [padded_of_lt hi, padded_of_lt (lt_of_lt_of_le hi h.capacity_le), h.kept i hi]
  have hpad : s.padded i = List.replicate s.recordSize Memory.blank := if_neg hi
  by_cases hi' : i < s'.capacity
  · rw [padded_of_lt hi', h.fresh i (by omega) hi', hpad]
  · rw [padded, if_neg hi', hpad, h.recordSize]

/-- Writing a record changes one padded record. -/
theorem Sound.padded_setRecord (h : s.Sound) (hi : i < s.capacity) {cells : List β}
    (hcells : cells.length = s.recordSize) :
    (s.setRecord i cells).padded = Function.update s.padded i cells := by
  funext j
  show (if j < s.capacity then (s.setRecord i cells).contents j
    else List.replicate s.recordSize Memory.blank) = _
  rw [h.contents_setRecord hi hcells]
  by_cases hji : j = i
  · subst hji
    rw [if_pos hi, Function.update_self, Function.update_self]
  · rw [Function.update_of_ne hji, Function.update_of_ne hji]
    rfl

/-- A new store holds blank records only. -/
theorem padded_of_make {plan : StorePlan} {recordSize : Nat} (hvalid : plan.validate = .ok ())
    (hrange : plan.InRange) (hmake : make recordSize plan = .ok s) :
    s.padded = fun _ => List.replicate recordSize Memory.blank := by
  obtain ⟨-, hsize, hblank⟩ := blank_of_make hvalid hrange hmake
  funext i
  by_cases hi : i < s.capacity
  · rw [padded_of_lt hi, hblank i hi]
  · rw [padded, if_neg hi, hsize]

end Store

end RecordPool
