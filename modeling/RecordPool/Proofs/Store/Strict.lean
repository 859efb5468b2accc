/-
# Strict growth

Growing a store cuts sums of record counts off at the largest one, and counts
growths and cells without any check.  The strict operations here fault instead
wherever a result does not fit.  They agree with the operations of the store:
what is computed there is never cut off and always fits, as long as all records
that there could be fit into the memory.
-/
import RecordPool.Proofs.Store.Records

namespace RecordPool

variable {β F : Type} [Memory β F]

/-! ## Strict operations -/

/-- Twice a record count. -/
def doubleCount (a : Nat) : Checked Nat :=
  if 2 * a < countBound then pure (2 * a) else throw .arithmetic

namespace Store

/-- Appends one block, the number of whose records has to fit. -/
def appendBlockStrict (s : Store β) : Checked (Store β) := do
  let size ← addCount s.mask 1
  let block ← Block.make size s.recordSize
  let capacity ← addCount s.capacity size
  pure { s with blocks := s.blocks.push block, capacity }

/-- Appends blocks strictly until there is room for `required` records, at most
`fuel` of them. -/
def appendUntilStrict (required : Nat) : (fuel : Nat) → Store β → Checked (Store β)
  | 0, s => pure s
  | fuel + 1, s => do
      if s.capacity < required then
        appendUntilStrict required fuel (← s.appendBlockStrict)
      else
        pure s

/-- The store that a plan asks for, made strictly. -/
def makeStrict (recordSize : Nat) (plan : StorePlan) : Checked (Store β) := do
  let (shift, mask) ← plan.addressing
  let bare : Store β := ⟨#[], recordSize, plan.blockSize, shift, mask, 0, plan.limit, 0⟩
  match plan.blockSize with
  | none => do
      let block ← Block.make plan.initial recordSize
      pure { bare with blocks := #[block], capacity := plan.initial }
  | some _ => appendUntilStrict plan.initial plan.initial bare

/-- Makes room for `required` records, which exceed the capacity; twice the
capacity has to fit. -/
def enlargeStrict (s : Store β) (required : Nat) : Checked (Store β) := do
  match s.blockSize with
  | none => do
      let double ← doubleCount s.capacity
      let capacity := min (max (max double leastGrowth) required) s.limit
      let block ← (← fetch s.blocks 0).resize capacity
      pure { s with blocks := s.blocks.setIfInBounds 0 block, capacity }
  | some _ => appendUntilStrict required required s

/-- Makes room for `required` records; the number of growths has to fit. -/
def reserveStrict (s : Store β) (required : Nat) :
    Checked (Except PoolError Bool × Store β) := do
  if required ≤ s.capacity then
    pure (.ok false, s)
  else if s.limit < required then
    pure (.error (.capacityExceeded required s.limit), s)
  else do
    let grown ← s.enlargeStrict required
    let growths ← addSize grown.growths 1
    pure (.ok true, { grown with growths })

/-- The number of cells of all blocks, each sum of which has to fit. -/
def memoryStrict (s : Store β) : Checked Nat :=
  s.blocks.toList.foldlM (fun total block => addSize total block.cells.size) 0

variable {s s' : Store β} {size required : Nat}

/-! ## Appending blocks -/

/-- A sum of record counts that fits is not cut off. -/
theorem addCount_eq_capped {a b : Nat} (h : a + b < countBound) :
    addCount a b = .ok (addCountCapped a b) := by
  have hcapped : addCountCapped a b = a + b := by
    unfold addCountCapped
    omega
  rw [addCount_eq_ok h, hcapped]

/-- One more block fits below the largest count of records. -/
theorem Sound.appendBlockStrict_eq (h : s.Sound) (hmode : s.blockSize = some size)
    (hcap : s.capacity < 2 ^ 31) : s.appendBlockStrict = s.appendBlock := by
  have hle := h.capacity_add_le hmode hcap
  have hbound : (2 : Nat) ^ 31 < countBound := by decide
  unfold appendBlockStrict appendBlock
  rw [h.addCount_mask_eq hmode, ok_bind, ok_bind]
  refine bind_congr fun block => ?_
  rw [addCount_eq_capped (by omega), ok_bind]

/-- So do all blocks that a request takes. -/
theorem Sound.appendUntilStrict_eq (h : s.Sound) (hmode : s.blockSize = some size)
    (hrequired : required ≤ 2 ^ 31) (hbound : size * s.recordSize < sizeBound) (fuel : Nat) :
    appendUntilStrict required fuel s = appendUntil required fuel s := by
  induction fuel generalizing s with
  | zero => rfl
  | succ fuel ih =>
      unfold appendUntilStrict appendUntil
      split
      · obtain ⟨s₁, happend, hext, -⟩ := h.appendBlock_eq hmode (by omega) hbound
        rw [h.appendBlockStrict_eq hmode (by omega), happend, ok_bind, ok_bind]
        apply ih hext.sound (hext.blockSize.trans hmode)
        rw [hext.recordSize]
        exact hbound
      · rfl

/-- **Making a store** never cuts a count off. -/
theorem makeStrict_eq {plan : StorePlan} {recordSize : Nat} (hvalid : plan.validate = .ok ())
    (hrange : plan.InRange) (hbound : 2 ^ 31 * recordSize < sizeBound) :
    (makeStrict recordSize plan : Checked (Store β)) = make recordSize plan := by
  obtain ⟨-, hlimit, hinitial, -⟩ := StorePlan.validate_eq_ok_iff.mp hvalid
  have hindex : indexLimit < 2 ^ 31 := by decide
  obtain ⟨shift, mask, haddressing, hsplits⟩ := StorePlan.exists_addressing hvalid hrange
  unfold makeStrict make
  rw [haddressing, ok_bind, ok_bind]
  dsimp only
  cases hmode : plan.blockSize with
  | none => rfl
  | some size =>
      have hdvd := (StorePlan.dvd_of_validate hvalid hrange hmode).1
      have hfit : size * recordSize < sizeBound :=
        lt_of_le_of_lt (Nat.mul_le_mul_right _ (Nat.le_of_dvd (by omega) hdvd)) hbound
      apply (sound_bare hlimit hdvd (hsplits size hmode)).appendUntilStrict_eq rfl _ hfit
      omega

/-! ## Requests -/

/-- Enlarging a store for a request within the limit never cuts a count off:
a single array that grows holds less than the limit. -/
theorem Sound.enlargeStrict_eq (h : s.Sound) (hcap : s.capacity < required)
    (hlimit : required ≤ s.limit) (hbound : 2 ^ 31 * s.recordSize < sizeBound) :
    s.enlargeStrict required = s.enlarge required := by
  have hlimit_le := h.limit_le
  have hindex : indexLimit < 2 ^ 31 := by decide
  unfold enlargeStrict enlarge
  cases hmode : s.blockSize with
  | none =>
      have hfits : 2 * s.capacity < countBound := by
        unfold countBound
        omega
      have hdouble : doubleCount s.capacity = .ok (doubleCountCapped s.capacity) := by
        have hcapped : doubleCountCapped s.capacity = 2 * s.capacity := by
          unfold doubleCountCapped
          omega
        rw [doubleCount, if_pos hfits, hcapped]
        rfl
      dsimp only
      rw [hdouble, ok_bind]
      rfl
  | some size =>
      have hdvd := Nat.le_of_dvd (by omega) (h.divides size hmode)
      have hfit := lt_of_le_of_lt (Nat.mul_le_mul_right s.recordSize hdvd) hbound
      exact h.appendUntilStrict_eq hmode (by omega) hfit required

/-- Appending blocks adds memory and room and changes nothing else. -/
theorem frame_of_appendUntil {fuel : Nat} (happend : appendUntil required fuel s = .ok s') :
    s' = { s with blocks := s'.blocks, capacity := s'.capacity } := by
  induction fuel generalizing s with
  | zero =>
      cases happend
      rfl
  | succ fuel ih =>
      unfold appendUntil at happend
      split at happend
      · obtain ⟨s₁, hblock, hrest⟩ := bind_eq_ok_iff.mp happend
        obtain ⟨size, -, hmake⟩ := bind_eq_ok_iff.mp hblock
        obtain ⟨block, -, hput⟩ := bind_eq_ok_iff.mp hmake
        cases hput
        have heq := ih hrest
        exact heq
      · cases happend
        rfl

/-- Enlarging a store does not count the growth. -/
theorem growths_of_enlarge (henlarge : s.enlarge required = .ok s') : s'.growths = s.growths := by
  unfold enlarge at henlarge
  split at henlarge
  · obtain ⟨block, -, hrest⟩ := bind_eq_ok_iff.mp henlarge
    obtain ⟨block', -, hput⟩ := bind_eq_ok_iff.mp hrest
    cases hput
    rfl
  · rw [frame_of_appendUntil henlarge]

/-- A request that makes a store grow counts one growth. -/
theorem growths_of_reserve (hreserve : s.reserve required = .ok (.ok true, s')) :
    s'.growths = s.growths + 1 := by
  unfold reserve at hreserve
  split at hreserve
  · cases hreserve
  · split at hreserve
    · cases hreserve
    · obtain ⟨s₁, henlarge, hput⟩ := bind_eq_ok_iff.mp hreserve
      cases hput
      exact congrArg (· + 1) (growths_of_enlarge henlarge)

/-- A new store has not grown. -/
theorem growths_of_make {plan : StorePlan} {recordSize : Nat}
    (hmake : make recordSize plan = .ok s) : s.growths = 0 := by
  obtain ⟨shift, mask, -, hmade⟩ := make_eq_ok_iff.mp hmake
  cases hmade with
  | single _ _ heq => rw [heq]
  | blocks _ happend => rw [frame_of_appendUntil happend]

/-- A store that keeps the plan of the pool, and that has grown no more often
than it has room for records. -/
structure Regular (s : Store β) (recordSize : Nat) (plan : StorePlan) : Prop where
  sound : s.Sound
  recordSize : s.recordSize = recordSize
  blockSize : s.blockSize = plan.blockSize
  limit : s.limit = plan.limit
  growths_le : s.growths ≤ s.capacity

namespace Regular

variable {plan : StorePlan} {recordSize : Nat}

/-- Writing a record keeps a store regular. -/
theorem setRecord (h : s.Regular recordSize plan) (i : Nat) (cells : List β) :
    (s.setRecord i cells).Regular recordSize plan where
  sound := h.sound.setRecord i cells
  recordSize := h.recordSize
  blockSize := h.blockSize
  limit := h.limit
  growths_le := h.growths_le

/-- A store that was just made is regular. -/
theorem of_make (hvalid : plan.validate = .ok ()) (hrange : plan.InRange)
    (hbound : 2 ^ 31 * recordSize < sizeBound) (hmake : make recordSize plan = .ok s) :
    s.Regular recordSize plan := by
  obtain ⟨s', heq, hsound, hsize, hmode, hlimit, -⟩ := make_eq (β := β) hvalid hrange hbound
  rw [heq] at hmake
  cases hmake
  have hgrowths := growths_of_make heq
  exact ⟨hsound, hsize, hmode, hlimit, hgrowths ▸ Nat.zero_le _⟩

variable (hbound : 2 ^ 31 * recordSize < sizeBound)
include hbound

/-- **A request** keeps a store regular: each growth makes room for at least
one more record. -/
theorem reserve (h : s.Regular recordSize plan) {outcome : Except PoolError Bool}
    (hreserve : s.reserve required = .ok (outcome, s')) :
    s'.Regular recordSize plan ∧ s.capacity ≤ s'.capacity := by
  rcases h.sound.reserve_outcomes (h.recordSize ▸ hbound) required with
    ⟨-, heq⟩ | ⟨grown, heq, hext, hcap, hroom⟩ | ⟨heq, -⟩
  · rw [heq] at hreserve
    cases hreserve
    exact ⟨h, Nat.le_refl _⟩
  · have hgrowths := growths_of_reserve heq
    rw [heq] at hreserve
    cases hreserve
    have hle := h.growths_le
    exact ⟨⟨hext.sound, hext.recordSize.trans h.recordSize, hext.blockSize.trans h.blockSize,
      hext.limit.trans h.limit, by omega⟩, hext.capacity_le⟩
  · rw [heq] at hreserve
    cases hreserve
    exact ⟨h, Nat.le_refl _⟩

/-- **No request cuts a count off**, and the number of growths fits. -/
theorem reserveStrict_eq (h : s.Regular recordSize plan) (required : Nat) :
    s.reserveStrict required = s.reserve required := by
  unfold reserveStrict Store.reserve
  split
  · rfl
  · split
    · rfl
    · rw [h.sound.enlargeStrict_eq (by omega) (by omega) (h.recordSize ▸ hbound)]
      cases henlarge : s.enlarge required with
      | error fault => rfl
      | ok grown =>
          have hgrowths := growths_of_enlarge henlarge
          have hgrowths_le := h.growths_le
          have hcapacity_le := h.sound.capacity_le
          have hfits : grown.growths + 1 < sizeBound := by
            unfold sizeBound
            omega
          rw [ok_bind, ok_bind, addSize_eq_ok hfits]
          rfl

end Regular

/-- Writing a record never leaves the machine range. -/
theorem Sound.avoids_write (h : s.Sound) {i : Nat} (hi : i < s.capacity) (cells : List β) :
    Avoids .arithmetic (s.write i cells) := by
  obtain ⟨b, hb, hshape⟩ := h.exists_block hi
  unfold write
  dsimp only
  rw [fetch_eq_ok hb, ok_bind, hshape.place_eq (h.address_spec hi).2.1, ok_bind]
  split
  · exact avoids_ok _
  · rintro ⟨⟩

/-! ## Memory -/

/-- The sums of the sizes of blocks do not decrease. -/
theorem le_foldl_size (blocks : List (Block β)) (total : Nat) :
    total ≤ blocks.foldl (fun total b => total + b.cells.size) total := by
  induction blocks generalizing total with
  | nil => exact Nat.le_refl total
  | cons b blocks ih => exact (Nat.le_add_right total b.cells.size).trans (ih _)

/-- A sum that fits in the end fits all along. -/
theorem foldlM_addSize {blocks : List (Block β)} {total : Nat}
    (hfits : blocks.foldl (fun total b => total + b.cells.size) total < sizeBound) :
    blocks.foldlM (fun total b => addSize total b.cells.size) total =
      .ok (blocks.foldl (fun total b => total + b.cells.size) total) := by
  induction blocks generalizing total with
  | nil => rfl
  | cons b blocks ih =>
      rw [List.foldl_cons] at hfits ⊢
      have hfirst : total + b.cells.size < sizeBound :=
        lt_of_le_of_lt (le_foldl_size blocks _) hfits
      rw [List.foldlM_cons, addSize_eq_ok hfirst, ok_bind, ih hfits]

/-- **The memory of a store** fits when that of all records does. -/
theorem Sound.memoryStrict_eq (h : s.Sound) (hbound : 2 ^ 31 * s.recordSize < sizeBound) :
    s.memoryStrict = .ok s.memory := by
  have hfits : s.memory < sizeBound := by
    rw [h.memory_eq]
    exact lt_of_le_of_lt (Nat.mul_le_mul_right _ h.capacity_le) hbound
  unfold memory at hfits ⊢
  rw [← Array.foldl_toList] at hfits ⊢
  exact foldlM_addSize hfits

end Store

end RecordPool
