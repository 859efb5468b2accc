/-
# Valid storage plans

What a valid plan promises, and its ceiling: the limit of the plan, rounded up
to whole blocks.  The ceiling is the limit itself exactly when the blocks fit
into it without a rest.  Shift and mask of a valid plan divide a record index
by the size of a block.
-/
import RecordPool.Proofs.Outcome
import RecordPool.Plan

namespace RecordPool

/-- A power of two ends in as many zeros as its exponent says. -/
theorem trailingZeros_two_pow {width k : Nat} (h : k ≤ width) :
    trailingZeros width (2 ^ k) = k := by
  induction width generalizing k with
  | zero => exact (Nat.le_zero.mp h).symm
  | succ width ih =>
      unfold trailingZeros
      cases k with
      | zero => rfl
      | succ k =>
          have heven : 2 ^ (k + 1) % 2 = 0 := by
            rw [Nat.pow_succ, Nat.mul_mod_left]
          have hhalf : 2 ^ (k + 1) / 2 = 2 ^ k := by
            rw [Nat.pow_succ, Nat.mul_div_cancel _ Nat.two_pos]
          rw [if_pos heven, hhalf, ih (Nat.le_of_succ_le_succ h)]

namespace StorePlan

/-- A plan is valid when its limit is a positive record index, its initial
room is within the limit, and its blocks hold a power of two of records. -/
theorem validate_eq_ok_iff {plan : StorePlan} :
    plan.validate = .ok () ↔
      0 < plan.limit ∧ plan.limit ≤ indexLimit ∧ plan.initial ≤ plan.limit ∧
        ∀ size, plan.blockSize = some size → isPowerOfTwo size := by
  unfold validate
  by_cases hlimit : plan.limit = 0 ∨ indexLimit < plan.limit
  · have hbad : ¬ (0 < plan.limit ∧ plan.limit ≤ indexLimit ∧ plan.initial ≤ plan.limit ∧
        ∀ size, plan.blockSize = some size → isPowerOfTwo size) := by
      rintro ⟨hpos, hle, -, -⟩
      omega
    simp only [if_pos hlimit]
    exact iff_of_false (by simp [throw, throwThe, MonadExceptOf.throw, bind, Except.bind]) hbad
  · simp only [if_neg hlimit]
    by_cases hinitial : plan.limit < plan.initial
    · simp only [if_pos hinitial]
      refine iff_of_false (by simp [throw, throwThe, MonadExceptOf.throw, bind, Except.bind]) ?_
      rintro ⟨-, -, hle, -⟩
      omega
    · simp only [if_neg hinitial]
      have hrange : 0 < plan.limit ∧ plan.limit ≤ indexLimit ∧ plan.initial ≤ plan.limit := by
        omega
      cases hmode : plan.blockSize with
      | none =>
          refine iff_of_true rfl ⟨hrange.1, hrange.2.1, hrange.2.2, ?_⟩
          rintro size ⟨⟩
      | some size =>
          by_cases hpower : isPowerOfTwo size
          · simp only [hpower, if_true]
            refine iff_of_true rfl ⟨hrange.1, hrange.2.1, hrange.2.2, ?_⟩
            rintro _ ⟨⟩
            exact hpower
          · refine iff_of_false ?_ fun h => hpower (h.2.2.2 size rfl)
            simp [hpower, throw, throwThe, MonadExceptOf.throw]

/-- The record count of a block is a 32-bit number. -/
def InRange (plan : StorePlan) : Prop :=
  ∀ size, plan.blockSize = some size → size < countBound

/-- A single array is a valid plan when its room is a record index. -/
theorem validate_single {initial : Nat} (hle : initial ≤ indexLimit) :
    (single initial).validate = .ok () := by
  rw [validate_eq_ok_iff]
  refine ⟨(by decide : 0 < indexLimit), Nat.le_refl _, hle, ?_⟩
  rintro size ⟨⟩

theorem inRange_single (initial : Nat) : (single initial).InRange := by
  rintro size ⟨⟩

/-- A power of two among the 32-bit numbers has an exponent below 32. -/
theorem exists_two_pow {size : Nat} (hpower : isPowerOfTwo size) (hrange : size < countBound) :
    ∃ k ≤ 31, size = 2 ^ k := by
  have heq : 2 ^ size.log2 = size := by simpa [isPowerOfTwo, Nat.one_shiftLeft] using hpower
  have hlt : 2 ^ size.log2 < 2 ^ 32 := lt_of_eq_of_lt heq hrange
  have hlog := (Nat.pow_lt_pow_iff_right (by norm_num : 1 < 2)).mp hlt
  exact ⟨size.log2, by omega, heq.symm⟩

/-- A power of two among the 32-bit numbers divides the largest one. -/
theorem dvd_of_isPowerOfTwo {size : Nat} (hpower : isPowerOfTwo size) (hrange : size < countBound) :
    size ∣ 2 ^ 31 := by
  obtain ⟨k, hk, rfl⟩ := exists_two_pow hpower hrange
  exact pow_dvd_pow 2 hk

/-! ## Shift and mask -/

/-- Shifting by `shift` and masking with `mask` divide by `size`. -/
structure Splits (shift mask size : Nat) : Prop where
  eq_two_pow : size = 2 ^ shift
  succ_mask : mask + 1 = size

namespace Splits

variable {shift mask size : Nat}

/-- What is shifted out is the rest of the division. -/
theorem shiftRight_eq (h : Splits shift mask size) (i : Nat) : i >>> shift = i / size := by
  rw [Nat.shiftRight_eq_div_pow, h.eq_two_pow]

/-- The mask leaves what is shifted out. -/
theorem and_eq (h : Splits shift mask size) (i : Nat) : i &&& mask = i % size := by
  have hmask : mask = 2 ^ shift - 1 := by
    rw [← h.eq_two_pow, ← h.succ_mask, Nat.add_sub_cancel]
  rw [hmask, Nat.and_two_pow_sub_one_eq_mod, h.eq_two_pow]

end Splits

/-- **Shift and mask of a valid plan** divide by the number of records in a
block. -/
theorem exists_addressing {plan : StorePlan} (hvalid : plan.validate = .ok ())
    (hrange : plan.InRange) :
    ∃ shift mask, plan.addressing = .ok (shift, mask) ∧
      ∀ size, plan.blockSize = some size → Splits shift mask size := by
  unfold addressing
  cases hmode : plan.blockSize with
  | none =>
      refine ⟨0, 0, rfl, ?_⟩
      rintro size ⟨⟩
  | some size =>
      have hpower := (validate_eq_ok_iff.mp hvalid).2.2.2 size hmode
      obtain ⟨k, hk, rfl⟩ := exists_two_pow hpower (hrange size hmode)
      have hpos : 0 < 2 ^ k := Nat.two_pow_pos k
      refine ⟨k, 2 ^ k - 1, ?_, ?_⟩
      · dsimp only
        rw [trailingZeros_two_pow (by omega), subSize_eq_ok hpos, ok_bind]
        rfl
      · rintro _ ⟨⟩
        exact ⟨rfl, by omega⟩

/-- The shift and the mask of a valid plan are these. -/
theorem splits_of_addressing {plan : StorePlan} (hvalid : plan.validate = .ok ())
    (hrange : plan.InRange) {shift mask size : Nat}
    (haddressing : plan.addressing = .ok (shift, mask)) (hmode : plan.blockSize = some size) : Splits shift mask size := by
  obtain ⟨shift', mask', haddressing', hsplits⟩ := exists_addressing hvalid hrange
  obtain ⟨rfl, rfl⟩ := Prod.mk.inj (Except.ok.inj (haddressing'.symm.trans haddressing))
  exact hsplits size hmode

/-! ## The ceiling -/

/-- The blocks of the plan fill its limit without a rest. -/
def WholeBlocks (plan : StorePlan) : Prop :=
  ∀ size, plan.blockSize = some size → size ∣ plan.limit

/-- The limit, rounded up to whole blocks. -/
def ceiling (plan : StorePlan) : Nat :=
  match plan.blockSize with
  | none => plan.limit
  | some size => size * ((plan.limit + size - 1) / size)

variable {plan : StorePlan}

/-- The ceiling of blocks is a whole number of blocks from the limit on, less
than a block above it. -/
theorem ceiling_spec {size : Nat} (hpos : 0 < size) (hmode : plan.blockSize = some size) :
    size ∣ plan.ceiling ∧ plan.limit ≤ plan.ceiling ∧ plan.ceiling < plan.limit + size := by
  have hceiling : plan.ceiling = size * ((plan.limit + size - 1) / size) := by
    rw [ceiling, hmode]
  have hdiv := Nat.div_add_mod (plan.limit + size - 1) size
  have hmod := Nat.mod_lt (plan.limit + size - 1) hpos
  rw [hceiling]
  exact ⟨Nat.dvd_mul_right _ _, by omega, by omega⟩

/-- Of two whole numbers of blocks the smaller is a block below the larger. -/
theorem add_le_of_dvd_of_lt {size m n : Nat} (hm : size ∣ m) (hn : size ∣ n) (hlt : m < n) :
    m + size ≤ n := by
  have hle := Nat.le_of_dvd (by omega) (Nat.dvd_sub hn hm)
  omega

/-- The ceiling is the least whole number of blocks that reaches the limit. -/
theorem ceiling_le_of_dvd {size n : Nat} (hpos : 0 < size) (hmode : plan.blockSize = some size)
    (hdvd : size ∣ n) (hle : plan.limit ≤ n) : plan.ceiling ≤ n := by
  obtain ⟨hwhole, -, hlt⟩ := ceiling_spec hpos hmode
  by_contra hgt
  have := add_le_of_dvd_of_lt hdvd hwhole (by omega)
  omega

/-- The ceiling is never below the limit. -/
theorem limit_le_ceiling (hpos : ∀ size, plan.blockSize = some size → 0 < size) :
    plan.limit ≤ plan.ceiling := by
  cases hmode : plan.blockSize with
  | none => rw [ceiling, hmode]
  | some size => exact (ceiling_spec (hpos size hmode) hmode).2.1

/-- The ceiling is the limit exactly when the blocks fill the limit. -/
theorem ceiling_eq_limit_iff (hpos : ∀ size, plan.blockSize = some size → 0 < size) :
    plan.ceiling = plan.limit ↔ plan.WholeBlocks := by
  cases hmode : plan.blockSize with
  | none =>
      refine iff_of_true (by rw [ceiling, hmode]) fun size hsize => ?_
      rw [hmode] at hsize
      cases hsize
  | some size =>
      have hspec := ceiling_spec (hpos size hmode) hmode
      constructor
      · intro heq size' hsize'
        obtain rfl : size = size' := Option.some.inj (hmode.symm.trans hsize')
        exact heq ▸ hspec.1
      · intro hwhole
        exact Nat.le_antisymm
          (ceiling_le_of_dvd (hpos size hmode) hmode (hwhole size hmode) (Nat.le_refl _)) hspec.2.1

/-- The blocks of a valid plan hold a positive number of records that divides
the largest 32-bit power of two. -/
theorem dvd_of_validate (hvalid : plan.validate = .ok ()) (hrange : plan.InRange) {size : Nat}
    (hmode : plan.blockSize = some size) : size ∣ 2 ^ 31 ∧ 0 < size := by
  have hdvd : size ∣ 2 ^ 31 :=
    dvd_of_isPowerOfTwo ((validate_eq_ok_iff.mp hvalid).2.2.2 size hmode) (hrange size hmode)
  exact ⟨hdvd, Nat.pos_of_dvd_of_pos hdvd (by norm_num)⟩

/-- The ceiling of a valid plan is a 32-bit number. -/
theorem ceiling_le (hvalid : plan.validate = .ok ()) (hrange : plan.InRange) :
    plan.ceiling ≤ 2 ^ 31 := by
  have hlimit : plan.limit ≤ 2 ^ 31 :=
    (validate_eq_ok_iff.mp hvalid).2.1.trans (by decide)
  cases hmode : plan.blockSize with
  | none =>
      rw [ceiling, hmode]
      exact hlimit
  | some size =>
      obtain ⟨hdvd, hpos⟩ := dvd_of_validate hvalid hrange hmode
      exact ceiling_le_of_dvd hpos hmode hdvd hlimit

end StorePlan

end RecordPool
