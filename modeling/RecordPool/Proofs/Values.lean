/-
# Values in memory

A storable value is read back from its cells as it was.  Every value of every
kind is storable, except the record indices beyond their signed form.
-/
import Mathlib
import RecordPool.Kind

namespace RecordPool

namespace Kind

variable {β F : Type} [Memory β F]

/-- The values that have a form in memory. -/
def Storable : (kind : Kind) → kind.Value F → Prop
  | index, some i => i ≤ indexLimit
  | _, _ => True

/-- A record index within its signed form is read back. -/
theorem indexOfInt_ofNat {i : Nat} (hi : i ≤ indexLimit) :
    indexOfInt (UInt32.ofNat i).toInt32 = some i := by
  have hlimit : indexLimit < 2 ^ 31 := by decide
  have hvalue : (UInt32.ofNat i).toInt32.toInt = (i : Int) := by
    rw [UInt32.toInt32_ofNat', Int32.toInt_ofNat_of_lt (by omega)]
  have hnonneg : ¬ (UInt32.ofNat i).toInt32 < 0 := by
    rw [Int32.lt_iff_toInt_lt, hvalue, Int32.toInt_zero]
    omega
  rw [indexOfInt, if_neg hnonneg, hvalue, Int.toNat_natCast]

/-- **A storable value reads back.** -/
theorem exists_encode {kind : Kind} {value : kind.Value F} (h : kind.Storable value) :
    ∃ cells : List β, kind.encode value = .ok cells ∧ kind.ofCells cells = value := by
  cases kind with
  | index =>
      cases value with
      | none =>
          refine ⟨_, rfl, ?_⟩
          show indexOfInt (UInt32.ofNat
            (Memory.toWord (Memory.ofWord 4 0xffffffff : List β))).toInt32 = none
          rw [Memory.toWord_ofWord (by norm_num)]
          rfl
      | some i =>
          have hi : (i : Nat) ≤ indexLimit := h
          have hword : (i : Nat) < 256 ^ 4 := lt_of_le_of_lt hi (by decide)
          refine ⟨Memory.ofWord 4 i, by rw [encode, if_pos hi]; rfl, ?_⟩
          show indexOfInt (UInt32.ofNat (Memory.toWord (Memory.ofWord 4 i : List β))).toInt32 =
            some i
          rw [Memory.toWord_ofWord hword, indexOfInt_ofNat hi]
  | byte =>
      have hword : value.toUInt8.toNat < 256 ^ 1 := by simpa using value.toUInt8.toNat_lt
      refine ⟨_, rfl, ?_⟩
      show (UInt8.ofNat
        (Memory.toWord (Memory.ofWord 1 value.toUInt8.toNat : List β))).toInt8 = value
      rw [Memory.toWord_ofWord hword, UInt8.ofNat_toNat, Int8.toInt8_toUInt8]
  | boolean =>
      have hword : value.toNat < 256 ^ 1 := by cases value <;> decide
      refine ⟨_, rfl, ?_⟩
      show (Memory.toWord (Memory.ofWord 1 value.toNat : List β) != 0) = value
      rw [Memory.toWord_ofWord hword]
      cases value <;> rfl
  | int =>
      have hword : value.toUInt32.toNat < 256 ^ 4 := by simpa using value.toUInt32.toNat_lt
      refine ⟨_, rfl, ?_⟩
      show (UInt32.ofNat
        (Memory.toWord (Memory.ofWord 4 value.toUInt32.toNat : List β))).toInt32 = value
      rw [Memory.toWord_ofWord hword, UInt32.ofNat_toNat, Int32.toInt32_toUInt32]
  | long =>
      have hword : value.toUInt64.toNat < 256 ^ 8 := by simpa using value.toUInt64.toNat_lt
      refine ⟨_, rfl, ?_⟩
      show (UInt64.ofNat
        (Memory.toWord (Memory.ofWord 8 value.toUInt64.toNat : List β))).toInt64 = value
      rw [Memory.toWord_ofWord hword, UInt64.ofNat_toNat, Int64.toInt64_toUInt64]
  | float =>
      have hword : value.bits.toNat < 256 ^ 4 := by simpa using value.bits.toNat_lt
      refine ⟨_, rfl, ?_⟩
      show (⟨UInt32.ofNat (Memory.toWord (Memory.ofWord 4 value.bits.toNat : List β))⟩ : Single)
        = value
      rw [Memory.toWord_ofWord hword, UInt32.ofNat_toNat]
  | double => exact ⟨_, rfl, Memory.toReal_ofReal value⟩

/-! ## Forms -/

/-- The cells of a value that has a form in memory. -/
def form (kind : Kind) (value : kind.Value F) : List β :=
  (kind.encode value).toOption.getD []

/-- The cells of some values, one after the other. -/
def forms (kind : Kind) (values : List (kind.Value F)) : List β :=
  (values.map kind.form).flatten

variable {kind : Kind} {value : kind.Value F}

/-- A storable value is written in its form. -/
theorem encode_eq_form (h : kind.Storable value) :
    kind.encode value = .ok (kind.form value : List β) := by
  obtain ⟨cells, hencode, -⟩ := exists_encode (β := β) h
  rw [form, hencode]
  rfl

/-- A form has the size of its kind. -/
theorem length_form (h : kind.Storable value) : (kind.form value : List β).length = kind.size :=
  length_of_encode (encode_eq_form h)

/-- A form is read as its value. -/
theorem ofCells_form (h : kind.Storable value) :
    kind.ofCells (kind.form value : List β) = value := by
  obtain ⟨cells, hencode, hread⟩ := exists_encode (β := β) h
  obtain rfl : kind.form value = cells := Except.ok.inj ((encode_eq_form h).symm.trans hencode)
  exact hread

/-- The forms of some values have the size of their kind each. -/
theorem length_forms {values : List (kind.Value F)} (h : ∀ v ∈ values, kind.Storable v) :
    (kind.forms values : List β).length = values.length * kind.size := by
  have hsizes : ∀ v ∈ values, (List.length ∘ kind.form (β := β)) v = kind.size :=
    fun v hv => length_form (h v hv)
  rw [forms, List.length_flatten, List.map_map, List.map_congr_left hsizes, List.map_const',
    List.sum_replicate, smul_eq_mul]

/-- Numbers take eight cells each. -/
theorem length_forms_double (xs : List F) :
    (Kind.double.forms xs : List β).length = 8 * xs.length := by
  rw [length_forms fun x _ => (trivial : Kind.double.Storable x), Nat.mul_comm]
  rfl

/-- A repeated value has its size each time. -/
theorem length_forms_replicate (h : kind.Storable value) (count : Nat) :
    (kind.forms (List.replicate count value) : List β).length = count * kind.size := by
  rw [length_forms fun v hv => List.eq_of_mem_replicate hv ▸ h, List.length_replicate]

/-- One more value adds its form. -/
theorem forms_concat (values : List (kind.Value F)) (value : kind.Value F) :
    (kind.forms (values ++ [value]) : List β) = kind.forms values ++ kind.form value := by
  simp [forms]

/-- Every kind has two values with a form in memory. -/
theorem exists_ne [Nontrivial F] (kind : Kind) :
    ∃ u v : kind.Value F, kind.Storable u ∧ kind.Storable v ∧ u ≠ v := by
  cases kind with
  | index => exact ⟨none, some (0 : Nat), trivial, Nat.zero_le _, by rintro ⟨⟩⟩
  | byte => exact ⟨(0 : Int8), (1 : Int8), trivial, trivial, (by decide : (0 : Int8) ≠ 1)⟩
  | boolean => exact ⟨false, true, trivial, trivial, Bool.false_ne_true⟩
  | int => exact ⟨(0 : Int32), (1 : Int32), trivial, trivial, (by decide : (0 : Int32) ≠ 1)⟩
  | long => exact ⟨(0 : Int64), (1 : Int64), trivial, trivial, (by decide : (0 : Int64) ≠ 1)⟩
  | float => exact ⟨(⟨0⟩ : Single), (⟨1⟩ : Single), trivial, trivial, (by decide : (⟨0⟩ : Single) ≠ ⟨1⟩)⟩
  | double =>
      obtain ⟨x, y, hne⟩ := exists_pair_ne F
      exact ⟨x, y, trivial, trivial, hne⟩

/-- A size below the largest signed number is kept through its signed form. -/
theorem widen_narrow {n : Nat} (hn : n < 2 ^ 31) : widen (narrow n) = n := by
  have hsize : (n : Int) < (sizeBound : Int) := by
    unfold sizeBound
    omega
  rw [widen, narrow, Int32.toInt_ofNat_of_lt hn, Int.emod_eq_of_lt (by omega) hsize,
    Int.toNat_natCast]

end Kind

end RecordPool
