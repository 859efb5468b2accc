/-
# Exact arithmetic

Coordinates in an ordered ring, such as the rationals: nothing is rounded,
every two numbers can be compared, and a list has its least and its greatest
element as extremes.  The squared distance is then the sum of the squared
differences.
-/
import RecordPool.Proofs.Coordinates

namespace RecordPool

variable {F : Type} [CommRing F] [LinearOrder F]

/-- The numbers of an ordered ring as coordinates. -/
instance (priority := low) exactArithmetic : Arithmetic F where
  zero := 0
  emptySum := 0
  add := fun x y => x + y
  sub := fun x y => x - y
  mul := fun x y => x * y
  lt := fun x y => decide (x < y)
  le := fun x y => decide (x ≤ y)
  compare := fun x y => compare x y
  least := fun xs => xs.min?.getD 0
  greatest := fun xs => xs.max?.getD 0

namespace Exact

@[simp] theorem zero_eq : (Arithmetic.zero : F) = 0 := rfl

@[simp] theorem add_eq (x y : F) : Arithmetic.add x y = x + y := rfl

@[simp] theorem sub_eq (x y : F) : Arithmetic.sub x y = x - y := rfl

@[simp] theorem lt_eq (x y : F) : Arithmetic.lt x y = decide (x < y) := rfl

@[simp] theorem le_eq (x y : F) : Arithmetic.le x y = decide (x ≤ y) := rfl

@[simp] theorem square_eq (x : F) : Arithmetic.square x = x ^ 2 := (pow_two x).symm

/-- Exact numbers are totally ordered. -/
instance : Std.TransCmp (Arithmetic.compare (F := F)) :=
  inferInstanceAs (Std.TransCmp (compare : F → F → Ordering))

/-- Comparing exact numbers is asking for their order. -/
theorem isLE_compare_iff {x y : F} : (Arithmetic.compare x y).isLE ↔ x ≤ y := by
  show (compare x y).isLE ↔ x ≤ y
  exact Std.LawfulBCmp.isLE_iff_le

/-- The least of some values is at most each of them. -/
theorem least_le {xs : List F} {x : F} (h : x ∈ xs) : Arithmetic.least xs ≤ x := by
  show xs.min?.getD 0 ≤ x
  cases hmin : xs.min? with
  | none =>
      rw [List.min?_eq_none_iff] at hmin
      rw [hmin] at h
      cases h
  | some m => exact (List.min?_eq_some_iff.mp hmin).2 x h

/-- The greatest of some values is at least each of them. -/
theorem le_greatest {xs : List F} {x : F} (h : x ∈ xs) : x ≤ Arithmetic.greatest xs := by
  show x ≤ xs.max?.getD 0
  cases hmax : xs.max? with
  | none =>
      rw [List.max?_eq_none_iff] at hmax
      rw [hmax] at h
      cases h
  | some m => exact (List.max?_eq_some_iff.mp hmax).2 x h

/-- The sum over a range of axes. -/
theorem sum_map_range (n : Nat) (f : Nat → F) :
    Arithmetic.sum ((List.range n).map f) = ∑ d ∈ Finset.range n, f d := by
  unfold Arithmetic.sum
  induction n with
  | zero => rfl
  | succ n ih =>
      rw [List.range_succ, List.map_append, List.foldl_append, ih, Finset.sum_range_succ,
        List.map_singleton, List.foldl_cons, List.foldl_nil, add_eq]

/-- The squared distance is the sum of the squared differences. -/
theorem distanceBetween_eq (n : Nat) (x y : List F) :
    distanceBetween n x y = ∑ d ∈ Finset.range n, (x.getD d 0 - y.getD d 0) ^ 2 := by
  unfold distanceBetween
  rw [sum_map_range]
  simp only [square_eq, sub_eq, zero_eq]

end Exact

end RecordPool
