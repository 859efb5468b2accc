/-
# Checked access and arithmetic

Access to sequences faults outside their bounds, and arithmetic faults outside
the machine range: sizes and offsets have 64 bits and record counts 32, and
both are natural numbers here.
-/
import RecordPool.Fault

namespace RecordPool

/-! ## Access -/

/-- The element at position `i`. -/
def fetch {α : Type} (xs : Array α) (i : Nat) : Checked α :=
  match xs[i]? with
  | some x => pure x
  | none => throw .bounds

/-- The element at position `i` of a list. -/
def fetchAt {α : Type} (xs : List α) (i : Nat) : Checked α :=
  match xs[i]? with
  | some x => pure x
  | none => throw .bounds

/-- The first `count` elements of a list that has that many. -/
def takeExactly {α : Type} (xs : List α) (count : Nat) : Checked (List α) :=
  if count ≤ xs.length then pure (xs.take count) else throw .bounds

/-- The list `xs` with `ys` in place of the elements from `start` on. -/
def splice {α : Type} (xs : List α) (start : Nat) (ys : List α) : Checked (List α) :=
  if start + ys.length ≤ xs.length then
    pure (xs.take start ++ ys ++ xs.drop (start + ys.length))
  else
    throw .bounds

/-- A list that is long enough gives its start. -/
theorem takeExactly_eq_ok {α : Type} {xs : List α} {count : Nat} (h : count ≤ xs.length) :
    takeExactly xs count = .ok (xs.take count) := by
  unfold takeExactly
  rw [if_pos h]
  rfl

/-- Replacing elements keeps their number. -/
theorem length_of_splice {α : Type} {xs ys zs : List α} {start : Nat}
    (h : splice xs start ys = .ok zs) : zs.length = xs.length := by
  unfold splice at h
  split at h
  · cases h
    simp only [List.length_append, List.length_take, List.length_drop]
    omega
  · cases h

/-! ## Machine arithmetic -/

/-- Sizes and offsets are below this bound. -/
def sizeBound : Nat := 0x10000000000000000

/-- Record counts are below this bound. -/
def countBound : Nat := 0x100000000

/-- The largest record index that an index attribute can hold. -/
def indexLimit : Nat := 0x7fffffff

/-- The sum of two sizes. -/
def addSize (a b : Nat) : Checked Nat :=
  if a + b < sizeBound then pure (a + b) else throw .arithmetic

/-- The product of two sizes. -/
def mulSize (a b : Nat) : Checked Nat :=
  if a * b < sizeBound then pure (a * b) else throw .arithmetic

/-- The difference of two sizes or of two record counts. -/
def subSize (a b : Nat) : Checked Nat :=
  if b ≤ a then pure (a - b) else throw .arithmetic

/-- The quotient of two sizes. -/
def divSize (a b : Nat) : Checked Nat :=
  if b = 0 then throw .arithmetic else pure (a / b)

/-- The sum of two record counts. -/
def addCount (a b : Nat) : Checked Nat :=
  if a + b < countBound then pure (a + b) else throw .arithmetic

/-- The sum of two record counts, cut off at the largest count. -/
def addCountCapped (a b : Nat) : Nat :=
  min (a + b) (countBound - 1)

/-- Twice a record count, cut off at the largest count. -/
def doubleCountCapped (a : Nat) : Nat :=
  min (2 * a) (countBound - 1)

/-- How many of the lowest `width` bits of `n` are zero before one is not. -/
def trailingZeros : (width : Nat) → (n : Nat) → Nat
  | 0, _ => 0
  | width + 1, n => if n % 2 = 0 then trailingZeros width (n / 2) + 1 else 0

end RecordPool
