/-
# Blocks

A block is one stretch of memory that holds a whole number of records of one
size.  Every access computes the place of a record in machine arithmetic
before it looks at the memory.
-/
import RecordPool.Checked
import RecordPool.Memory.Basic

namespace RecordPool

/-- The cells `cells` with `values` written from position `start` on; what
would lie beyond the end is dropped. -/
def overwrite {β : Type} (cells : Array β) (start : Nat) : List β → Array β
  | [] => cells
  | value :: values => overwrite (cells.setIfInBounds start value) (start + 1) values

/-- Writing does not change the size. -/
@[simp] theorem size_overwrite {β : Type} (cells : Array β) (start : Nat) (values : List β) :
    (overwrite cells start values).size = cells.size := by
  induction values generalizing cells start with
  | nil => rfl
  | cons value values ih => rw [overwrite, ih, Array.size_setIfInBounds]

/-- Writing values that fit replaces as many cells and leaves the others. -/
theorem toList_overwrite {β : Type} (cells : Array β) (start : Nat) (values : List β)
    (h : start + values.length ≤ cells.size) :
    (overwrite cells start values).toList =
      cells.toList.take start ++ values ++ cells.toList.drop (start + values.length) := by
  induction values generalizing cells start with
  | nil => simp [overwrite]
  | cons value values ih =>
      rw [List.length_cons] at h
      have hstart : start < cells.toList.length := by
        rw [Array.length_toList]
        omega
      have hlength : (cells.toList.take start).length = start := by
        rw [List.length_take, Nat.min_eq_left (Nat.le_of_lt hstart)]
      have htake : (cells.toList.set start value).take (start + 1) =
          cells.toList.take start ++ [value] := by
        rw [List.set_eq_take_append_cons_drop, if_pos hstart, List.take_append, hlength,
          List.take_of_length_le (by omega), Nat.add_sub_cancel_left]
        rfl
      rw [overwrite, ih _ _ (by rw [Array.size_setIfInBounds]; omega), Array.toList_setIfInBounds,
        htake, List.drop_set_of_lt (by omega)]
      simp [Nat.add_assoc, Nat.add_comm 1]

/-- Memory for records of one size. -/
structure Block (β : Type) where
  /-- The memory. -/
  cells : Array β
  /-- The number of cells of a record. -/
  recordSize : Nat

namespace Block

variable {β F : Type} [Memory β F]

/-- A blank block for `records` records. -/
def make (records recordSize : Nat) : Checked (Block β) := do
  let size ← mulSize records recordSize
  pure ⟨Array.replicate size Memory.blank, recordSize⟩

/-- The first cell of the record in `slot`. -/
def place (b : Block β) (slot : Nat) : Checked Nat := do
  let start ← mulSize slot b.recordSize
  let stop ← addSize start b.recordSize
  if stop ≤ b.cells.size then pure start else throw .bounds

/-- The cells of one record, from its first cell on. -/
def recordFrom (b : Block β) (start : Nat) : List β :=
  (b.cells.extract start (start + b.recordSize)).toList

/-- The cells of the record in `slot`. -/
def record (b : Block β) (slot : Nat) : Checked (List β) := do
  pure (b.recordFrom (← b.place slot))

/-- The block with `values` written from the cell `start` on. -/
def put (b : Block β) (start : Nat) (values : List β) : Block β :=
  { b with cells := overwrite b.cells start values }

/-- Writes a whole record over the one in `slot`. -/
def write (b : Block β) (slot : Nat) (values : List β) : Checked (Block β) := do
  let start ← b.place slot
  if values.length = b.recordSize then pure (b.put start values) else throw .bounds

/-- Makes room for `records` records; new memory is blank. -/
def resize (b : Block β) (records : Nat) : Checked (Block β) := do
  let size ← mulSize records b.recordSize
  pure { b with
    cells := b.cells.extract 0 size ++ Array.replicate (size - b.cells.size) Memory.blank }

/-- The number of records there is room for. -/
def capacity (b : Block β) : Checked Nat :=
  divSize b.cells.size b.recordSize

end Block

end RecordPool
