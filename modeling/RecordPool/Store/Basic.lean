/-
# Record stores

A store maps record indices onto blocks.  By its plan it is one block that is
enlarged when it is full, at least doubling, or a sequence of equal blocks to
which more are appended.  Growth keeps every record at its index.
-/
import RecordPool.Plan
import RecordPool.Store.Block

namespace RecordPool

/-- Growable memory for records of one size. -/
structure Store (β : Type) where
  /-- The memory, in order. -/
  blocks : Array (Block β)
  /-- The number of cells of a record. -/
  recordSize : Nat
  /-- The number of records in one block, or `none` for a single array. -/
  blockSize : Option Nat
  /-- The binary logarithm of the number of records in one block. -/
  shift : Nat
  /-- The number of records in one block, less one. -/
  mask : Nat
  /-- The number of records there is room for. -/
  capacity : Nat
  /-- The number of records that may be asked for. -/
  limit : Nat
  /-- How often the store has grown. -/
  growths : Nat

namespace Store

variable {β F : Type} [Memory β F]

/-! ## Growth -/

/-- The least room that a single array grows to. -/
def leastGrowth : Nat := 16

/-- Appends one block. -/
def appendBlock (s : Store β) : Checked (Store β) := do
  let size ← addCount s.mask 1
  let block ← Block.make size s.recordSize
  pure { s with
    blocks := s.blocks.push block
    capacity := addCountCapped s.capacity size }

/-- Appends blocks until there is room for `required` records, at most `fuel`
of them. -/
def appendUntil (required : Nat) : (fuel : Nat) → Store β → Checked (Store β)
  | 0, s => pure s
  | fuel + 1, s => do
      if s.capacity < required then
        appendUntil required fuel (← s.appendBlock)
      else
        pure s

/-- The store that a plan asks for. -/
def make (recordSize : Nat) (plan : StorePlan) : Checked (Store β) := do
  let (shift, mask) ← plan.addressing
  let bare : Store β := ⟨#[], recordSize, plan.blockSize, shift, mask, 0, plan.limit, 0⟩
  match plan.blockSize with
  | none => do
      let block ← Block.make plan.initial recordSize
      pure { bare with blocks := #[block], capacity := plan.initial }
  | some _ => appendUntil plan.initial plan.initial bare

/-- The room that a single array grows to when `required` records are asked
for: twice as much as before, within the limit. -/
def grownCapacity (s : Store β) (required : Nat) : Nat :=
  min (max (max (doubleCountCapped s.capacity) leastGrowth) required) s.limit

/-- Makes room for `required` records, which exceed the capacity. -/
def enlarge (s : Store β) (required : Nat) : Checked (Store β) := do
  match s.blockSize with
  | none => do
      let capacity := s.grownCapacity required
      let block ← (← fetch s.blocks 0).resize capacity
      pure { s with blocks := s.blocks.setIfInBounds 0 block, capacity }
  | some _ => appendUntil required required s

/-- Makes room for `required` records.  The outcome tells whether the store
grew, or why it may not; then the store is as it was. -/
def reserve (s : Store β) (required : Nat) :
    Checked (Except PoolError Bool × Store β) := do
  if required ≤ s.capacity then
    pure (.ok false, s)
  else if s.limit < required then
    pure (.error (.capacityExceeded required s.limit), s)
  else do
    let grown ← s.enlarge required
    pure (.ok true, { grown with growths := grown.growths + 1 })

/-! ## Access -/

/-- The block that holds a record, and its slot therein. -/
def address (s : Store β) (index : RecordIndex) : Nat × Nat :=
  match s.blockSize with
  | none => (0, index)
  | some _ => (index >>> s.shift, index &&& s.mask)

/-- The cells of a record. -/
def record (s : Store β) (index : RecordIndex) : Checked (List β) := do
  let (block, slot) := s.address index
  (← fetch s.blocks block).record slot

/-- The store with `values` written into one block. -/
def put (s : Store β) (block start : Nat) (values : List β) : Store β :=
  { s with blocks := s.blocks.modify block (·.put start values) }

/-- Writes a whole record. -/
def write (s : Store β) (index : RecordIndex) (values : List β) : Checked (Store β) := do
  let (block, slot) := s.address index
  let start ← (← fetch s.blocks block).place slot
  if values.length = s.recordSize then pure (s.put block start values) else throw .bounds

/-- Copies a record within one block. -/
def copyWithin (s : Store β) (block source target : Nat) : Checked (Store β) := do
  let cells := (← fetch s.blocks block).cells
  let start ← mulSize source s.recordSize
  let stop ← mulSize (source + 1) s.recordSize
  let goal ← mulSize target s.recordSize
  if stop ≤ cells.size ∧ goal + s.recordSize ≤ cells.size then
    pure (s.put block goal (cells.extract start stop).toList)
  else
    throw .bounds

/-- Copies the record `source` over the record `target`. -/
def copy (s : Store β) (source target : RecordIndex) : Checked (Store β) := do
  if source = target then
    pure s
  else do
    let (sourceBlock, sourceSlot) := s.address source
    let (targetBlock, targetSlot) := s.address target
    if sourceBlock = targetBlock then
      s.copyWithin sourceBlock sourceSlot targetSlot
    else do
      let origin ← fetch s.blocks sourceBlock
      let goal ← (← fetch s.blocks targetBlock).place targetSlot
      pure (s.put targetBlock goal (← origin.record sourceSlot))

/-- The number of cells of all blocks. -/
def memory (s : Store β) : Nat :=
  s.blocks.foldl (fun total block => total + block.cells.size) 0

end Store

end RecordPool
