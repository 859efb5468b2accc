/-
# Record pools

A pool hands out the slots of a store as records and takes them back.  Freed
slots are reused last in, first out, before any new slot is taken.  A slot
counts its generations, one more at each deletion, and the pool counts its
epochs, one more each time it is cleared; a reference is valid as long as its
slot is live and both counts are those it remembers.
-/
import RecordPool.Layout.Basic
import RecordPool.Store.Basic
import RecordPool.Pool.Reference

namespace RecordPool

/-! ## Resetting records -/

/-- What a pool does to the cells of a record that it hands out or takes back.
The number of cells stays the same. -/
structure Reset (β : Type) where
  /-- The cells afterwards. -/
  apply : List β → List β
  /-- No cell is added or removed. -/
  length_apply : ∀ cells, (apply cells).length = cells.length

namespace Reset

variable {β F : Type} [Memory β F]

/-- Leaves a record as it is. -/
def keep : Reset β :=
  ⟨id, fun _ => rfl⟩

/-- Applies `f` to each byte of a record. -/
def mapBytes (f : UInt8 → UInt8) : Reset β :=
  ⟨fun cells => cells.map fun c => Memory.ofByte (f (Memory.toByte c)), by simp⟩

/-- Sets every byte of a record to `byte`. -/
def fill (byte : UInt8) : Reset β :=
  mapBytes fun _ => byte

/-- Makes a record blank. -/
def blank : Reset β :=
  fill 0

end Reset

/-! ## Pools -/

/-- A listener, by the name under which it was registered. -/
abbrev Listener := String

/-- Records of one layout. -/
structure Pool (β : Type) where
  /-- The identity of the pool. -/
  id : PoolId
  /-- The layout of every record. -/
  layout : Layout
  /-- The memory of the records. -/
  store : Store β
  /-- What happens to a record when it is handed out or taken back. -/
  reset : Reset β
  /-- The number of slots handed out since the pool was made or cleared. -/
  allocated : Nat
  /-- The slots to be reused, the next one first. -/
  free : List RecordIndex
  /-- Whether each slot handed out is in use. -/
  live : Array Bool
  /-- How often each slot was taken back. -/
  generations : Array UInt32
  /-- How often the pool was cleared. -/
  epoch : UInt32
  /-- The listeners, in the order of their registration. -/
  listeners : List Listener

/-- How full a pool is. -/
structure Occupancy where
  /-- The number of records in use. -/
  live : Nat
  /-- The number of slots waiting for reuse. -/
  free : Nat
  /-- The number of slots handed out. -/
  handedOut : Nat
  /-- The number of records there is room for. -/
  capacity : Nat
  /-- How often the store has grown. -/
  growths : Nat
  /-- The number of cells of the store. -/
  memory : Nat
  deriving DecidableEq, Repr

/-- Two equal stamps for one slot belong to the same record. -/
structure Stamp where
  /-- The generation of the slot. -/
  generation : UInt32
  /-- The epoch of the pool. -/
  epoch : UInt32
  deriving DecidableEq, Repr

namespace Pool

variable {β F : Type} [Memory β F]

/-- An empty pool whose store follows a plan. -/
def make (id : PoolId) (layout : Layout) (plan : StorePlan) (reset : Reset β) :
    ExceptT PoolError Checked (Pool β) := do
  let _ ← ExceptT.mk (pure plan.validate)
  let store ← Store.make layout.size plan
  pure {
    id, layout, store, reset
    allocated := 0, free := [], live := #[], generations := #[], epoch := 0, listeners := [] }

/-! ## Figures -/

/-- The number of records in use. -/
def size (p : Pool β) : Checked Nat :=
  subSize p.allocated p.free.length

/-- How full the pool is. -/
def occupancy (p : Pool β) : Checked Occupancy := do
  pure {
    live := ← p.size
    free := p.free.length
    handedOut := p.allocated
    capacity := p.store.capacity
    growths := p.store.growths
    memory := p.store.memory }

/-- Whether the slot `index` holds a record in use. -/
def isLive (p : Pool β) (index : RecordIndex) : Checked Bool :=
  if index < p.allocated then fetch p.live index else pure false

/-- The stamp of a record in use. -/
def stamp? (p : Pool β) (index : RecordIndex) : Checked (Option Stamp) := do
  if ← p.isLive index then
    pure (some ⟨← fetch p.generations index, p.epoch⟩)
  else
    pure none

/-! ## Checking references -/

/-- The record that a valid reference points at.  The reference has to be one
of this pool, has to be pointed, and its record must neither have been taken
back nor dropped since. -/
def resolve (p : Pool β) (r : Reference) : ExceptT PoolError Checked RecordIndex := do
  if r.pool ≠ p.id then
    throw (.foreignReference p.id r.pool)
  match r.target with
  | none => throw .unpointed
  | some target => do
      let current := p.generations.getD target.index 0
      let stale := PoolError.staleReference target.index target.generation current
      if target.epoch ≠ p.epoch ∨ p.allocated ≤ target.index then
        throw stale
      let inUse : Bool ← ExceptT.lift (fetch p.live target.index)
      if !inUse then
        throw stale
      if current ≠ target.generation then
        throw stale
      pure target.index

/-- Whether a reference is valid, and if not, why. -/
def check (p : Pool β) (r : Reference) : ExceptT PoolError Checked Unit := do
  let _ ← p.resolve r
  pure ()

/-- The record of a reference that has to be valid. -/
def require (p : Pool β) (r : Reference) : Checked RecordIndex :=
  insist (p.resolve r)

/-! ## Handing out records -/

/-- A new reference that points at nothing. -/
def newReference (p : Pool β) : Reference :=
  .unpointed p.id

/-- Gives a reference back. -/
def release (p : Pool β) (r : Reference) : Checked Unit :=
  demand (r.pool == p.id) .foreignRelease

/-- Resets the cells of a record. -/
def resetRecord (p : Pool β) (index : RecordIndex) : Checked (Pool β) := do
  let cells ← p.store.record index
  let store ← p.store.write index (p.reset.apply cells)
  pure { p with store }

/-- Puts a slot into use and points `r` at it. -/
def occupy (p : Pool β) (index : RecordIndex) (r : Reference) :
    Checked (Pool β × Reference) := do
  let _ ← fetch p.live index
  let p ← p.resetRecord index
  let generation ← fetch p.generations index
  let target : Target := ⟨index, generation, p.epoch⟩
  pure ({ p with live := p.live.setIfInBounds index true }, r.aim target)

/-- The pool with one more slot, not yet in use; its store has room for it. -/
def addSlot (p : Pool β) (store : Store β) : Pool β :=
  let generations :=
    if p.generations.size ≤ p.allocated then p.generations.push 0 else p.generations
  { p with
    store, generations
    allocated := p.allocated + 1
    live := p.live.push false }

/-- Puts a free slot into use, or a new one if none is free, and points `r` at
it.  If the store may not grow, pool and reference are as they were. -/
def allocate (p : Pool β) (r : Reference) :
    Checked (Except PoolError RecordIndex × Pool β × Reference) := do
  demand (r.pool == p.id) .foreignReference
  match p.free with
  | index :: free => do
      let (p, r) ← { p with free }.occupy index r
      pure (.ok index, p, r)
  | [] => do
      let index := p.allocated
      let (outcome, store) ← p.store.reserve (← addCount index 1)
      match outcome with
      | .error refusal => pure (.error refusal, { p with store }, r)
      | .ok _ => do
          let (p, r) ← (p.addSlot store).occupy index r
          pure (.ok index, p, r)

/-- Like `allocate`, but the pool must not be full. -/
def create (p : Pool β) (r : Reference) : Checked (RecordIndex × Pool β × Reference) := do
  match ← p.allocate r with
  | (.ok index, p, r) => pure (index, p, r)
  | (.error refusal, _, _) => violate (.refused refusal)

/-- Creates `count` records through one reference. -/
def createMany (p : Pool β) (r : Reference) :
    (count : Nat) → Checked (List RecordIndex × Pool β × Reference)
  | 0 => pure ([], p, r)
  | count + 1 => do
      let (index, p, r) ← p.create r
      let (indices, p, r) ← p.createMany r count
      pure (index :: indices, p, r)

/-- Takes a record back.  Every reference to it is stale from then on. -/
def delete (p : Pool β) (r : Reference) : Checked (Pool β) := do
  let index ← p.require r
  let p ← p.resetRecord index
  let generation ← fetch p.generations index
  let _ ← fetch p.live index
  pure { p with
    generations := p.generations.setIfInBounds index (generation + 1)
    live := p.live.setIfInBounds index false
    free := index :: p.free }

/-- Points `r` at a record in use. -/
def pointAt (p : Pool β) (index : RecordIndex) (r : Reference) : Checked Reference := do
  demand (r.pool == p.id) .foreignReference
  demand (← p.isLive index) (.notLive index)
  pure (r.aim ⟨index, ← fetch p.generations index, p.epoch⟩)

/-- Drops every record.  Every reference is stale from then on; the memory is
kept, and so are the generations of the slots. -/
def clear (p : Pool β) : Pool β :=
  { p with allocated := 0, free := [], live := #[], epoch := p.epoch + 1 }

/-! ## Cells of records -/

/-- The cells of the record that `r` points at. -/
def cells (p : Pool β) (r : Reference) : Checked (List β) := do
  p.store.record (← p.require r)

/-- Writes `values` into the record `index` from the cell `offset` on. -/
def patch (p : Pool β) (index : RecordIndex) (offset : Nat) (values : List β) :
    Checked (Pool β) := do
  let cells ← splice (← p.store.record index) offset values
  let store ← p.store.write index cells
  pure { p with store }

/-- Copies the record of `source` over the record of `target`.  No listener
hears of it. -/
def copy (p : Pool β) (source target : Reference) : Checked (Pool β) := do
  let sourceIndex ← p.require source
  let targetIndex ← p.require target
  let store ← p.store.copy sourceIndex targetIndex
  pure { p with store }

end Pool

end RecordPool
