/-
# Side tables

A side table attaches a value of any type to records of one pool.  Each value
carries the stamp of the record it was set for, so that it counts as absent
once the record is gone, also when the slot is used again.  A stale value is
dropped when its slot is set or the table is pruned.
-/
import RecordPool.Pool.Basic

namespace RecordPool

/-- A value and the stamp of its record. -/
structure Entry (α : Type) where
  /-- The stamp of the record. -/
  stamp : Stamp
  /-- The value. -/
  value : α

/-- Values for the records of one pool. -/
structure SideTable (α : Type) where
  /-- The pool. -/
  pool : PoolId
  /-- The entries by slot. -/
  entries : List (Option (Entry α))

namespace SideTable

variable {α β F : Type} [Memory β F]

/-- The empty table for records of a pool. -/
def empty (p : Pool β) : SideTable α :=
  ⟨p.id, []⟩

/-- The slot of the record of `r` and its stamp. -/
def slot (t : SideTable α) (p : Pool β) (r : Reference) :
    Checked (RecordIndex × Option Stamp) := do
  demand (t.pool == p.id) .foreignTable
  let index ← p.require r
  pure (index, ← p.stamp? index)

/-- The entry in a slot, stale or not. -/
def entryAt? (t : SideTable α) (index : RecordIndex) : Option (Entry α) :=
  t.entries[index]?.join

/-- The value of an entry that carries the given stamp. -/
def valueFor? (stamp : Option Stamp) (entry : Option (Entry α)) : Option α :=
  match entry with
  | some e => if some e.stamp = stamp then some e.value else none
  | none => none

/-- The value set for the record of `r`. -/
def get (t : SideTable α) (p : Pool β) (r : Reference) : Checked (Option α) := do
  let (index, stamp) ← t.slot p r
  pure (valueFor? stamp (t.entryAt? index))

/-- The value set for the record of `r`, or else `default`. -/
def getD (t : SideTable α) (p : Pool β) (r : Reference) (default : α) : Checked α := do
  pure ((← t.get p r).getD default)

/-- Whether a value is set for the record of `r`. -/
def isSet (t : SideTable α) (p : Pool β) (r : Reference) : Checked Bool := do
  pure (← t.get p r).isSome

/-- The table with an entry in a slot, extended by empty slots as needed. -/
def store (t : SideTable α) (index : RecordIndex) (entry : Entry α) : SideTable α :=
  let missing := index + 1 - t.entries.length
  { t with entries := (t.entries ++ List.replicate missing none).set index (some entry) }

/-- Sets the value for the record of `r`; the result is the one it had. -/
def set (t : SideTable α) (p : Pool β) (r : Reference) (value : α) :
    Checked (Option α × SideTable α) := do
  match ← t.slot p r with
  | (_, none) => pure (none, t)
  | (index, some stamp) =>
      pure (valueFor? (some stamp) (t.entryAt? index), t.store index ⟨stamp, value⟩)

/-- Removes the value for the record of `r`; the result is the one it had.  A
stale entry stays. -/
def remove (t : SideTable α) (p : Pool β) (r : Reference) :
    Checked (Option α × SideTable α) := do
  let (index, stamp) ← t.slot p r
  match valueFor? stamp (t.entryAt? index) with
  | some value => pure (some value, { t with entries := t.entries.set index none })
  | none => pure (none, t)

/-- The entries with the stale ones replaced by empty slots. -/
def current (t : SideTable α) (p : Pool β) : Checked (List (Option (Entry α))) :=
  t.entries.zipIdx.mapM fun (entry, index) => do
    match entry with
    | none => pure none
    | some e => if some e.stamp = (← p.stamp? index) then pure (some e) else pure none

/-- The number of records that have a value. -/
def size (t : SideTable α) (p : Pool β) : Checked Nat := do
  pure ((← t.current p).countP (·.isSome))

/-- Whether no record has a value. -/
def isEmpty (t : SideTable α) (p : Pool β) : Checked Bool := do
  pure ((← t.size p) == 0)

/-- Drops the stale entries. -/
def prune (t : SideTable α) (p : Pool β) : Checked (SideTable α) := do
  pure { t with entries := ← t.current p }

/-- The table without its values. -/
def clear (t : SideTable α) : SideTable α :=
  { t with entries := [] }

end SideTable

end RecordPool
