/-
# Lists of records

An ordered list of records of one pool, by their indices.  The list does not
hear of deletions: an element may outlive its record.
-/
import RecordPool.Pool.Basic

namespace RecordPool

/-- A list of records of one pool. -/
structure RecordList where
  /-- The pool. -/
  pool : PoolId
  /-- The records, in order. -/
  indices : List RecordIndex
  deriving DecidableEq, Repr

namespace RecordList

/-- The empty list for records of a pool. -/
def empty {β : Type} (p : Pool β) : RecordList :=
  ⟨p.id, []⟩

/-- Appends the record of `r`. -/
def add (l : RecordList) (r : Reference) : Checked RecordList := do
  demand (r.pool == l.pool) .foreignReference
  pure { l with indices := l.indices ++ [← r.index] }

/-- Points `r` at element `i`. -/
def pointAt {β : Type} (l : RecordList) (i : Nat) (p : Pool β) (r : Reference) :
    Checked Reference := do
  p.pointAt (← fetchAt l.indices i) r

/-- The record that is element `i`. -/
def indexAt? (l : RecordList) (i : Nat) : Option RecordIndex :=
  l.indices[i]?

/-- Removes element `i`, if there is one; later elements move up. -/
def remove (l : RecordList) (i : Nat) : Option RecordIndex × RecordList :=
  (l.indices[i]?, { l with indices := l.indices.eraseIdx i })

/-- Whether the record of `r` is in the list. -/
def contains (l : RecordList) (r : Reference) : Checked Bool := do
  pure (l.indices.contains (← r.index))

/-- The list without its elements. -/
def clear (l : RecordList) : RecordList :=
  { l with indices := [] }

end RecordList

end RecordPool
