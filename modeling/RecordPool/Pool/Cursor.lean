/-
# Walking the live records

A cursor remembers the next slot to look at.  It looks at the pool anew at
each step, so that records may be created and taken back during the walk.
-/
import RecordPool.Pool.Basic

namespace RecordPool

/-- A place in the walk over the records of a pool. -/
structure Cursor where
  /-- The next slot to look at. -/
  next : Nat
  deriving DecidableEq, Repr

namespace Cursor

variable {β F : Type} [Memory β F]

/-- The start of the walk. -/
def start : Cursor := ⟨0⟩

/-- At most this many records are still to come. -/
def remaining (c : Cursor) (p : Pool β) : Nat :=
  p.allocated - c.next

/-- A least and a largest number of records that are still to come. -/
def hint (c : Cursor) (p : Pool β) : Nat × Option Nat :=
  (0, some (c.remaining p))

/-- The first record in use among `count` slots from `next` on, and the slot
to look at next. -/
def scan (p : Pool β) : (count next : Nat) → Checked (Option RecordIndex × Cursor)
  | 0, next => pure (none, ⟨next⟩)
  | count + 1, next => do
      if ← p.isLive next then
        pure (some next, ⟨next + 1⟩)
      else
        scan p count (next + 1)

/-- The next record in use, if there is one. -/
def nextLive (c : Cursor) (p : Pool β) : Checked (Option RecordIndex × Cursor) :=
  scan p (c.remaining p) c.next

/-- Points `r` at the next record in use; at the end of the walk `r` stays
where it is. -/
def advance (c : Cursor) (p : Pool β) (r : Reference) :
    Checked (Bool × Cursor × Reference) := do
  match ← c.nextLive p with
  | (some index, c) => pure (true, c, ← p.pointAt index r)
  | (none, c) => pure (false, c, r)

/-- A new reference to the next record in use, if there is one. -/
def yield? (c : Cursor) (p : Pool β) : Checked (Option Reference × Cursor) := do
  match ← c.advance p p.newReference with
  | (true, c, r) => pure (some r, c)
  | (false, c, _) => pure (none, c)

/-- The records still to come, at most `count` of them, each as a new
reference and with the cursor behind it. -/
def rest (p : Pool β) : (count : Nat) → Cursor → Checked (List (Reference × Cursor))
  | 0, _ => pure []
  | count + 1, c => do
      match ← c.yield? p with
      | (some r, c) => pure ((r, c) :: (← rest p count c))
      | (none, _) => pure []

end Cursor

/-- All records in use by ascending index, each as a new reference and with
the cursor behind it. -/
def Pool.walk {β F : Type} [Memory β F] (p : Pool β) : Checked (List (Reference × Cursor)) :=
  Cursor.rest p p.allocated .start

end RecordPool
