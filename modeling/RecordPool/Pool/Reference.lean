/-
# References

A reference belongs to the pool that issued it and may point at one record of
that pool.  It remembers the generation of the slot and the epoch of the pool
at the time it was pointed, so that a pool can tell whether the record is
still the same one.  Repointing a reference is the only way to alias a record.
-/
import RecordPool.Checked

namespace RecordPool

/-- What a pointed reference remembers. -/
structure Target where
  /-- The record. -/
  index : RecordIndex
  /-- The generation of the slot when the reference was pointed. -/
  generation : UInt32
  /-- The epoch of the pool when the reference was pointed. -/
  epoch : UInt32
  deriving DecidableEq, Repr

/-- A repointable reference to a record of one pool. -/
structure Reference where
  /-- The pool that issued the reference. -/
  pool : PoolId
  /-- The record it points at, if any. -/
  target : Option Target
  deriving DecidableEq, Repr

namespace Reference

/-- A reference of `pool` that points at nothing. -/
def unpointed (pool : PoolId) : Reference :=
  ⟨pool, none⟩

/-- Whether the reference points at a record. -/
def isPointed (r : Reference) : Bool :=
  r.target.isSome

/-- The same reference, pointed elsewhere. -/
def aim (r : Reference) (target : Target) : Reference :=
  { r with target := some target }

/-- The record the reference points at; there has to be one. -/
def index (r : Reference) : Checked RecordIndex :=
  match r.target with
  | some target => pure target.index
  | none => violate .unpointed

/-- The record the reference points at, if any. -/
def index? (r : Reference) : Option RecordIndex :=
  r.target.map (·.index)

/-- The reference `r`, pointed where `other` points. -/
def repoint (r other : Reference) : Checked Reference := do
  demand (r.pool == other.pool) .foreignRepoint
  pure { r with target := other.target }

/-- Whether both references point at the same slot of the same pool. -/
def sameRecord (a b : Reference) : Bool :=
  a.pool == b.pool && a.isPointed && a.index? == b.index?

/-- A line that describes the reference. -/
def describe (r : Reference) : String :=
  let pool := r.pool
  match r.target with
  | some target =>
      let index := target.index
      let generation := target.generation
      s!"Ref(pool={pool}, index={index}, gen={generation})"
  | none => s!"Ref(pool={pool}, unpointed)"

/-- Aiming a reference keeps its pool. -/
@[simp] theorem pool_aim (r : Reference) (target : Target) : (r.aim target).pool = r.pool :=
  rfl

/-- An aimed reference points at its target. -/
@[simp] theorem index_aim (r : Reference) (target : Target) :
    (r.aim target).index = .ok target.index :=
  rfl

end Reference

end RecordPool
