/-
# Storage plans

A plan says how many records a pool has room for at first, how many it may
ever hold, and whether its memory is one growing array or a sequence of
equal blocks.  `StorePlan.validate` accepts the plans a pool can follow.
-/
import RecordPool.Checked

namespace RecordPool

/-- How the memory of a pool is arranged and how far it may grow. -/
structure StorePlan where
  /-- The number of records there is room for at first. -/
  initial : Nat
  /-- The number of records in one block, or `none` for a single array. -/
  blockSize : Option Nat
  /-- The number of records the pool may hold. -/
  limit : Nat
  deriving DecidableEq, Repr

namespace StorePlan

/-- A single growing array with room for `initial` records. -/
def single (initial : Nat) : StorePlan :=
  ⟨initial, none, indexLimit⟩

/-- Blocks of `blockSize` records, enough of them for `initial` records. -/
def blocks (initial blockSize : Nat) : StorePlan :=
  ⟨initial, some blockSize, indexLimit⟩

/-- A single array that is empty at first. -/
def empty : StorePlan :=
  single 0

/-- The same plan with another limit. -/
def withLimit (plan : StorePlan) (limit : Nat) : StorePlan :=
  { plan with limit }

/-- A number is a power of two when it is two to its own binary logarithm. -/
def isPowerOfTwo (n : Nat) : Bool :=
  1 <<< n.log2 == n

/-- Accepts a plan whose limit is a positive record index, whose initial room
is within the limit, and whose blocks hold a power of two of records. -/
def validate (plan : StorePlan) : Except PoolError Unit := do
  let limit := plan.limit
  if limit = 0 ∨ indexLimit < limit then
    throw (.invalidPlan s!"max_records must be in 1..={indexLimit}, got {limit}")
  if limit < plan.initial then
    throw (.capacityExceeded plan.initial limit)
  match plan.blockSize with
  | none => pure ()
  | some size =>
      if isPowerOfTwo size then pure ()
      else throw (.invalidPlan s!"records_per_segment must be a power of two, got {size}")

/-- By how many bits a record index is shifted to its block, and the mask that
leaves its slot therein.  A single array has no use for them. -/
def addressing (plan : StorePlan) : Checked (Nat × Nat) :=
  match plan.blockSize with
  | none => pure (0, 0)
  | some size => do pure (trailingZeros 32 size, ← subSize size 1)

end StorePlan

end RecordPool
