/-
# Faults: computations that are cut short

A fault ends a computation.  It is one of: an access outside a sequence, an
arithmetic result outside the machine range, a precondition that the caller
broke, or a loop that outran its bound.  Errors that a caller is meant to
handle are ordinary results instead, inside the computation.
-/
import RecordPool.Error

namespace RecordPool

/-! ## Faults -/

/-- The preconditions that a caller can break. -/
inductive Violation where
  /-- A reference is used with a pool that did not issue it. -/
  | foreignReference
  /-- A reference is given back to a pool that did not issue it. -/
  | foreignRelease
  /-- A reference is pointed at a record of another pool. -/
  | foreignRepoint
  /-- A side table is used with a pool it was not made for. -/
  | foreignTable
  /-- A field is bound to a pool of another layout. -/
  | foreignField
  /-- No live record has this index. -/
  | notLive (index : RecordIndex)
  /-- The reference points at no record. -/
  | unpointed
  /-- An array attribute of `length` elements has no such element. -/
  | noElement (element length : Nat)
  /-- The record index does not fit its 32-bit signed form. -/
  | indexTooLarge (index : RecordIndex)
  /-- A tree node carries no data index. -/
  | missingDataIndex
  /-- A frontier entry is read before it was filled in. -/
  | unfilledEntry
  /-- A point has another number of dimensions than its pool. -/
  | wrongDimension
  /-- A pool error where no error can be returned. -/
  | refused (error : PoolError)
  deriving DecidableEq, Repr

/-- The wording of a violation. -/
def Violation.message : Violation → String
  | foreignReference => "reference from a foreign pool"
  | foreignRelease => "reference released to a foreign pool"
  | foreignRepoint => "repoint across pools"
  | foreignTable => "property map used with a foreign pool"
  | foreignField => "field does not belong to this pool's layout"
  | notLive index => s!"record {index} is not live"
  | unpointed => "reference is not pointed at any record"
  | noElement element length =>
      s!"element {element} out of bounds for length {length}"
  | indexTooLarge index => s!"record index {index} overflows i32"
  | missingDataIndex => "tree node without a data index"
  | unfilledEntry => "frontier entry read before init"
  | wrongDimension => "point dimensionality mismatch"
  | refused error => error.message

/-- The reasons for which a computation is cut short. -/
inductive Fault where
  /-- An index or a range lies outside a sequence. -/
  | bounds
  /-- A sum, product, difference or quotient leaves the machine range. -/
  | arithmetic
  /-- The caller broke a precondition. -/
  | broken (violation : Violation)
  /-- A loop ran longer than its bound. -/
  | exhausted
  deriving DecidableEq, Repr

/-- A computation that a fault may cut short. -/
abbrev Checked := Except Fault

/-- The fault for a broken precondition. -/
def violate {α : Type} (violation : Violation) : Checked α :=
  throw (.broken violation)

/-- Goes on exactly when `condition` holds. -/
def demand (condition : Bool) (violation : Violation) : Checked Unit :=
  if condition then pure () else violate violation

/-- The value of a computation whose returned error counts as a broken
precondition. -/
def insist {α : Type} (computation : ExceptT PoolError Checked α) : Checked α := do
  match ← computation.run with
  | .ok value => pure value
  | .error error => violate (.refused error)

end RecordPool
