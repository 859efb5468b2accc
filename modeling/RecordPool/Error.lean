/-
# Identities and returned errors

A pool, a layout and a record are each named by a natural number.  The errors
here are ordinary results: a layout that cannot be formed, a pool that cannot
be configured, grown or asked through a reference, and a tree that cannot be
built.  Each error is a cause with its data; the wording is in `message`.
-/

namespace RecordPool

/-! ## Identities -/

/-- The position of a record inside its pool. -/
abbrev RecordIndex := Nat

/-- The identity of one pool; distinct pools have distinct identities. -/
abbrev PoolId := Nat

/-- The identity of one layout. -/
abbrev LayoutId := Nat

/-! ## Layouts -/

/-- The ways in which a list of attributes fails to form a record layout. -/
inductive LayoutError where
  /-- The attribute `second` starts inside the bytes of `first`. -/
  | overlap (first second : String)
  /-- No attribute covers the bytes from `expected` up to `offset`. -/
  | gap (offset expected : Nat)
  /-- Two attributes share a name. -/
  | duplicateName (name : String)
  /-- An array attribute has no element. -/
  | zeroLengthArray (name : String)
  /-- There is no attribute at all. -/
  | empty
  deriving DecidableEq, Repr

/-- The wording of a layout error. -/
def LayoutError.message : LayoutError → String
  | overlap first second => s!"attribute '{second}' overlaps attribute '{first}'"
  | gap offset expected =>
      s!"layout gap: attribute starts at byte {offset}, expected {expected}"
  | duplicateName name => s!"duplicate attribute name '{name}'"
  | zeroLengthArray name => s!"array attribute '{name}' has zero elements"
  | empty => "layout declares no attributes"

/-! ## Pools -/

/-- The ways in which a pool refuses a plan, a growth or a reference. -/
inductive PoolError where
  /-- The storage plan is not one a pool can follow. -/
  | invalidPlan (reason : String)
  /-- More records are asked for than the plan allows. -/
  | capacityExceeded (requested max : Nat)
  /-- The reference outlived its record; `expected` is the generation it
  remembers and `found` the one its slot has now. -/
  | staleReference (index : RecordIndex) (expected found : UInt32)
  /-- The reference was issued by the pool `found`, not by `expected`. -/
  | foreignReference (expected found : PoolId)
  /-- The reference points at no record. -/
  | unpointed
  deriving DecidableEq, Repr

/-- The wording of a pool error. -/
def PoolError.message : PoolError → String
  | invalidPlan reason => s!"invalid pool config: {reason}"
  | capacityExceeded requested max =>
      s!"pool capacity exceeded: requested {requested} records, max {max}"
  | staleReference index expected found =>
      s!"stale reference to record {index}: generation {expected}, current {found}"
  | foreignReference expected found =>
      s!"reference from pool {found} used with pool {expected}"
  | unpointed => "reference is not pointed at any record"

/-! ## Trees -/

/-- The ways in which a point pool, a tree or a search is refused. -/
inductive TreeError where
  /-- The number of dimensions is zero. -/
  | zeroDimensions
  /-- A point has `found` dimensions where `expected` are needed. -/
  | dimensionMismatch (expected found : Nat)
  /-- There are more points than record indices. -/
  | tooManyPoints (count : Nat)
  /-- The layout of the records is refused. -/
  | layout (cause : LayoutError)
  /-- The pool of the records is refused. -/
  | pool (cause : PoolError)
  deriving DecidableEq, Repr

/-- The wording of a tree error. -/
def TreeError.message : TreeError → String
  | zeroDimensions => "k-d tree needs at least one dimension"
  | dimensionMismatch expected found =>
      s!"point has {found} dimensions, tree has {expected}"
  | tooManyPoints count => s!"{count} points exceed the record index range"
  | layout cause => "node layout: " ++ cause.message
  | pool cause => "node pool: " ++ cause.message

/-- The wording of the error that a tree error was caused by, if any. -/
def TreeError.source? : TreeError → Option String
  | layout cause => some cause.message
  | pool cause => some cause.message
  | _ => none

end RecordPool
