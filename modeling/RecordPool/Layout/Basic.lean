/-
# Record layouts

A layout is a table of named columns that tiles the cells of a record: the
columns start at cell zero, none overlap and none leave a gap.
`Layout.ofColumns` accepts exactly such tables, in any order of declaration.
Typed fields, which name the place of a column, come from `Layout.field?` and
`Layout.fieldArray?`, which insist on the kind and the shape.
-/
import RecordPool.Kind

namespace RecordPool

/-! ## Columns -/

/-- One value, or a fixed number of values in a row. -/
inductive Shape where
  /-- A single value. -/
  | scalar (kind : Kind)
  /-- `length` values in a row. -/
  | array (element : Kind) (length : Nat)
  deriving DecidableEq, Repr

namespace Shape

/-- The kind of each value. -/
def kind : Shape → Kind
  | scalar kind => kind
  | array element _ => element

/-- The number of elements of an array. -/
def length? : Shape → Option Nat
  | scalar _ => none
  | array _ length => some length

/-- The number of cells. -/
def size : Shape → Nat
  | scalar kind => kind.size
  | array element length => element.size * length

/-- The number of cells, which has to be a machine size. -/
def checkedSize : Shape → Checked Nat
  | scalar kind => pure kind.size
  | array element length => mulSize element.size length

end Shape

/-- A named attribute at a place of the record. -/
structure Column where
  /-- The name. -/
  name : String
  /-- The values. -/
  shape : Shape
  /-- The first cell. -/
  offset : Nat
  deriving DecidableEq, Repr

/-- The number of cells of a column. -/
def Column.size (c : Column) : Nat :=
  c.shape.size

/-! ## Layouts -/

/-- The columns of one kind of record. -/
structure Layout where
  /-- The identity of the layout. -/
  id : LayoutId
  /-- The columns in the order of their declaration. -/
  columns : List Column
  /-- The number of cells of a record. -/
  size : Nat
  deriving Repr

namespace Layout

/-- Goes through columns in the order of their declaration: an array needs an
element, a size has to be a machine size, and a name that was `seen` is not
used again. -/
def declare (seen : List String) : List Column → ExceptT LayoutError Checked Unit
  | [] => pure ()
  | c :: rest => do
      if c.shape.length? = some 0 then
        throw (.zeroLengthArray c.name)
      let _ ← ExceptT.lift c.shape.checkedSize
      if c.name ∈ seen then
        throw (.duplicateName c.name)
      declare (c.name :: seen) rest

/-- Goes through columns sorted by their offset: each has to start at `cursor`,
where the column named `previous` ended.  The result is the end of the last
one. -/
def tile (cursor : Nat) (previous : String) :
    List Column → ExceptT LayoutError Checked Nat
  | [] => pure cursor
  | c :: rest => do
      if c.offset < cursor then
        throw (.overlap previous c.name)
      if cursor < c.offset then
        throw (.gap c.offset cursor)
      tile (← ExceptT.lift (addSize c.offset c.size)) c.name rest

/-- The columns by ascending offset; equal offsets keep their order. -/
def byOffset (columns : List Column) : List Column :=
  columns.mergeSort fun a b => a.offset ≤ b.offset

/-- The layout of columns that tile a record. -/
def ofColumns (id : LayoutId) (columns : List Column) :
    ExceptT LayoutError Checked Layout := do
  if columns.isEmpty then
    throw .empty
  declare [] columns
  let size ← tile 0 "" (byOffset columns)
  pure ⟨id, columns, size⟩

/-! ## Looking up columns -/

/-- The position of the column with a name. -/
def slot? (l : Layout) (name : String) : Option Nat :=
  l.columns.findIdx? (·.name == name)

/-- The column at a position. -/
def columnAt? (l : Layout) (slot : Nat) : Option Column :=
  l.columns[slot]?

/-- The column with a name. -/
def column? (l : Layout) (name : String) : Option Column := do
  l.columnAt? (← l.slot? name)

end Layout

/-! ## Fields -/

/-- The place of a single value in the records of one layout. -/
structure Field (kind : Kind) where
  /-- The layout. -/
  layout : LayoutId
  /-- The position of the column. -/
  slot : Nat
  /-- The first cell. -/
  offset : Nat
  deriving DecidableEq, Repr

/-- The place of an array in the records of one layout. -/
structure FieldArray (kind : Kind) where
  /-- The layout. -/
  layout : LayoutId
  /-- The position of the column. -/
  slot : Nat
  /-- The first cell. -/
  offset : Nat
  /-- The number of elements. -/
  length : Nat
  deriving DecidableEq, Repr

namespace Layout

/-- The field of a single value of the given kind. -/
def field? (l : Layout) (kind : Kind) (name : String) : Option (Field kind) := do
  let slot ← l.slot? name
  let c ← l.columnAt? slot
  if c.shape = .scalar kind then some ⟨l.id, slot, c.offset⟩ else none

/-- The field of an array of values of the given kind. -/
def fieldArray? (l : Layout) (kind : Kind) (name : String) : Option (FieldArray kind) := do
  let slot ← l.slot? name
  let c ← l.columnAt? slot
  match c.shape with
  | .scalar _ => none
  | .array element length =>
      if element = kind then some ⟨l.id, slot, c.offset, length⟩ else none

end Layout

end RecordPool
