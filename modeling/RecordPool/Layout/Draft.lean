/-
# Drafting layouts

A draft appends columns back to back and hands out the field of each at once.
Names and empty arrays are only looked at when the layout is finished.
-/
import RecordPool.Layout.Basic

namespace RecordPool

/-- The columns appended so far. -/
structure Draft where
  /-- The identity of the layout to come. -/
  id : LayoutId
  /-- The columns, in order. -/
  columns : List Column
  /-- The cell behind the last column. -/
  cursor : Nat
  deriving Repr

namespace Draft

/-- A draft without columns. -/
def start (id : LayoutId) : Draft :=
  ⟨id, [], 0⟩

/-- A draft for records whose fields never leave their owner, so that no other
layout is compared with theirs. -/
def internal : Draft :=
  start 0

/-- Appends a column behind the last one. -/
def append (d : Draft) (name : String) (shape : Shape) : Checked Draft := do
  let size ← shape.checkedSize
  let cursor ← addSize d.cursor size
  pure ⟨d.id, d.columns ++ [⟨name, shape, d.cursor⟩], cursor⟩

/-- Appends a single value. -/
def field (d : Draft) (kind : Kind) (name : String) : Checked (Field kind × Draft) := do
  let next ← d.append name (.scalar kind)
  pure (⟨d.id, d.columns.length, d.cursor⟩, next)

/-- Appends an array of `length` values. -/
def fieldArray (d : Draft) (kind : Kind) (name : String) (length : Nat) :
    Checked (FieldArray kind × Draft) := do
  let next ← d.append name (.array kind length)
  pure (⟨d.id, d.columns.length, d.cursor, length⟩, next)

/-- The layout of the appended columns. -/
def finish (d : Draft) : ExceptT LayoutError Checked Layout :=
  Layout.ofColumns d.id d.columns

end Draft

end RecordPool
