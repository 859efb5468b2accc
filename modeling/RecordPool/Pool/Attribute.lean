/-
# Attributes

An attribute reads and writes one field of the records of a pool.  `put`
writes silently; `set` first tells every listener of the pool which attribute
of which record changes, and what cells it had.  In an array, reading checks
the reference before the element and writing the element before the reference.
-/
import RecordPool.Pool.Basic

namespace RecordPool

/-! ## Listening to changes -/

/-- A change that is about to happen. -/
structure Change (β : Type) where
  /-- The name of the attribute. -/
  name : String
  /-- The record. -/
  index : RecordIndex
  /-- The cells that are about to be overwritten. -/
  previous : List β

/-- A change and a listener that is told of it. -/
structure Delivery (β : Type) where
  /-- The listener. -/
  listener : Listener
  /-- The change. -/
  change : Change β

namespace Pool

variable {β F : Type} [Memory β F]

/-- Registers a listener. -/
def listen (p : Pool β) (listener : Listener) : Pool β :=
  { p with listeners := p.listeners ++ [listener] }

/-- Tells every listener, in order, that `size` cells of the record of `r`
change from the cell `offset` on.  Without listeners nothing is looked at. -/
def announce (p : Pool β) (slot : Nat) (r : Reference) (offset size : Nat) :
    Checked (List (Delivery β)) := do
  if p.listeners.isEmpty then
    pure []
  else do
    let index ← p.require r
    let cells ← p.store.record index
    let previous ← takeExactly (cells.drop offset) size
    let name := ((p.layout.columnAt? slot).map (·.name)).getD ""
    pure (p.listeners.map fun listener => ⟨listener, ⟨name, index, previous⟩⟩)

end Pool

/-! ## Single values -/

/-- A single value in every record of a pool. -/
structure Attribute (kind : Kind) where
  /-- The position of the attribute in the layout. -/
  slot : Nat
  /-- The first cell. -/
  offset : Nat
  deriving DecidableEq, Repr

namespace Attribute

variable {β F : Type} [Memory β F] {kind : Kind}

/-- Binds a field to a pool of its layout. -/
def bind (field : Field kind) (p : Pool β) : Checked (Attribute kind) := do
  demand (field.layout == p.layout.id) .foreignField
  pure ⟨field.slot, field.offset⟩

/-- The value in the record of `r`. -/
def get (a : Attribute kind) (p : Pool β) (r : Reference) : Checked (kind.Value F) := do
  kind.decode ((← p.cells r).drop a.offset)

/-- Writes a value into the record of `r`; no listener hears of it. -/
def put (a : Attribute kind) (p : Pool β) (r : Reference) (value : kind.Value F) :
    Checked (Pool β) := do
  let index ← p.require r
  p.patch index a.offset (← kind.encode value)

/-- Writes a value into the record of `r` after telling the listeners. -/
def set (a : Attribute kind) (p : Pool β) (r : Reference) (value : kind.Value F) :
    Checked (List (Delivery β) × Pool β) := do
  let deliveries ← p.announce a.slot r a.offset kind.size
  pure (deliveries, ← a.put p r value)

end Attribute

/-! ## Arrays -/

/-- An array of values in every record of a pool. -/
structure AttributeArray (kind : Kind) where
  /-- The position of the attribute in the layout. -/
  slot : Nat
  /-- The first cell. -/
  offset : Nat
  /-- The number of elements. -/
  length : Nat
  deriving DecidableEq, Repr

namespace AttributeArray

variable {β F : Type} [Memory β F] {kind : Kind}

/-- Binds a field to a pool of its layout. -/
def bind (field : FieldArray kind) (p : Pool β) : Checked (AttributeArray kind) := do
  demand (field.layout == p.layout.id) .foreignField
  pure ⟨field.slot, field.offset, field.length⟩

/-- The first cell of element `i`. -/
def elementOffset (a : AttributeArray kind) (i : Nat) : Checked Nat := do
  demand (i < a.length) (.noElement i a.length)
  pure (a.offset + i * kind.size)

/-- The element `i` in the record of `r`. -/
def get (a : AttributeArray kind) (p : Pool β) (r : Reference) (i : Nat) :
    Checked (kind.Value F) := do
  let cells ← p.cells r
  kind.decode (cells.drop (← a.elementOffset i))

/-- Writes the element `i` in the record of `r`; no listener hears of it. -/
def put (a : AttributeArray kind) (p : Pool β) (r : Reference) (i : Nat)
    (value : kind.Value F) : Checked (Pool β) := do
  let offset ← a.elementOffset i
  let index ← p.require r
  p.patch index offset (← kind.encode value)

/-- Writes the element `i` in the record of `r` after telling the listeners. -/
def set (a : AttributeArray kind) (p : Pool β) (r : Reference) (i : Nat)
    (value : kind.Value F) : Checked (List (Delivery β) × Pool β) := do
  let offset ← a.elementOffset i
  let deliveries ← p.announce a.slot r offset kind.size
  pure (deliveries, ← a.put p r i value)

/-- The values of the elements `0`, …, `count - 1` in some cells. -/
def decodeAll (kind : Kind) (cells : List β) (count : Nat) :
    Checked (List (kind.Value F)) :=
  (List.range count).mapM fun i => kind.decode (cells.drop (i * kind.size))

/-- The list `out` with all elements in the record of `r` over its start. -/
def getAll (a : AttributeArray kind) (p : Pool β) (r : Reference)
    (out : List (kind.Value F)) : Checked (List (kind.Value F)) := do
  let cells ← p.cells r
  let _ ← takeExactly out a.length
  splice out 0 (← decodeAll kind (cells.drop a.offset) a.length)

/-- Writes all elements in the record of `r` from the start of `values`; no
listener hears of it. -/
def putAll (a : AttributeArray kind) (p : Pool β) (r : Reference)
    (values : List (kind.Value F)) : Checked (Pool β) := do
  let index ← p.require r
  let encoded ← (← takeExactly values a.length).mapM kind.encode
  p.patch index a.offset encoded.flatten

end AttributeArray

/-! ## Attributes by name -/

/-- An attribute whose kind and shape are only known from the layout. -/
inductive NamedAttribute where
  /-- A single value. -/
  | scalar (kind : Kind) (a : Attribute kind)
  /-- An array. -/
  | array (kind : Kind) (a : AttributeArray kind)

/-- The attribute `name` of a layout, if there is one, bound to a pool. -/
def NamedAttribute.bind? {β : Type} (l : Layout) (name : String) (p : Pool β) :
    Checked (Option NamedAttribute) := do
  let kinds := (l.column? name).map fun a => a.shape.kind
  match kinds with
  | none => pure none
  | some kind =>
      match l.field? kind name, l.fieldArray? kind name with
      | some field, _ => pure (some (.scalar kind (← Attribute.bind field p)))
      | _, some field => pure (some (.array kind (← AttributeArray.bind field p)))
      | _, _ => pure none

end RecordPool
