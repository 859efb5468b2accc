/-
# Kinds of values

The seven kinds of value that a record can store, their sizes, and their
forms in memory: little-endian, booleans as one byte, record indices as signed
32-bit numbers in which a negative number stands for no record.
-/
import RecordPool.Checked
import RecordPool.Memory.Basic

namespace RecordPool

/-- The kinds of value that a record can store. -/
inductive Kind where
  /-- A record index or no record. -/
  | index
  /-- A signed 8-bit integer. -/
  | byte
  /-- A truth value. -/
  | boolean
  /-- A signed 32-bit integer. -/
  | int
  /-- A signed 64-bit integer. -/
  | long
  /-- A single-precision number. -/
  | float
  /-- A double-precision number. -/
  | double
  deriving DecidableEq, Repr

namespace Kind

/-- The number of cells that a value of this kind takes. -/
def size : Kind → Nat
  | byte | boolean => 1
  | index | int | float => 4
  | long | double => 8

/-- All kinds. -/
def all : List Kind :=
  [index, byte, boolean, int, long, float, double]

/-- The name of a kind. -/
def name : Kind → String
  | index => "index"
  | byte => "byte"
  | boolean => "boolean"
  | int => "int"
  | long => "long"
  | float => "float"
  | double => "double"

/-- The kind with a name. -/
def ofName? (name : String) : Option Kind :=
  all.find? (·.name == name)

/-- The values of a kind; doubles are numbers of type `F`. -/
abbrev Value (F : Type) : Kind → Type
  | index => Option RecordIndex
  | byte => Int8
  | boolean => Bool
  | int => Int32
  | long => Int64
  | float => Single
  | double => F

/-! ## Forms in memory -/

variable {β F : Type} [Memory β F]

/-- The low 32 bits of a size, as a signed number. -/
def narrow (n : Nat) : Int32 :=
  Int32.ofNat n

/-- The size whose 64 bits extend a signed number by its sign. -/
def widen (i : Int32) : Nat :=
  (i.toInt % (sizeBound : Int)).toNat

/-- The record index that a signed 32-bit number stands for. -/
def indexOfInt (raw : Int32) : Option RecordIndex :=
  if raw < 0 then none else some raw.toInt.toNat

/-- The cells of a value.  A record index has to fit its signed form. -/
def encode : (kind : Kind) → kind.Value F → Checked (List β)
  | index, none => pure (Memory.ofWord 4 0xffffffff)
  | index, some i =>
      if i ≤ indexLimit then pure (Memory.ofWord 4 i) else violate (.indexTooLarge i)
  | byte, i => pure (Memory.ofWord 1 i.toUInt8.toNat)
  | boolean, b => pure (Memory.ofWord 1 b.toNat)
  | int, i => pure (Memory.ofWord 4 i.toUInt32.toNat)
  | long, i => pure (Memory.ofWord 8 i.toUInt64.toNat)
  | float, x => pure (Memory.ofWord 4 x.bits.toNat)
  | double, x => pure (Memory.ofReal x)

/-- A value takes as many cells as its kind says. -/
theorem length_of_encode {kind : Kind} {value : kind.Value F} {cells : List β}
    (h : kind.encode value = .ok cells) : cells.length = kind.size := by
  cases kind with
  | index =>
      cases value with
      | none =>
          cases h
          simp [Memory.ofWord, size]
      | some i =>
          rw [encode] at h
          split at h
          · cases h
            simp [Memory.ofWord, size]
          · cases h
  | double =>
      cases h
      simp [size]
  | _ =>
      cases h
      simp [Memory.ofWord, size]

/-- The value that exactly the cells of one value hold. -/
def ofCells : (kind : Kind) → List β → kind.Value F
  | index, cells => indexOfInt (UInt32.ofNat (Memory.toWord cells)).toInt32
  | byte, cells => (UInt8.ofNat (Memory.toWord cells)).toInt8
  | boolean, cells => Memory.toWord cells != 0
  | int, cells => (UInt32.ofNat (Memory.toWord cells)).toInt32
  | long, cells => (UInt64.ofNat (Memory.toWord cells)).toInt64
  | float, cells => ⟨UInt32.ofNat (Memory.toWord cells)⟩
  | double, cells => Memory.toReal cells

/-- The value at the start of some cells. -/
def decode (kind : Kind) (cells : List β) : Checked (kind.Value F) := do
  pure (kind.ofCells (← takeExactly cells kind.size))

/-- The cells with a value written over their start. -/
def overwriteStart (kind : Kind) (value : kind.Value F) (cells : List β) :
    Checked (List β) := do
  splice cells 0 (← kind.encode value)

end Kind

end RecordPool
