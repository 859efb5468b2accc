/-
# Memory for exact numbers

Cells that hold either a byte or one of the eight parts of a number of any
type.  A number keeps its identity in such memory, so that records can hold
numbers that no eight bytes could.
-/
import RecordPool.Memory.Basic

namespace RecordPool

/-- A byte, or one of the eight parts of a number. -/
inductive ExactCell (F : Type) where
  /-- A byte. -/
  | byte (value : UInt8)
  /-- The part of a number at a position. -/
  | part (number : F) (position : Nat)
  deriving DecidableEq, Repr

namespace ExactCell

variable {F : Type}

/-- The byte of a cell; parts of numbers count as zero bytes. -/
def toByte : ExactCell F → UInt8
  | byte value => value
  | part _ _ => 0

/-- The eight parts of a number. -/
def ofReal (x : F) : List (ExactCell F) :=
  (List.range 8).map (part x)

/-- The number whose first part comes first; bytes are taken for the default
number. -/
def toReal [Inhabited F] : List (ExactCell F) → F
  | part x _ :: _ => x
  | _ => default

end ExactCell

/-- Memory that keeps numbers of any type. -/
instance {F : Type} [Inhabited F] : Memory (ExactCell F) F where
  ofByte := .byte
  toByte := ExactCell.toByte
  ofReal := ExactCell.ofReal
  toReal := ExactCell.toReal
  toByte_ofByte := fun _ => rfl
  length_ofReal := fun _ => rfl
  toReal_ofReal := fun _ => rfl

end RecordPool
