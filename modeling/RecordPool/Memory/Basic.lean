/-
# Record memory

Records are sequences of cells.  A cell can hold a byte, and eight cells
together can hold a real number; nothing else is asked of memory, so that
records can be kept in plain bytes or in cells that keep exact numbers.
-/
import RecordPool.Double.Basic
import RecordPool.Memory.LittleEndian

namespace RecordPool

/-- Cells of type `β` that hold bytes one by one and numbers of type `F` in
runs of eight. -/
class Memory (β : Type) (F : outParam Type) where
  /-- The cell that holds a byte. -/
  ofByte : UInt8 → β
  /-- The byte that a cell holds. -/
  toByte : β → UInt8
  /-- The eight cells that hold a number. -/
  ofReal : F → List β
  /-- The number that a run of cells holds. -/
  toReal : List β → F
  /-- A byte is read back as it was written. -/
  toByte_ofByte : ∀ b, toByte (ofByte b) = b
  /-- A number takes eight cells. -/
  length_ofReal : ∀ x, (ofReal x).length = 8
  /-- A number is read back as it was written. -/
  toReal_ofReal : ∀ x, toReal (ofReal x) = x

attribute [simp] Memory.toByte_ofByte Memory.length_ofReal Memory.toReal_ofReal

namespace Memory

variable {β F : Type} [Memory β F]

/-- The cells of some bytes. -/
def ofBytes (bytes : List UInt8) : List β :=
  bytes.map ofByte

/-- The bytes of some cells. -/
def toBytes (cells : List β) : List UInt8 :=
  cells.map toByte

/-- The cells of a number of `width` bytes. -/
def ofWord (width n : Nat) : List β :=
  ofBytes (littleEndian width n)

/-- The number whose bytes some cells hold. -/
def toWord (cells : List β) : Nat :=
  ofLittleEndian (toBytes cells)

/-- The cell of fresh memory. -/
def blank : β :=
  ofByte 0

/-- Bytes are read back as they were written. -/
@[simp] theorem toBytes_ofBytes (bytes : List UInt8) :
    toBytes (ofBytes bytes : List β) = bytes := by
  simp [toBytes, ofBytes, Function.comp_def]

/-- A number that fits its width is read back as it was written. -/
theorem toWord_ofWord {width n : Nat} (h : n < Nat.pow 256 width) :
    toWord (ofWord width n : List β) = n := by
  rw [toWord, ofWord, toBytes_ofBytes, ofLittleEndian_littleEndian_of_lt h]

/-- Each byte takes one cell. -/
@[simp] theorem length_ofBytes (bytes : List UInt8) :
    (ofBytes bytes : List β).length = bytes.length := by
  simp [ofBytes]

end Memory

/-- Plain bytes, with doubles by their bits, least significant byte first. -/
instance : Memory UInt8 Double where
  ofByte := id
  toByte := id
  ofReal := fun x => littleEndian 8 x.bits.toNat
  toReal := fun bytes => ⟨UInt64.ofNat (ofLittleEndian bytes)⟩
  toByte_ofByte := fun _ => rfl
  length_ofReal := fun x => length_littleEndian 8 x.bits.toNat
  toReal_ofReal := fun x => by
    have h : x.bits.toNat < Nat.pow 256 8 := x.bits.toNat_lt
    simp [ofLittleEndian_littleEndian_of_lt h]

end RecordPool
