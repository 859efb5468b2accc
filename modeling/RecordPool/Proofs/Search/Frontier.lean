/-
# Entries of a frontier

The record of an entry, read as a plain value, and what an operation of a
frontier does to it: a setter changes one part of one entry, and all other
entries stay as they are (`Frontier.Fills`).
-/
import RecordPool.Proofs.Layout.Drafts
import RecordPool.Proofs.Pool.Attributes
import RecordPool.Proofs.Pool.Heap
import RecordPool.Search.Frontier

namespace RecordPool

namespace Frontier

variable {β F : Type} [Memory β F]

/-! ## Entries as values -/

/-- What the record of an entry holds. -/
structure EntryRecord (F : Type) where
  /-- The tree node. -/
  node : Option RecordIndex
  /-- The axis that the node splits on, as a signed number. -/
  split : Int32
  /-- Whether the entry is a point. -/
  isPoint : Bool
  /-- The side of the query on each axis. -/
  sides : List Int8
  /-- The square of the gap on each axis. -/
  gaps : List F
  /-- The squared distance. -/
  distance : F

/-- What some cells hold as the record of an entry. -/
def entryOf (f : Frontier β) (cells : List β) : EntryRecord F where
  node := f.node.read cells
  split := f.split.read cells
  isPoint := f.isPoint.read cells
  sides := f.side.values cells
  gaps := f.gap.values cells
  distance := f.distance.read cells

/-- The entry in a slot. -/
def entryAt (f : Frontier β) (i : Nat) : EntryRecord F :=
  f.entryOf (f.pool.contents i)

/-- The attributes of an entry lie back to back. -/
structure Laid (f : Frontier β) : Prop where
  node : f.node.offset = 0
  split : f.split.offset = 4
  isPoint : f.isPoint.offset = 8
  side : f.side.offset = 9
  side_length : f.side.length = f.dimension
  gap : f.gap.offset = 9 + f.dimension
  gap_length : f.gap.length = f.dimension
  distance : f.distance.offset = 9 + 9 * f.dimension
  size : f.pool.layout.size = 17 + 9 * f.dimension

/-- The pool is sound and its records are entries. -/
structure Sound (f : Frontier β) : Prop where
  pool : f.pool.Sound
  laid : f.Laid

variable {f : Frontier β} {before after : List β} {d : Nat}

/-- Every attribute lies inside the records. -/
structure Inside (f : Frontier β) : Prop where
  node : f.node.Within f.pool.layout.size
  split : f.split.Within f.pool.layout.size
  isPoint : f.isPoint.Within f.pool.layout.size
  side : f.side.Within f.pool.layout.size
  gap : f.gap.Within f.pool.layout.size
  distance : f.distance.Within f.pool.layout.size

theorem Laid.inside (h : f.Laid) : f.Inside := by
  constructor <;>
    simp only [AttributeArray.Within, Attribute.Within, h.node, h.split, h.isPoint, h.side,
      h.side_length, h.gap, h.gap_length, h.distance, h.size, Kind.size] <;>
    omega

/-- A frontier with another pool of the same layout has the same attributes. -/
theorem Laid.withPool (h : f.Laid) {p' : Pool β} (hlayout : p'.layout = f.pool.layout) :
    ({ f with pool := p' } : Frontier β).Laid where
  node := h.node
  split := h.split
  isPoint := h.isPoint
  side := h.side
  side_length := h.side_length
  gap := h.gap
  gap_length := h.gap_length
  distance := h.distance
  size := by
    rw [hlayout]
    exact h.size

/-! ## Parts of entries -/

/-- **Parts are apart.**  Writing an attribute leaves each part of the entry
that begins behind it or ends in front of it. -/
theorem Laid.parts_eq (h : f.Laid) {kind : Kind} {a : Attribute kind} {value : kind.Value F}
    (hw : a.Writes value before after) :
    (4 ≤ a.offset → f.node.read (F := F) after = f.node.read before) ∧
    (a.offset + kind.size ≤ 4 ∨ 8 ≤ a.offset →
      f.split.read (F := F) after = f.split.read before) ∧
    (a.offset + kind.size ≤ 8 ∨ 9 ≤ a.offset →
      f.isPoint.read (F := F) after = f.isPoint.read before) ∧
    (a.offset + kind.size ≤ 9 ∨ 9 + f.dimension ≤ a.offset →
      f.side.values (F := F) after = f.side.values before) ∧
    (a.offset + kind.size ≤ 9 + f.dimension ∨ 9 + 9 * f.dimension ≤ a.offset →
      f.gap.values (F := F) after = f.gap.values before) ∧
    (a.offset + kind.size ≤ 9 + 9 * f.dimension →
      f.distance.read (F := F) after = f.distance.read before) := by
  -- the size of the written attribute stays a name, the sizes of the parts are numbers
  have hindex : Kind.index.size = 4 := rfl
  have hint : Kind.int.size = 4 := rfl
  have hboolean : Kind.boolean.size = 1 := rfl
  have hbyte : Kind.byte.size = 1 := rfl
  have hdouble : Kind.double.size = 8 := rfl
  refine ⟨fun hoffset => hw.read_of_apart ?_, fun hoffset => hw.read_of_apart ?_,
    fun hoffset => hw.read_of_apart ?_, fun hoffset => AttributeArray.values_of_apart hw ?_,
    fun hoffset => AttributeArray.values_of_apart hw ?_, fun hoffset => hw.read_of_apart ?_⟩
  · rw [Attribute.Apart, h.node]
    omega
  · rw [Attribute.Apart, h.split]
    omega
  · rw [Attribute.Apart, h.isPoint]
    omega
  · rw [h.side, h.side_length, hbyte]
    omega
  · rw [h.gap, h.gap_length, hdouble]
    omega
  · rw [Attribute.Apart, h.distance]
    omega

/-- Writing whether the entry is a point changes that only. -/
theorem Laid.entryOf_isPoint (h : f.Laid) {value : Bool}
    (hw : f.isPoint.Writes (F := F) value before after) :
    (f.entryOf after : EntryRecord F) = { f.entryOf before with isPoint := value } := by
  obtain ⟨hnode, hsplit, -, hsides, hgaps, hdistance⟩ := h.parts_eq hw
  have hstart := h.isPoint
  have hend : f.isPoint.offset + Kind.boolean.size = 9 := by rw [h.isPoint]; rfl
  rw [entryOf, hw.read, hnode (by omega), hsplit (by omega), hsides (by omega),
    hgaps (by omega), hdistance (by omega)]
  rfl

/-- Writing the side of one axis changes that side only. -/
theorem Laid.entryOf_side (h : f.Laid) (hd : d < f.dimension) {value : Int8}
    (hw : (f.side.element d).Writes (F := F) value before after) :
    (f.entryOf after : EntryRecord F) =
      { f.entryOf before with sides := (f.entryOf before : EntryRecord F).sides.set d value } := by
  obtain ⟨hnode, hsplit, hpoint, -, hgaps, hdistance⟩ := h.parts_eq hw
  have hsize : Kind.byte.size = 1 := rfl
  have hstart : (f.side.element d).offset = 9 + d := by
    rw [AttributeArray.offset_element, h.side, hsize, Nat.mul_one]
  rw [entryOf, hnode (by omega), hsplit (by omega), hpoint (by omega),
    AttributeArray.values_of_element hw, hgaps (by omega), hdistance (by omega)]
  rfl

/-- Writing the gap of one axis changes that gap only. -/
theorem Laid.entryOf_gap (h : f.Laid) (hd : d < f.dimension) {value : F}
    (hw : (f.gap.element d).Writes value before after) :
    (f.entryOf after : EntryRecord F) =
      { f.entryOf before with gaps := (f.entryOf before : EntryRecord F).gaps.set d value } := by
  obtain ⟨hnode, hsplit, hpoint, hsides, -, hdistance⟩ := h.parts_eq hw
  have hsize : Kind.double.size = 8 := rfl
  have hstart : (f.gap.element d).offset = 9 + f.dimension + d * 8 := by
    rw [AttributeArray.offset_element, h.gap, hsize]
  rw [entryOf, hnode (by omega), hsplit (by omega), hpoint (by omega),
    AttributeArray.values_of_element hw, hsides (by omega), hdistance (by omega)]
  rfl

/-- Writing the distance changes the distance only. -/
theorem Laid.entryOf_distance (h : f.Laid) {value : F}
    (hw : f.distance.Writes value before after) :
    (f.entryOf after : EntryRecord F) = { f.entryOf before with distance := value } := by
  obtain ⟨hnode, hsplit, hpoint, hsides, hgaps, -⟩ := h.parts_eq hw
  have hstart := h.distance
  rw [entryOf, hw.read, hnode (by omega), hsplit (by omega), hpoint (by omega),
    hsides (by omega), hgaps (by omega)]
  rfl

/-! ## Filled entries -/

/-- The frontier `f'` is `f` with `e` for the entry in the slot `i`; every
other entry stays as it was. -/
structure Fills (f : Frontier β) (i : Nat) (e : EntryRecord F) (f' : Frontier β) : Prop where
  frame : f' = { f with pool := f'.pool }
  rewrites : ∃ cells, f.pool.Rewrites i cells f'.pool ∧ f.entryOf cells = e

namespace Fills

variable {f' f'' : Frontier β} {i j : Nat} {e e' : EntryRecord F}

theorem dimension (h : f.Fills i e f') : f'.dimension = f.dimension := by
  rw [h.frame]

theorem entryOf_eq (h : f.Fills i e f') (cells : List β) :
    (f'.entryOf cells : EntryRecord F) = f.entryOf cells := by
  rw [h.frame]
  rfl

theorem id (h : f.Fills i e f') : f'.pool.id = f.pool.id := by
  obtain ⟨cells, hrw, -⟩ := h.rewrites
  exact hrw.id

theorem isLive_iff (h : f.Fills i e f') : f'.pool.IsLive j ↔ f.pool.IsLive j := by
  obtain ⟨cells, hrw, -⟩ := h.rewrites
  exact hrw.isLive_iff

theorem referenceTo (h : f.Fills i e f') : f'.pool.referenceTo = f.pool.referenceTo := by
  obtain ⟨cells, hrw, -⟩ := h.rewrites
  exact hrw.referenceTo

theorem allocated (h : f.Fills i e f') : f'.pool.allocated = f.pool.allocated := by
  obtain ⟨cells, hrw, -⟩ := h.rewrites
  rw [hrw.frame]

theorem limit (h : f.Fills i e f') : f'.pool.store.limit = f.pool.store.limit := by
  obtain ⟨cells, hrw, -⟩ := h.rewrites
  exact hrw.limit

/-- An entry may be filled in with itself. -/
theorem refl (hp : f.pool.Sound) (i : Nat) : f.Fills i (f.entryAt i : EntryRecord F) f := by
  refine ⟨rfl, f.pool.contents i, ⟨hp, ?_, rfl, rfl, rfl⟩, rfl⟩
  rw [Function.update_eq_self]

/-- The filled entry is the new one. -/
theorem entryAt_self (h : f.Fills i e f') : f'.entryAt i = e := by
  obtain ⟨cells, hrw, he⟩ := h.rewrites
  rw [entryAt, h.entryOf_eq, hrw.contents_self, he]

/-- The other entries stay. -/
theorem entryAt_of_ne (h : f.Fills i e f') (hne : j ≠ i) :
    (f'.entryAt j : EntryRecord F) = f.entryAt j := by
  obtain ⟨cells, hrw, -⟩ := h.rewrites
  rw [entryAt, h.entryOf_eq, hrw.contents_of_ne hne]
  rfl

/-- Filling in keeps a frontier sound. -/
theorem sound (h : f.Fills i e f') (hf : f.Sound) : f'.Sound := by
  obtain ⟨cells, hrw, -⟩ := h.rewrites
  refine ⟨hrw.sound, ?_⟩
  rw [h.frame]
  exact hf.laid.withPool hrw.layout

/-- Of two fillings of one entry the second one counts. -/
theorem trans (h : f.Fills i e f') (h' : f'.Fills i e' f'') : f.Fills i e' f'' := by
  obtain ⟨cells, hrw, -⟩ := h.rewrites
  obtain ⟨cells', hrw', he'⟩ := h'.rewrites
  refine ⟨?_, cells', hrw.trans hrw', ?_⟩
  · rw [h'.frame, h.frame]
  · rw [← h.entryOf_eq, he']

end Fills

variable {i : Nat}

/-- A rewritten record fills in the entry that its cells hold. -/
theorem fills_of_rewrites {p' : Pool β} {cells : List β} {e : EntryRecord F}
    (hrw : f.pool.Rewrites i cells p') (he : f.entryOf cells = e) :
    f.Fills i e { f with pool := p' } :=
  ⟨rfl, cells, hrw, he⟩

/-! ## Single attributes -/

section Attributes

variable (hf : f.Sound) (hi : f.pool.IsLive i)
include hf hi

/-- Making an entry a point or a box. -/
theorem Sound.setPoint_eq (value : Bool) :
    ∃ f', f.setPoint (f.pool.referenceTo i) value = .ok f' ∧
      f.Fills i { (f.entryAt i : EntryRecord F) with isPoint := value } f' := by
  obtain ⟨p', cells, hput, hrw, hw⟩ := Attribute.put_eq hf.pool hi hf.laid.inside.isPoint
    (trivial : Kind.boolean.Storable (F := F) value)
  exact ⟨_, by rw [setPoint, hput]; rfl, fills_of_rewrites hrw (hf.laid.entryOf_isPoint hw)⟩

/-- Setting the side on one axis. -/
theorem Sound.setSide_eq (hd : d < f.dimension) (value : Int8) :
    ∃ f', f.setSide (f.pool.referenceTo i) d value = .ok f' ∧
      f.Fills i { (f.entryAt i : EntryRecord F) with
        sides := (f.entryAt i : EntryRecord F).sides.set d value } f' := by
  have hlt : d < f.side.length := hf.laid.side_length.symm ▸ hd
  obtain ⟨p', cells, hput, hrw, hw⟩ := Attribute.put_eq hf.pool hi
    (hf.laid.inside.side.element hlt) (trivial : Kind.byte.Storable (F := F) value)
  exact ⟨_, by rw [setSide, AttributeArray.put_eq_element hlt, hput]; rfl,
    fills_of_rewrites hrw (hf.laid.entryOf_side hd hw)⟩

/-- Setting the gap on one axis. -/
theorem Sound.setGap_eq (hd : d < f.dimension) (value : F) :
    ∃ f', f.setGap (f.pool.referenceTo i) d value = .ok f' ∧
      f.Fills i { (f.entryAt i : EntryRecord F) with
        gaps := (f.entryAt i : EntryRecord F).gaps.set d value } f' := by
  have hlt : d < f.gap.length := hf.laid.gap_length.symm ▸ hd
  obtain ⟨p', cells, hput, hrw, hw⟩ := Attribute.put_eq hf.pool hi
    (hf.laid.inside.gap.element hlt) (trivial : Kind.double.Storable (F := F) value)
  exact ⟨_, by rw [setGap, AttributeArray.put_eq_element hlt, hput]; rfl,
    fills_of_rewrites hrw (hf.laid.entryOf_gap hd hw)⟩

/-- Setting the distance. -/
theorem Sound.setDistance_eq (value : F) :
    ∃ f', f.setDistance (f.pool.referenceTo i) value = .ok f' ∧
      f.Fills i { (f.entryAt i : EntryRecord F) with distance := value } f' := by
  obtain ⟨p', cells, hput, hrw, hw⟩ := Attribute.put_eq hf.pool hi hf.laid.inside.distance
    (trivial : Kind.double.Storable (F := F) value)
  exact ⟨_, by rw [setDistance, hput]; rfl, fills_of_rewrites hrw (hf.laid.entryOf_distance hw)⟩

/-- Reading the node. -/
theorem Sound.nodeOf_eq {node : RecordIndex}
    (hnode : (f.entryAt i : EntryRecord F).node = some node) :
    f.nodeOf (f.pool.referenceTo i) = .ok node := by
  have hread : f.node.read (f.pool.contents i) = some node := hnode
  rw [nodeOf, Attribute.get_eq hf.pool hi hf.laid.inside.node, ok_bind, hread]
  rfl

/-- Reading the axis. -/
theorem Sound.axisOf_eq {axis : Nat} (haxis : axis < 2 ^ 31)
    (hsplit : (f.entryAt i : EntryRecord F).split = Kind.narrow axis) :
    f.axisOf (f.pool.referenceTo i) = .ok axis := by
  have hread : f.split.read (f.pool.contents i) = Kind.narrow axis := hsplit
  rw [axisOf, Attribute.get_eq hf.pool hi hf.laid.inside.split, ok_bind, hread,
    Kind.widen_narrow haxis]
  rfl

/-- Reading whether the entry is a point. -/
theorem Sound.entryIsPoint_eq :
    f.entryIsPoint (f.pool.referenceTo i) = .ok (f.entryAt i : EntryRecord F).isPoint :=
  Attribute.get_eq hf.pool hi hf.laid.inside.isPoint

/-- Reading the side on one axis. -/
theorem Sound.sideOf_eq (hd : d < f.dimension) :
    f.sideOf (f.pool.referenceTo i) d = .ok ((f.entryAt i : EntryRecord F).sides.getD d 0) := by
  have hlt : d < f.side.length := hf.laid.side_length.symm ▸ hd
  have hread : (f.entryAt i : EntryRecord F).sides[d]? =
      some ((f.side.element d).read (f.pool.contents i)) := AttributeArray.getElem?_values hlt _
  rw [sideOf, AttributeArray.get_eq_element hlt,
    Attribute.get_eq hf.pool hi (hf.laid.inside.side.element hlt),
    List.getD_eq_getElem?_getD, hread, Option.getD_some]

/-- Reading the gap on one axis. -/
theorem Sound.gapOf_eq [Arithmetic F] (hd : d < f.dimension) :
    f.gapOf (f.pool.referenceTo i) d =
      .ok ((f.entryAt i : EntryRecord F).gaps.getD d Arithmetic.zero) := by
  have hlt : d < f.gap.length := hf.laid.gap_length.symm ▸ hd
  have hread : (f.entryAt i : EntryRecord F).gaps[d]? =
      some ((f.gap.element d).read (f.pool.contents i)) := AttributeArray.getElem?_values hlt _
  rw [gapOf, AttributeArray.get_eq_element hlt,
    Attribute.get_eq hf.pool hi (hf.laid.inside.gap.element hlt),
    List.getD_eq_getElem?_getD, hread, Option.getD_some]

/-- Reading the distance. -/
theorem Sound.distanceOf_eq :
    f.distanceOf (f.pool.referenceTo i) = .ok (f.entryAt i : EntryRecord F).distance :=
  Attribute.get_eq hf.pool hi hf.laid.inside.distance

end Attributes

/-! ## Whole entries -/

/-- The box of a node with the query inside it. -/
def EntryRecord.box [Arithmetic F] (dimension : Nat) (node : RecordIndex) (axis : Nat) :
    EntryRecord F where
  node := some node
  split := Kind.narrow axis
  isPoint := false
  sides := List.replicate dimension 0
  gaps := List.replicate dimension Arithmetic.zero
  distance := Arithmetic.zero

/-- The entry with another side and another gap on one axis. -/
def EntryRecord.setAxis (e : EntryRecord F) (d : Nat) (side : Int8) (gap : F) : EntryRecord F :=
  { e with sides := e.sides.set d side, gaps := e.gaps.set d gap }

/-- Setting both the side and the gap on one axis. -/
theorem Sound.setAxis_eq (hf : f.Sound) (hi : f.pool.IsLive i) (hd : d < f.dimension)
    (side : Int8) (gap : F) :
    ∃ f₁ f₂, f.setSide (f.pool.referenceTo i) d side = .ok f₁ ∧
      f₁.setGap (f.pool.referenceTo i) d gap = .ok f₂ ∧
      f.Fills i ((f.entryAt i : EntryRecord F).setAxis d side gap) f₂ := by
  obtain ⟨f₁, hside, h₁⟩ := hf.setSide_eq hi hd side
  obtain ⟨f₂, hgap, h₂⟩ := (h₁.sound hf).setGap_eq (h₁.isLive_iff.mpr hi) (h₁.dimension ▸ hd) gap
  rw [h₁.referenceTo] at hgap
  refine ⟨f₁, f₂, hside, hgap, ?_⟩
  have hfills := h₁.trans h₂
  rwa [h₁.entryAt_self] at hfills

/-! ## Creating and removing entries -/

/-- Creating takes a slot that was not in use. -/
theorem Sound.create_eq (hf : f.Sound)
    (hroom : f.pool.free = [] → f.pool.HasRoom) :
    ∃ i p', f.create f.pool.newReference =
        .ok (i, { f with pool := p' }, f.pool.referenceTo i) ∧ f.pool.Allocates i p' ∧
      ({ f with pool := p' } : Frontier β).Sound := by
  obtain ⟨i, p', hcreate, halloc⟩ := hf.pool.create_eq (r := f.pool.newReference) rfl hroom
  refine ⟨i, p', ?_, halloc, halloc.sound, hf.laid.withPool halloc.layout⟩
  rw [create, hcreate]
  rfl

/-- Removing gives the slot of an entry back. -/
theorem Sound.delete_eq (hf : f.Sound) (hi : f.pool.IsLive i) :
    ∃ p', f.delete (f.pool.referenceTo i) = .ok { f with pool := p' } ∧ f.pool.Deletes i p' ∧
      ({ f with pool := p' } : Frontier β).Sound := by
  obtain ⟨p', hdelete, hdel⟩ := hf.pool.delete_eq hi
  refine ⟨p', ?_, hdel, hdel.sound, hf.laid.withPool hdel.layout⟩
  rw [delete, hdelete]
  rfl

/-- Dropping all entries keeps a frontier sound. -/
theorem Sound.clear (hf : f.Sound) : f.clear.Sound :=
  ⟨hf.pool.clear, hf.laid.withPool rfl⟩

/-! ## The order of entries -/

/-- The slot that a reference points at. -/
def slotOf (r : Reference) : Nat :=
  (r.index?).getD 0

/-- Compares the distances of two entries. -/
def ranking [Arithmetic F] (f : Frontier β) (x y : Reference) : Ordering :=
  Arithmetic.compare (f.entryAt (slotOf x) : EntryRecord F).distance
    (f.entryAt (slotOf y) : EntryRecord F).distance

/-- The references to entries in use. -/
def Known (f : Frontier β) (r : Reference) : Prop :=
  ∃ i, f.pool.IsLive i ∧ r = f.pool.referenceTo i

/-- Entries in use are ordered by their distances. -/
theorem Sound.order_answers [Arithmetic F] (hf : f.Sound) :
    f.order.Answers f.ranking f.Known := by
  rintro _ _ ⟨i, hi, rfl⟩ ⟨j, hj, rfl⟩
  have hwithin := hf.laid.inside.distance
  rw [order, Comparator.byDouble, Attribute.get_eq hf.pool hi hwithin, ok_bind,
    Attribute.get_eq hf.pool hj hwithin, ok_bind]
  rfl

/-- Distances are compared by a total order if coordinates are. -/
theorem transCmp_ranking [Arithmetic F] [Std.TransCmp (Arithmetic.compare (F := F))]
    (f : Frontier β) : Std.TransCmp f.ranking where
  eq_swap := by
    intro x y
    show Arithmetic.compare _ _ = (Arithmetic.compare _ _).swap
    exact Std.OrientedCmp.eq_swap
  isLE_trans := by
    intro x y z hxy hyz
    show (Arithmetic.compare _ _).isLE
    exact Std.TransCmp.isLE_trans hxy hyz

/-! ## New frontiers -/

/-- The draft of an entry, with all its columns. -/
def entryDraft (dimension : Nat) : Draft :=
  ((((((Draft.start 0).appended "node_index" (.scalar .index)).appended
    "split_dim" (.scalar .int)).appended "is_point" (.scalar .boolean)).appended
    "orient" (.array .byte dimension)).appended "axis_sq" (.array .double dimension)).appended
    "sq_distance" (.scalar .double)

/-- The layout of an entry. -/
def entryLayout (dimension : Nat) : Layout :=
  ⟨0, (entryDraft dimension).columns, (entryDraft dimension).cursor⟩

/-- The size of an entry. -/
theorem size_entryLayout (dimension : Nat) : (entryLayout dimension).size = 17 + 9 * dimension := by
  simp only [entryLayout, entryDraft, Draft.cursor_appended, Draft.cursor_start, Shape.size,
    Kind.size]
  omega

/-- The frontier whose entries are the records of a pool. -/
def ofPool (dimension : Nat) (pool : Pool β) : Frontier β :=
  ⟨dimension, pool, ⟨0, 0⟩, ⟨1, 4⟩, ⟨2, 8⟩, ⟨3, 9, dimension⟩, ⟨4, 9 + dimension, dimension⟩,
    ⟨5, 9 + 9 * dimension⟩⟩

/-- In the records of a pool of entries the attributes lie back to back. -/
theorem laid_ofPool {dimension : Nat} {p : Pool β} (hlayout : p.layout = entryLayout dimension) :
    (ofPool dimension p).Laid :=
  ⟨rfl, rfl, rfl, rfl, rfl, rfl, rfl, rfl,
    (congrArg Layout.size hlayout).trans (size_entryLayout dimension)⟩

/-- Entries within the machine range can be laid out: making a frontier is
making its pool. -/
theorem make_eq_ofPool (id : PoolId) {dimension capacity : Nat} (hpos : 0 < dimension)
    (hsize : 17 + 9 * dimension < sizeBound) :
    (make id dimension capacity : ExceptT TreeError Checked (Frontier β)) =
      (Pool.make id (entryLayout dimension) (.single capacity) .keep).adapt .pool >>= fun pool =>
        pure (ofPool dimension pool) := by
  have hbound : ∀ n, n ≤ 17 + 9 * dimension → n < sizeBound := fun n hn => by omega
  -- one column after the other; the last draft is `entryDraft`
  obtain ⟨h₁, t₁⟩ := (Draft.tight_start 0).field_eq .index "node_index" (by simp)
    (hbound _ (by simp only [Draft.cursor_start, Kind.size]; omega))
  obtain ⟨h₂, t₂⟩ := t₁.field_eq .int "split_dim" (by simp)
    (hbound _ (by simp [Shape.size, Kind.size]; omega))
  obtain ⟨h₃, t₃⟩ := t₂.field_eq .boolean "is_point" (by simp)
    (hbound _ (by simp [Shape.size, Kind.size]; omega))
  obtain ⟨h₄, t₄⟩ := t₃.fieldArray_eq .byte "orient" (by simp) hpos
    (hbound _ (by simp [Shape.size, Kind.size]; omega))
  obtain ⟨h₅, t₅⟩ := t₄.fieldArray_eq .double "axis_sq" (by simp) hpos
    (hbound _ (by simp [Shape.size, Kind.size]; omega))
  obtain ⟨h₆, t₆⟩ := t₅.field_eq .double "sq_distance" (by simp)
    (hbound _ (by simp [Shape.size, Kind.size]; omega))
  have hfinish := t₆.finish_eq (by simp)
  change _ = pure (entryLayout dimension) at hfinish
  have hoffset : 9 + dimension + 8 * dimension = 9 + 9 * dimension := by omega
  rw [make, if_neg (by omega), show Draft.internal = Draft.start 0 from rfl]
  simp only [h₁, h₂, h₃, h₄, h₅, h₆, lift_ok, pure_bind, hfinish, adapt_pure]
  -- the pool has the layout of the fields, so that they are bound to it
  cases hmake : Pool.make id (entryLayout dimension) (.single capacity) (.keep : Reset β) with
  | error fault => rfl
  | ok outcome =>
      cases outcome with
      | error refusal => rfl
      | ok p =>
          have hlayout : p.layout.id = 0 := by
            rw [Pool.layout_of_make hmake]
            rfl
          show (pure p >>= _ : ExceptT TreeError Checked (Frontier β)) = pure p >>= _
          rw [pure_bind, pure_bind]
          simp [AttributeArray.bind_eq, Attribute.bind_eq, hlayout, Shape.size, Kind.size, ofPool]
          rw [hoffset]

/-- **A new frontier** is sound, has no entry and may grow to as many entries
as there are record indices. -/
theorem make_eq (id : PoolId) {dimension capacity : Nat} (hpos : 0 < dimension)
    (hdim : dimension < 2 ^ 28) (hcapacity : capacity ≤ indexLimit) :
    ∃ f : Frontier β, make id dimension capacity = pure f ∧ f.Sound ∧ f.dimension = dimension ∧
      f.pool.allocated = 0 ∧ f.pool.free = [] ∧ f.pool.store.limit = indexLimit := by
  have hbound : 2 ^ 31 * (entryLayout dimension).size < sizeBound := by
    rw [size_entryLayout]
    unfold sizeBound
    omega
  obtain ⟨p, hmake, hsound, -, hp, -, hallocated, hfree, hlimit, -⟩ :=
    Pool.make_eq (β := β) (StorePlan.validate_single hcapacity) (StorePlan.inRange_single capacity)
      hbound id .keep
  refine ⟨ofPool dimension p, ?_, ⟨hsound, laid_ofPool hp⟩, rfl, hallocated, hfree, hlimit⟩
  rw [make_eq_ofPool id hpos (by unfold sizeBound; omega), hmake, adapt_pure, pure_bind]

end Frontier

end RecordPool
