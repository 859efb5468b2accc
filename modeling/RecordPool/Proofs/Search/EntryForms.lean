/-
# The cells of entries

Filling in an entry pastes its attributes into its record one after the other,
and together they cover the record: what the slot held before is gone.
Inheriting sets all cells to those of the parent and pastes the first nine.
Either way the cells of the entry are known afterwards, so that the slots of a
frontier need no reset, and they are read as the box of a node.
-/
import RecordPool.Proofs.Pool.Records
import RecordPool.Proofs.Search.Frontier

namespace RecordPool

namespace Frontier

variable {β F : Type} [Memory β F]

/-- The frontier with `cells` for the entry in the slot `i`. -/
def withCells (f : Frontier β) (i : Nat) (cells : List β) : Frontier β :=
  { f with pool := f.pool.setRecord i cells }

/-- The first cells of a box: its node, the axis, and that it is no point. -/
def boxHead (node : RecordIndex) (axis : Nat) : List β :=
  Kind.form .index (some node) ++ Kind.form .int (Kind.narrow axis) ++ Kind.form .boolean false

/-- The cells of a box behind its head, with the query inside it. -/
def boxBody [Arithmetic F] (dimension : Nat) : List β :=
  Kind.forms .byte (List.replicate dimension 0) ++
    Kind.forms .double (List.replicate dimension Arithmetic.zero) ++
    Kind.form .double Arithmetic.zero

/-- The cells of the box of a node with the query inside it. -/
def boxCells [Arithmetic F] (dimension : Nat) (node : RecordIndex) (axis : Nat) : List β :=
  boxHead node axis ++ boxBody dimension

variable {f : Frontier β} {i j d axis : Nat} {node : RecordIndex} {cells head : List β}

/-- The head of a box has nine cells. -/
theorem length_boxHead (hnode : node ≤ indexLimit) (axis : Nat) :
    (boxHead node axis : List β).length = 9 := by
  rw [boxHead, List.length_append, List.length_append,
    Kind.length_form (show Kind.index.Storable (F := F) (some node) from hnode),
    Kind.length_form (show Kind.int.Storable (F := F) (Kind.narrow axis) from trivial),
    Kind.length_form (show Kind.boolean.Storable (F := F) false from trivial)]
  rfl

/-- The side on each axis takes a cell. -/
theorem length_sideCells (d : Nat) :
    (Kind.forms .byte (List.replicate d (0 : Int8)) : List β).length = d * 1 :=
  Kind.length_forms_replicate (show Kind.byte.Storable (F := F) (0 : Int8) from trivial) d

/-- The gap on each axis takes eight cells. -/
theorem length_gapCells [Arithmetic F] (d : Nat) :
    (Kind.forms .double (List.replicate d (Arithmetic.zero : F)) : List β).length = d * 8 :=
  Kind.length_forms_replicate (show Kind.double.Storable (Arithmetic.zero : F) from trivial) d

/-- Behind its head a box has the sides, the gaps and the distance. -/
theorem length_boxBody [Arithmetic F] (dimension : Nat) :
    (boxBody dimension : List β).length = 9 * dimension + 8 := by
  have hsides := length_sideCells (β := β) dimension
  have hgaps := length_gapCells (β := β) dimension
  have hdistance : (Kind.form .double (Arithmetic.zero : F) : List β).length = 8 :=
    Kind.length_form (show Kind.double.Storable (Arithmetic.zero : F) from trivial)
  rw [boxBody, List.length_append, List.length_append]
  omega

/-- The cells of a box are those of an entry. -/
theorem Laid.length_boxCells [Arithmetic F] (h : f.Laid) (hnode : node ≤ indexLimit)
    (axis : Nat) :
    (boxCells f.dimension node axis : List β).length = f.pool.layout.size := by
  rw [boxCells, List.length_append, length_boxHead hnode, length_boxBody, h.size]
  omega

/-- So are those of an entry with another head. -/
theorem Laid.length_head_append (h : f.Laid) (hnode : node ≤ indexLimit) (axis : Nat)
    (hcells : cells.length = f.pool.layout.size) :
    (boxHead node axis ++ cells.drop 9).length = f.pool.layout.size := by
  have hsize := h.size
  rw [List.length_append, length_boxHead hnode, List.length_drop]
  omega

/-- A frontier that an entry was written in is sound. -/
theorem sound_withCells (hf : f.Sound) (i : Nat) (cells : List β) : (f.withCells i cells).Sound :=
  ⟨hf.pool.setRecord i cells, hf.laid.withPool rfl⟩

/-- Of two lists of cells for one entry the second one counts. -/
theorem Sound.withCells_withCells (hf : f.Sound) (hi : f.pool.IsLive i) {cells' : List β}
    (hcells : cells.length = f.pool.layout.size) (hcells' : cells'.length = f.pool.layout.size) :
    (f.withCells i cells).withCells i cells' = f.withCells i cells' := by
  rw [withCells, withCells, hf.pool.setRecord_setRecord hi hcells hcells']
  rfl

/-- The entry has the cells that were written. -/
theorem Sound.contents_withCells (hf : f.Sound) (hi : f.pool.IsLive i)
    (hcells : cells.length = f.pool.layout.size) : (f.withCells i cells).pool.contents i = cells := by
  rw [withCells, hf.pool.contents_setRecord hi hcells, Function.update_self]

/-! ## Pasting attributes -/

section Windows

variable {α : Type} {xs front middle back more : List α} {m n : Nat}

/-- Three adjoining windows are pasted, the last one first. -/
theorem length_pastes (hm : front.length = m) (hn : (front ++ middle).length = n)
    (h : n + back.length ≤ xs.length) :
    (paste (paste (paste xs n back) 0 front) m middle).length = xs.length := by
  rw [List.length_append] at hn
  have hback : (paste xs n back).length = xs.length := length_paste h
  have hfront : (paste (paste xs n back) 0 front).length = xs.length := by
    rw [length_paste (by omega), hback]
  rw [length_paste (by omega), hfront]

/-- They are shown as one, in front of what is behind them. -/
theorem shows_pastes (hm : front.length = m) (hn : (front ++ middle).length = n)
    (h : n + back.length ≤ xs.length) (hmore : Shows xs (n + back.length) more) :
    Shows (paste (paste (paste xs n back) 0 front) m middle) 0
      (front ++ middle ++ back ++ more) := by
  have hsum := hn
  rw [List.length_append] at hsum
  have hback : (paste xs n back).length = xs.length := length_paste h
  have hfront : (paste (paste xs n back) 0 front).length = xs.length := by
    rw [length_paste (by omega), hback]
  have hrest : Shows (paste xs n back) n (back ++ more) :=
    (shows_paste h).append (hmore.paste h (Or.inr (Nat.le_refl _))) rfl
  have hrest' : Shows (paste (paste xs n back) 0 front) n (back ++ more) :=
    hrest.paste (by omega) (by omega)
  have hstart : Shows (paste (paste xs n back) 0 front) 0 front := shows_paste (by omega)
  have hboth : Shows (paste (paste (paste xs n back) 0 front) m middle) 0 (front ++ middle) :=
    hstart.paste_append (by omega) (by omega)
  rw [List.append_assoc]
  exact hboth.append (hrest'.paste (by omega) (by omega)) (by omega)

end Windows

section Pasting

variable (hf : f.Sound) (hi : f.pool.IsLive i) (hcells : cells.length = f.pool.layout.size)
include hf hi hcells

/-- Setting the node and its axis pastes the first eight cells. -/
theorem Sound.setNode_withCells (hnode : node ≤ indexLimit) (axis : Nat) :
    (f.withCells i cells).setNode (f.pool.referenceTo i) node axis =
      .ok (f.withCells i (paste (paste cells 0 (Kind.form .index (some node))) 4
        (Kind.form .int (Kind.narrow axis)))) := by
  have hstorable : Kind.index.Storable (F := F) (some node) := hnode
  have hput := Attribute.put_setRecord hf.pool hi hcells hf.laid.inside.node hstorable
  have hsize := Kind.length_form (β := β) hstorable
  have hpaste : (paste cells 0 (Kind.form .index (some node))).length = f.pool.layout.size := by
    rw [length_paste, hcells]
    rw [hsize, hcells, hf.laid.size, Kind.size]
    omega
  have hput' := Attribute.put_setRecord hf.pool hi hpaste hf.laid.inside.split
    (show Kind.int.Storable (F := F) (Kind.narrow axis) from trivial)
  rw [hf.laid.node] at hput
  rw [hf.laid.split] at hput'
  rw [setNode, withCells, hput, ok_bind, hput']
  rfl

/-- Making an entry a point or a box pastes one cell. -/
theorem Sound.setPoint_withCells (value : Bool) :
    (f.withCells i cells).setPoint (f.pool.referenceTo i) value =
      .ok (f.withCells i (paste cells 8 (Kind.form .boolean value))) := by
  have hput := Attribute.put_setRecord hf.pool hi hcells hf.laid.inside.isPoint
    (show Kind.boolean.Storable (F := F) value from trivial)
  rw [hf.laid.isPoint] at hput
  rw [setPoint, withCells, hput]
  rfl

/-- Setting the side on one axis pastes one cell. -/
theorem Sound.setSide_withCells (hd : d < f.dimension) (value : Int8) :
    (f.withCells i cells).setSide (f.pool.referenceTo i) d value =
      .ok (f.withCells i (paste cells (9 + d * 1) (Kind.form .byte value))) := by
  have hlt : d < f.side.length := hf.laid.side_length.symm ▸ hd
  have hput := Attribute.put_setRecord hf.pool hi hcells (hf.laid.inside.side.element hlt)
    (show Kind.byte.Storable (F := F) value from trivial)
  rw [AttributeArray.offset_element, hf.laid.side, Kind.size] at hput
  rw [setSide, withCells, AttributeArray.put_eq_element hlt, hput]
  rfl

/-- Setting the gap on one axis pastes eight cells. -/
theorem Sound.setGap_withCells (hd : d < f.dimension) (value : F) :
    (f.withCells i cells).setGap (f.pool.referenceTo i) d value =
      .ok (f.withCells i (paste cells (9 + f.dimension + d * 8) (Kind.form .double value))) := by
  have hlt : d < f.gap.length := hf.laid.gap_length.symm ▸ hd
  have hput := Attribute.put_setRecord hf.pool hi hcells (hf.laid.inside.gap.element hlt)
    (show Kind.double.Storable (F := F) value from trivial)
  rw [AttributeArray.offset_element, hf.laid.gap, Kind.size] at hput
  rw [setGap, withCells, AttributeArray.put_eq_element hlt, hput]
  rfl

/-- Setting the distance pastes eight cells. -/
theorem Sound.setDistance_withCells (value : F) :
    (f.withCells i cells).setDistance (f.pool.referenceTo i) value =
      .ok (f.withCells i (paste cells (9 + 9 * f.dimension) (Kind.form .double value))) := by
  have hput := Attribute.put_setRecord hf.pool hi hcells hf.laid.inside.distance
    (show Kind.double.Storable (F := F) value from trivial)
  rw [hf.laid.distance] at hput
  rw [setDistance, withCells, hput]
  rfl

/-- **Setting the head** of an entry leaves what is behind it. -/
theorem Sound.exists_headed (hnode : node ≤ indexLimit) (axis : Nat) :
    ∃ first second : List β,
      (f.withCells i cells).setPoint (f.pool.referenceTo i) false = .ok (f.withCells i first) ∧
      (f.withCells i first).setNode (f.pool.referenceTo i) node axis =
        .ok (f.withCells i second) ∧
      second.length = f.pool.layout.size ∧
      ∀ rest, Shows cells 9 rest → Shows second 0 (boxHead node axis ++ rest) := by
  have hindex : (Kind.form .index (some node) : List β).length = 4 :=
    Kind.length_form (show Kind.index.Storable (F := F) (some node) from hnode)
  have hint : (Kind.form .int (Kind.narrow axis) : List β).length = 4 :=
    Kind.length_form (show Kind.int.Storable (F := F) (Kind.narrow axis) from trivial)
  have hboolean : (Kind.form .boolean false : List β).length = 1 :=
    Kind.length_form (show Kind.boolean.Storable (F := F) false from trivial)
  have hsize := hcells.trans hf.laid.size
  have hboth : (Kind.form .index (some node) ++ Kind.form .int (Kind.narrow axis) :
      List β).length = 8 := by
    rw [List.length_append, hindex, hint]
  have hpaste : (paste cells 8 (Kind.form .boolean false)).length = f.pool.layout.size := by
    rw [length_paste (by omega), hcells]
  refine ⟨_, _, hf.setPoint_withCells hi hcells false, hf.setNode_withCells hi hpaste hnode axis,
    ?_, fun rest hrest => ?_⟩
  · rw [length_pastes hindex hboth (by omega), hcells]
  · rw [boxHead]
    exact shows_pastes hindex hboth (by omega) (by rwa [hboolean])

end Pasting

/-! ## Whole entries -/

section Filling

variable (hf : f.Sound) (hi : f.pool.IsLive i)
include hf hi

/-- An entry in use has its cells. -/
theorem Sound.withCells_contents : f.withCells i (f.pool.contents i) = f := by
  rw [withCells, hf.pool.setRecord_contents hi]

/-- Setting a side and a gap to zero makes those of one more axis known. -/
theorem Sound.exists_axis_set [Arithmetic F] (hcells : cells.length = f.pool.layout.size)
    (hd : d < f.dimension) (hhead : Shows cells 0 head) (hnine : head.length = 9)
    (hsides : Shows cells 9 (Kind.forms .byte (List.replicate d (0 : Int8))))
    (hgaps : Shows cells (9 + f.dimension)
      (Kind.forms .double (List.replicate d (Arithmetic.zero : F)))) :
    ∃ sided gapped : List β,
      (f.withCells i cells).setSide (f.pool.referenceTo i) d 0 = .ok (f.withCells i sided) ∧
      (f.withCells i sided).setGap (f.pool.referenceTo i) d Arithmetic.zero =
        .ok (f.withCells i gapped) ∧
      gapped.length = f.pool.layout.size ∧ Shows gapped 0 head ∧
      Shows gapped 9 (Kind.forms .byte (List.replicate (d + 1) (0 : Int8))) ∧
      Shows gapped (9 + f.dimension)
        (Kind.forms .double (List.replicate (d + 1) (Arithmetic.zero : F))) := by
  have hsize := hcells.trans hf.laid.size
  have hside : Kind.byte.Storable (F := F) (0 : Int8) := trivial
  have hgap : Kind.double.Storable (Arithmetic.zero : F) := trivial
  have hbyte : (Kind.form .byte (0 : Int8) : List β).length = 1 := Kind.length_form hside
  have hdouble : (Kind.form .double (Arithmetic.zero : F) : List β).length = 8 :=
    Kind.length_form hgap
  have hgapped := length_gapCells (β := β) d
  have hsided := length_sideCells (β := β) (d + 1)
  have hlength : (paste cells (9 + d * 1) (Kind.form .byte (0 : Int8))).length = cells.length :=
    length_paste (by omega)
  have hlength' : (paste (paste cells (9 + d * 1) (Kind.form .byte (0 : Int8)))
      (9 + f.dimension + d * 8) (Kind.form .double (Arithmetic.zero : F))).length =
        cells.length := by
    rw [length_paste (by omega), hlength]
  have hsides' : Shows (paste cells (9 + d * 1) (Kind.form .byte (0 : Int8))) 9
      (Kind.forms .byte (List.replicate (d + 1) (0 : Int8))) :=
    Kind.shows_replicate_succ hsides hside (show 9 + (d + 1) * 1 ≤ _ by omega)
  have hgaps' : Shows (paste cells (9 + d * 1) (Kind.form .byte (0 : Int8))) (9 + f.dimension)
      (Kind.forms .double (List.replicate d (Arithmetic.zero : F))) :=
    hgaps.paste (by omega) (by omega)
  refine ⟨_, _, hf.setSide_withCells hi hcells hd 0,
    hf.setGap_withCells hi (hlength.trans hcells) hd Arithmetic.zero, hlength'.trans hcells, ?_, ?_,
    Kind.shows_replicate_succ hgaps' hgap (show 9 + f.dimension + (d + 1) * 8 ≤ _ by omega)⟩
  · exact (hhead.paste (by omega) (by omega)).paste (by omega) (by omega)
  · exact hsides'.paste (by omega) (by omega)

/-- **Filling in** leaves the cells of a box, whatever the slot held before. -/
theorem Sound.fill_eq_withCells [Arithmetic F] (hnode : node ≤ indexLimit) (axis : Nat) :
    f.fill (f.pool.referenceTo i) node axis =
      .ok (f.withCells i (boxCells f.dimension node axis)) := by
  have hsize := hf.laid.size
  have hnine := length_boxHead (β := β) hnode axis
  obtain ⟨first, second, hpoint, hset, hsecond, hshows⟩ :=
    hf.exists_headed hi (hf.pool.length_contents hi) hnode axis
  rw [hf.withCells_contents hi] at hpoint
  have hhead : Shows second 0 (boxHead node axis) := by
    rw [← List.append_nil (boxHead node axis)]
    exact hshows [] (shows_nil _ _)
  -- after `d` steps the sides and the gaps of the first `d` axes are known
  obtain ⟨f₃, hloop, third, rfl, hthird, hhead₃, hsides, hgaps⟩ :
      ∃ f₃, (List.range f.dimension).foldlM (fun f' d => do
          let f' ← Frontier.setSide f' (f.pool.referenceTo i) d 0
          f'.setGap (f.pool.referenceTo i) d Arithmetic.zero) (f.withCells i second) = .ok f₃ ∧
        ∃ third, f₃ = f.withCells i third ∧ third.length = f.pool.layout.size ∧
          Shows third 0 (boxHead node axis) ∧
          Shows third 9 (Kind.forms .byte (List.replicate f.dimension (0 : Int8))) ∧
          Shows third (9 + f.dimension)
            (Kind.forms .double (List.replicate f.dimension (Arithmetic.zero : F))) := by
    apply foldlM_range_ok fun d f' => ∃ cells, f' = f.withCells i cells ∧
      cells.length = f.pool.layout.size ∧ Shows cells 0 (boxHead node axis) ∧
      Shows cells 9 (Kind.forms .byte (List.replicate d (0 : Int8))) ∧
      Shows cells (9 + f.dimension)
        (Kind.forms .double (List.replicate d (Arithmetic.zero : F)))
    · exact ⟨second, rfl, hsecond, hhead, shows_nil _ _, shows_nil _ _⟩
    · rintro d hd _ ⟨cells, rfl, hcells, hhead, hsides, hgaps⟩
      obtain ⟨sided, gapped, hside, hgap, hafter⟩ :=
        hf.exists_axis_set hi hcells hd hhead hnine hsides hgaps
      exact ⟨_, by rw [hside, ok_bind, hgap], gapped, rfl, hafter⟩
  have hsideCells := length_sideCells (β := β) f.dimension
  have hgapCells := length_gapCells (β := β) f.dimension
  have hdistance : (Kind.form .double (Arithmetic.zero : F) : List β).length = 8 :=
    Kind.length_form (show Kind.double.Storable (Arithmetic.zero : F) from trivial)
  have hlast : (paste third (9 + 9 * f.dimension) (Kind.form .double (Arithmetic.zero : F))).length =
      third.length := length_paste (by omega)
  -- behind the head the sides, the gaps and the distance adjoin each other
  have hbody : Shows (paste third (9 + 9 * f.dimension) (Kind.form .double (Arithmetic.zero : F))) 9
      (boxBody f.dimension) :=
    (hsides.append hgaps (by omega)).paste_append (by omega)
      (by rw [List.length_append]; omega)
  have hall : Shows (paste third (9 + 9 * f.dimension) (Kind.form .double (Arithmetic.zero : F))) 0
      (boxCells f.dimension node axis) :=
    (hhead₃.paste (by omega) (by omega)).append hbody (by omega)
  have hcells := hall.eq_of_length
    ((hf.laid.length_boxCells hnode axis).trans (hlast.trans hthird).symm)
  rw [fill, hpoint, ok_bind, hset, ok_bind]
  show ((List.range f.dimension).foldlM _ (f.withCells i second) >>= _) = _
  rw [hloop, ok_bind, hf.setDistance_withCells hi hthird, hcells]

/-- **Inheriting** leaves the head of a box and the cells of the parent behind
it, whatever the slot held before; an entry may be its own parent. -/
theorem Sound.inherit_eq_withCells (hparent : f.pool.IsLive j) (hnode : node ≤ indexLimit)
    (axis : Nat) :
    f.inherit (f.pool.referenceTo i) node axis (f.pool.referenceTo j) =
      .ok (f.withCells i (boxHead node axis ++ (f.pool.contents j).drop 9)) := by
  have hlength := hf.pool.length_contents hparent
  obtain ⟨first, second, hpoint, hset, hsecond, hshows⟩ :=
    hf.exists_headed hi hlength hnode axis
  have hcells := (hshows _ (shows_drop _ 9)).eq_of_length
    ((hf.laid.length_head_append hnode axis hlength).trans hsecond.symm)
  rw [inherit, hf.pool.copy_eq_setRecord hparent hi, ok_bind]
  show ((f.withCells i (f.pool.contents j)).setPoint _ false >>= _) = _
  rw [hpoint, ok_bind, hset, hcells]

/-- A node beyond its signed form is not set. -/
theorem Sound.setNode_of_large (hnode : indexLimit < node) (axis : Nat) :
    f.setNode (f.pool.referenceTo i) node axis = violate (.indexTooLarge node) := by
  rw [setNode, Attribute.put_of_large hf.pool hi hnode]
  rfl

/-- Nor is an entry filled in with it. -/
theorem Sound.fill_of_large [Arithmetic F] (hnode : indexLimit < node) (axis : Nat) :
    f.fill (f.pool.referenceTo i) node axis = violate (.indexTooLarge node) := by
  have hpoint := hf.setPoint_withCells hi (hf.pool.length_contents hi) false
  have hset := (sound_withCells hf i (paste (f.pool.contents i) 8
    (Kind.form .boolean false))).setNode_of_large hi hnode axis
  rw [hf.withCells_contents hi] at hpoint
  rw [fill, hpoint, ok_bind]
  exact congrArg (· >>= _) hset

/-- Nor does one with it inherit. -/
theorem Sound.inherit_of_large (hparent : f.pool.IsLive j) (hnode : indexLimit < node)
    (axis : Nat) :
    f.inherit (f.pool.referenceTo i) node axis (f.pool.referenceTo j) =
      violate (.indexTooLarge node) := by
  have hpoint := hf.setPoint_withCells hi (hf.pool.length_contents hparent) false
  have hset := (sound_withCells hf i (paste (f.pool.contents j) 8
    (Kind.form .boolean false))).setNode_of_large hi hnode axis
  rw [inherit, hf.pool.copy_eq_setRecord hparent hi, ok_bind]
  show ((f.withCells i (f.pool.contents j)).setPoint _ false >>= _) = _
  rw [hpoint, ok_bind]
  exact hset

end Filling

/-! ## Reading entries -/

/-- The head of a box is read whatever is behind it. -/
theorem Laid.read_head (h : f.Laid) (hnode : node ≤ indexLimit) (axis : Nat) (rest : List β) :
    f.node.read (boxHead node axis ++ rest) = some node ∧
    f.split.read (boxHead node axis ++ rest) = Kind.narrow axis ∧
    f.isPoint.read (boxHead node axis ++ rest) = false := by
  have hstorable : Kind.index.Storable (F := F) (some node) := hnode
  have hsigned : Kind.int.Storable (F := F) (Kind.narrow axis) := trivial
  have hfour : (Kind.form .index (some node) : List β).length = 4 := Kind.length_form hstorable
  have hfour' : (Kind.form .int (Kind.narrow axis) : List β).length = 4 :=
    Kind.length_form hsigned
  -- the three parts of the head, one after the other
  have hall : Shows (boxHead node axis ++ rest) 0 (Kind.form .index (some node) ++
      Kind.form .int (Kind.narrow axis) ++ Kind.form .boolean false) :=
    (shows_self _).of_append_left
  have hfirst : Shows (boxHead node axis ++ rest) f.node.offset (Kind.form .index (some node)) := by
    rw [h.node]
    exact hall.of_append_left.of_append_left
  have hsecond : Shows (boxHead node axis ++ rest) f.split.offset
      (Kind.form .int (Kind.narrow axis)) := by
    rw [h.split]
    exact hall.of_append_left.of_append_right (by omega)
  have hthird : Shows (boxHead node axis ++ rest) f.isPoint.offset (Kind.form .boolean false) := by
    rw [h.isPoint]
    exact hall.of_append_right (by rw [List.length_append]; omega)
  exact ⟨Attribute.read_of_shows hfirst hstorable, Attribute.read_of_shows hsecond hsigned,
    Attribute.read_of_shows hthird trivial⟩

/-- **Replacing the head** of an entry leaves its sides, gaps and distance. -/
theorem Laid.entryOf_head_append (h : f.Laid) (hnode : node ≤ indexLimit) (axis : Nat)
    (cells : List β) :
    (f.entryOf (boxHead node axis ++ cells.drop 9) : EntryRecord F) =
      { f.entryOf cells with node := some node, split := Kind.narrow axis, isPoint := false } := by
  obtain ⟨hfirst, hsecond, hthird⟩ := h.read_head hnode axis (cells.drop 9)
  have hnine := length_boxHead (β := β) hnode axis
  have hsides : f.side.values (boxHead node axis ++ cells.drop 9) = f.side.values cells := by
    apply List.map_congr_left
    intro d _
    rw [Attribute.read, Attribute.read, window_append_drop hnine]
    rw [AttributeArray.offset_element, h.side]
    omega
  have hgaps : f.gap.values (boxHead node axis ++ cells.drop 9) = f.gap.values cells := by
    apply List.map_congr_left
    intro d _
    rw [Attribute.read, Attribute.read, window_append_drop hnine]
    rw [AttributeArray.offset_element, h.gap]
    omega
  have hdistance : f.distance.read (boxHead node axis ++ cells.drop 9) = f.distance.read cells := by
    rw [Attribute.read, Attribute.read, window_append_drop hnine]
    rw [h.distance]
    omega
  rw [entryOf, hfirst, hsecond, hthird, hsides, hgaps, hdistance]
  rfl

/-- **The cells of a box** are read as the box. -/
theorem Laid.entryOf_boxCells [Arithmetic F] (h : f.Laid) (hnode : node ≤ indexLimit) (axis : Nat) :
    f.entryOf (boxCells f.dimension node axis) = EntryRecord.box f.dimension node axis := by
  obtain ⟨hfirst, hsecond, hthird⟩ := h.read_head hnode axis (boxBody f.dimension)
  have hnine := length_boxHead (β := β) hnode axis
  have hsideCells := length_sideCells (β := β) f.dimension
  have hgapCells := length_gapCells (β := β) f.dimension
  have hside : Kind.byte.Storable (F := F) (0 : Int8) := trivial
  have hgap : Kind.double.Storable (Arithmetic.zero : F) := trivial
  have hbody : Shows (boxCells f.dimension node axis : List β) 9 (boxBody f.dimension) :=
    (shows_self (boxCells f.dimension node axis)).of_append_right (by omega)
  have hsides : Shows (boxCells f.dimension node axis : List β) f.side.offset
      (Kind.forms .byte (List.replicate f.dimension (0 : Int8))) := by
    rw [h.side]
    exact hbody.of_append_left.of_append_left
  have hgaps : Shows (boxCells f.dimension node axis : List β) f.gap.offset
      (Kind.forms .double (List.replicate f.dimension (Arithmetic.zero : F))) := by
    rw [h.gap]
    exact hbody.of_append_left.of_append_right (by omega)
  have hdistance : Shows (boxCells f.dimension node axis : List β) f.distance.offset
      (Kind.form .double (Arithmetic.zero : F)) := by
    rw [h.distance]
    exact hbody.of_append_right (by rw [List.length_append]; omega)
  rw [entryOf, Attribute.read_of_shows hdistance hgap,
    AttributeArray.values_of_shows hsides (List.length_replicate.trans h.side_length.symm)
      fun v hv => List.eq_of_mem_replicate hv ▸ hside,
    AttributeArray.values_of_shows hgaps (List.length_replicate.trans h.gap_length.symm)
      fun v hv => List.eq_of_mem_replicate hv ▸ hgap,
    boxCells, hfirst, hsecond, hthird]
  rfl

section Entries

variable (hf : f.Sound) (hi : f.pool.IsLive i)
include hf hi

/-- **Filling in** makes an entry the box of a node. -/
theorem Sound.fill_eq [Arithmetic F] (hnode : node ≤ indexLimit) (axis : Nat) :
    ∃ f', f.fill (f.pool.referenceTo i) node axis = .ok f' ∧
      f.Fills i (EntryRecord.box f.dimension node axis : EntryRecord F) f' :=
  ⟨_, hf.fill_eq_withCells hi hnode axis, fills_of_rewrites
    (hf.pool.rewrites_setRecord hi (hf.laid.length_boxCells hnode axis))
    (hf.laid.entryOf_boxCells hnode axis)⟩

/-- **Inheriting** makes an entry the box of a node with the sides, the gaps and
the distance of its parent. -/
theorem Sound.inherit_eq (hparent : f.pool.IsLive j) (hnode : node ≤ indexLimit) (axis : Nat) :
    ∃ f', f.inherit (f.pool.referenceTo i) node axis (f.pool.referenceTo j) = .ok f' ∧
      f.Fills i { (f.entryAt j : EntryRecord F) with
        node := some node, split := Kind.narrow axis, isPoint := false } f' :=
  ⟨_, hf.inherit_eq_withCells hi hparent hnode axis, fills_of_rewrites
    (hf.pool.rewrites_setRecord hi
      (hf.laid.length_head_append hnode axis (hf.pool.length_contents hparent)))
    (hf.laid.entryOf_head_append hnode axis _)⟩

end Entries

/-- What a frontier tells of the box of a node: the node, its axis as far as it
has a signed form, and that it is no point. -/
structure TellsBox (f : Frontier β) (r : Reference) (node : RecordIndex) (axis : Nat) : Prop where
  node : f.nodeOf r = .ok node
  axis : axis < 2 ^ 31 → f.axisOf r = .ok axis
  isPoint : f.entryIsPoint r = .ok false

/-- **The head tells the box**, whatever is behind it. -/
theorem Sound.tellsBox_withCells (hf : f.Sound) (hi : f.pool.IsLive i) {rest : List β}
    (hnode : node ≤ indexLimit) (axis : Nat)
    (hlength : (boxHead node axis ++ rest).length = f.pool.layout.size) :
    (f.withCells i (boxHead node axis ++ rest)).TellsBox (f.pool.referenceTo i) node axis := by
  obtain ⟨hfirst, hsecond, hthird⟩ := hf.laid.read_head hnode axis rest
  have hentry : ((f.withCells i (boxHead node axis ++ rest)).entryAt i : EntryRecord F) =
      f.entryOf (boxHead node axis ++ rest) := by
    rw [entryAt, hf.contents_withCells hi hlength]
    rfl
  have hwritten := sound_withCells hf i (boxHead node axis ++ rest)
  have hi' : (f.withCells i (boxHead node axis ++ rest)).pool.IsLive i := hi
  have hpoint := hwritten.entryIsPoint_eq hi'
  rw [hentry] at hpoint
  exact {
    node := hwritten.nodeOf_eq hi' (by
      rw [hentry]
      exact hfirst)
    axis := fun haxis => hwritten.axisOf_eq hi' haxis (by
      rw [hentry]
      exact hsecond)
    isPoint := hpoint.trans (congrArg Except.ok hthird) }

end Frontier

end RecordPool
