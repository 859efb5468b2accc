/-
# Records of tree nodes

The record of a node holds the coordinates of a point, its data index, the two
children and the axis.  Creating a node fills in all of it but the children,
and attaching the children fills in these; other nodes are left alone.  A pool
that only ever grows this way has no free slots, so that new nodes are numbered
in order (`Pool.Appends`).
-/
import RecordPool.KdTree.Build
import RecordPool.Proofs.Layout.Drafts
import RecordPool.Proofs.Pool.Attributes

namespace RecordPool

variable {β F : Type} [Memory β F]

/-! ## Pools that only grow -/

namespace Pool

/-- The pool `p'` is `p` with `count` more records behind those it had; none
of its slots is free. -/
structure Appends (p : Pool β) (count : Nat) (p' : Pool β) : Prop where
  sound : p'.Sound
  full : p'.free = []
  allocated : p'.allocated = p.allocated + count
  capacity_le : p.store.capacity ≤ p'.store.capacity
  id : p'.id = p.id
  layout : p'.layout = p.layout
  referenceTo : p'.referenceTo = p.referenceTo
  kept : ∀ j < p.allocated, p'.contents j = p.contents j

variable {p p' p'' : Pool β} {count count' i : Nat}

/-- A sound pool without free slots appends nothing to itself. -/
theorem Sound.appends_refl (h : p.Sound) (hfull : p.free = []) : p.Appends 0 p where
  sound := h
  full := hfull
  allocated := rfl
  capacity_le := Nat.le_refl _
  id := rfl
  layout := rfl
  referenceTo := rfl
  kept := fun _ _ => rfl

/-- Appending twice. -/
theorem Appends.trans (h : p.Appends count p') (h' : p'.Appends count' p'') :
    p.Appends (count + count') p'' where
  sound := h'.sound
  full := h'.full
  allocated := by
    rw [h'.allocated, h.allocated, Nat.add_assoc]
  capacity_le := h.capacity_le.trans h'.capacity_le
  id := h'.id.trans h.id
  layout := h'.layout.trans h.layout
  referenceTo := h'.referenceTo.trans h.referenceTo
  kept := fun j hj => (h'.kept j (by rw [h.allocated]; omega)).trans (h.kept j hj)

/-- A record behind the old ones may be rewritten. -/
theorem Appends.rewrites (h : p.Appends count p') (hi : p.allocated ≤ i) {cells : List β}
    (h' : p'.Rewrites i cells p'') : p.Appends count p'' where
  sound := h'.sound
  full := by
    rw [h'.frame]
    exact h.full
  allocated := by
    rw [h'.frame]
    exact h.allocated
  capacity_le := h.capacity_le.trans (le_of_eq h'.capacity.symm)
  id := h'.id.trans h.id
  layout := h'.layout.trans h.layout
  referenceTo := h'.referenceTo.trans h.referenceTo
  kept := fun j hj => (h'.contents_of_ne (by omega)).trans (h.kept j hj)

/-- A pool without free slots hands out the next one. -/
theorem Sound.allocate_next (h : p.Sound) (hfull : p.free = [])
    (hroom : p.allocated < p.store.capacity) {r : Reference} (hr : r.pool = p.id) :
    ∃ p', p.allocate r = .ok (.ok p.allocated, p', p.referenceTo p.allocated) ∧
      p.Appends 1 p' := by
  obtain ⟨p', heq, halloc, hcount, hfree⟩ := h.allocate_of_full hr hfull (Or.inl hroom)
  refine ⟨p', heq, ?_⟩
  exact {
    sound := halloc.sound
    full := hfree
    allocated := hcount
    capacity_le := halloc.capacity_le
    id := halloc.id
    layout := halloc.layout
    referenceTo := halloc.referenceTo
    kept := fun j hj => halloc.kept j (h.isLive_of_full hfull hj) }

end Pool

/-! ## Records of nodes -/

/-- What the record of a node holds. -/
structure NodeRecord (F : Type) where
  /-- The coordinates of the point. -/
  position : List F
  /-- The index of the point in its data. -/
  data : Option RecordIndex
  /-- The left child. -/
  left : Option RecordIndex
  /-- The right child. -/
  right : Option RecordIndex
  /-- The axis, as a signed number. -/
  split : Int32

namespace NodeRecord

variable {r : NodeRecord F} {dimension : Nat}

/-- The cells of a node. -/
def form (r : NodeRecord F) : List β :=
  Kind.forms .double r.position ++ Kind.form .index r.data ++ Kind.form .index r.left ++
    Kind.form .index r.right ++ Kind.form .int r.split

/-- The record has `dimension` coordinates, and indices with a form in memory. -/
structure Storable (r : NodeRecord F) (dimension : Nat) : Prop where
  length : r.position.length = dimension
  data : Kind.index.Storable (F := F) r.data
  left : Kind.index.Storable (F := F) r.left
  right : Kind.index.Storable (F := F) r.right

/-- Coordinates take eight cells each. -/
theorem Storable.length_position (h : r.Storable dimension) :
    (Kind.forms .double r.position : List β).length = 8 * dimension := by
  rw [Kind.length_forms_double, h.length]

/-- The cells of a node are sixteen more than those of its coordinates. -/
theorem Storable.length_form (h : r.Storable dimension) :
    (r.form : List β).length = 8 * dimension + 16 := by
  have hsplit : Kind.int.Storable (F := F) r.split := trivial
  rw [form, List.length_append, List.length_append, List.length_append, List.length_append,
    h.length_position, Kind.length_form h.data, Kind.length_form h.left, Kind.length_form h.right,
    Kind.length_form hsplit]
  rfl

end NodeRecord

namespace NodeAttributes

/-- The attributes of a node lie back to back in records of `size` cells. -/
structure Laid (a : NodeAttributes) (dimension size : Nat) : Prop where
  length : a.position.length = dimension
  position : a.position.offset = 0
  data : a.data.offset = 8 * dimension
  left : a.left.offset = 8 * dimension + 4
  right : a.right.offset = 8 * dimension + 8
  split : a.split.offset = 8 * dimension + 12
  size : size = 8 * dimension + 16

/-- What some cells hold as the record of a node. -/
def recordOf (a : NodeAttributes) (cells : List β) : NodeRecord F where
  position := a.position.values cells
  data := a.data.read cells
  left := a.left.read cells
  right := a.right.read cells
  split := a.split.read cells

variable {a : NodeAttributes} {dimension size : Nat}

/-- **The cells of a node** are read as its record. -/
theorem Laid.recordOf_form (ha : a.Laid dimension size) {r : NodeRecord F}
    (hr : r.Storable dimension) : a.recordOf (r.form : List β) = r := by
  have hposition := hr.length_position (β := β)
  have hdata : (Kind.form .index r.data : List β).length = 4 := Kind.length_form hr.data
  have hleft : (Kind.form .index r.left : List β).length = 4 := Kind.length_form hr.left
  have hright : (Kind.form .index r.right : List β).length = 4 := Kind.length_form hr.right
  -- the five parts, one after the other
  have hall : Shows (r.form : List β) 0 r.form := shows_self _
  have hfour := hall.of_append_left
  have hthree := hfour.of_append_left
  have htwo := hthree.of_append_left
  have h₁ : Shows (r.form : List β) a.position.offset (Kind.forms .double r.position) := by
    rw [ha.position]
    exact htwo.of_append_left
  have h₂ : Shows (r.form : List β) a.data.offset (Kind.form .index r.data) := by
    rw [ha.data]
    exact htwo.of_append_right (by omega)
  have h₃ : Shows (r.form : List β) a.left.offset (Kind.form .index r.left) := by
    rw [ha.left]
    exact hthree.of_append_right (by rw [List.length_append]; omega)
  have h₄ : Shows (r.form : List β) a.right.offset (Kind.form .index r.right) := by
    rw [ha.right]
    exact hfour.of_append_right (by rw [List.length_append, List.length_append]; omega)
  have h₅ : Shows (r.form : List β) a.split.offset (Kind.form .int r.split) := by
    rw [ha.split]
    exact hall.of_append_right (by
      rw [List.length_append, List.length_append, List.length_append]
      omega)
  rw [recordOf, AttributeArray.values_of_shows h₁ (hr.length.trans ha.length.symm)
      fun _ _ => trivial, Attribute.read_of_shows h₂ hr.data, Attribute.read_of_shows h₃ hr.left,
    Attribute.read_of_shows h₄ hr.right, Attribute.read_of_shows h₅ trivial]

/-- Every attribute lies inside records of `size` cells. -/
structure Inside (a : NodeAttributes) (size : Nat) : Prop where
  position : a.position.Within size
  data : a.data.Within size
  left : a.left.Within size
  right : a.right.Within size
  split : a.split.Within size

theorem Laid.inside (ha : a.Laid dimension size) : a.Inside size := by
  constructor <;>
    simp only [AttributeArray.Within, Attribute.Within, ha.position, ha.length, ha.data, ha.left,
      ha.right, ha.split, ha.size, Kind.size] <;>
    omega

end NodeAttributes

/-! ## Creating nodes -/

namespace KdTree

variable {a : NodeAttributes} {dimension count : Nat} {p : Pool β}

/-- With room for one more record the next one receives the coordinates of the
point; the data index and the axis come after them. -/
theorem createNode_of_room (h : p.Sound) (hfull : p.free = []) (ha : a.Laid dimension p.layout.size)
    (hroom : p.allocated < p.store.capacity) {item : Pending F}
    (hposition : item.position.length = dimension) (axis : Nat) :
    ∃ p₁ : Pool β, createNode a axis item p = ExceptT.lift (do
        let nodes ← a.data.put p₁ (p₁.referenceTo p.allocated) (some item.data)
        let nodes ← a.split.put nodes (p₁.referenceTo p.allocated) (Kind.narrow axis)
        pure (p.allocated, p₁.referenceTo p.allocated, nodes)) ∧
      p.Appends 1 p₁ ∧ p₁.IsLive p.allocated ∧
      Shows (p₁.contents p.allocated) 0 (Kind.forms .double item.position) := by
  set i := p.allocated with hi
  have hin := ha.inside.position
  obtain ⟨p₁, hallocate, h₁⟩ := h.allocate_next hfull hroom (r := p.newReference) rfl
  rw [← hi] at hallocate
  have hlive : p₁.IsLive i := h₁.sound.isLive_of_full h₁.full (by rw [h₁.allocated]; omega)
  rw [← h₁.layout] at hin ha
  have hrecord := h₁.sound.length_contents hlive
  have hsize := ha.size
  have hlength : item.position.length = a.position.length := by
    rw [hposition, ha.length]
  have hforms : (Kind.forms .double item.position : List β).length = 8 * dimension := by
    rw [Kind.length_forms_double, hposition]
  have hput := a.position.putAll_eq_setRecord h₁.sound hlive hin hlength fun _ _ => trivial
  rw [ha.position] at hput
  have hrewrites := h₁.sound.rewrites_setRecord hlive
    (show (paste (p₁.contents i) 0 (Kind.forms .double item.position)).length = _ by
      rw [length_paste (by omega), hrecord])
  refine ⟨_, ?_, h₁.rewrites (Nat.le_refl _) hrewrites, hrewrites.isLive_iff.mpr hlive, ?_⟩
  · rw [h₁.referenceTo] at hput
    rw [createNode, hallocate, lift_ok, pure_bind, hrewrites.referenceTo, h₁.referenceTo]
    simp only [hput, ok_bind]
  · rw [hrewrites.contents_self]
    exact shows_paste (by omega)

/-- **Creating a node.**  With room for one more record the next one becomes
the node of the point; its children are not known yet. -/
theorem createNode_eq (h : p.Sound) (hfull : p.free = []) (ha : a.Laid dimension p.layout.size)
    (hroom : p.allocated < p.store.capacity) {item : Pending F}
    (hposition : item.position.length = dimension) (hdata : item.data ≤ indexLimit) (axis : Nat) :
    ∃ p' : Pool β, createNode a axis item p =
        pure (p.allocated, p'.referenceTo p.allocated, p') ∧ p.Appends 1 p' ∧
      Shows (p'.contents p.allocated) 0
        (Kind.forms .double item.position ++ Kind.form .index (some item.data)) ∧
      Shows (p'.contents p.allocated) (8 * dimension + 12) (Kind.form .int (Kind.narrow axis)) := by
  obtain ⟨p₁, hcreate, h₁, hlive, hshows⟩ := createNode_of_room h hfull ha hroom hposition axis
  set i := p.allocated with hi
  rw [← h₁.layout] at ha
  have hrecord := h₁.sound.length_contents hlive
  have hsize := ha.size
  have hstorable : Kind.index.Storable (F := F) (some item.data) := hdata
  have hsigned : Kind.int.Storable (F := F) (Kind.narrow axis) := trivial
  have hforms : (Kind.forms .double item.position : List β).length = 8 * dimension := by
    rw [Kind.length_forms_double, hposition]
  have hindex : (Kind.form .index (some item.data) : List β).length = 4 :=
    Kind.length_form hstorable
  have hint : (Kind.form .int (Kind.narrow axis) : List β).length = 4 := Kind.length_form hsigned
  have hput := Attribute.put_eq_setRecord h₁.sound hlive ha.inside.data hstorable
  rw [ha.data] at hput
  set cells := paste (p₁.contents i) (8 * dimension) (Kind.form .index (some item.data)) with hcells
  have hlength : cells.length = p₁.layout.size := by
    rw [hcells, length_paste (by omega), hrecord]
  have hput' := Attribute.put_setRecord h₁.sound hlive hlength ha.inside.split hsigned
  rw [ha.split] at hput'
  have hrewrites := h₁.sound.rewrites_setRecord hlive
    (show (paste cells (8 * dimension + 12) (Kind.form .int (Kind.narrow axis))).length = _ by
      rw [length_paste (by omega), hlength])
  have hfront : Shows cells 0
      (Kind.forms .double item.position ++ Kind.form .index (some item.data)) :=
    hshows.paste_append (by omega) (by omega)
  refine ⟨_, ?_, h₁.rewrites (Nat.le_refl _) hrewrites, ?_, ?_⟩
  · rw [hcreate, hrewrites.referenceTo]
    simp only [hput, hput', ok_bind]
    rfl
  · rw [hrewrites.contents_self]
    exact hfront.paste (by omega) (Or.inl (by rw [List.length_append]; omega))
  · rw [hrewrites.contents_self]
    exact shows_paste (by omega)

/-- A node with a data index beyond its signed form is not created. -/
theorem createNode_of_large (h : p.Sound) (hfull : p.free = [])
    (ha : a.Laid dimension p.layout.size) (hroom : p.allocated < p.store.capacity)
    {item : Pending F} (hposition : item.position.length = dimension)
    (hdata : indexLimit < item.data) (axis : Nat) :
    (createNode a axis item p : ExceptT TreeError Checked (RecordIndex × Reference × Pool β)) =
      ExceptT.lift (violate (.indexTooLarge item.data)) := by
  obtain ⟨p₁, hcreate, h₁, hlive, -⟩ := createNode_of_room h hfull ha hroom hposition axis
  rw [hcreate, Attribute.put_of_large h₁.sound hlive hdata]
  rfl

/-- **Attaching the children** makes the record of a node complete. -/
theorem attachChildren_eq (h : p.Sound) (ha : a.Laid dimension p.layout.size) {i : Nat}
    (hi : p.IsLive i) {r : NodeRecord F} (hr : r.Storable dimension)
    (hfront : Shows (p.contents i) 0 (Kind.forms .double r.position ++ Kind.form .index r.data))
    (hback : Shows (p.contents i) (8 * dimension + 12) (Kind.form .int r.split)) :
    attachChildren a (p.referenceTo i) r.left r.right p = .ok (p.setRecord i r.form) := by
  have hrecord := h.length_contents hi
  have hsize := ha.size
  have hposition := hr.length_position (β := β)
  have hdata : (Kind.form .index r.data : List β).length = 4 := Kind.length_form hr.data
  have hleft : (Kind.form .index r.left : List β).length = 4 := Kind.length_form hr.left
  have hright : (Kind.form .index r.right : List β).length = 4 := Kind.length_form hr.right
  have hput := Attribute.put_eq_setRecord h hi ha.inside.left hr.left
  rw [ha.left] at hput
  set first := paste (p.contents i) (8 * dimension + 4) (Kind.form .index r.left) with hfirst
  have hlength : first.length = p.layout.size := by
    rw [hfirst, length_paste (by omega), hrecord]
  have hput' := Attribute.put_setRecord h hi hlength ha.inside.right hr.right
  rw [ha.right] at hput'
  set second := paste first (8 * dimension + 8) (Kind.form .index r.right) with hsecond
  have hlength' : second.length = p.layout.size := by
    rw [hsecond, length_paste (by omega), hlength]
  -- the two children come between the data index and the axis
  have hthree : Shows first 0 (Kind.forms .double r.position ++ Kind.form .index r.data ++
      Kind.form .index r.left) :=
    hfront.paste_append (by omega) (by rw [List.length_append]; omega)
  have hfour : Shows second 0 (Kind.forms .double r.position ++ Kind.form .index r.data ++
      Kind.form .index r.left ++ Kind.form .index r.right) :=
    hthree.paste_append (by omega) (by rw [List.length_append, List.length_append]; omega)
  have hlast : Shows first (8 * dimension + 12) (Kind.form .int r.split) :=
    hback.paste (by omega) (by omega)
  have hlast' : Shows second (8 * dimension + 12) (Kind.form .int r.split) :=
    hlast.paste (by omega) (by omega)
  have hall : Shows second 0 r.form := hfour.append hlast' (by
    rw [List.length_append, List.length_append, List.length_append]
    omega)
  rw [attachChildren, hput, ok_bind, hput', hall.eq_of_length (by rw [hr.length_form]; omega)]

/-! ## The pool of a new tree -/

/-- The draft of a node, with all its columns. -/
def nodeDraft (dimension : Nat) : Draft :=
  (((((Draft.start 0).appended "position" (.array .double dimension)).appended
    "data_index" (.scalar .index)).appended "left" (.scalar .index)).appended
    "right" (.scalar .index)).appended "split_dim" (.scalar .int)

/-- The pool of a new tree is empty, has room for all points and holds nodes
whose attributes lie back to back. -/
theorem makeNodes_eq (id : PoolId) (hpos : 0 < dimension) (hdim : dimension < 2 ^ 28)
    (hcount : count ≤ indexLimit) :
    ∃ (a : NodeAttributes) (p : Pool β), makeNodes id dimension count = pure (a, p) ∧
      a.Laid dimension p.layout.size ∧ p.Sound ∧ p.id = id ∧ p.free = [] ∧ p.allocated = 0 ∧
      count ≤ p.store.capacity := by
  have hvalid := StorePlan.validate_single hcount
  have hrange := StorePlan.inRange_single count
  have hbound : ∀ n, n ≤ 8 * dimension + 16 → n < sizeBound := by
    intro n hn
    unfold sizeBound
    omega
  -- one column after the other; the last draft is `nodeDraft`
  obtain ⟨h₁, t₁⟩ := (Draft.tight_start 0).fieldArray_eq .double "position" (by simp) hpos
    (hbound _ (by simp [Kind.size]))
  obtain ⟨h₂, t₂⟩ := t₁.field_eq .index "data_index" (by simp)
    (hbound _ (by simp [Shape.size, Kind.size]))
  obtain ⟨h₃, t₃⟩ := t₂.field_eq .index "left" (by simp)
    (hbound _ (by simp [Shape.size, Kind.size]))
  obtain ⟨h₄, t₄⟩ := t₃.field_eq .index "right" (by simp)
    (hbound _ (by simp [Shape.size, Kind.size]))
  obtain ⟨h₅, t₅⟩ := t₄.field_eq .int "split_dim" (by simp)
    (hbound _ (by simp [Shape.size, Kind.size]))
  set layout : Layout := ⟨0, (nodeDraft dimension).columns, (nodeDraft dimension).cursor⟩
    with hlayout
  have hfinish := t₅.finish_eq (by simp)
  change _ = pure layout at hfinish
  have hsize : layout.size = 8 * dimension + 16 := by
    rw [hlayout]
    simp [nodeDraft, Shape.size, Kind.size]
  obtain ⟨p, hmake, hsound, hid, hp, -, hallocated, hfree, -, hroom⟩ :=
    Pool.make_eq (β := β) hvalid hrange (by rw [hsize]; unfold sizeBound; omega) id .keep
  have hlayoutId : p.layout.id = 0 := by
    rw [hp, hlayout]
  refine ⟨⟨⟨0, 0, dimension⟩, ⟨1, 8 * dimension⟩, ⟨2, 8 * dimension + 4⟩, ⟨3, 8 * dimension + 8⟩,
    ⟨4, 8 * dimension + 12⟩⟩, p, ?_, ?_, hsound, hid, hfree, hallocated, hroom⟩
  · rw [makeNodes, show Draft.internal = Draft.start 0 from rfl]
    simp only [h₁, h₂, h₃, h₄, h₅, lift_ok, pure_bind, hfinish, adapt_pure, hmake]
    simp [AttributeArray.bind_eq, Attribute.bind_eq, hlayoutId, Shape.size, Kind.size]
  · exact ⟨rfl, rfl, rfl, rfl, rfl, rfl, by rw [hp, hsize]⟩

end KdTree

end RecordPool
