/-
# Single values and elements

What the attributes of a layout can name in a record: a single value or one
element of an array.  Items at different places of an accepted layout share no
cell.  Whole arrays are read and written as their elements are, one by one.
-/
import RecordPool.Proofs.Layout.Tiling
import RecordPool.Proofs.Pool.Attributes

namespace RecordPool

variable {β F : Type} [Memory β F] {kind kind' : Kind} {l : Layout} {p p' : Pool β} {i : Nat}

/-! ## Items -/

/-- The attribute stands for a column of the layout. -/
def Attribute.Of (a : Attribute kind) (l : Layout) : Prop :=
  ∃ name, l.columnAt? a.slot = some ⟨name, .scalar kind, a.offset⟩

/-- The array stands for a column of the layout. -/
def AttributeArray.Of (a : AttributeArray kind) (l : Layout) : Prop :=
  ∃ name, l.columnAt? a.slot = some ⟨name, .array kind a.length, a.offset⟩

/-- A single value or an element of an array. -/
inductive Item (kind : Kind) where
  /-- A single value. -/
  | value (a : Attribute kind)
  /-- The element `k` of an array. -/
  | element (a : AttributeArray kind) (k : Nat)

namespace Item

/-- The item is one of the layout. -/
def Of : Item kind → Layout → Prop
  | value a, l => a.Of l
  | element a k, l => a.Of l ∧ k < a.length

/-- The position of the column, and that of the element in it. -/
def place : Item kind → Nat × Option Nat
  | value a => (a.slot, none)
  | element a k => (a.slot, some k)

/-- The value of the item in the record of `r`. -/
def get : Item kind → Pool β → Reference → Checked (kind.Value F)
  | value a, p, r => a.get p r
  | element a k, p, r => a.get p r k

/-- Writes the item in the record of `r`; no listener hears of it. -/
def put : Item kind → Pool β → Reference → kind.Value F → Checked (Pool β)
  | value a, p, r, v => a.put p r v
  | element a k, p, r, v => a.put p r k v

/-- Writes the item in the record of `r` after telling the listeners. -/
def set : Item kind → Pool β → Reference → kind.Value F → Checked (List (Delivery β) × Pool β)
  | value a, p, r, v => a.set p r v
  | element a k, p, r, v => a.set p r k v

/-- The item as an attribute of its own. -/
def asAttribute : Item kind → Attribute kind
  | value a => a
  | element a k => a.element k

variable {x : Item kind} {y : Item kind'}

/-- Reading an item is reading an attribute. -/
theorem get_eq (hx : x.Of l) (p : Pool β) (r : Reference) : x.get p r = x.asAttribute.get p r := by
  cases x with
  | value a => rfl
  | element a k => exact AttributeArray.get_eq_element hx.2 p r

/-- Writing an item is writing an attribute. -/
theorem put_eq (hx : x.Of l) (p : Pool β) (r : Reference) (v : kind.Value F) :
    x.put p r v = x.asAttribute.put p r v := by
  cases x with
  | value a => rfl
  | element a k => exact AttributeArray.put_eq_element hx.2 p r v

/-- Writing an item notifyingly is telling the listeners of its cells and
writing it. -/
theorem set_eq (hx : x.Of l) (p : Pool β) (r : Reference) (v : kind.Value F) :
    x.set p r v = (do
      let deliveries ← p.announce x.place.1 r x.asAttribute.offset kind.size
      pure (deliveries, ← x.put p r v)) := by
  cases x with
  | value a => rfl
  | element a k =>
      rw [Item.set, AttributeArray.set, AttributeArray.elementOffset_eq hx.2, ok_bind]
      rfl

/-- An array field that a layout gives by name is bound to an array of it. -/
theorem exists_bind_fieldArray {name : String} {field : FieldArray kind} (hlayout : p.layout = l)
    (hfield : l.fieldArray? kind name = some field) :
    ∃ a, AttributeArray.bind field p = .ok a ∧ ∀ k < a.length, (element a k).Of l := by
  obtain ⟨slot, -, hrest⟩ := Option.bind_eq_some_iff.mp hfield
  obtain ⟨⟨name', shape, offset⟩, hc, hshape⟩ := Option.bind_eq_some_iff.mp hrest
  cases shape with
  | scalar kind' => cases hshape
  | array kind' length =>
      dsimp only at hshape
      split at hshape
      · rename_i heq
        subst heq
        cases hshape
        exact ⟨_, AttributeArray.bind_eq (by rw [hlayout]), fun k hk => ⟨⟨name', hc⟩, hk⟩⟩
      · cases hshape

/-- An item lies in its column. -/
theorem exists_column (hx : x.Of l) : ∃ c, l.columnAt? x.place.1 = some c ∧
    c.offset ≤ x.asAttribute.offset ∧ x.asAttribute.offset + kind.size ≤ c.offset + c.size := by
  cases x with
  | value a =>
      obtain ⟨name, hc⟩ := hx
      exact ⟨_, hc, Nat.le_refl _, Nat.le_refl _⟩
  | element a k =>
      obtain ⟨⟨name, hc⟩, hk⟩ := hx
      have hle : (k + 1) * kind.size ≤ a.length * kind.size := Nat.mul_le_mul_right _ hk
      rw [Nat.succ_mul] at hle
      refine ⟨_, hc, Nat.le_add_right _ _, ?_⟩
      show a.offset + k * kind.size + kind.size ≤ a.offset + kind.size * a.length
      rw [Nat.mul_comm kind.size]
      omega

/-- An item lies inside the records of a tiled layout. -/
theorem within (hl : l.Tiled) (hx : x.Of l) : x.asAttribute.Within l.size := by
  obtain ⟨c, hc, -, hstop⟩ := exists_column hx
  have hcolumn := hl.within c (List.mem_of_getElem? hc)
  show x.asAttribute.offset + kind.size ≤ l.size
  omega

/-- **Items at different places share no cell.** -/
theorem apart (hl : l.Tiled) (hx : x.Of l) (hy : y.Of l) (hne : y.place ≠ x.place) :
    x.asAttribute.Apart y.asAttribute := by
  obtain ⟨c, hc, hstart, hstop⟩ := exists_column hx
  obtain ⟨d, hd, hstart', hstop'⟩ := exists_column hy
  by_cases hslot : x.place.1 = y.place.1
  · -- of one column only the elements of an array are at different places
    rw [hslot, hd] at hc
    obtain rfl := Option.some.inj hc
    cases x with
    | value a =>
        obtain ⟨name, ha⟩ := hx
        cases y with
        | value b => exact absurd (congrArg (·, none) hslot.symm) hne
        | element b j =>
            obtain ⟨⟨name', hb⟩, -⟩ := hy
            rw [show a.slot = b.slot from hslot, hb] at ha
            cases ha
    | element a k =>
        obtain ⟨⟨name, ha⟩, hk⟩ := hx
        cases y with
        | value b =>
            obtain ⟨name', hb⟩ := hy
            rw [show a.slot = b.slot from hslot, hb] at ha
            cases ha
        | element b j =>
            obtain ⟨⟨name', hb⟩, hj⟩ := hy
            rw [show a.slot = b.slot from hslot, hb] at ha
            obtain ⟨slot, offset, length⟩ := a
            obtain ⟨slot', offset', length'⟩ := b
            cases ha
            have hkj : k ≠ j := by
              rintro rfl
              exact hne (congrArg (·, some k) hslot.symm)
            exact AttributeArray.element_apart hkj
  · rcases hl.apart _ _ c d hc hd hslot with hlt | hgt
    · exact Or.inl (by omega)
    · exact Or.inr (by omega)

end Item

/-! ## Telling the listeners -/

/-- Every listener is told the cells of a record in use that are about to change. -/
theorem Pool.Sound.announce_eq (h : p.Sound) (hi : p.IsLive i) (slot : Nat) {offset size : Nat}
    (hfit : offset + size ≤ p.layout.size) :
    p.announce slot (p.referenceTo i) offset size = .ok (p.listeners.map fun listener =>
      ⟨listener, ⟨((p.layout.columnAt? slot).map (·.name)).getD "", i,
        window (p.contents i) offset size⟩⟩) := by
  rw [Pool.announce]
  split
  · rename_i hempty
    rw [List.isEmpty_iff.mp hempty]
    rfl
  · have hlength : size ≤ ((p.store.contents i).drop offset).length := by
      have hcontents : (p.store.contents i).length = p.layout.size := h.length_contents hi
      rw [List.length_drop]
      omega
    rw [h.require_referenceTo hi, ok_bind, h.store.record_eq (h.lt_capacity hi), ok_bind,
      takeExactly_eq_ok hlength, ok_bind]
    rfl

/-- Listeners can be told of any cells of a record in use. -/
theorem Pool.Sound.exists_announce (h : p.Sound) (hi : p.IsLive i) (slot : Nat) {offset size : Nat}
    (hfit : offset + size ≤ p.layout.size) :
    ∃ deliveries, p.announce slot (p.referenceTo i) offset size = .ok deliveries :=
  ⟨_, h.announce_eq hi slot hfit⟩

/-- Writing an item and telling the listeners succeeds where writing it does. -/
theorem Item.exists_set {x : Item kind} (h : p.Sound) (hi : p.IsLive i) (hx : x.Of l)
    (hfit : x.asAttribute.Within p.layout.size) {v : kind.Value F}
    (hput : x.put p (p.referenceTo i) v = .ok p') :
    ∃ deliveries, x.set p (p.referenceTo i) v = .ok (deliveries, p') := by
  obtain ⟨deliveries, hannounce⟩ := h.exists_announce hi x.place.1 hfit
  refine ⟨deliveries, ?_⟩
  rw [set_eq hx, hannounce, ok_bind, hput]
  rfl

/-! ## Whole arrays -/

namespace AttributeArray

variable {a : AttributeArray kind} {r : Reference}

/-- Reads all elements, one by one. -/
def getEach (a : AttributeArray kind) (p : Pool β) (r : Reference) :
    Checked (List (kind.Value F)) :=
  (List.range a.length).mapM (a.get p r)

/-- Writes the first `count` elements from the start of `values`, one by one. -/
def putFirst (a : AttributeArray kind) (p : Pool β) (r : Reference) (values : List (kind.Value F))
    (count : Nat) : Checked (Pool β) :=
  (List.range count).foldlM (fun p k => do a.put p r k (← fetchAt values k)) p

/-- Writes all elements from the start of `values`, one by one. -/
def putEach (a : AttributeArray kind) (p : Pool β) (r : Reference)
    (values : List (kind.Value F)) : Checked (Pool β) :=
  a.putFirst p r values a.length

/-- An array lies inside the records of a tiled layout. -/
theorem within (hl : l.Tiled) (ha : a.Of l) : a.Within l.size := by
  obtain ⟨name, hc⟩ := ha
  have hcolumn := hl.within _ (List.mem_of_getElem? hc)
  show a.offset + a.length * kind.size ≤ l.size
  rw [Nat.mul_comm]
  exact hcolumn

/-- Encoded values take as many cells as their kind says. -/
theorem length_flatten_of_mapM_encode {values : List (kind.Value F)} {encoded : List (List β)}
    (hencode : values.mapM kind.encode = .ok encoded) :
    encoded.flatten.length = values.length * kind.size := by
  induction values generalizing encoded with
  | nil =>
      cases hencode
      simp
  | cons v values ih =>
      rw [List.mapM_cons] at hencode
      obtain ⟨cells, hcells, hrest⟩ := bind_eq_ok_iff.mp hencode
      obtain ⟨more, hmore, hput⟩ := bind_eq_ok_iff.mp hrest
      cases hput
      rw [List.flatten_cons, List.length_append, Kind.length_of_encode hcells, ih hmore,
        List.length_cons, Nat.succ_mul, Nat.add_comm]

/-- Writing the element behind what was written writes both at once. -/
theorem put_behind (h : p.Sound) (hi : p.IsLive i) (hfit : a.Within p.layout.size) {k : Nat}
    (hk : k < a.length) {front : List β} (hfront : front.length = k * kind.size)
    (v : kind.Value F) :
    a.put (p.setRecord i (paste (p.contents i) a.offset front)) (p.referenceTo i) k v = (do
      let cells ← kind.encode v
      p.patch i a.offset (front ++ cells)) := by
  have hcontents := h.length_contents hi
  have hle : (k + 1) * kind.size ≤ a.length * kind.size := Nat.mul_le_mul_right _ hk
  rw [Nat.succ_mul] at hle
  unfold Within at hfit
  have hroom : a.offset + front.length ≤ (p.contents i).length := by omega
  have hpaste : (paste (p.contents i) a.offset front).length = p.layout.size := by
    rw [length_paste hroom, hcontents]
  set p₁ := p.setRecord i (paste (p.contents i) a.offset front) with hp₁
  have hwritten : p.Rewrites i _ p₁ := h.rewrites_setRecord hi hpaste
  have hrequire : p₁.require (p.referenceTo i) = .ok i := by
    rw [← hwritten.referenceTo]
    exact hwritten.sound.require_referenceTo (hwritten.isLive_iff.mpr hi)
  rw [put_eq_element hk, Attribute.put, hrequire, ok_bind]
  cases hencode : kind.encode (β := β) v with
  | error fault => rfl
  | ok cells =>
      have hsize : cells.length = kind.size := Kind.length_of_encode hencode
      have hfit₁ : (a.element k).offset + cells.length ≤ p₁.layout.size := by
        rw [hwritten.layout, offset_element]
        omega
      have hboth : a.offset + (front ++ cells).length ≤ p.layout.size := by
        rw [List.length_append]
        omega
      have hcells : paste (p₁.contents i) (a.element k).offset cells =
          paste (p.contents i) a.offset (front ++ cells) := by
        rw [hwritten.contents_self, offset_element, ← hfront]
        exact paste_append (by omega)
      have hlast : (paste (p.contents i) a.offset (front ++ cells)).length = p.layout.size := by
        rw [length_paste (by omega), hcontents]
      rw [ok_bind, ok_bind, hwritten.sound.patch_eq (hwritten.isLive_iff.mpr hi) hfit₁,
        h.patch_eq hi hboth, hcells, hp₁, h.setRecord_setRecord hi hpaste hlast]

/-- **Writing element by element writes the cells of all values at once.** -/
theorem putFirst_eq_patch (h : p.Sound) (hi : p.IsLive i) (hfit : a.Within p.layout.size)
    {values : List (kind.Value F)} {count : Nat} (hcount : count ≤ a.length)
    (hlength : count ≤ values.length) :
    a.putFirst p (p.referenceTo i) values count = (do
      let encoded ← (values.take count).mapM kind.encode
      p.patch i a.offset encoded.flatten) := by
  induction count with
  | zero =>
      have hpaste : paste (p.contents i) a.offset [] = p.contents i := by
        simp [paste]
      have hnil : a.offset + ([] : List β).length ≤ p.layout.size := by
        unfold Within at hfit
        rw [List.length_nil]
        omega
      rw [putFirst, List.take_zero, List.mapM_nil, pure_bind]
      rw [List.flatten_nil, h.patch_eq hi hnil, hpaste, h.setRecord_contents hi]
      rfl
  | succ count ih =>
      have hget : values[count]? = some values[count] := List.getElem?_eq_getElem (by omega)
      rw [putFirst, List.range_succ, List.foldlM_append, ← putFirst, ih (by omega) (by omega),
        List.take_add_one, hget, Option.toList_some, List.mapM_append, bind_assoc, bind_assoc]
      cases hencode : (values.take count).mapM (kind.encode (β := β)) with
      | error fault => rfl
      | ok encoded =>
          have hcells := length_flatten_of_mapM_encode hencode
          rw [List.length_take, Nat.min_eq_left (by omega)] at hcells
          have hroom : a.offset + encoded.flatten.length ≤ p.layout.size := by
            have hle := Nat.mul_le_mul_right kind.size hcount
            unfold Within at hfit
            rw [Nat.succ_mul] at hle
            omega
          rw [ok_bind, ok_bind, h.patch_eq hi hroom, ok_bind, List.foldlM_cons,
            fetchAt_eq_ok hget, ok_bind, put_behind h hi hfit hcount hcells]
          cases hlast : kind.encode (β := β) values[count] with
          | error fault => simp [hlast]
          | ok cells => simp [hlast]

/-- **Writing all elements is writing one by one.** -/
theorem putAll_eq_putEach (h : p.Sound) (hi : p.IsLive i) (hfit : a.Within p.layout.size)
    {values : List (kind.Value F)} (hlength : a.length ≤ values.length) :
    a.putAll p (p.referenceTo i) values = a.putEach p (p.referenceTo i) values := by
  rw [putEach, putFirst_eq_patch h hi hfit (Nat.le_refl _) hlength, putAll,
    h.require_referenceTo hi, ok_bind, takeExactly_eq_ok hlength, ok_bind]

/-- Storable values are written. -/
theorem exists_putAll (h : p.Sound) (hi : p.IsLive i) (hfit : a.Within p.layout.size)
    {values : List (kind.Value F)} (hlength : a.length ≤ values.length)
    (hvalues : ∀ v ∈ values.take a.length, kind.Storable v) :
    ∃ p', a.putAll p (p.referenceTo i) values = .ok p' := by
  have htake : (values.take a.length).length = a.length := by
    rw [List.length_take, Nat.min_eq_left hlength]
  obtain ⟨p', cells, hput, -⟩ := putAll_eq h hi hfit htake hvalues
  refine ⟨p', ?_⟩
  rw [← hput, putAll, putAll, takeExactly_eq_ok hlength, takeExactly_eq_ok (by rw [htake]),
    List.take_take, Nat.min_self]

/-- Reading the elements one by one gives their values. -/
theorem getEach_eq (h : p.Sound) (hi : p.IsLive i) (hfit : a.Within p.layout.size) :
    a.getEach p (p.referenceTo i) = .ok (a.values (p.contents i)) := by
  apply mapM_eq_ok
  intro k hk
  have hk : k < a.length := List.mem_range.mp hk
  rw [get_eq_element hk, Attribute.get_eq h hi (hfit.element hk)]

/-- **Reading all elements is reading one by one**, over the start of a list
that is long enough. -/
theorem getAll_eq (h : p.Sound) (hi : p.IsLive i) (hfit : a.Within p.layout.size)
    {out : List (kind.Value F)} (hlength : a.length ≤ out.length) :
    a.getAll p (p.referenceTo i) out = .ok (a.values (p.contents i) ++ out.drop a.length) := by
  have hcontents := h.length_contents hi
  have hdecode : decodeAll kind ((p.contents i).drop a.offset) a.length =
      .ok (a.values (p.contents i)) := by
    apply mapM_eq_ok
    intro k hk
    have hwithin := hfit.element (List.mem_range.mp hk)
    have hroom : kind.size ≤ (((p.contents i).drop a.offset).drop (k * kind.size)).length := by
      unfold Attribute.Within at hwithin
      rw [offset_element] at hwithin
      rw [List.length_drop, List.length_drop]
      omega
    rw [Kind.decode, takeExactly_eq_ok hroom, ok_bind, Attribute.read, offset_element, window,
      List.drop_drop]
    rfl
  have hsplice : splice out 0 (a.values (p.contents i)) =
      .ok (a.values (p.contents i) ++ out.drop a.length) := by
    rw [splice_eq_ok (by rw [length_values]; omega), paste, length_values]
    simp
  rw [getAll, h.cells_eq hi, ok_bind, takeExactly_eq_ok hlength, ok_bind, hdecode, ok_bind,
    hsplice]

end AttributeArray

end RecordPool
