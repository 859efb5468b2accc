/-
# Attributes of sound pools

An attribute of a record in use can be read, and written with any storable
value; what was written is read back, and attributes that share no cell with
it keep their values.  An element of an array is an attribute of its own.
-/
import RecordPool.Pool.Attribute
import RecordPool.Proofs.Pool.Allocation
import RecordPool.Proofs.Values

namespace RecordPool

variable {β F : Type} [Memory β F] {kind kind' : Kind} {p : Pool β} {i : Nat}

/-! ## Forms of values -/

/-- Behind the forms of some values the form of one more is pasted. -/
theorem Kind.shows_concat {cells : List β} {start : Nat} {xs : List (kind.Value F)}
    {x : kind.Value F} (hshows : Shows cells start (kind.forms xs))
    (hxs : ∀ v ∈ xs, kind.Storable v) (hx : kind.Storable x)
    (hfit : start + (xs.length + 1) * kind.size ≤ cells.length) :
    Shows (paste cells (start + xs.length * kind.size) (kind.form x)) start
      (kind.forms (xs ++ [x])) := by
  have hlength := Kind.length_form (β := β) hx
  rw [Nat.succ_mul] at hfit
  rw [Kind.forms_concat]
  exact hshows.paste_append (by omega) (by rw [Kind.length_forms hxs])

/-- Behind a value that is repeated it is pasted once more. -/
theorem Kind.shows_replicate_succ {cells : List β} {start count : Nat} {x : kind.Value F}
    (hshows : Shows cells start (kind.forms (List.replicate count x))) (hx : kind.Storable x)
    (hfit : start + (count + 1) * kind.size ≤ cells.length) :
    Shows (paste cells (start + count * kind.size) (kind.form x)) start
      (kind.forms (List.replicate (count + 1) x)) := by
  have hnext := Kind.shows_concat hshows (fun v hv => List.eq_of_mem_replicate hv ▸ hx) hx
    (by rwa [List.length_replicate])
  rwa [List.length_replicate, ← List.replicate_succ'] at hnext

/-! ## Single values -/

namespace Attribute

/-- The value that the cells of a record hold. -/
def read (a : Attribute kind) (cells : List β) : kind.Value F :=
  kind.ofCells (window cells a.offset kind.size)

/-- The attribute lies inside records of `size` cells. -/
def Within (a : Attribute kind) (size : Nat) : Prop :=
  a.offset + kind.size ≤ size

/-- The two attributes share no cell. -/
def Apart (a : Attribute kind) (b : Attribute kind') : Prop :=
  a.offset + kind.size ≤ b.offset ∨ b.offset + kind'.size ≤ a.offset

/-- The cells `after` are the cells `before` with `value` for the attribute. -/
structure Writes (a : Attribute kind) (value : kind.Value F) (before after : List β) : Prop where
  length : after.length = before.length
  read : a.read after = value
  apart : ∀ start count, start + count ≤ a.offset ∨ a.offset + kind.size ≤ start →
    window after start count = window before start count

variable {a : Attribute kind} {b : Attribute kind'} {value : kind.Value F}
  {before after : List β}

/-- Writing leaves an attribute that shares no cell as it was. -/
theorem Writes.read_of_apart (h : a.Writes value before after) (hab : a.Apart b) :
    b.read after = b.read before := by
  rw [Attribute.read, Attribute.read, h.apart b.offset kind'.size hab.symm]

/-- A field of the pool's layout is bound. -/
theorem bind_eq {field : Field kind} (h : field.layout = p.layout.id) :
    bind field p = .ok ⟨field.slot, field.offset⟩ := by
  rw [bind, h, beq_self_eq_true]
  rfl

/-- Reading a record in use gives the value in its cells. -/
theorem get_eq (h : p.Sound) (hi : p.IsLive i) (hfit : a.Within p.layout.size) :
    a.get p (p.referenceTo i) = .ok (a.read (p.contents i)) := by
  have hlength : kind.size ≤ ((p.contents i).drop a.offset).length := by
    unfold Within at hfit
    rw [List.length_drop, h.length_contents hi]
    omega
  rw [get, h.cells_eq hi, ok_bind, Kind.decode, takeExactly_eq_ok hlength]
  rfl

/-- A value whose form an attribute shows is read from it. -/
theorem read_of_shows {cells : List β} (hshows : Shows cells a.offset (kind.form value))
    (hvalue : kind.Storable value) : a.read cells = value := by
  rw [Shows, Kind.length_form hvalue] at hshows
  rw [Attribute.read, hshows, Kind.ofCells_form hvalue]

/-- Writing a record in use pastes the form of the value into it. -/
theorem put_eq_setRecord (h : p.Sound) (hi : p.IsLive i) (hfit : a.Within p.layout.size)
    (hvalue : kind.Storable value) :
    a.put p (p.referenceTo i) value =
      .ok (p.setRecord i (paste (p.contents i) a.offset (kind.form value))) := by
  have hsize := Kind.length_form (β := β) hvalue
  unfold Within at hfit
  rw [put, h.require_referenceTo hi, ok_bind, Kind.encode_eq_form hvalue, ok_bind,
    h.patch_eq hi (by omega)]

/-- A record that is being written receives one more value. -/
theorem put_setRecord (h : p.Sound) (hi : p.IsLive i) {cells : List β}
    (hlength : cells.length = p.layout.size) (hfit : a.Within p.layout.size)
    (hvalue : kind.Storable value) :
    a.put (p.setRecord i cells) (p.referenceTo i) value =
      .ok (p.setRecord i (paste cells a.offset (kind.form value))) := by
  have hwritten := put_eq_setRecord (h.setRecord i cells) (show (p.setRecord i cells).IsLive i from hi)
    hfit hvalue
  have hsize := Kind.length_form (β := β) hvalue
  have hpaste : (paste cells a.offset (kind.form value)).length = p.layout.size := by
    unfold Within at hfit
    rw [length_paste (by omega), hlength]
  rw [h.contents_setRecord hi hlength, Function.update_self,
    h.setRecord_setRecord hi hlength hpaste] at hwritten
  exact hwritten

/-- **Writing a record in use.**  A storable value is written over the
attribute. -/
theorem put_eq (h : p.Sound) (hi : p.IsLive i) (hfit : a.Within p.layout.size)
    (hvalue : kind.Storable value) :
    ∃ p' cells, a.put p (p.referenceTo i) value = .ok p' ∧ p.Rewrites i cells p' ∧
      a.Writes value (p.contents i) cells := by
  have hsize := Kind.length_form (β := β) hvalue
  have hlength := h.length_contents hi
  have hroom : a.offset + (kind.form value : List β).length ≤ (p.contents i).length := by
    unfold Within at hfit
    omega
  have hpaste : (paste (p.contents i) a.offset (kind.form value)).length = p.layout.size := by
    rw [length_paste hroom, hlength]
  refine ⟨_, _, put_eq_setRecord h hi hfit hvalue, h.rewrites_setRecord hi hpaste, ?_⟩
  exact {
    length := length_paste hroom
    read := read_of_shows (shows_paste hroom) hvalue
    apart := by
      intro start count hor
      exact window_paste_of_apart hroom (by omega) }

/-- A record index beyond its signed form is not written. -/
theorem put_of_large {a : Attribute .index} (h : p.Sound) (hi : p.IsLive i) {j : RecordIndex}
    (hj : indexLimit < j) :
    (a.put (F := F) p (p.referenceTo i) (some j) : Checked (Pool β)) =
      violate (.indexTooLarge j) := by
  have hencode : (Kind.index.encode (F := F) (some j) : Checked (List β)) =
      violate (.indexTooLarge j) := if_neg (Nat.not_le.mpr hj)
  rw [put, h.require_referenceTo hi, ok_bind, hencode]
  rfl

end Attribute

/-! ## Arrays -/

namespace AttributeArray

/-- The element `k` as an attribute. -/
def element (a : AttributeArray kind) (k : Nat) : Attribute kind :=
  ⟨a.slot, a.offset + k * kind.size⟩

@[simp] theorem offset_element (a : AttributeArray kind) (k : Nat) :
    (a.element k).offset = a.offset + k * kind.size := rfl

variable {a : AttributeArray kind} {k : Nat}

/-- An array field of the pool's layout is bound. -/
theorem bind_eq {field : FieldArray kind} (h : field.layout = p.layout.id) :
    bind field p = .ok ⟨field.slot, field.offset, field.length⟩ := by
  rw [bind, h, beq_self_eq_true]
  rfl

/-- An element has its offset. -/
theorem elementOffset_eq (hk : k < a.length) :
    a.elementOffset k = .ok (a.element k).offset := by
  have hdemand : demand (decide (k < a.length)) (.noElement k a.length) = .ok () := by
    rw [decide_eq_true hk]
    rfl
  rw [elementOffset, hdemand]
  rfl

/-- Reading an element is reading an attribute. -/
theorem get_eq_element (hk : k < a.length) (p : Pool β) (r : Reference) :
    a.get p r k = (a.element k).get p r := by
  rw [get, elementOffset_eq hk]
  rfl

/-- Writing an element is writing an attribute. -/
theorem put_eq_element (hk : k < a.length) (p : Pool β) (r : Reference) (value : kind.Value F) :
    a.put p r k value = (a.element k).put p r value := by
  rw [put, elementOffset_eq hk]
  rfl

/-- Two elements of an array share no cell. -/
theorem element_apart {j : Nat} (hne : j ≠ k) : (a.element j).Apart (a.element k) := by
  show a.offset + j * kind.size + kind.size ≤ a.offset + k * kind.size ∨
    a.offset + k * kind.size + kind.size ≤ a.offset + j * kind.size
  rw [Nat.add_assoc, Nat.add_assoc, ← Nat.succ_mul, ← Nat.succ_mul]
  rcases Nat.lt_or_gt_of_ne hne with hlt | hgt
  · exact Or.inl (Nat.add_le_add_left (Nat.mul_le_mul_right _ hlt) _)
  · exact Or.inr (Nat.add_le_add_left (Nat.mul_le_mul_right _ hgt) _)

/-- The array lies inside records of `size` cells. -/
def Within (a : AttributeArray kind) (size : Nat) : Prop :=
  a.offset + a.length * kind.size ≤ size

/-- An element lies where its array does. -/
theorem Within.element {size : Nat} (h : a.Within size) (hk : k < a.length) :
    (a.element k).Within size := by
  have hle : (k + 1) * kind.size ≤ a.length * kind.size := Nat.mul_le_mul_right _ hk
  unfold Within at h
  show a.offset + k * kind.size + kind.size ≤ size
  rw [Nat.succ_mul] at hle
  omega

/-- The values of all elements that the cells of a record hold. -/
def values (a : AttributeArray kind) (cells : List β) : List (kind.Value F) :=
  (List.range a.length).map fun k => (a.element k).read cells

@[simp] theorem length_values (a : AttributeArray kind) (cells : List β) :
    (a.values cells).length = a.length := by
  rw [values, List.length_map, List.length_range]

/-- The values, by element. -/
theorem getElem?_values (hk : k < a.length) (cells : List β) :
    (a.values cells)[k]? = some ((a.element k).read cells) := by
  rw [values, List.getElem?_map, List.getElem?_range hk, Option.map_some]

variable {before after : List β}

/-- Writing apart from an array leaves its elements as they were. -/
theorem values_of_apart {b : Attribute kind'} {value : kind'.Value F}
    (h : b.Writes value before after)
    (apart : a.offset + a.length * kind.size ≤ b.offset ∨ b.offset + kind'.size ≤ a.offset) :
    a.values after = a.values before := by
  apply List.map_congr_left
  intro k hk
  have hle : (k + 1) * kind.size ≤ a.length * kind.size :=
    Nat.mul_le_mul_right _ (List.mem_range.mp hk)
  rw [Nat.succ_mul] at hle
  apply h.read_of_apart
  show b.offset + kind'.size ≤ a.offset + k * kind.size ∨
    a.offset + k * kind.size + kind.size ≤ b.offset
  omega

/-- Writing an element changes that element only. -/
theorem values_of_element {value : kind.Value F} (h : (a.element k).Writes value before after) :
    a.values after = (a.values before).set k value := by
  apply List.ext_getElem?
  intro j
  rw [List.getElem?_set, length_values]
  by_cases hj : j < a.length
  · rw [getElem?_values hj, getElem?_values hj]
    by_cases hkj : k = j
    · subst hkj
      rw [if_pos rfl, if_pos hj, h.read]
    · rw [if_neg hkj, h.read_of_apart (element_apart hkj)]
  · have hnone : ∀ cells : List β, (a.values cells)[j]? = (none : Option (kind.Value F)) := by
      intro cells
      apply List.getElem?_eq_none
      rw [length_values]
      omega
    rw [hnone, hnone]
    split
    · rw [if_neg (by omega)]
    · rfl

/-- Values whose forms an array shows are its values. -/
theorem values_of_shows {cells : List β} {xs : List (kind.Value F)}
    (hshows : Shows cells a.offset (kind.forms xs)) (hlength : xs.length = a.length)
    (hvalues : ∀ v ∈ xs, kind.Storable v) : a.values cells = xs := by
  have hsizes : ∀ c ∈ xs.map (kind.form (β := β)), c.length = kind.size := by
    intro c hc
    obtain ⟨v, hv, rfl⟩ := List.mem_map.mp hc
    exact Kind.length_form (hvalues v hv)
  apply List.ext_getElem?
  intro k
  by_cases hk : k < a.length
  · have hv : xs[k]? = some xs[k] := List.getElem?_eq_getElem (by omega)
    have hchunk : (xs.map (kind.form (β := β)))[k]? = some (kind.form xs[k]) := by
      rw [List.getElem?_map, hv, Option.map_some]
    have hle : (k + 1) * kind.size ≤ xs.length * kind.size := Nat.mul_le_mul_right _ (by omega)
    rw [Nat.succ_mul, ← Kind.length_forms (β := β) hvalues] at hle
    have hstorable := hvalues _ (List.mem_of_getElem? hv)
    -- the element is a window of the one that shows them all
    have helement : Shows cells (a.element k).offset (kind.form xs[k]) := by
      rw [Shows, Kind.length_form hstorable, offset_element, hshows.window_eq hle, Kind.forms,
        window_flatten hsizes hchunk]
    rw [getElem?_values hk, hv, Attribute.read_of_shows helement hstorable]
  · rw [List.getElem?_eq_none (by rw [length_values]; omega), List.getElem?_eq_none (by omega)]

/-- Writing all elements of a record in use pastes the forms of the values into
it. -/
theorem putAll_eq_setRecord (h : p.Sound) (hi : p.IsLive i) (hfit : a.Within p.layout.size)
    {xs : List (kind.Value F)} (hlength : xs.length = a.length)
    (hvalues : ∀ v ∈ xs, kind.Storable v) :
    a.putAll p (p.referenceTo i) xs =
      .ok (p.setRecord i (paste (p.contents i) a.offset (kind.forms xs))) := by
  have htotal := Kind.length_forms (β := β) hvalues
  unfold Within at hfit
  rw [putAll, h.require_referenceTo hi, ok_bind, takeExactly_eq_ok (by omega), ok_bind,
    List.take_of_length_le (by omega), mapM_eq_ok fun v hv => Kind.encode_eq_form (hvalues v hv),
    ok_bind, h.patch_eq hi (by rw [← Kind.forms, htotal, hlength]; exact hfit)]
  rfl

/-- **Writing a whole array.**  Storable values, one for each element, are
written over the elements; what lies apart from the array stays. -/
theorem putAll_eq (h : p.Sound) (hi : p.IsLive i) (hfit : a.Within p.layout.size)
    {xs : List (kind.Value F)} (hlength : xs.length = a.length)
    (hvalues : ∀ v ∈ xs, kind.Storable v) :
    ∃ p' cells, a.putAll p (p.referenceTo i) xs = .ok p' ∧ p.Rewrites i cells p' ∧
      a.values cells = xs ∧
      ∀ start count, start + count ≤ a.offset ∨ a.offset + a.length * kind.size ≤ start →
        window cells start count = window (p.contents i) start count := by
  have htotal := Kind.length_forms (β := β) hvalues
  have hrecord := h.length_contents hi
  rw [hlength] at htotal
  have hroom : a.offset + (kind.forms xs : List β).length ≤ (p.contents i).length := by
    unfold Within at hfit
    omega
  have hpaste : (paste (p.contents i) a.offset (kind.forms xs)).length = p.layout.size := by
    rw [length_paste hroom, hrecord]
  refine ⟨_, _, putAll_eq_setRecord h hi hfit hlength hvalues, h.rewrites_setRecord hi hpaste,
    values_of_shows (shows_paste hroom) hlength hvalues, ?_⟩
  intro start count hor
  exact window_paste_of_apart hroom (by omega)

end AttributeArray

end RecordPool
