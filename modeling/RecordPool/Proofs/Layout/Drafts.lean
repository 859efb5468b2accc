/-
# Tight drafts

A draft appends its columns back to back, so that a draft with distinct names
and without empty arrays can always be finished: its columns are sorted and
tile the record from cell zero up to its cursor.
-/
import RecordPool.Layout.Draft
import RecordPool.Proofs.Outcome

namespace RecordPool

/-! ## Columns back to back -/

/-- The columns lie back to back from the cell `start` up to the cell `stop`. -/
inductive Stacked : Nat → List Column → Nat → Prop where
  | nil (start : Nat) : Stacked start [] start
  | cons {c : Column} {columns : List Column} {stop : Nat} :
      Stacked (c.offset + c.size) columns stop → Stacked c.offset (c :: columns) stop

variable {start stop : Nat} {c : Column} {columns : List Column}

/-- A stack ends where it starts or behind. -/
theorem Stacked.start_le (h : Stacked start columns stop) : start ≤ stop := by
  induction h with
  | nil start => exact Nat.le_refl start
  | cons _ ih => omega

/-- No column of a stack starts before the stack, and none ends behind it. -/
theorem Stacked.bounds (h : Stacked start columns stop) :
    ∀ c ∈ columns, start ≤ c.offset ∧ c.offset + c.size ≤ stop := by
  induction h with
  | nil start => simp
  | @cons c columns stop hrest ih =>
      intro c' hc'
      rcases List.mem_cons.mp hc' with rfl | hmem
      · exact ⟨Nat.le_refl _, hrest.start_le⟩
      · have := ih c' hmem
        omega

/-- The columns of a stack are sorted by their offsets. -/
theorem Stacked.byOffset_eq (h : Stacked start columns stop) :
    Layout.byOffset columns = columns := by
  apply List.mergeSort_of_pairwise
  induction h with
  | nil start => exact List.Pairwise.nil
  | @cons c columns stop hrest ih =>
      refine List.Pairwise.cons (fun c' hc' => ?_) ih
      have := (hrest.bounds c' hc').1
      simp only [decide_eq_true_eq]
      omega

/-- A column right behind a stack extends it. -/
theorem Stacked.append (h : Stacked start columns stop) (hc : c.offset = stop) :
    Stacked start (columns ++ [c]) (stop + c.size) := by
  induction h with
  | nil start =>
      subst hc
      exact .cons (.nil _)
  | cons _ ih => exact .cons (ih hc)

/-- A stack tiles the cells from its start to its end. -/
theorem Stacked.tile_eq (h : Stacked start columns stop) (hbound : stop < sizeBound)
    (previous : String) : Layout.tile start previous columns = pure stop := by
  induction h generalizing previous with
  | nil start => rfl
  | @cons c columns stop hrest ih =>
      have hle := hrest.start_le
      rw [Layout.tile, if_neg (Nat.lt_irrefl _), if_neg (Nat.lt_irrefl _),
        addSize_eq_ok (by omega), lift_ok]
      exact ih hbound c.name

/-- The size of a shape inside the machine range. -/
theorem Shape.checkedSize_eq {shape : Shape} (h : shape.size < sizeBound) :
    shape.checkedSize = .ok shape.size := by
  cases shape with
  | scalar kind => rfl
  | array element length => exact mulSize_eq_ok h

/-- A size that was computed is the size. -/
theorem Shape.eq_of_checkedSize {shape : Shape} {size : Nat}
    (h : shape.checkedSize = .ok size) : size = shape.size := by
  cases shape with
  | scalar kind =>
      cases h
      rfl
  | array element length =>
      by_cases hbound : (Shape.array element length).size < sizeBound
      · rw [Shape.checkedSize_eq hbound] at h
        cases h
        rfl
      · rw [checkedSize, mulSize_eq_error (Nat.le_of_not_lt hbound)] at h
        cases h

/-- Columns with new, distinct names and without empty arrays can be declared. -/
theorem declare_eq {seen : List String} (hnamed : (columns.map (·.name)).Nodup)
    (hseen : ∀ c ∈ columns, c.name ∉ seen)
    (hfilled : ∀ c ∈ columns, c.shape.length? ≠ some 0)
    (hsize : ∀ c ∈ columns, c.size < sizeBound) : Layout.declare seen columns = pure () := by
  induction columns generalizing seen with
  | nil => rfl
  | cons c columns ih =>
      rw [List.map_cons, List.nodup_cons] at hnamed
      rw [Layout.declare, if_neg (hfilled c List.mem_cons_self),
        Shape.checkedSize_eq (hsize c List.mem_cons_self), lift_ok,
        if_neg (hseen c List.mem_cons_self)]
      apply ih hnamed.2
      · intro c' hc' hmem
        rcases List.mem_cons.mp hmem with heq | hmem
        · exact hnamed.1 (heq ▸ List.mem_map_of_mem hc')
        · exact hseen c' (List.mem_cons_of_mem c hc') hmem
      · exact fun c' hc' => hfilled c' (List.mem_cons_of_mem c hc')
      · exact fun c' hc' => hsize c' (List.mem_cons_of_mem c hc')

/-- Columns back to back only have to be declared: the sweep goes through. -/
theorem Layout.ofColumns_of_stacked (id : LayoutId) (h : Stacked 0 columns stop)
    (hne : columns ≠ []) (hbound : stop < sizeBound) :
    Layout.ofColumns id columns = (do
      Layout.declare [] columns
      pure ⟨id, columns, stop⟩) := by
  rw [Layout.ofColumns, List.isEmpty_eq_false_iff.mpr hne, h.byOffset_eq, h.tile_eq hbound]
  rfl

/-! ## Drafts -/

namespace Draft

/-- The draft can be finished once it has a column. -/
structure Tight (d : Draft) : Prop where
  stacked : Stacked 0 d.columns d.cursor
  named : (d.columns.map (·.name)).Nodup
  filled : ∀ c ∈ d.columns, c.shape.length? ≠ some 0
  bound : d.cursor < sizeBound

/-- A draft without columns is tight. -/
theorem tight_start (id : LayoutId) : (Draft.start id).Tight where
  stacked := .nil 0
  named := List.nodup_nil
  filled := by simp [Draft.start]
  bound := (by decide : 0 < sizeBound)

variable {d : Draft} {name : String}

/-- The draft with one more column. -/
def appended (d : Draft) (name : String) (shape : Shape) : Draft :=
  ⟨d.id, d.columns ++ [⟨name, shape, d.cursor⟩], d.cursor + shape.size⟩

@[simp] theorem id_appended (d : Draft) (name : String) (shape : Shape) :
    (d.appended name shape).id = d.id := rfl

@[simp] theorem columns_appended (d : Draft) (name : String) (shape : Shape) :
    (d.appended name shape).columns = d.columns ++ [⟨name, shape, d.cursor⟩] := rfl

@[simp] theorem cursor_appended (d : Draft) (name : String) (shape : Shape) :
    (d.appended name shape).cursor = d.cursor + shape.size := rfl

@[simp] theorem id_start (id : LayoutId) : (Draft.start id).id = id := rfl

@[simp] theorem columns_start (id : LayoutId) : (Draft.start id).columns = [] := rfl

@[simp] theorem cursor_start (id : LayoutId) : (Draft.start id).cursor = 0 := rfl

/-- A column that ends within the machine range can be appended. -/
theorem append_eq {shape : Shape} (hbound : d.cursor + shape.size < sizeBound) :
    d.append name shape = .ok (d.appended name shape) := by
  rw [append, Shape.checkedSize_eq (by omega), ok_bind, addSize_eq_ok hbound, ok_bind]
  rfl

/-- Appending a column with a new name, and not an empty array, keeps a draft
tight. -/
theorem Tight.appended (h : d.Tight) {shape : Shape} (hname : name ∉ d.columns.map (·.name))
    (hfilled : shape.length? ≠ some 0) (hbound : d.cursor + shape.size < sizeBound) :
    d.append name shape = .ok (d.appended name shape) ∧ (d.appended name shape).Tight := by
  refine ⟨append_eq hbound, ?_⟩
  exact {
    stacked := h.stacked.append rfl
    named := by
      rw [Draft.appended, List.map_append, List.nodup_append]
      refine ⟨h.named, List.nodup_singleton _, ?_⟩
      rintro a ha b hb rfl
      obtain rfl : a = name := by simpa using hb
      exact hname ha
    filled := by
      intro c hc
      rcases List.mem_append.mp hc with hc | hc
      · exact h.filled c hc
      · obtain rfl := List.mem_singleton.mp hc
        exact hfilled
    bound := hbound }

/-- Appending a single value to a tight draft. -/
theorem Tight.field_eq (h : d.Tight) (kind : Kind) (name : String)
    (hname : name ∉ d.columns.map (·.name)) (hbound : d.cursor + kind.size < sizeBound) :
    d.field kind name =
        .ok (⟨d.id, d.columns.length, d.cursor⟩, d.appended name (.scalar kind)) ∧
      (d.appended name (.scalar kind)).Tight := by
  have hfilled : (Shape.scalar kind).length? ≠ some 0 := by
    rintro ⟨⟩
  obtain ⟨happend, htight⟩ := h.appended hname hfilled hbound
  refine ⟨?_, htight⟩
  rw [field, happend]
  rfl

/-- Appending an array to a tight draft. -/
theorem Tight.fieldArray_eq (h : d.Tight) (kind : Kind) (name : String) {length : Nat}
    (hname : name ∉ d.columns.map (·.name)) (hpos : 0 < length)
    (hbound : d.cursor + kind.size * length < sizeBound) :
    d.fieldArray kind name length =
        .ok (⟨d.id, d.columns.length, d.cursor, length⟩, d.appended name (.array kind length)) ∧
      (d.appended name (.array kind length)).Tight := by
  have hfilled : (Shape.array kind length).length? ≠ some 0 := by
    rintro ⟨⟩
    omega
  obtain ⟨happend, htight⟩ := h.appended hname hfilled hbound
  refine ⟨?_, htight⟩
  rw [fieldArray, happend]
  rfl

/-- A column that could be appended ends within the machine range. -/
theorem eq_of_append {shape : Shape} {d' : Draft} (h : d.append name shape = .ok d') :
    d' = d.appended name shape ∧ d'.cursor < sizeBound := by
  obtain ⟨size, hsize, hrest⟩ := bind_eq_ok_iff.mp h
  obtain ⟨cursor, hcursor, hput⟩ := bind_eq_ok_iff.mp hrest
  obtain rfl := Shape.eq_of_checkedSize hsize
  rw [addSize] at hcursor
  split at hcursor
  · cases hcursor
    cases hput
    exact ⟨rfl, ‹_›⟩
  · cases hcursor

/-- A single value that could be appended. -/
theorem eq_of_field {kind : Kind} {field : Field kind} {d' : Draft}
    (h : d.field kind name = .ok (field, d')) :
    d' = d.appended name (.scalar kind) ∧ d'.cursor < sizeBound := by
  obtain ⟨d'', happend, hput⟩ := bind_eq_ok_iff.mp h
  cases hput
  exact eq_of_append happend

/-- An array that could be appended. -/
theorem eq_of_fieldArray {kind : Kind} {length : Nat} {field : FieldArray kind} {d' : Draft}
    (h : d.fieldArray kind name length = .ok (field, d')) :
    d' = d.appended name (.array kind length) ∧ d'.cursor < sizeBound := by
  obtain ⟨d'', happend, hput⟩ := bind_eq_ok_iff.mp h
  cases hput
  exact eq_of_append happend

/-- **A tight draft with a column can be finished.** -/
theorem Tight.finish_eq (h : d.Tight) (hne : d.columns ≠ []) :
    d.finish = pure ⟨d.id, d.columns, d.cursor⟩ := by
  have hsize : ∀ c ∈ d.columns, c.size < sizeBound := by
    intro c hc
    have hle := (h.stacked.bounds c hc).2
    have hbound := h.bound
    omega
  rw [finish, Layout.ofColumns_of_stacked d.id h.stacked hne h.bound,
    declare_eq h.named (by simp) h.filled hsize]
  rfl

end Draft

end RecordPool
