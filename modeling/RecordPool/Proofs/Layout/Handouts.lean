/-
# What a draft hands out

A draft hands the field of each column out at once, before anything about the
columns is checked.  Once the draft is finished the same fields are found in
the layout by name, kind and shape, and nothing else is: the fields handed out
early and those looked up late are the same, for whatever sequence of requests.
-/
import RecordPool.Proofs.Layout.Diagnosis

namespace RecordPool

/-! ## Requests -/

/-- A column that is asked for; its place is up to the draft. -/
structure Request where
  /-- The name. -/
  name : String
  /-- The values. -/
  shape : Shape
  deriving DecidableEq, Repr

/-- The number of cells that the requests take together. -/
def requestedSize (requests : List Request) : Nat :=
  (requests.map (·.shape.size)).sum

/-- The columns that are asked for: each starts where the sizes of those before
it add up to, counted from the cell `start`. -/
def columnsFrom (start : Nat) (requests : List Request) : List Column :=
  requests.mapIdx fun n q => ⟨q.name, q.shape, start + requestedSize (requests.take n)⟩

section Requests

variable {q : Request} {requests : List Request} {start n : Nat}

theorem requestedSize_cons (q : Request) (requests : List Request) :
    requestedSize (q :: requests) = q.shape.size + requestedSize requests := by
  rw [requestedSize, List.map_cons, List.sum_cons, requestedSize]

theorem columnsFrom_cons (start : Nat) (q : Request) (requests : List Request) :
    columnsFrom start (q :: requests) =
      ⟨q.name, q.shape, start⟩ :: columnsFrom (start + q.shape.size) requests := by
  rw [columnsFrom, List.mapIdx_cons]
  congr 1
  rw [columnsFrom]
  congr 1
  funext n q'
  rw [List.take_succ_cons, requestedSize_cons, Nat.add_assoc]

theorem length_columnsFrom (start : Nat) (requests : List Request) :
    (columnsFrom start requests).length = requests.length :=
  List.length_mapIdx

/-- The columns that are asked for lie back to back. -/
theorem stacked_columnsFrom (start : Nat) (requests : List Request) :
    Stacked start (columnsFrom start requests) (start + requestedSize requests) := by
  induction requests generalizing start with
  | nil => exact .nil start
  | cons q requests ih =>
      rw [columnsFrom_cons, requestedSize_cons, ← Nat.add_assoc]
      exact @Stacked.cons ⟨q.name, q.shape, start⟩ _ _ (ih (start + q.shape.size))

/-- The columns have the names that are asked for. -/
theorem map_name_columnsFrom (start : Nat) (requests : List Request) :
    (columnsFrom start requests).map (·.name) = requests.map (·.name) := by
  apply List.ext_getElem?
  intro n
  simp [columnsFrom, Function.comp_def]

/-- The columns have the shapes that are asked for. -/
theorem map_shape_columnsFrom (start : Nat) (requests : List Request) :
    (columnsFrom start requests).map (·.shape) = requests.map (·.shape) := by
  apply List.ext_getElem?
  intro n
  simp [columnsFrom, Function.comp_def]

/-- A property of shapes holds of the columns when it holds of the requests. -/
theorem forall_columnsFrom_iff (P : Shape → Prop) :
    (∀ c ∈ columnsFrom start requests, P c.shape) ↔ ∀ q ∈ requests, P q.shape := by
  have hshapes := map_shape_columnsFrom start requests
  rw [← List.forall_mem_map (f := fun c : Column => c.shape), hshapes, List.forall_mem_map]

end Requests

/-! ## Handing out -/

/-- What is handed out for a column. -/
inductive Handout where
  /-- The field of a single value. -/
  | value (kind : Kind) (field : Field kind)
  /-- The field of an array. -/
  | array (kind : Kind) (field : FieldArray kind)

namespace Handout

/-- The shape that the field stands for. -/
def shape : Handout → Shape
  | value kind _ => .scalar kind
  | array kind field => .array kind field.length

/-- The position of the column. -/
def slot : Handout → Nat
  | value _ field => field.slot
  | array _ field => field.slot

/-- The first cell. -/
def offset : Handout → Nat
  | value _ field => field.offset
  | array _ field => field.offset

/-- The field, if it is one of single values of the given kind. -/
def field? (kind : Kind) : Handout → Option (Field kind)
  | value kind' field => if h : kind' = kind then some (h ▸ field) else none
  | array _ _ => none

/-- The field, if it is one of arrays of the given kind. -/
def fieldArray? (kind : Kind) : Handout → Option (FieldArray kind)
  | value _ _ => none
  | array kind' field => if h : kind' = kind then some (h ▸ field) else none

/-- The cells of the two fields do not meet. -/
def Apart (x y : Handout) : Prop :=
  x.offset + x.shape.size ≤ y.offset ∨ y.offset + y.shape.size ≤ x.offset

/-- The layout has the column that was asked for where the field says, and
finds this field under its name, kind and shape, and under no other kind or
shape. -/
structure FoundIn (x : Handout) (l : Layout) (q : Request) : Prop where
  shape : x.shape = q.shape
  field : ∀ kind, l.field? kind q.name = x.field? kind
  fieldArray : ∀ kind, l.fieldArray? kind q.name = x.fieldArray? kind
  column : l.columnAt? x.slot = some ⟨q.name, q.shape, x.offset⟩
  within : x.offset + x.shape.size ≤ l.size

end Handout

/-- The field of the column at position `slot` of a layout. -/
def Column.handout (id : LayoutId) (slot : Nat) (c : Column) : Handout :=
  match c.shape with
  | .scalar kind => .value kind ⟨id, slot, c.offset⟩
  | .array kind length => .array kind ⟨id, slot, c.offset, length⟩

section Handouts

variable (id : LayoutId) (slot : Nat) (c : Column)

@[simp] theorem shape_handout : (c.handout id slot).shape = c.shape := by
  rcases c with ⟨name, kind | ⟨kind, length⟩, offset⟩ <;> rfl

@[simp] theorem slot_handout : (c.handout id slot).slot = slot := by
  rcases c with ⟨name, kind | ⟨kind, length⟩, offset⟩ <;> rfl

@[simp] theorem offset_handout : (c.handout id slot).offset = c.offset := by
  rcases c with ⟨name, kind | ⟨kind, length⟩, offset⟩ <;> rfl

end Handouts

namespace Draft

variable {d : Draft} {q : Request} {requests : List Request}

/-- Appends the column that is asked for. -/
def hand (d : Draft) (q : Request) : Checked (Handout × Draft) :=
  match q.shape with
  | .scalar kind => do
      let (field, next) ← d.field kind q.name
      pure (.value kind field, next)
  | .array kind length => do
      let (field, next) ← d.fieldArray kind q.name length
      pure (.array kind field, next)

/-- Appends the columns that are asked for, one after the other. -/
def handAll (d : Draft) : List Request → Checked (List Handout × Draft)
  | [] => pure ([], d)
  | q :: requests => do
      let (x, next) ← d.hand q
      let (xs, last) ← next.handAll requests
      pure (x :: xs, last)

/-- A column that ends within the machine range is appended behind the last
one, and its field is handed out. -/
theorem hand_eq (hbound : d.cursor + q.shape.size < sizeBound) :
    d.hand q = .ok (Column.handout d.id d.columns.length ⟨q.name, q.shape, d.cursor⟩,
      d.appended q.name q.shape) := by
  obtain ⟨name, kind | ⟨kind, length⟩⟩ := q
  · simp only [hand, field, append_eq hbound, ok_bind]
    rfl
  · simp only [hand, fieldArray, append_eq hbound, ok_bind]
    rfl

/-- **Every sequence of requests is met**: the columns follow each other, and
the field of each is handed out. -/
theorem handAll_eq (hbound : d.cursor + requestedSize requests < sizeBound) :
    d.handAll requests =
      .ok ((columnsFrom d.cursor requests).mapIdx fun n c => c.handout d.id (d.columns.length + n),
        ⟨d.id, d.columns ++ columnsFrom d.cursor requests, d.cursor + requestedSize requests⟩) := by
  induction requests generalizing d with
  | nil =>
      rw [columnsFrom, List.mapIdx_nil, List.append_nil]
      rfl
  | cons q requests ih =>
      have hslot : ∀ n, (d.appended q.name q.shape).columns.length + n =
          d.columns.length + (n + 1) := by
        intro n
        rw [columns_appended, List.length_append, List.length_singleton]
        omega
      rw [requestedSize_cons, ← Nat.add_assoc] at hbound ⊢
      rw [handAll, hand_eq (by omega), ok_bind]
      dsimp only
      rw [ih (d := d.appended q.name q.shape) hbound, ok_bind, columnsFrom_cons, List.mapIdx_cons,
        List.append_cons]
      simp only [hslot]
      rfl

end Draft

/-! ## Looking up -/

namespace Layout

variable {l : Layout} {c : Column} {n : Nat} {kind : Kind}

/-- Under the name of a column the field of single values is found that stands
for it. -/
theorem field?_eq (hnamed : (l.columns.map (·.name)).Nodup) (hc : l.columnAt? n = some c) :
    l.field? kind c.name = (c.handout l.id n).field? kind := by
  simp only [field?, slot?_eq hnamed hc, hc, Option.bind_eq_bind, Option.bind_some]
  obtain ⟨name, kind' | ⟨kind', length⟩, offset⟩ := c
  · by_cases heq : kind' = kind
    · subst heq
      simp [Column.handout, Handout.field?]
    · simp [Column.handout, Handout.field?, heq]
  · simp [Column.handout, Handout.field?]

/-- Under the name of a column the field of arrays is found that stands for
it. -/
theorem fieldArray?_eq (hnamed : (l.columns.map (·.name)).Nodup) (hc : l.columnAt? n = some c) :
    l.fieldArray? kind c.name = (c.handout l.id n).fieldArray? kind := by
  simp only [fieldArray?, slot?_eq hnamed hc, hc, Option.bind_eq_bind, Option.bind_some]
  obtain ⟨name, kind' | ⟨kind', length⟩, offset⟩ := c
  · simp [Column.handout, Handout.fieldArray?]
  · by_cases heq : kind' = kind
    · subst heq
      simp [Column.handout, Handout.fieldArray?]
    · simp [Column.handout, Handout.fieldArray?, heq]

/-- The position of a column is its place in a layout with that table. -/
theorem foundIn_handout {id : LayoutId} {q : Request} {size : Nat} {columns : List Column}
    (hnamed : (columns.map (·.name)).Nodup) (hc : columns[n]? = some c) (hname : c.name = q.name)
    (hshape : c.shape = q.shape) (hwithin : c.offset + c.size ≤ size) :
    (c.handout id n).FoundIn ⟨id, columns, size⟩ q where
  shape := (shape_handout id n c).trans hshape
  field := fun kind => hname ▸ field?_eq hnamed hc
  fieldArray := fun kind => hname ▸ fieldArray?_eq hnamed hc
  column := by
    rw [slot_handout, offset_handout, ← hname, ← hshape]
    exact hc
  within := by
    rw [offset_handout, shape_handout]
    exact hwithin

end Layout

/-! ## Early and late fields -/

/-- The layout has exactly the columns that were asked for, and the fields
handed out for them are those that it finds. -/
structure Layout.Honours (l : Layout) (requests : List Request) (handouts : List Handout) :
    Prop where
  columns : l.columns = columnsFrom 0 requests
  /-- The same columns, given with their offsets, form the same layout. -/
  table : ∀ id, Layout.ofColumns id (columnsFrom 0 requests) = pure ⟨id, l.columns, l.size⟩
  found : ∀ (n : Nat) (q : Request) (x : Handout), requests[n]? = some q → handouts[n]? = some x →
    x.FoundIn l q
  apart : ∀ (m n : Nat) (x y : Handout), handouts[m]? = some x → handouts[n]? = some y → m ≠ n →
    x.Apart y

section

variable {requests : List Request}

/-- A field that is handed out is that of a column. -/
theorem getElem?_handouts {id : LayoutId} {columns : List Column} {n : Nat} {x : Handout}
    (hx : (columns.mapIdx fun n c => c.handout id n)[n]? = some x) :
    ∃ c, columns[n]? = some c ∧ x = c.handout id n := by
  rw [List.getElem?_mapIdx] at hx
  obtain ⟨c, hc, heq⟩ := Option.map_eq_some_iff.mp hx
  exact ⟨c, hc, heq.symm⟩

/-- A layout of the columns that were asked for, under different names, honours
their fields. -/
theorem honours_of_named (id : LayoutId) (hnamed : (requests.map (·.name)).Nodup)
    (htable : ∀ id, Layout.ofColumns id (columnsFrom 0 requests) =
      pure ⟨id, columnsFrom 0 requests, requestedSize requests⟩) :
    Layout.Honours ⟨id, columnsFrom 0 requests, requestedSize requests⟩ requests
      ((columnsFrom 0 requests).mapIdx fun n c => c.handout id n) where
  columns := rfl
  table := htable
  found := by
    intro n q x hq hx
    obtain ⟨c, hc, rfl⟩ := getElem?_handouts hx
    have hnamed' : ((columnsFrom 0 requests).map (·.name)).Nodup := by
      rw [map_name_columnsFrom]
      exact hnamed
    have hwithin := ((stacked_columnsFrom 0 requests).bounds c (List.mem_of_getElem? hc)).2
    rw [Nat.zero_add] at hwithin
    rw [columnsFrom, List.getElem?_mapIdx, hq] at hc
    cases hc
    exact Layout.foundIn_handout hnamed' (by rw [columnsFrom, List.getElem?_mapIdx, hq]; rfl)
      rfl rfl hwithin
  apart := by
    intro m n x y hx hy hne
    obtain ⟨c, hc, rfl⟩ := getElem?_handouts hx
    obtain ⟨d, hd, rfl⟩ := getElem?_handouts hy
    have hapart : c.Apart d :=
      (Layout.tiled_of_ofColumns (htable id)).apart m n c d hc hd hne
    rw [Handout.Apart, offset_handout, shape_handout, offset_handout, shape_handout]
    exact hapart

/-- **What asking for columns can lead to.**  They form a layout, whatever its
identity, or they are refused for one of three reasons. -/
theorem columnsFrom_cases (hbound : requestedSize requests < sizeBound) :
    ((requests ≠ [] ∧ (requests.map (·.name)).Nodup ∧ ∀ q ∈ requests, q.shape.length? ≠ some 0) ∧
        ∀ id, Layout.ofColumns id (columnsFrom 0 requests) =
          pure ⟨id, columnsFrom 0 requests, requestedSize requests⟩) ∨
      (requests = [] ∨ ¬ (requests.map (·.name)).Nodup ∨
          ∃ q ∈ requests, q.shape.length? = some 0) ∧
        ∃ e : LayoutError, (e = .empty ∨ (∃ name, e = .zeroLengthArray name) ∨
            ∃ name, e = .duplicateName name) ∧
          ∀ id, Layout.ofColumns id (columnsFrom 0 requests) = throw e := by
  by_cases hempty : requests = []
  · subst hempty
    exact Or.inr ⟨Or.inl rfl, .empty, Or.inl rfl, fun id => rfl⟩
  have hne : columnsFrom 0 requests ≠ [] := by
    rw [ne_eq, ← List.length_eq_zero_iff, length_columnsFrom, List.length_eq_zero_iff]
    exact hempty
  have hstacked : Stacked 0 (columnsFrom 0 requests) (requestedSize requests) := by
    have h := stacked_columnsFrom 0 requests
    rwa [Nat.zero_add] at h
  have hdeclared := fun id => Layout.ofColumns_of_stacked id hstacked hne hbound
  have hsize : ∀ c ∈ columnsFrom 0 requests, c.size < sizeBound := fun c hc => by
    have := (hstacked.bounds c hc).2
    omega
  rcases @Layout.declare_cases _ [] hsize with
    ⟨hdeclare, hfilled⟩ | ⟨c, hc, hzero, hdeclare⟩ | ⟨c, hc, hdeclare, htwice⟩
  · have hnamed := (Layout.names_of_declare hdeclare).1
    rw [map_name_columnsFrom] at hnamed
    have hfilled' := (forall_columnsFrom_iff fun shape => shape.length? ≠ some 0).mp hfilled
    refine Or.inl ⟨⟨hempty, hnamed, hfilled'⟩, fun id => ?_⟩
    rw [hdeclared, hdeclare]
    rfl
  · refine Or.inr ⟨Or.inr (Or.inr ?_), _, Or.inr (Or.inl ⟨c.name, rfl⟩), fun id => ?_⟩
    · by_contra hnone
      push Not at hnone
      exact (forall_columnsFrom_iff fun shape => shape.length? ≠ some 0).mpr hnone c hc hzero
    · rw [hdeclared, hdeclare]
      rfl
  · refine Or.inr ⟨Or.inr (Or.inl ?_), _, Or.inr (Or.inr ⟨c.name, rfl⟩), fun id => ?_⟩
    · have hcount := htwice.resolve_left (by simp)
      rw [map_name_columnsFrom] at hcount
      intro hnodup
      have := List.nodup_iff_count_le_one.mp hnodup c.name
      omega
    · rw [hdeclared, hdeclare]
      rfl

end

namespace Draft

variable {requests : List Request}

/-- A new draft meets every sequence of requests. -/
theorem handAll_start (id : LayoutId) (hbound : requestedSize requests < sizeBound) :
    (Draft.start id).handAll requests =
      .ok ((columnsFrom 0 requests).mapIdx fun n c => c.handout id n,
        ⟨id, columnsFrom 0 requests, requestedSize requests⟩) := by
  have hbound' : (Draft.start id).cursor + requestedSize requests < sizeBound := by
    rw [cursor_start]
    omega
  have heq := handAll_eq hbound'
  simpa only [cursor_start, id_start, columns_start, List.length_nil, Nat.zero_add,
    List.nil_append] using heq

/-- **Fields handed out early are found late.**  A draft meets every sequence of
requests within the machine range.  It is finished unless it was asked for
nothing, for one name twice or for an empty array, never with an overlap or a
gap, and the layout then honours each field that was handed out. -/
theorem finished_draft_honours (id : LayoutId) (hbound : requestedSize requests < sizeBound) :
    ∃ handouts d, (Draft.start id).handAll requests = .ok (handouts, d) ∧
      handouts.length = requests.length ∧
      ∃ outcome : Except LayoutError Layout, d.finish.run = .ok outcome ∧
        (∀ first second, outcome ≠ .error (.overlap first second)) ∧
        (∀ offset expected, outcome ≠ .error (.gap offset expected)) ∧
        ((∃ e, outcome = .error e) ↔ requests = [] ∨ ¬ (requests.map (·.name)).Nodup ∨
          ∃ q ∈ requests, q.shape.length? = some 0) ∧
        ∀ l, outcome = .ok l → l.Honours requests handouts := by
  refine ⟨_, _, handAll_start id hbound, by rw [List.length_mapIdx, length_columnsFrom], ?_⟩
  rcases columnsFrom_cases hbound with ⟨⟨hempty, hnamed, hfilled⟩, heq⟩ | ⟨hbad, e, hcause, heq⟩
  · refine ⟨.ok ⟨id, columnsFrom 0 requests, requestedSize requests⟩, ?_, ?_, ?_, ?_, ?_⟩
    · rw [finish, heq]
      rfl
    · rintro first second ⟨⟩
    · rintro offset expected ⟨⟩
    · refine iff_of_false (by rintro ⟨e, ⟨⟩⟩) ?_
      rintro (hnil | htwice | ⟨q, hq, hzero⟩)
      · exact hempty hnil
      · exact htwice hnamed
      · exact hfilled q hq hzero
    · rintro l ⟨⟩
      exact honours_of_named id hnamed heq
  · refine ⟨.error e, ?_, ?_, ?_, iff_of_true ⟨e, rfl⟩ hbad, ?_⟩
    · rw [finish, heq]
      rfl
    · rintro first second ⟨⟩
      rcases hcause with h | ⟨name, h⟩ | ⟨name, h⟩ <;> cases h
    · rintro offset expected ⟨⟩
      rcases hcause with h | ⟨name, h⟩ | ⟨name, h⟩ <;> cases h
    · rintro l ⟨⟩

/-- Three numbers in a row and a number behind them. -/
def weightsThenId : List Request :=
  [⟨"weights", .array .double 3⟩, ⟨"id", .scalar .int⟩]

/-- The fields of an array and of the number behind it are found again, and the
number is no field of another kind and no array. -/
theorem weights_and_id_found : requestedSize weightsThenId < sizeBound ∧
    ∃ d l, (Draft.start 5).handAll weightsThenId =
        .ok ([.array .double ⟨5, 0, 0, 3⟩, .value .int ⟨5, 1, 24⟩], d) ∧ d.finish = pure l ∧
      l.fieldArray? .double "weights" = some ⟨5, 0, 0, 3⟩ ∧
      l.field? .int "id" = some ⟨5, 1, 24⟩ ∧ l.field? .float "id" = none ∧
      l.fieldArray? .int "id" = none := by
  have hbound : requestedSize weightsThenId < sizeBound := by decide
  have hhanded : (Draft.start 5).handAll weightsThenId =
      .ok ([.array .double ⟨5, 0, 0, 3⟩, .value .int ⟨5, 1, 24⟩],
        ⟨5, columnsFrom 0 weightsThenId, 28⟩) := rfl
  obtain ⟨handouts, d, hhand, -, outcome, hfinish, -, -, hrefused, hhonours⟩ :=
    finished_draft_honours 5 hbound
  rw [hhanded] at hhand
  cases hhand
  cases outcome with
  | error e => exact absurd (hrefused.mp ⟨e, rfl⟩) (by decide)
  | ok l =>
      have hweights := (hhonours l rfl).found 0 _ _ rfl rfl
      have hid := (hhonours l rfl).found 1 _ _ rfl rfl
      exact ⟨hbound, _, l, hhanded, hfinish, hweights.fieldArray .double, hid.field .int,
        hid.field .float, hid.fieldArray .int⟩

end Draft

end RecordPool
