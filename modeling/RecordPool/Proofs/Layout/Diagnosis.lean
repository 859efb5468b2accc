/-
# Tilings and the errors of layouts

A table of columns is accepted exactly when it can form a record: there is a
column, no array is empty, no name is used twice, and every cell of the record
belongs to exactly one column.  A table that is refused is refused with an
error that is true of it, whichever of its defects that is.
-/
import RecordPool.Proofs.Layout.Tiling

namespace RecordPool

/-! ## Sizes -/

/-- A value of any kind takes a cell. -/
theorem Kind.size_pos (kind : Kind) : 0 < kind.size := by
  cases kind <;> decide

/-- Only an empty array takes no cell. -/
theorem Shape.size_pos {shape : Shape} (h : shape.length? ≠ some 0) : 0 < shape.size := by
  cases shape with
  | scalar kind => exact kind.size_pos
  | array element length =>
      have hlength : length ≠ 0 := fun hzero => h (by rw [hzero]; rfl)
      exact Nat.mul_pos element.size_pos (Nat.pos_of_ne_zero hlength)

/-- The number of cells that the columns take together. -/
def totalSize (columns : List Column) : Nat :=
  (columns.map Column.size).sum

theorem totalSize_cons (c : Column) (columns : List Column) :
    totalSize (c :: columns) = c.size + totalSize columns := by
  rw [totalSize, List.map_cons, List.sum_cons, totalSize]

/-- No column takes more cells than all of them. -/
theorem size_le_totalSize {c : Column} {columns : List Column} (hc : c ∈ columns) :
    c.size ≤ totalSize columns :=
  List.le_sum_of_mem (List.mem_map_of_mem hc)

/-! ## Covered cells -/

/-- The cell belongs to the column. -/
def Column.Covers (c : Column) (cell : Nat) : Prop :=
  c.offset ≤ cell ∧ cell < c.offset + c.size

instance (c : Column) (cell : Nat) : Decidable (c.Covers cell) :=
  inferInstanceAs (Decidable (_ ∧ _))

/-- A column that is no empty array covers its first cell. -/
theorem Column.covers_offset {c : Column} (h : c.shape.length? ≠ some 0) : c.Covers c.offset :=
  ⟨Nat.le_refl _, Nat.lt_add_of_pos_right (Shape.size_pos h)⟩

/-- Each cell below `total` belongs to exactly one of the columns, and no other
cell belongs to any. -/
def Tiles (columns : List Column) (total : Nat) : Prop :=
  ∀ cell, columns.countP (fun c => c.Covers cell) = if cell < total then 1 else 0

variable {columns columns' : List Column} {start stop total : Nat}

/-- Tiling is not a matter of order. -/
theorem Tiles.perm (h : Tiles columns total) (hperm : columns.Perm columns') :
    Tiles columns' total := fun cell =>
  (hperm.countP_eq _).symm.trans (h cell)

/-- A stack covers each cell between its start and its end once. -/
theorem Stacked.countP_covers (h : Stacked start columns stop) (cell : Nat) :
    columns.countP (fun c => c.Covers cell) = if start ≤ cell ∧ cell < stop then 1 else 0 := by
  induction h with
  | nil start => rw [if_neg (by omega), List.countP_nil]
  | @cons c columns stop hrest ih =>
      have hle := hrest.start_le
      rw [List.countP_cons, ih]
      by_cases hcovers : c.Covers cell
      · obtain ⟨hstart, hstop⟩ := hcovers
        rw [if_pos (decide_eq_true ⟨hstart, hstop⟩), if_neg (by omega), if_pos (by omega)]
      · have hiff : (c.offset + c.size ≤ cell ∧ cell < stop) ↔ (c.offset ≤ cell ∧ cell < stop) := by
          rw [Column.Covers] at hcovers
          omega
        rw [decide_eq_false hcovers, if_neg Bool.false_ne_true, Nat.add_zero, if_congr hiff rfl rfl]

/-- A stack that starts at cell zero tiles its cells. -/
theorem Stacked.tiles (h : Stacked 0 columns stop) : Tiles columns stop := fun cell => by
  rw [h.countP_covers]
  simp only [Nat.zero_le, true_and]

/-- A stack is as long as its columns together. -/
theorem Stacked.stop_eq (h : Stacked start columns stop) : stop = start + totalSize columns := by
  induction h with
  | nil start => rfl
  | cons _ ih => rw [ih, totalSize_cons, Nat.add_assoc]

/-! ## True errors -/

/-- What an error says about a table of columns. -/
def LayoutError.Describes (columns : List Column) : LayoutError → Prop
  | .empty => columns = []
  | .zeroLengthArray name => ∃ c ∈ columns, c.name = name ∧ c.shape.length? = some 0
  | .duplicateName name => 2 ≤ (columns.map (·.name)).count name
  | .overlap first second => first ≠ second ∧ ∃ c ∈ columns, ∃ d ∈ columns,
      c.name = first ∧ d.name = second ∧ c.Covers d.offset
  | .gap offset expected => expected < offset ∧
      (∃ c ∈ columns, c.offset = offset) ∧
      (expected = 0 ∨ ∃ c ∈ columns, c.offset + c.size = expected) ∧
      ∀ c ∈ columns, ∀ cell, expected ≤ cell → cell < offset → ¬ c.Covers cell

/-- The columns can form a record. -/
structure Formable (columns : List Column) : Prop where
  nonempty : columns ≠ []
  filled : ∀ c ∈ columns, c.shape.length? ≠ some 0
  named : (columns.map (·.name)).Nodup
  tiled : ∃ total, Tiles columns total

namespace LayoutError

variable {e : LayoutError}

/-- What an error says is not a matter of order. -/
theorem Describes.perm (h : e.Describes columns) (hperm : columns.Perm columns') :
    e.Describes columns' := by
  cases e with
  | empty =>
      obtain rfl : columns = [] := h
      exact hperm.nil_eq.symm
  | duplicateName name =>
      show 2 ≤ _
      rw [← (hperm.map _).count_eq]
      exact h
  | zeroLengthArray name => simpa only [Describes, hperm.mem_iff] using h
  | overlap first second => simpa only [Describes, hperm.mem_iff] using h
  | gap offset expected => simpa only [Describes, hperm.mem_iff] using h

/-- Columns that overlap tile nothing. -/
theorem not_tiles_of_overlap {first second : String}
    (h : (overlap first second).Describes columns)
    (hfilled : ∀ c ∈ columns, c.shape.length? ≠ some 0) : ¬ Tiles columns total := by
  obtain ⟨hne, c, hc, d, hd, rfl, rfl, hcovers⟩ := h
  intro htiles
  -- the first cell of the second column belongs to both
  have hown : d.Covers d.offset := Column.covers_offset (hfilled d hd)
  have hnodup : [c, d].Nodup := by
    simpa using fun heq : c = d => hne (by rw [heq])
  have hsub : [c, d].Subperm columns := by
    refine List.subperm_of_subset hnodup fun a ha => ?_
    rcases List.mem_pair.mp ha with rfl | rfl
    · exact hc
    · exact hd
  have hcount := hsub.countP_le fun a => a.Covers d.offset
  rw [htiles d.offset] at hcount
  simp only [List.countP_cons, hcovers, hown, decide_true, if_true, List.countP_nil] at hcount
  split at hcount <;> omega

/-- Columns that leave a gap tile nothing. -/
theorem not_tiles_of_gap {offset expected : Nat}
    (h : (gap offset expected).Describes columns)
    (hfilled : ∀ c ∈ columns, c.shape.length? ≠ some 0) : ¬ Tiles columns total := by
  obtain ⟨hlt, ⟨c, hc, rfl⟩, -, hnone⟩ := h
  intro htiles
  have hown : c.Covers c.offset := Column.covers_offset (hfilled c hc)
  -- the cell behind the gap belongs to a column, and so must the gap
  have hbehind : c.offset < total := by
    by_contra hge
    have hzero := htiles c.offset
    rw [if_neg hge, List.countP_eq_zero] at hzero
    exact hzero c hc (decide_eq_true hown)
  have hgap : 0 < columns.countP fun c => c.Covers expected := by
    rw [htiles expected, if_pos (by omega)]
    exact Nat.one_pos
  obtain ⟨d, hd, hcovers⟩ := List.countP_pos_iff.mp hgap
  exact hnone d hd expected (Nat.le_refl _) hlt (of_decide_eq_true hcovers)

/-- **Columns that an error is true of** cannot form a record. -/
theorem Describes.not_formable (h : e.Describes columns) : ¬ Formable columns := by
  intro hform
  obtain ⟨total, htiles⟩ := hform.tiled
  cases e with
  | empty => exact hform.nonempty h
  | zeroLengthArray name =>
      obtain ⟨c, hc, -, hempty⟩ := h
      exact hform.filled c hc hempty
  | duplicateName name =>
      have hle := List.nodup_iff_count_le_one.mp hform.named name
      have hge : 2 ≤ (columns.map (·.name)).count name := h
      omega
  | overlap first second => exact not_tiles_of_overlap h hform.filled htiles
  | gap offset expected => exact not_tiles_of_gap h hform.filled htiles

end LayoutError

/-! ## Declaring and sweeping -/

namespace Layout

/-- **What declaring columns can lead to.**  Either they are declared, and no
array is empty, or an error is returned that is true of them and of the names
that were seen before. -/
theorem declare_cases {seen : List String} (hsize : ∀ c ∈ columns, c.size < sizeBound) :
    (declare seen columns = pure () ∧ ∀ c ∈ columns, c.shape.length? ≠ some 0) ∨
      (∃ c ∈ columns, c.shape.length? = some 0 ∧
        declare seen columns = throw (.zeroLengthArray c.name)) ∨
      ∃ c ∈ columns, declare seen columns = throw (.duplicateName c.name) ∧
        (c.name ∈ seen ∨ 2 ≤ (columns.map (·.name)).count c.name) := by
  induction columns generalizing seen with
  | nil => exact Or.inl ⟨rfl, by simp⟩
  | cons c columns ih =>
      rw [declare]
      by_cases hempty : c.shape.length? = some 0
      · refine Or.inr (Or.inl ⟨c, List.mem_cons_self, hempty, ?_⟩)
        rw [if_pos hempty]
        rfl
      rw [if_neg hempty, Shape.checkedSize_eq (hsize c List.mem_cons_self), lift_ok]
      by_cases hseen : c.name ∈ seen
      · refine Or.inr (Or.inr ⟨c, List.mem_cons_self, ?_, Or.inl hseen⟩)
        rw [if_pos hseen]
        rfl
      rw [if_neg hseen]
      change (declare (c.name :: seen) columns = _ ∧ _) ∨ (∃ d ∈ _, _ ∧
        declare (c.name :: seen) columns = _) ∨ ∃ d ∈ _, declare (c.name :: seen) columns = _ ∧ _
      rcases @ih (c.name :: seen) fun d hd => hsize d (List.mem_cons_of_mem c hd) with
        ⟨heq, hfilled⟩ | ⟨d, hd, hzero, heq⟩ | ⟨d, hd, heq, htwice⟩
      · refine Or.inl ⟨heq, fun d hd => ?_⟩
        rcases List.mem_cons.mp hd with rfl | hd
        · exact hempty
        · exact hfilled d hd
      · exact Or.inr (Or.inl ⟨d, List.mem_cons_of_mem c hd, hzero, heq⟩)
      · refine Or.inr (Or.inr ⟨d, List.mem_cons_of_mem c hd, heq, ?_⟩)
        rw [List.map_cons, List.count_cons]
        rcases htwice with hmem | htwice
        · rcases List.mem_cons.mp hmem with hname | hmem
          · -- the name of the first column comes up again
            have honce : 0 < (columns.map (·.name)).count d.name :=
              List.count_pos_iff.mpr (List.mem_map_of_mem hd)
            rw [hname, beq_self_eq_true, if_pos rfl, ← hname]
            omega
          · exact Or.inl hmem
        · omega

/-- **What a sweep over sorted columns can lead to.**  The columns `swept` so
far lie back to back up to `cursor`; either the rest continues them, or the
sweep stops at a defect of all columns together. -/
theorem tile_cases {swept rest : List Column} {cursor : Nat} {previous : String}
    (hswept : Stacked 0 swept cursor)
    (hlast : cursor = 0 ∨ ∃ c ∈ swept, c.name = previous ∧ c.offset + c.size = cursor)
    (hsorted : (swept ++ rest).Pairwise fun a b => a.offset ≤ b.offset)
    (hnamed : ((swept ++ rest).map (·.name)).Nodup)
    (hbound : cursor + totalSize rest < sizeBound) :
    (∃ stop, tile cursor previous rest = pure stop ∧ Stacked 0 (swept ++ rest) stop) ∨
      ∃ e : LayoutError, tile cursor previous rest = throw e ∧ e.Describes (swept ++ rest) := by
  induction rest generalizing swept cursor previous with
  | nil =>
      refine Or.inl ⟨cursor, rfl, ?_⟩
      rw [List.append_nil]
      exact hswept
  | cons c rest ih =>
      have hc : c ∈ swept ++ c :: rest := List.mem_append_right _ List.mem_cons_self
      have hbefore : ∀ d ∈ swept, d.offset ≤ c.offset := fun d hd =>
        (List.pairwise_append.mp hsorted).2.2 d hd c List.mem_cons_self
      have hbehind : ∀ d ∈ c :: rest, c.offset ≤ d.offset := by
        intro d hd
        rcases List.mem_cons.mp hd with rfl | hd
        · exact Nat.le_refl _
        · exact List.rel_of_pairwise_cons (List.pairwise_append.mp hsorted).2.1 hd
      rw [tile]
      by_cases hoverlap : c.offset < cursor
      · refine Or.inr ⟨.overlap previous c.name, by rw [if_pos hoverlap]; rfl, ?_⟩
        obtain ⟨d, hd, rfl, hstop⟩ := hlast.resolve_left (by omega)
        have hdistinct : d.name ≠ c.name := by
          rw [List.map_append, List.nodup_append] at hnamed
          exact hnamed.2.2 _ (List.mem_map_of_mem hd) _ (List.mem_map_of_mem List.mem_cons_self)
        exact ⟨hdistinct, d, List.mem_append_left _ hd, c, hc, rfl, rfl, hbefore d hd, by omega⟩
      rw [if_neg hoverlap]
      by_cases hgap : cursor < c.offset
      · refine Or.inr ⟨.gap c.offset cursor, by rw [if_pos hgap]; rfl, hgap, ⟨c, hc, rfl⟩, ?_, ?_⟩
        · rcases hlast with hzero | ⟨d, hd, -, hstop⟩
          · exact Or.inl hzero
          · exact Or.inr ⟨d, List.mem_append_left _ hd, hstop⟩
        · -- swept columns end before the gap and the others start behind it
          rintro d hd cell hfrom hto ⟨hstart, hstop⟩
          rcases List.mem_append.mp hd with hd | hd
          · have := (hswept.bounds d hd).2
            omega
          · have := hbehind d hd
            omega
      rw [if_neg hgap]
      obtain rfl : c.offset = cursor := by omega
      rw [totalSize_cons] at hbound
      rw [addSize_eq_ok (by omega), lift_ok]
      rw [List.append_cons] at hsorted hnamed ⊢
      exact ih (hswept.append rfl) (Or.inr ⟨c, by simp, rfl, rfl⟩) hsorted hnamed (by omega)

/-! ## Accepting and refusing -/

/-- Columns are sorted by their offsets. -/
theorem pairwise_byOffset (columns : List Column) :
    (byOffset columns).Pairwise fun a b => a.offset ≤ b.offset := by
  have hsorted : (byOffset columns).Pairwise fun a b => decide (a.offset ≤ b.offset) = true := by
    refine List.pairwise_mergeSort (fun a b c hab hbc => ?_) (fun a b => ?_) columns
    · exact decide_eq_true ((of_decide_eq_true hab).trans (of_decide_eq_true hbc))
    · simpa using Nat.le_total a.offset b.offset
  exact hsorted.imp of_decide_eq_true

/-- **What forming a layout can lead to.**  Either its columns lie back to back
in the order of their offsets, or an error is returned that is true of them. -/
theorem ofColumns_cases (id : LayoutId) (hbound : totalSize columns < sizeBound) :
    (ofColumns id columns = pure ⟨id, columns, totalSize columns⟩ ∧ columns ≠ [] ∧
        (∀ c ∈ columns, c.shape.length? ≠ some 0) ∧ (columns.map (·.name)).Nodup ∧
        Stacked 0 (byOffset columns) (totalSize columns)) ∨
      ∃ e : LayoutError, ofColumns id columns = throw e ∧ e.Describes columns := by
  have hperm := byOffset_perm columns
  have htotal : totalSize (byOffset columns) = totalSize columns :=
    (hperm.map Column.size).sum_eq
  rw [ofColumns]
  by_cases hempty : columns = []
  · subst hempty
    exact Or.inr ⟨.empty, rfl, rfl⟩
  rw [List.isEmpty_eq_false_iff.mpr hempty, if_neg Bool.false_ne_true]
  have hsize : ∀ c ∈ columns, c.size < sizeBound := fun c hc =>
    lt_of_le_of_lt (size_le_totalSize hc) hbound
  rcases @declare_cases columns [] hsize with
    ⟨hdeclare, hfilled⟩ | ⟨c, hc, hzero, hdeclare⟩ | ⟨c, hc, hdeclare, htwice⟩
  · have hnamed := (names_of_declare hdeclare).1
    have hnamed' : ((byOffset columns).map (·.name)).Nodup := (hperm.map _).nodup_iff.mpr hnamed
    have hbound' : 0 + totalSize (byOffset columns) < sizeBound := by omega
    have hsweep : (∃ stop, tile 0 "" (byOffset columns) = pure stop ∧
          Stacked 0 (byOffset columns) stop) ∨
        ∃ e : LayoutError, tile 0 "" (byOffset columns) = throw e ∧
          e.Describes (byOffset columns) :=
      tile_cases (.nil 0) (Or.inl rfl) (pairwise_byOffset columns) hnamed' hbound'
    rcases hsweep with ⟨stop, htile, hstacked⟩ | ⟨e, htile, hdescribes⟩
    · obtain rfl : stop = totalSize columns := by
        rw [hstacked.stop_eq, htotal, Nat.zero_add]
      refine Or.inl ⟨?_, hempty, hfilled, hnamed, hstacked⟩
      rw [hdeclare, htile]
      rfl
    · refine Or.inr ⟨e, ?_, hdescribes.perm hperm⟩
      rw [hdeclare, htile]
      rfl
  · refine Or.inr ⟨.zeroLengthArray c.name, ?_, c, hc, rfl, hzero⟩
    rw [hdeclare]
    rfl
  · refine Or.inr ⟨.duplicateName c.name, ?_, htwice.resolve_left (by simp)⟩
    rw [hdeclare]
    rfl

/-- **Accepted are exactly the tilings, and errors are true.**  Columns whose
sizes stay within the machine range are never cut short by a fault: they form a
layout, in their order and at their offsets, exactly when they tile a record,
and otherwise the error that is returned describes them. -/
theorem accepts_exactly_tilings (id : LayoutId) (hbound : totalSize columns < sizeBound) :
    ∃ outcome : Except LayoutError Layout, (ofColumns id columns).run = .ok outcome ∧
      ((∃ l, outcome = .ok l) ↔ Formable columns) ∧
      (∀ l, outcome = .ok l → l = ⟨id, columns, totalSize columns⟩ ∧ Tiles columns l.size) ∧
      ∀ e, outcome = .error e → e.Describes columns := by
  rcases ofColumns_cases id hbound with
    ⟨heq, hempty, hfilled, hnamed, hstacked⟩ | ⟨e, heq, hdescribes⟩
  · have htiles : Tiles columns (totalSize columns) :=
      hstacked.tiles.perm (byOffset_perm columns)
    refine ⟨.ok ⟨id, columns, totalSize columns⟩, by rw [heq]; rfl, ?_, ?_, ?_⟩
    · exact iff_of_true ⟨_, rfl⟩ ⟨hempty, hfilled, hnamed, _, htiles⟩
    · rintro l ⟨⟩
      exact ⟨rfl, htiles⟩
    · rintro e ⟨⟩
  · refine ⟨.error e, by rw [heq]; rfl, ?_, ?_, ?_⟩
    · refine iff_of_false ?_ hdescribes.not_formable
      rintro ⟨l, ⟨⟩⟩
    · rintro l ⟨⟩
    · rintro e' ⟨⟩
      exact hdescribes

/-- Three columns that tile sixteen cells, declared from the middle outwards. -/
def scattered : List Column :=
  [⟨"id", .scalar .int, 4⟩, ⟨"weight", .scalar .double, 8⟩, ⟨"flags", .array .byte 4, 0⟩]

/-- Columns that are declared in another order than they lie in are accepted as
they were declared. -/
theorem scattered_accepted : totalSize scattered < sizeBound ∧
    (ofColumns 7 scattered).run = .ok (.ok ⟨7, scattered, 16⟩) := by
  have hbound : totalSize scattered < sizeBound := by decide
  have hstacked : Stacked 0 _ 16 :=
    @Stacked.cons ⟨"flags", .array .byte 4, 0⟩ _ _
      (@Stacked.cons ⟨"id", .scalar .int, 4⟩ _ _
        (@Stacked.cons ⟨"weight", .scalar .double, 8⟩ _ _ (.nil 16)))
  have hform : Formable scattered :=
    ⟨by decide, by decide, by decide, 16, hstacked.tiles.perm (by decide)⟩
  obtain ⟨outcome, hrun, hiff, hlayout, -⟩ := accepts_exactly_tilings 7 hbound
  obtain ⟨l, rfl⟩ := hiff.mpr hform
  rw [hrun, (hlayout l rfl).1]
  exact ⟨hbound, rfl⟩

end Layout

end RecordPool
