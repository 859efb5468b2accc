/-
# Accepted layouts

The columns of a layout that was accepted lie inside its records, share no
cell and have different names, in whatever order they were declared.
-/
import RecordPool.Proofs.Layout.Drafts

namespace RecordPool

/-! ## Pairs of columns -/

/-- The two columns share no cell. -/
def Column.Apart (c d : Column) : Prop :=
  c.offset + c.size ≤ d.offset ∨ d.offset + d.size ≤ c.offset

/-- Being apart goes both ways. -/
theorem Column.Apart.symm {c d : Column} (h : c.Apart d) : d.Apart c :=
  Or.symm h

variable {columns : List Column} {start stop : Nat}

/-- The columns of a stack are apart from each other. -/
theorem Stacked.pairwise (h : Stacked start columns stop) : columns.Pairwise Column.Apart := by
  induction h with
  | nil start => exact List.Pairwise.nil
  | @cons c columns stop hrest ih =>
      refine List.Pairwise.cons (fun d hd => Or.inl ?_) ih
      exact (hrest.bounds d hd).1

/-! ## Accepting -/

namespace Layout

/-- Sorting by offset only changes the order. -/
theorem byOffset_perm (columns : List Column) : (byOffset columns).Perm columns :=
  List.mergeSort_perm columns _

/-- Columns that tile some cells are stacked on each other. -/
theorem stacked_of_tile {start stop : Nat} {columns : List Column} {previous : String}
    (htile : tile start previous columns = pure stop) : Stacked start columns stop := by
  induction columns generalizing start previous with
  | nil =>
      cases htile
      exact .nil _
  | cons c columns ih =>
      rw [tile] at htile
      by_cases hbefore : c.offset < start
      · rw [if_pos hbefore] at htile
        cases htile
      rw [if_neg hbefore] at htile
      by_cases hbehind : start < c.offset
      · rw [if_pos hbehind] at htile
        cases htile
      rw [if_neg hbehind] at htile
      obtain rfl : start = c.offset := by omega
      by_cases hsum : c.offset + c.size < sizeBound
      · rw [addSize_eq_ok hsum, lift_ok] at htile
        exact .cons (ih htile)
      · rw [addSize, if_neg hsum] at htile
        cases htile

/-- The layout was accepted, as a table of columns or as a finished draft. -/
def Accepted (l : Layout) : Prop :=
  (∃ id columns, ofColumns id columns = pure l) ∨ ∃ d : Draft, d.finish = pure l

/-- The columns lie inside the records and share no cell. -/
structure Tiled (l : Layout) : Prop where
  within : ∀ c ∈ l.columns, c.offset + c.size ≤ l.size
  apart : ∀ m n c d, l.columnAt? m = some c → l.columnAt? n = some d → m ≠ n → c.Apart d

/-- A table of columns that is accepted is tiled by them. -/
theorem tiled_of_ofColumns {id : LayoutId} {columns : List Column} {l : Layout}
    (h : ofColumns id columns = pure l) :
    l.Tiled := by
  rw [ofColumns] at h
  by_cases hempty : columns.isEmpty
  · rw [if_pos hempty] at h
    cases h
  rw [if_neg hempty] at h
  obtain ⟨-, -, hrest⟩ := bind_eq_pure_iff.mp h
  obtain ⟨size, htile, hput⟩ := bind_eq_pure_iff.mp hrest
  cases hput
  have hstacked := stacked_of_tile htile
  have hperm := byOffset_perm columns
  have hpairwise := (hperm.pairwise_iff Column.Apart.symm).mp hstacked.pairwise
  rw [List.pairwise_iff_getElem] at hpairwise
  exact {
    within := fun c hc => (hstacked.bounds c (hperm.mem_iff.mpr hc)).2
    apart := by
      intro m n c d hm hn hne
      obtain ⟨hmlt, rfl⟩ := List.getElem?_eq_some_iff.mp hm
      obtain ⟨hnlt, rfl⟩ := List.getElem?_eq_some_iff.mp hn
      rcases Nat.lt_or_gt_of_ne hne with hlt | hgt
      · exact hpairwise m n hmlt hnlt hlt
      · exact (hpairwise n m hnlt hmlt hgt).symm }

/-- **An accepted layout is tiled by its columns.** -/
theorem Accepted.tiled {l : Layout} (h : l.Accepted) : l.Tiled := by
  rcases h with ⟨id, columns, h⟩ | ⟨d, h⟩
  · exact tiled_of_ofColumns h
  · exact tiled_of_ofColumns h

/-! ## Columns by name -/

section Names

variable {seen : List String} {columns : List Column} {l : Layout} {c : Column} {n : Nat}

/-- Columns that can be declared have new and different names. -/
theorem names_of_declare (hdeclare : declare seen columns = pure ()) :
    (columns.map (·.name)).Nodup ∧ ∀ c ∈ columns, c.name ∉ seen := by
  induction columns generalizing seen with
  | nil => exact ⟨List.nodup_nil, by simp⟩
  | cons c columns ih =>
      rw [declare] at hdeclare
      by_cases hfilled : c.shape.length? = some 0
      · rw [if_pos hfilled] at hdeclare
        cases hdeclare
      rw [if_neg hfilled] at hdeclare
      obtain ⟨size, -, hdeclare⟩ := bind_eq_pure_iff.mp hdeclare
      by_cases hseen : c.name ∈ seen
      · rw [if_pos hseen] at hdeclare
        cases hdeclare
      rw [if_neg hseen] at hdeclare
      obtain ⟨hnodup, hnew⟩ := ih hdeclare
      refine ⟨?_, ?_⟩
      · rw [List.map_cons, List.nodup_cons]
        refine ⟨fun hmem => ?_, hnodup⟩
        obtain ⟨d, hd, heq⟩ := List.mem_map.mp hmem
        exact hnew d hd (heq ▸ List.mem_cons_self)
      · intro d hd
        rcases List.mem_cons.mp hd with rfl | hd
        · exact hseen
        · exact fun hmem => hnew d hd (List.mem_cons_of_mem _ hmem)

/-- Columns that tile some cells end within the machine range. -/
theorem lt_of_tile {start stop : Nat} {previous : String}
    (htile : tile start previous columns = pure stop) (hstart : start < sizeBound) :
    stop < sizeBound := by
  induction columns generalizing start previous with
  | nil =>
      cases htile
      exact hstart
  | cons c columns ih =>
      rw [tile] at htile
      by_cases hbefore : c.offset < start
      · rw [if_pos hbefore] at htile
        cases htile
      rw [if_neg hbefore] at htile
      by_cases hbehind : start < c.offset
      · rw [if_pos hbehind] at htile
        cases htile
      rw [if_neg hbehind] at htile
      by_cases hsum : c.offset + c.size < sizeBound
      · rw [addSize_eq_ok hsum, lift_ok] at htile
        exact ih htile hsum
      · rw [addSize, if_neg hsum] at htile
        cases htile

/-- The columns of an accepted layout have different names, and its records have
a machine size. -/
theorem Accepted.named (h : l.Accepted) :
    (l.columns.map (·.name)).Nodup ∧ l.size < sizeBound := by
  have hcolumns : ∀ {id : LayoutId} {columns : List Column}, ofColumns id columns = pure l →
      (l.columns.map (·.name)).Nodup ∧ l.size < sizeBound := by
    intro id columns h
    rw [ofColumns] at h
    by_cases hempty : columns.isEmpty
    · rw [if_pos hempty] at h
      cases h
    rw [if_neg hempty] at h
    obtain ⟨⟨⟩, hdeclare, hrest⟩ := bind_eq_pure_iff.mp h
    obtain ⟨size, htile, hput⟩ := bind_eq_pure_iff.mp hrest
    cases hput
    exact ⟨(names_of_declare hdeclare).1, lt_of_tile htile (by decide)⟩
  rcases h with ⟨id, columns, h⟩ | ⟨d, h⟩
  · exact hcolumns h
  · exact hcolumns h

/-- A column is found by its name where no other one has it. -/
theorem slot?_eq (hnamed : (l.columns.map (·.name)).Nodup) (hc : l.columnAt? n = some c) :
    l.slot? c.name = some n := by
  have hlt : n < l.columns.length := (List.getElem?_eq_some_iff.mp hc).1
  have hget : l.columns[n] = c := (List.getElem?_eq_some_iff.mp hc).2
  have hname : ∀ m (hm : m < l.columns.length), l.columns[m].name = c.name → m = n := by
    intro m hm heq
    refine (List.getElem?_inj (by simpa using hm) hnamed).mp ?_
    rw [List.getElem?_map, List.getElem?_map, List.getElem?_eq_getElem hm,
      List.getElem?_eq_getElem hlt, Option.map_some, Option.map_some, heq, hget]
  rw [slot?, List.findIdx?_eq_some_iff_getElem]
  refine ⟨hlt, by rw [hget, beq_self_eq_true], fun m hm heq => ?_⟩
  have := hname m (by omega) (beq_iff_eq.mp heq)
  omega

/-- The column with a name that no other one has. -/
theorem column?_eq (hnamed : (l.columns.map (·.name)).Nodup) (hc : l.columnAt? n = some c) :
    l.column? c.name = some c := by
  rw [column?, slot?_eq hnamed hc]
  exact hc

end Names

end Layout

end RecordPool
