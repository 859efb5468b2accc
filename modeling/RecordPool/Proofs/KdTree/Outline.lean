/-
# Outlines of k-d trees

An outline is a tree of points as a plain value, each node with the index of
its record.  `Outline.plan` is the outline that building aims at: its indices
are in preorder, its points are those given, and with a total order of the
coordinates every node separates its subtrees on its axis.
-/
import Mathlib
import RecordPool.KdTree.Build

namespace RecordPool

/-- A tree of points, each with the index of its record. -/
inductive Outline (F : Type) where
  /-- No point. -/
  | empty
  /-- A point and its two subtrees. -/
  | node (index : Nat) (point : Pending F) (left right : Outline F)

namespace Outline

variable {F : Type}

/-- The index of the topmost node. -/
def root? : Outline F → Option RecordIndex
  | empty => none
  | node index _ _ _ => some index

/-- The indices, each before those of its left and its right subtree. -/
def indices : Outline F → List Nat
  | empty => []
  | node index _ left right => index :: (left.indices ++ right.indices)

/-- The points, in the order of the indices. -/
def points : Outline F → List (Pending F)
  | empty => []
  | node _ point left right => point :: (left.points ++ right.points)

/-- There is an index for each point. -/
theorem length_indices (o : Outline F) : o.indices.length = o.points.length := by
  induction o with
  | empty => rfl
  | node index point left right ihl ihr =>
      simp only [indices, points, List.length_cons, List.length_append, ihl, ihr]

/-! ## Plans -/

/-- The arranged points are those before the middle one, the middle one, and
those behind it. -/
theorem exists_arranged (selection : Selection) (order : Pending F → Pending F → Ordering)
    {items : List (Pending F)} (hne : items ≠ []) :
    ∃ item, (selection.select order items (items.length / 2))[items.length / 2]? = some item ∧
      ((selection.select order items (items.length / 2)).take (items.length / 2)).length =
        items.length / 2 ∧
      ((selection.select order items (items.length / 2)).drop (items.length / 2 + 1)).length +
        items.length / 2 + 1 = items.length ∧
      ((selection.select order items (items.length / 2)).take (items.length / 2) ++
        item :: (selection.select order items (items.length / 2)).drop (items.length / 2 + 1)).Perm
          items := by
  have hlength : (selection.select order items (items.length / 2)).length = items.length :=
    (selection.perm order items _).length_eq
  have hpos : 0 < items.length := List.length_pos_iff.mpr hne
  have hlt : items.length / 2 < (selection.select order items (items.length / 2)).length := by
    omega
  refine ⟨_, List.getElem?_eq_getElem hlt, ?_, ?_, ?_⟩
  · rw [List.length_take]
    omega
  · rw [List.length_drop]
    omega
  · rw [← List.drop_eq_getElem_cons hlt, List.take_append_drop]
    exact selection.perm order items _

variable [Arithmetic F]

/-- The outline of some points, with the indices from `start` on: the middle
point by the axis of the depth, and the outlines of the points before it and
behind it. -/
def plan (selection : Selection) (dimension depth start : Nat) (items : List (Pending F)) :
    Outline F :=
  if items.length = 0 then
    empty
  else
    let middle := items.length / 2
    let arranged := selection.select (Pending.compareOn (depth % dimension)) items middle
    match arranged[middle]? with
    | none => empty
    | some item =>
        node start item
          (plan selection dimension (depth + 1) (start + 1) (arranged.take middle))
          (plan selection dimension (depth + 1) (start + 1 + middle)
            (arranged.drop (middle + 1)))
  termination_by items.length
  decreasing_by
    all_goals
      have hlength (order : Pending F → Pending F → Ordering) (k : Nat) :
          (selection.select order items k).length = items.length :=
        (selection.perm order items k).length_eq
      simp only [List.length_take, List.length_drop, hlength]
      omega

variable {selection : Selection} {dimension depth start : Nat} {items : List (Pending F)}

/-- Without points there is no node. -/
theorem plan_nil : plan selection dimension depth start [] = (empty : Outline F) := by
  rw [plan]
  rfl

/-- The plan of some points has the middle one in its topmost node. -/
theorem plan_of_arranged (hne : items ≠ []) {arranged : List (Pending F)} {item : Pending F}
    (harranged : selection.select (Pending.compareOn (depth % dimension)) items
      (items.length / 2) = arranged)
    (hitem : arranged[items.length / 2]? = some item) :
    plan selection dimension depth start items =
      node start item
        (plan selection dimension (depth + 1) (start + 1) (arranged.take (items.length / 2)))
        (plan selection dimension (depth + 1) (start + 1 + items.length / 2)
          (arranged.drop (items.length / 2 + 1))) := by
  have hpos : items.length ≠ 0 := fun h0 => hne (List.length_eq_zero_iff.mp h0)
  rw [plan, if_neg hpos]
  simp only [harranged, hitem]

/-- A single point has a node without children, however points are selected. -/
theorem plan_singleton (item : Pending F) :
    plan selection dimension depth start [item] = node start item empty empty := by
  have harranged : selection.select (Pending.compareOn (depth % dimension)) [item]
      ([item].length / 2) = [item] :=
    List.perm_singleton.mp (selection.perm _ _ _)
  have hmiddle : [item][[item].length / 2]? = some item := by simp
  rw [plan_of_arranged (List.cons_ne_nil _ _) harranged hmiddle]
  simp [plan_nil]

/-- What holds of no points, and of a middle point with two lists of which it
holds, holds of every plan. -/
theorem plan_induction {P : Nat → Nat → List (Pending F) → Outline F → Prop}
    (nil : ∀ depth start, P depth start [] empty)
    (node : ∀ depth start items before item after left right,
      selection.select (Pending.compareOn (depth % dimension)) items (items.length / 2) =
        before ++ item :: after →
      before.length = items.length / 2 → before.length + after.length + 1 = items.length →
      (before ++ item :: after).Perm items →
      P (depth + 1) (start + 1) before left →
      P (depth + 1) (start + 1 + before.length) after right →
      P depth start items (.node start item left right)) :
    P depth start items (plan selection dimension depth start items) := by
  induction hsize : items.length using Nat.strong_induction_on generalizing depth start items with
  | _ size ih =>
      by_cases hne : items = []
      · subst hne
        rw [plan_nil]
        exact nil depth start
      · obtain ⟨item, hitem, hbefore, hafter, hperm⟩ :=
          exists_arranged selection (Pending.compareOn (depth % dimension)) hne
        rw [plan_of_arranged hne rfl hitem]
        set arranged := selection.select (Pending.compareOn (depth % dimension)) items
          (items.length / 2) with harranged
        have hsplit : arranged =
            arranged.take (items.length / 2) ++ item :: arranged.drop (items.length / 2 + 1) := by
          obtain ⟨hlt, hget⟩ := List.getElem?_eq_some_iff.mp hitem
          rw [← hget, ← List.drop_eq_getElem_cons hlt, List.take_append_drop]
        refine node depth start items _ item _ _ _ hsplit hbefore (by omega) hperm ?_ ?_
        · exact ih _ (by omega) rfl
        · rw [hbefore]
          exact ih _ (by omega) rfl

/-- **The indices of a plan are in preorder.** -/
theorem indices_plan : (plan selection dimension depth start items).indices =
    List.range' start items.length := by
  refine plan_induction (P := fun _ start items o => o.indices = List.range' start items.length)
    ?_ ?_
  · intro depth start
    rfl
  · intro depth start items before item after left right _ _ hlength _ ihl ihr
    rw [indices, ihl, ihr, ← hlength, List.range'_append_1, ← List.range'_succ]

/-- **The points of a plan are those given.** -/
theorem points_plan : (plan selection dimension depth start items).points.Perm items := by
  refine plan_induction (P := fun _ _ items o => o.points.Perm items) ?_ ?_
  · intro depth start
    exact List.Perm.refl []
  · intro depth start items before item after left right _ _ _ hperm ihl ihr
    rw [points]
    exact ((ihl.append ihr).cons item).trans (List.perm_middle.symm.trans hperm)

/-! ## Separation -/

/-- Every node separates its subtrees: on the axis of its depth the points of
the left subtree are at most its own and those of the right one at least. -/
def Separated (dimension : Nat) : Nat → Outline F → Prop
  | _, empty => True
  | depth, node _ point left right =>
      (∀ y ∈ left.points, (Pending.compareOn (depth % dimension) y point).isLE) ∧
        (∀ y ∈ right.points, (Pending.compareOn (depth % dimension) point y).isLE) ∧
        left.Separated dimension (depth + 1) ∧ right.Separated dimension (depth + 1)

/-- Comparing coordinates on an axis is a total order of points if comparing
coordinates is one. -/
theorem transCmp_compareOn [Std.TransCmp (Arithmetic.compare (F := F))] (d : Nat) :
    Std.TransCmp (Pending.compareOn (F := F) d) where
  eq_swap := by
    intro a b
    show Arithmetic.compare (a.coordinate d) (b.coordinate d) =
      (Arithmetic.compare (b.coordinate d) (a.coordinate d)).swap
    exact Std.OrientedCmp.eq_swap
  isLE_trans := by
    intro a b c hab hbc
    show (Arithmetic.compare (a.coordinate d) (c.coordinate d)).isLE
    exact Std.TransCmp.isLE_trans hab hbc

/-- **Every node of a plan separates its subtrees**, whichever of several equal
coordinates the selection puts in the middle. -/
theorem separated_plan [Std.TransCmp (Arithmetic.compare (F := F))] :
    (plan selection dimension depth start items).Separated dimension depth := by
  suffices hplan : (plan selection dimension depth start items).Separated dimension depth ∧
      (plan selection dimension depth start items).points.Perm items from hplan.1
  refine plan_induction (P := fun depth _ items o => o.Separated dimension depth ∧
    o.points.Perm items) ?_ ?_
  · intro depth start
    exact ⟨trivial, List.Perm.refl []⟩
  · rintro depth start items before item after left right harranged hbefore hlength hperm
      ⟨hleft, hleftPoints⟩ ⟨hright, hrightPoints⟩
    have := transCmp_compareOn (F := F) (depth % dimension)
    obtain ⟨before', x, after', heq, hlength', hle, hge⟩ :=
      selection.splits (Pending.compareOn (depth % dimension)) items (items.length / 2) (by omega)
    -- both splittings cut the same list at the same place
    rw [harranged] at heq
    obtain ⟨rfl, htail⟩ := List.append_inj heq (by omega)
    obtain ⟨rfl, rfl⟩ := List.cons.inj htail
    refine ⟨⟨?_, ?_, hleft, hright⟩, ?_⟩
    · intro y hy
      exact hle y (hleftPoints.mem_iff.mp hy)
    · intro y hy
      exact hge y (hrightPoints.mem_iff.mp hy)
    · rw [points]
      exact ((hleftPoints.append hrightPoints).cons item).trans (List.perm_middle.symm.trans hperm)

end Outline

end RecordPool
