/-
# Selection

Selecting the element of rank `k` rearranges a list so that this element
stands at position `k`, with nothing greater before it and nothing less behind
it.  Where elements are equal several rearrangements do; a `Selection` is any
one way to choose.  Sorting is one.
-/

namespace RecordPool

/-- A way to rearrange lists around the element of a given rank. -/
structure Selection where
  /-- The rearranged list. -/
  select : {α : Type} → (α → α → Ordering) → List α → Nat → List α
  /-- No element is lost or added. -/
  perm : ∀ {α : Type} (order : α → α → Ordering) (xs : List α) (k : Nat),
    (select order xs k).Perm xs
  /-- The element at position `k` separates the smaller from the larger ones. -/
  splits : ∀ {α : Type} (order : α → α → Ordering) [Std.TransCmp order] (xs : List α) (k : Nat),
    k < xs.length → ∃ (before : List α) (x : α) (after : List α),
      select order xs k = before ++ x :: after ∧ before.length = k ∧
        (∀ y ∈ before, (order y x).isLE) ∧ (∀ y ∈ after, (order x y).isLE)

namespace Selection

/-- In a sorted list each element separates the smaller from the larger. -/
theorem exists_split_of_pairwise {α : Type} {order : α → α → Ordering} {xs : List α} {k : Nat}
    (sorted : xs.Pairwise fun a b => (order a b).isLE) (hk : k < xs.length) :
    ∃ (before : List α) (x : α) (after : List α), xs = before ++ x :: after ∧ before.length = k ∧
      (∀ y ∈ before, (order y x).isLE) ∧ (∀ y ∈ after, (order x y).isLE) := by
  have hxs : xs = xs.take k ++ xs[k] :: xs.drop (k + 1) := by
    rw [← List.drop_eq_getElem_cons hk, List.take_append_drop]
  refine ⟨xs.take k, xs[k], xs.drop (k + 1), hxs, by simp; omega, ?_, ?_⟩
  · intro y hy
    rw [hxs, List.pairwise_append] at sorted
    exact sorted.2.2 y hy _ List.mem_cons_self
  · intro y hy
    rw [hxs, List.pairwise_append] at sorted
    exact (List.pairwise_cons.mp sorted.2.1).1 y hy

/-- Selection by sorting the whole list. -/
def bySorting : Selection where
  select := fun order xs _ => xs.mergeSort fun a b => (order a b).isLE
  perm := fun _ xs _ => List.mergeSort_perm xs _
  splits := fun {α} order _ xs k hk => by
    apply exists_split_of_pairwise
    · apply List.pairwise_mergeSort
      · intro a b c
        exact Std.TransCmp.isLE_trans
      · intro a b
        have hswap : order b a = (order a b).swap := Std.OrientedCmp.eq_swap
        rw [hswap]
        cases order a b <;> rfl
    · rwa [List.length_mergeSort]

end Selection

end RecordPool
