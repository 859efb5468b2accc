/-
# Priority queues as multisets

A sift only exchanges elements, so that a queue holds exactly what was offered
and not yet polled, whatever the comparator answers.  If its answers are a total
order, the sift that follows a change at one place puts the heap in order again,
and a poll takes a least element.
-/
import Mathlib
import RecordPool.Pool.PriorityQueue
import RecordPool.Proofs.Outcome

namespace RecordPool

/-- The comparator answers by `cmp` on the references in `Known`. -/
def Comparator.Answers (order : Comparator) (cmp : Reference → Reference → Ordering)
    (Known : Reference → Prop) : Prop :=
  ∀ x y, Known x → Known y → order x y = .ok (cmp x y)

variable {order : Comparator} {cmp : Reference → Reference → Ordering}
  {Known : Reference → Prop} {heap : Array Reference} {pos i j k : Nat} {r : Reference}

/-! ## Arrays as multisets -/

/-- Appending an element adds it. -/
theorem perm_push {α : Type} (xs : Array α) (x : α) : (xs.push x).toList.Perm (x :: xs.toList) := by
  rw [Array.toList_push]
  exact List.perm_append_singleton x xs.toList

/-- Two elements exchange their places and the others stay. -/
theorem getElem?_swapIfInBounds {α : Type} {heap : Array α} (hi : i < heap.size)
    (hj : j < heap.size) (k : Nat) :
    (heap.swapIfInBounds i j)[k]? = heap[Equiv.swap i j k]? := by
  rw [Array.swapIfInBounds_def, dif_pos hi, dif_pos hj, Array.getElem?_swap]
  by_cases hki : k = i
  · subst hki
    rw [Equiv.swap_apply_left, Array.getElem?_eq_getElem hj]
    by_cases hkj : j = k
    · subst hkj
      simp
    · simp [hkj]
  · by_cases hkj : k = j
    · subst hkj
      rw [Equiv.swap_apply_right, if_pos rfl, Array.getElem?_eq_getElem hi]
    · rw [Equiv.swap_apply_of_ne_of_ne hki hkj, if_neg (Ne.symm hkj), if_neg (Ne.symm hki)]

/-- Exchanging two elements neither loses nor adds one. -/
theorem perm_swapIfInBounds {α : Type} (heap : Array α) (i j : Nat) :
    (heap.swapIfInBounds i j).toList.Perm heap.toList := by
  rw [Array.swapIfInBounds_def]
  split
  · split
    · exact (Array.swap_perm _ _).toList
    · exact List.Perm.refl _
  · exact List.Perm.refl _

/-- Known elements are compared. -/
theorem precedes_eq (h : order.Answers cmp Known) (hknown : ∀ x ∈ heap.toList, Known x)
    (hi : i < heap.size) (hj : j < heap.size) :
    precedes order heap i j = .ok (cmp heap[i] heap[j] == .lt) := by
  have hki : Known heap[i] := hknown _ (Array.mem_toList_iff.mpr (Array.getElem_mem hi))
  have hkj : Known heap[j] := hknown _ (Array.mem_toList_iff.mpr (Array.getElem_mem hj))
  rw [precedes, fetch_eq_ok (Array.getElem?_eq_getElem hi), ok_bind,
    fetch_eq_ok (Array.getElem?_eq_getElem hj), ok_bind, h _ _ hki hkj]
  rfl

/-! ## Order -/

/-- The element at `i`, if there is one, is at most the one at `j`. -/
def AtMost (cmp : Reference → Reference → Ordering) (heap : Array Reference) (i j : Nat) : Prop :=
  ∀ x y, heap[i]? = some x → heap[j]? = some y → (cmp x y).isLE

/-- Every element is at least its parent. -/
def HeapOrdered (cmp : Reference → Reference → Ordering) (heap : Array Reference) : Prop :=
  ∀ i, 0 < i → AtMost cmp heap ((i - 1) / 2) i

/-- Comparisons that agree on the elements put them in order alike. -/
theorem HeapOrdered.congr {cmp' : Reference → Reference → Ordering} (h : HeapOrdered cmp heap)
    (hcmp : ∀ x ∈ heap.toList, ∀ y ∈ heap.toList, cmp' x y = cmp x y) : HeapOrdered cmp' heap := by
  have hmem : ∀ {k : Nat} {z : Reference}, heap[k]? = some z → z ∈ heap.toList := by
    intro k z hz
    rw [Array.mem_toList_iff]
    exact Array.mem_of_getElem? hz
  intro i hi x y hx hy
  rw [hcmp x (hmem hx) y (hmem hy)]
  exact h i hi x y hx hy

/-- Only the element at `pos` may be less than its parent; its children are at
least that parent, so that it can take the parent's place. -/
structure MayRise (cmp : Reference → Reference → Ordering) (heap : Array Reference) (pos : Nat) :
    Prop where
  others : ∀ i, 0 < i → i ≠ pos → AtMost cmp heap ((i - 1) / 2) i
  below : 0 < pos → ∀ i, 0 < i → (i - 1) / 2 = pos → AtMost cmp heap ((pos - 1) / 2) i

/-- Only the element at `pos` may be greater than its children; these are at
least its parent, so that one of them can take its place. -/
structure MaySink (cmp : Reference → Reference → Ordering) (heap : Array Reference) (pos : Nat) :
    Prop where
  others : ∀ i, 0 < i → (i - 1) / 2 ≠ pos → AtMost cmp heap ((i - 1) / 2) i
  below : 0 < pos → ∀ i, 0 < i → (i - 1) / 2 = pos → AtMost cmp heap ((pos - 1) / 2) i

/-- An element is at most whatever is at least something it is at most. -/
theorem AtMost.trans [Std.TransCmp cmp] (hj : j < heap.size) (hij : AtMost cmp heap i j)
    (hjk : AtMost cmp heap j k) : AtMost cmp heap i k := by
  intro x z hx hz
  have hy := Array.getElem?_eq_getElem hj
  exact Std.TransCmp.isLE_trans (hij x _ hx hy) (hjk _ z hy hz)

/-- An element that is less is at most the other one. -/
theorem atMost_of_lt (hi : i < heap.size) (hj : j < heap.size)
    (hlt : (cmp heap[i] heap[j] == .lt) = true) : AtMost cmp heap i j := by
  intro x y hx hy
  obtain rfl : heap[i] = x := Option.some.inj ((Array.getElem?_eq_getElem hi).symm.trans hx)
  obtain rfl : heap[j] = y := Option.some.inj ((Array.getElem?_eq_getElem hj).symm.trans hy)
  rw [beq_iff_eq.mp hlt]
  rfl

/-- An element that is not less is at least the other one. -/
theorem atMost_of_not_lt [Std.TransCmp cmp] (hi : i < heap.size) (hj : j < heap.size)
    (hlt : (cmp heap[i] heap[j] == .lt) = false) : AtMost cmp heap j i := by
  intro y x hy hx
  obtain rfl : heap[i] = x := Option.some.inj ((Array.getElem?_eq_getElem hi).symm.trans hx)
  obtain rfl : heap[j] = y := Option.some.inj ((Array.getElem?_eq_getElem hj).symm.trans hy)
  have hswap : cmp heap[j] heap[i] = (cmp heap[i] heap[j]).swap := Std.OrientedCmp.eq_swap
  rw [hswap]
  cases hcmp : cmp heap[i] heap[j] with
  | lt =>
      rw [hcmp] at hlt
      cases hlt
  | eq => rfl
  | gt => rfl

/-- After an exchange, elements are compared as those that came to their places. -/
theorem atMost_swapIfInBounds (hi : i < heap.size) (hj : j < heap.size) {a b : Nat} :
    AtMost cmp (heap.swapIfInBounds i j) a b ↔
      AtMost cmp heap (Equiv.swap i j a) (Equiv.swap i j b) := by
  simp only [AtMost, getElem?_swapIfInBounds hi hj]

/-- An element that is at most its parent may take its place. -/
theorem MayRise.rise [Std.TransCmp cmp] (h : MayRise cmp heap pos) (hpos : 0 < pos)
    (hlt : pos < heap.size) (hless : AtMost cmp heap pos ((pos - 1) / 2)) :
    MayRise cmp (heap.swapIfInBounds pos ((pos - 1) / 2)) ((pos - 1) / 2) := by
  set parent := (pos - 1) / 2 with hparent
  have hne : parent ≠ pos := by omega
  have hparentLt : parent < heap.size := by omega
  constructor
  · intro i hi hip
    rw [atMost_swapIfInBounds hlt hparentLt]
    by_cases hipos : i = pos
    · -- the old parent is now below the element that rose
      subst hipos
      rw [← hparent, Equiv.swap_apply_left, Equiv.swap_apply_right]
      exact hless
    rw [Equiv.swap_apply_of_ne_of_ne hipos hip]
    by_cases hchild : (i - 1) / 2 = pos
    · -- a child of the element that rose now has the old parent for its parent
      rw [hchild, Equiv.swap_apply_left]
      exact h.below hpos i hi hchild
    by_cases hsibling : (i - 1) / 2 = parent
    · -- the sibling was at least the old parent, hence at least what rose above it
      rw [hsibling, Equiv.swap_apply_right]
      exact hless.trans hparentLt (hsibling ▸ h.others i hi hipos)
    · rw [Equiv.swap_apply_of_ne_of_ne hchild hsibling]
      exact h.others i hi hipos
  · intro hp i hi hchild
    have hup : AtMost cmp heap ((parent - 1) / 2) parent := h.others parent hp hne
    rw [atMost_swapIfInBounds hlt hparentLt,
      Equiv.swap_apply_of_ne_of_ne (by omega : (parent - 1) / 2 ≠ pos)
        (by omega : (parent - 1) / 2 ≠ parent)]
    by_cases hipos : i = pos
    · subst hipos
      rw [Equiv.swap_apply_left]
      exact hup
    · rw [Equiv.swap_apply_of_ne_of_ne hipos (by omega)]
      exact hup.trans hparentLt (hchild ▸ h.others i hi hipos)

/-- An element that is at least its parent ends the rise. -/
theorem MayRise.heapOrdered (h : MayRise cmp heap pos)
    (hstop : 0 < pos → AtMost cmp heap ((pos - 1) / 2) pos) : HeapOrdered cmp heap := by
  intro i hi
  by_cases hipos : i = pos
  · subst hipos
    exact hstop hi
  · exact h.others i hi hipos

/-- The lesser of the children may take the place of an element it is at most. -/
theorem MaySink.sink [Std.TransCmp cmp] (h : MaySink cmp heap pos) {child : Nat}
    (hchild : 0 < child ∧ (child - 1) / 2 = pos) (hlt : child < heap.size)
    (hless : AtMost cmp heap child pos)
    (hleast : ∀ i, 0 < i → (i - 1) / 2 = pos → AtMost cmp heap child i) :
    MaySink cmp (heap.swapIfInBounds pos child) child := by
  obtain ⟨hpos, hparent⟩ := hchild
  have hposLt : pos < heap.size := by omega
  constructor
  · intro i hi hip
    rw [atMost_swapIfInBounds hposLt hlt]
    by_cases hipos : i = pos
    · subst hipos
      rw [Equiv.swap_apply_left, Equiv.swap_apply_of_ne_of_ne (by omega) (by omega)]
      exact h.below hi child hpos hparent
    by_cases hsibling : (i - 1) / 2 = pos
    · -- the lesser child is now above its old parent and its sibling
      rw [hsibling, Equiv.swap_apply_left]
      by_cases hichild : i = child
      · subst hichild
        rw [Equiv.swap_apply_right]
        exact hless
      · rw [Equiv.swap_apply_of_ne_of_ne hipos hichild]
        exact hleast i hi hsibling
    · rw [Equiv.swap_apply_of_ne_of_ne hsibling hip,
        Equiv.swap_apply_of_ne_of_ne hipos (by omega)]
      exact h.others i hi hsibling
  · intro _ i hi hgrandchild
    rw [atMost_swapIfInBounds hposLt hlt, hparent, Equiv.swap_apply_left,
      Equiv.swap_apply_of_ne_of_ne (by omega) (by omega)]
    exact hgrandchild ▸ h.others i hi (by omega)

/-- An element that is at most its children ends the descent. -/
theorem MaySink.heapOrdered (h : MaySink cmp heap pos)
    (hstop : ∀ i, 0 < i → (i - 1) / 2 = pos → AtMost cmp heap pos i) : HeapOrdered cmp heap := by
  intro i hi
  by_cases hipos : (i - 1) / 2 = pos
  · rw [hipos]
    exact hstop i hi hipos
  · exact h.others i hi hipos

/-! ## Sifts -/

/-- **Sifting up** succeeds and exchanges elements only; it ends in order if
only the element that moves may be out of order. -/
theorem siftUp_eq (h : order.Answers cmp Known) (hknown : ∀ x ∈ heap.toList, Known x)
    (hpos : pos < heap.size) :
    ∃ heap', siftUp order heap pos = .ok heap' ∧ heap'.toList.Perm heap.toList ∧
      (Std.TransCmp cmp → MayRise cmp heap pos → HeapOrdered cmp heap') := by
  induction pos using Nat.strong_induction_on generalizing heap with
  | _ pos ih =>
      rw [siftUp]
      by_cases hzero : pos = 0
      · refine ⟨heap, by rw [if_pos hzero]; rfl, List.Perm.refl _, fun _ hrise => ?_⟩
        exact hrise.heapOrdered fun hlt => by omega
      rw [if_neg hzero]
      dsimp only
      rw [precedes_eq h hknown hpos (by omega : (pos - 1) / 2 < heap.size), ok_bind]
      split
      · rename_i hless
        have hperm := perm_swapIfInBounds heap pos ((pos - 1) / 2)
        obtain ⟨heap', heq, hperm', hordered⟩ := @ih ((pos - 1) / 2) (by omega)
          (heap.swapIfInBounds pos ((pos - 1) / 2))
          (fun x hx => hknown x (hperm.mem_iff.mp hx))
          (by rw [Array.size_swapIfInBounds]; omega)
        refine ⟨heap', heq, hperm'.trans hperm, fun htrans hrise => hordered htrans ?_⟩
        exact hrise.rise (by omega) hpos (atMost_of_lt hpos (by omega) hless)
      · rename_i hless
        refine ⟨heap, rfl, List.Perm.refl _, fun htrans hrise => hrise.heapOrdered fun _ => ?_⟩
        exact atMost_of_not_lt hpos (by omega) (Bool.eq_false_iff.mpr hless)

/-- The child to compare with: the right one if there is one and it is less
than the left one. -/
def lesserChild (order : Comparator) (heap : Array Reference) (pos : Nat) : Checked Nat :=
  if 2 * pos + 1 + 1 < heap.size then do
    let toRight ← precedes order heap (2 * pos + 1 + 1) (2 * pos + 1)
    pure (if toRight then 2 * pos + 1 + 1 else 2 * pos + 1)
  else
    pure (2 * pos + 1)

/-- Sifting down compares with the lesser child. -/
theorem siftDown_of_lt (hleft : 2 * pos + 1 < heap.size) :
    siftDown order heap pos = (do
      let child ← lesserChild order heap pos
      if ← precedes order heap child pos then
        siftDown order (heap.swapIfInBounds pos child) child
      else
        pure heap) := by
  rw [siftDown, lesserChild]
  dsimp only
  rw [if_pos hleft]
  split
  · rw [bind_assoc]
    rfl
  · rfl

/-- An element is at most itself. -/
theorem atMost_self [Std.TransCmp cmp] (heap : Array Reference) (i : Nat) :
    AtMost cmp heap i i := by
  intro x y hx hy
  obtain rfl : x = y := Option.some.inj (hx.symm.trans hy)
  have hself : cmp x x = .eq := Std.ReflCmp.compare_self
  rw [hself]
  rfl

/-- The lesser child is a child and at most every child. -/
theorem lesserChild_eq (h : order.Answers cmp Known) (hknown : ∀ x ∈ heap.toList, Known x)
    (hleft : 2 * pos + 1 < heap.size) :
    ∃ child, lesserChild order heap pos = .ok child ∧ 0 < child ∧ (child - 1) / 2 = pos ∧
      child < heap.size ∧
      (Std.TransCmp cmp → ∀ i, 0 < i → (i - 1) / 2 = pos → AtMost cmp heap child i) := by
  have hchildren : ∀ i, 0 < i → (i - 1) / 2 = pos → i = 2 * pos + 1 ∨ i = 2 * pos + 1 + 1 := by
    omega
  rw [lesserChild]
  by_cases hright : 2 * pos + 1 + 1 < heap.size
  · rw [if_pos hright, precedes_eq h hknown hright hleft, ok_bind]
    cases hless : cmp heap[2 * pos + 1 + 1] heap[2 * pos + 1] == .lt with
    | true =>
        refine ⟨2 * pos + 1 + 1, rfl, by omega, by omega, hright, fun htrans i hi hparent => ?_⟩
        rcases hchildren i hi hparent with rfl | rfl
        · exact atMost_of_lt hright hleft hless
        · exact atMost_self heap _
    | false =>
        refine ⟨2 * pos + 1, rfl, by omega, by omega, hleft, fun htrans i hi hparent => ?_⟩
        rcases hchildren i hi hparent with rfl | rfl
        · exact atMost_self heap _
        · exact atMost_of_not_lt hright hleft hless
  · rw [if_neg hright]
    refine ⟨2 * pos + 1, rfl, by omega, by omega, hleft, fun htrans i hi hparent => ?_⟩
    rcases hchildren i hi hparent with rfl | rfl
    · exact atMost_self heap _
    · intro x y hx hy
      rw [Array.getElem?_eq_none (by omega)] at hy
      cases hy

/-- **Sifting down** succeeds and exchanges elements only; it ends in order if
only the element that moves may be out of order. -/
theorem siftDown_eq (h : order.Answers cmp Known) (hknown : ∀ x ∈ heap.toList, Known x)
    (pos : Nat) :
    ∃ heap', siftDown order heap pos = .ok heap' ∧ heap'.toList.Perm heap.toList ∧
      (Std.TransCmp cmp → MaySink cmp heap pos → HeapOrdered cmp heap') := by
  induction hsize : heap.size - pos using Nat.strong_induction_on generalizing heap pos with
  | _ size ih =>
      by_cases hleft : 2 * pos + 1 < heap.size
      · obtain ⟨child, hchild, hpos, hparent, hlt, hleast⟩ := lesserChild_eq h hknown hleft
        rw [siftDown_of_lt hleft, hchild, ok_bind, precedes_eq h hknown hlt (by omega), ok_bind]
        split
        · rename_i hless
          have hperm := perm_swapIfInBounds heap pos child
          obtain ⟨heap', heq, hperm', hordered⟩ := @ih (heap.size - child) (by omega)
            (heap.swapIfInBounds pos child) (fun x hx => hknown x (hperm.mem_iff.mp hx)) child
            (by rw [Array.size_swapIfInBounds])
          refine ⟨heap', heq, hperm'.trans hperm, fun htrans hsink => hordered htrans ?_⟩
          exact hsink.sink ⟨hpos, hparent⟩ hlt (atMost_of_lt hlt (by omega) hless) (hleast htrans)
        · rename_i hless
          refine ⟨heap, rfl, List.Perm.refl _, fun htrans hsink => hsink.heapOrdered ?_⟩
          intro i hi hip
          have hle : AtMost cmp heap pos child :=
            atMost_of_not_lt hlt (by omega) (Bool.eq_false_iff.mpr hless)
          exact hle.trans hlt (hleast htrans i hi hip)
      · rw [siftDown]
        dsimp only
        rw [if_neg hleft]
        refine ⟨heap, rfl, List.Perm.refl _, fun htrans hsink => hsink.heapOrdered ?_⟩
        intro i hi hip x y hx hy
        rw [Array.getElem?_eq_none (by omega)] at hy
        cases hy

/-! ## The queue -/

namespace PriorityQueue

variable {q : PriorityQueue}

/-- The elements, in the order of the heap. -/
def elements (q : PriorityQueue) : List Reference :=
  q.heap.toList

/-- A queue is empty when it has no element. -/
theorem isEmpty_eq (q : PriorityQueue) : q.isEmpty = q.elements.isEmpty := by
  rw [isEmpty, elements, Array.isEmpty_toList]

/-- A queue without elements is in order. -/
theorem heapOrdered_empty : HeapOrdered cmp empty.heap := by
  intro i hi x y hx hy
  cases hx

/-- In order, the topmost element is least. -/
theorem le_of_heapOrdered [Std.TransCmp cmp] (h : HeapOrdered cmp heap) {top : Reference}
    (htop : heap[0]? = some top) {x : Reference} (hx : x ∈ heap.toList) : (cmp top x).isLE := by
  obtain ⟨i, hi⟩ := List.mem_iff_getElem?.mp hx
  rw [Array.getElem?_toList] at hi
  induction i using Nat.strong_induction_on generalizing x with
  | _ i ih =>
      rcases Nat.eq_zero_or_pos i with rfl | hpos
      · exact atMost_self heap 0 top x htop hi
      · have hlt : i < heap.size := (Array.getElem?_eq_some_iff.mp hi).1
        have hparent : heap[(i - 1) / 2]? = some heap[(i - 1) / 2] :=
          Array.getElem?_eq_getElem (by omega)
        have hle := ih ((i - 1) / 2) (by omega)
          (Array.mem_toList_iff.mpr (Array.getElem_mem (by omega))) hparent
        exact Std.TransCmp.isLE_trans hle (h i hpos _ _ hparent hi)

/-- **Offering** adds an element and keeps the order. -/
theorem offer_eq (h : order.Answers cmp Known) (hknown : ∀ x ∈ q.elements, Known x)
    (hr : Known r) :
    ∃ q', q.offer order r = .ok q' ∧ q'.elements.Perm (r :: q.elements) ∧
      (Std.TransCmp cmp → HeapOrdered cmp q.heap → HeapOrdered cmp q'.heap) := by
  have hpush : (q.heap.push r).toList.Perm (r :: q.elements) := perm_push q.heap r
  obtain ⟨heap', heq, hperm, hordered⟩ := siftUp_eq h
    (fun x hx => by
      rcases List.mem_cons.mp (hpush.mem_iff.mp hx) with rfl | hmem
      · exact hr
      · exact hknown x hmem)
    (by rw [Array.size_push]; omega : q.heap.size < (q.heap.push r).size)
  refine ⟨⟨heap'⟩, by rw [offer, heq]; rfl, hperm.trans hpush, fun htrans hold => ?_⟩
  refine hordered htrans ⟨?_, ?_⟩
  · intro i hi hne x y hx hy
    have hlt : i < (q.heap.push r).size := (Array.getElem?_eq_some_iff.mp hy).1
    rw [Array.size_push] at hlt
    rw [Array.getElem?_push_lt (by omega)] at hx hy
    exact hold i hi x y (by rwa [Array.getElem?_eq_getElem]) (by rwa [Array.getElem?_eq_getElem])
  · intro _ i hi hparent x y _ hy
    have hlt : i < (q.heap.push r).size := (Array.getElem?_eq_some_iff.mp hy).1
    rw [Array.size_push] at hlt
    omega

/-- Polling a queue without elements moves nothing. -/
theorem poll_of_nil (hq : q.elements = []) : q.poll order r = .ok (false, q, r) := by
  have hheap : q.heap = #[] := Array.toList_eq_nil_iff.mp hq
  rw [poll, hheap]
  rfl

/-- A reference of the same pool becomes the one it is pointed at. -/
theorem repoint_eq {x : Reference} (h : r.pool = x.pool) : r.repoint x = .ok x := by
  have hdemand : demand (r.pool == x.pool) .foreignRepoint = .ok () := by
    rw [h, beq_self_eq_true]
    rfl
  rw [Reference.repoint, hdemand, ok_bind, h]
  rfl

/-- A heap whose last element takes the place of the first may be out of order
there only. -/
theorem maySink_setIfInBounds {rest : Array Reference} {last : Reference}
    (h : HeapOrdered cmp (rest.push last)) : MaySink cmp (rest.setIfInBounds 0 last) 0 := by
  constructor
  · intro i hi hparent x y hx hy
    rw [Array.getElem?_setIfInBounds_ne (by omega)] at hx hy
    have hlt : i < rest.size := (Array.getElem?_eq_some_iff.mp hy).1
    refine h i hi x y ?_ ?_
    · rw [Array.getElem?_push_lt (by omega), ← hx, Array.getElem?_eq_getElem]
    · rw [Array.getElem?_push_lt hlt, ← hy, Array.getElem?_eq_getElem]
  · intro hpos
    omega

/-- When the last element takes the place of the first, the first is gone. -/
theorem perm_setIfInBounds_zero {α : Type} {rest : Array α} {top last : α}
    (htop : rest[0]? = some top) :
    (rest.push last).toList.Perm (top :: (rest.setIfInBounds 0 last).toList) := by
  rw [← Array.getElem?_toList, ← List.head?_eq_getElem?] at htop
  obtain ⟨tail, htail⟩ := List.head?_eq_some_iff.mp htop
  rw [Array.toList_push, Array.toList_setIfInBounds, htail, List.set_cons_zero, List.cons_append]
  exact (List.perm_append_singleton last tail).cons top

/-- **Polling** takes an element, the least one if the queue is in order, and
keeps the order. -/
theorem poll_eq (h : order.Answers cmp Known) (hknown : ∀ x ∈ q.elements, Known x)
    (hne : q.elements ≠ []) (hpool : ∀ x ∈ q.elements, r.pool = x.pool) :
    ∃ q' top, q.poll order r = .ok (true, q', top) ∧ q.elements.Perm (top :: q'.elements) ∧
      (Std.TransCmp cmp → HeapOrdered cmp q.heap →
        HeapOrdered cmp q'.heap ∧ ∀ x ∈ q.elements, (cmp top x).isLE) := by
  obtain ⟨last, hlast⟩ : ∃ last, q.heap.back? = some last := by
    rw [← Option.isSome_iff_exists, Array.back?_isSome]
    exact fun hempty => hne (by rw [elements, hempty])
  obtain ⟨rest, hheap⟩ := Array.back?_eq_some_iff.mp hlast
  have hsplit : q.elements = rest.toList ++ [last] := by
    rw [elements, hheap, Array.toList_push]
  -- the first element of the heap is the one that is taken
  have hleast : ∀ top, q.heap[0]? = some top → Std.TransCmp cmp → HeapOrdered cmp q.heap →
      ∀ x ∈ q.elements, (cmp top x).isLE :=
    fun top htop htrans hordered x hx => le_of_heapOrdered hordered htop hx
  rw [poll, hheap, Array.back?_push, Array.pop_push]
  dsimp only
  cases htop : rest[0]? with
  | none =>
      obtain rfl : rest = #[] := by
        simpa using htop
      refine ⟨⟨#[]⟩, last, ?_, ?_, fun htrans hordered => ⟨heapOrdered_empty, ?_⟩⟩
      · rw [repoint_eq (hpool last (by rw [hsplit]; simp))]
        rfl
      · rw [hsplit]
        exact List.Perm.refl _
      · rw [← hheap] at hordered
        exact hleast last (by rw [hheap]; rfl) htrans hordered
  | some top =>
      -- the last element takes the place of the first and sinks from there
      have helements : q.elements.Perm (top :: (rest.setIfInBounds 0 last).toList) := by
        rw [elements, hheap]
        exact perm_setIfInBounds_zero htop
      have hmem : top ∈ q.elements := helements.mem_iff.mpr List.mem_cons_self
      obtain ⟨heap', heq, hperm, hordered'⟩ := siftDown_eq h
        (fun x (hx : x ∈ (rest.setIfInBounds 0 last).toList) =>
          hknown x (helements.mem_iff.mpr (List.mem_cons_of_mem _ hx))) 0
      refine ⟨⟨heap'⟩, top, ?_, ?_, fun htrans hordered => ⟨?_, ?_⟩⟩
      · dsimp only
        rw [repoint_eq (hpool top hmem), ok_bind, heq]
        rfl
      · exact helements.trans (hperm.symm.cons top)
      · exact hordered' htrans (maySink_setIfInBounds hordered)
      · obtain ⟨hlt, hget⟩ := Array.getElem?_eq_some_iff.mp htop
        have htop' : q.heap[0]? = some top := by
          rw [hheap, Array.getElem?_push_lt hlt, hget]
        rw [← hheap] at hordered
        exact hleast top htop' htrans hordered

end PriorityQueue

end RecordPool
