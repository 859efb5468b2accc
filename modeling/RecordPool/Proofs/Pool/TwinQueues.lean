/-
# Twin queues

Two queues are twins if their heaps hold references to the same slots, place by
place.  The operations of the heap look at elements through the comparator only,
so that comparators which agree on the slots keep queues twins, and elements
that are equal in the order come out in the same order of both.
-/
import RecordPool.Proofs.Pool.Heap
import RecordPool.Proofs.Pool.Twins

namespace RecordPool

/-- The comparators answer alike on references to the slots in use. -/
def Comparator.Agree (m : Pairing) (order order' : Comparator) : Prop :=
  ∀ i ∈ m.used, ∀ j ∈ m.used,
    order (m.first i) (m.first j) = order' (m.second i) (m.second j)

/-- The heaps hold references to the slots `slots`, place by place. -/
def HeapTwins (m : Pairing) (slots : Array Nat) (heap heap' : Array Reference) : Prop :=
  heap = slots.map m.first ∧ heap' = slots.map m.second

variable {m : Pairing} {order order' : Comparator} {slots : Array Nat} {pos i j : Nat}

/-! ## Sifts -/

/-- Outside an array nothing is exchanged. -/
theorem swapIfInBounds_of_outside {α : Type} {xs : Array α} {i j : Nat}
    (h : ¬ (i < xs.size ∧ j < xs.size)) : xs.swapIfInBounds i j = xs := by
  rw [Array.swapIfInBounds_def]
  split
  · rename_i hi
    rw [dif_neg fun hj => h ⟨hi, hj⟩]
  · rfl

/-- Exchanging two elements exchanges their slots. -/
theorem map_swapIfInBounds {α γ : Type} (f : α → γ) (xs : Array α) (i j : Nat) :
    (xs.map f).swapIfInBounds i j = (xs.swapIfInBounds i j).map f := by
  by_cases hin : i < xs.size ∧ j < xs.size
  · obtain ⟨hi, hj⟩ := hin
    apply Array.ext_getElem?
    intro k
    rw [getElem?_swapIfInBounds (by rwa [Array.size_map]) (by rwa [Array.size_map]),
      Array.getElem?_map, Array.getElem?_map, getElem?_swapIfInBounds hi hj]
  · rw [swapIfInBounds_of_outside hin, swapIfInBounds_of_outside (by rwa [Array.size_map])]

/-- Elements are compared alike. -/
theorem precedes_twins (h : order.Agree m order') (hused : ∀ i ∈ slots.toList, i ∈ m.used)
    (i j : Nat) :
    precedes order (slots.map m.first) i j = precedes order' (slots.map m.second) i j := by
  have hmem : ∀ {k a : Nat}, slots[k]? = some a → a ∈ m.used := fun hk =>
    hused _ (Array.mem_toList_iff.mpr (Array.mem_of_getElem? hk))
  rw [precedes, precedes, fetch, fetch, fetch, fetch, Array.getElem?_map, Array.getElem?_map,
    Array.getElem?_map, Array.getElem?_map]
  cases hi : slots[i]? with
  | none => rfl
  | some a =>
      cases hj : slots[j]? with
      | none => rfl
      | some b =>
          show (order (m.first a) (m.first b) >>= fun c => pure (c == .lt)) =
            (order' (m.second a) (m.second b) >>= fun c => pure (c == .lt))
          rw [h a (hmem hi) b (hmem hj)]

/-- Heaps of the slots `slots`, in whatever places. -/
def Rearranged (m : Pairing) (slots : Array Nat) (heap heap' : Array Reference) : Prop :=
  ∃ slots' : Array Nat, slots'.toList.Perm slots.toList ∧ HeapTwins m slots' heap heap'

/-- Heaps of exchanged slots are heaps of the slots. -/
theorem Rearranged.of_swap {heap heap' : Array Reference}
    (h : Rearranged m (slots.swapIfInBounds i j) heap heap') : Rearranged m slots heap heap' := by
  obtain ⟨slots', hperm, htwins⟩ := h
  exact ⟨slots', hperm.trans (perm_swapIfInBounds slots i j), htwins⟩

/-- Sifting up goes the same way in both heaps. -/
theorem siftUp_twins (h : order.Agree m order') (hused : ∀ i ∈ slots.toList, i ∈ m.used)
    (pos : Nat) :
    Alike (Rearranged m slots) (siftUp order (slots.map m.first) pos)
      (siftUp order' (slots.map m.second) pos) := by
  -- over all arrays of slots, since a step exchanges two of them and goes on at the parent
  induction pos using Nat.strong_induction_on generalizing slots with
  | _ pos ih =>
      rw [siftUp, siftUp]
      by_cases hzero : pos = 0
      · rw [if_pos hzero, if_pos hzero]
        exact alike_pure ⟨slots, List.Perm.refl _, rfl, rfl⟩
      rw [if_neg hzero, if_neg hzero]
      dsimp only
      rw [precedes_twins h hused]
      refine alike_bind _ fun less _ => ?_
      cases less with
      | false => exact alike_pure ⟨slots, List.Perm.refl _, rfl, rfl⟩
      | true =>
          rw [if_pos rfl, if_pos rfl, map_swapIfInBounds, map_swapIfInBounds]
          refine (ih ((pos - 1) / 2) (by omega) fun i hi => ?_).mono fun _ _ => Rearranged.of_swap
          exact hused i ((perm_swapIfInBounds slots _ _).mem_iff.mp hi)

/-- The lesser child is the same in both heaps. -/
theorem lesserChild_twins (h : order.Agree m order') (hused : ∀ i ∈ slots.toList, i ∈ m.used)
    (pos : Nat) :
    lesserChild order (slots.map m.first) pos = lesserChild order' (slots.map m.second) pos := by
  rw [lesserChild, lesserChild, precedes_twins h hused, Array.size_map, Array.size_map]

/-- Sifting down goes the same way in both heaps. -/
theorem siftDown_twins (h : order.Agree m order') (hused : ∀ i ∈ slots.toList, i ∈ m.used)
    (pos : Nat) :
    Alike (Rearranged m slots) (siftDown order (slots.map m.first) pos)
      (siftDown order' (slots.map m.second) pos) := by
  -- on the distance to the end, as a step goes on at a child
  induction hsize : slots.size - pos using Nat.strong_induction_on generalizing slots pos with
  | _ size ih =>
      by_cases hleft : 2 * pos + 1 < slots.size
      · rw [siftDown_of_lt (by rwa [Array.size_map]), siftDown_of_lt (by rwa [Array.size_map]),
          lesserChild_twins h hused]
        refine alike_bind _ fun child hchild => ?_
        rw [precedes_twins h hused]
        refine alike_bind _ fun less hless => ?_
        cases less with
        | false => exact alike_pure ⟨slots, List.Perm.refl _, rfl, rfl⟩
        | true =>
            rw [if_pos rfl, if_pos rfl, map_swapIfInBounds, map_swapIfInBounds]
            have hdeeper : pos < child := by
              rw [lesserChild] at hchild
              split at hchild
              · obtain ⟨toRight, -, hput⟩ := bind_eq_ok_iff.mp hchild
                cases hput
                split <;> omega
              · cases hchild
                omega
            refine (ih (slots.size - child) (by omega) (fun i hi => ?_) child
              (by rw [Array.size_swapIfInBounds])).mono fun _ _ => Rearranged.of_swap
            exact hused i ((perm_swapIfInBounds slots _ _).mem_iff.mp hi)
      · rw [siftDown, siftDown]
        dsimp only
        rw [if_neg (by rwa [Array.size_map]), if_neg (by rwa [Array.size_map])]
        exact alike_pure ⟨slots, List.Perm.refl _, rfl, rfl⟩

/-! ## Queues -/

namespace PriorityQueue

/-- The queues hold the slots `slots`, which are in use and distinct. -/
structure Twins (m : Pairing) (slots : Array Nat) (q q' : PriorityQueue) : Prop where
  heap : HeapTwins m slots q.heap q'.heap
  used : ∀ i ∈ slots.toList, i ∈ m.used
  nodup : slots.toList.Nodup

variable {q q' : PriorityQueue}

/-- Queues without elements are twins. -/
theorem twins_empty (m : Pairing) : Twins m #[] empty empty where
  heap := ⟨Array.map_empty.symm, Array.map_empty.symm⟩
  used := by simp
  nodup := List.nodup_nil

namespace Twins

/-- Twins have as many elements. -/
theorem size_eq (h : Twins m slots q q') : q.size = slots.size ∧ q'.size = slots.size := by
  rw [size, size, h.heap.1, h.heap.2, Array.size_map, Array.size_map]
  exact ⟨rfl, rfl⟩

/-- Twins are empty together. -/
theorem isEmpty_eq (h : Twins m slots q q') : q'.isEmpty = q.isEmpty := by
  rw [Bool.eq_iff_iff, isEmpty, isEmpty, h.heap.1, h.heap.2]
  simp

/-- Queues are twins under any pairing with the same references to their
slots. -/
theorem congr (h : Twins m slots q q') {n : Pairing} (hused : ∀ i ∈ slots.toList, i ∈ n.used)
    (hfirst : ∀ i ∈ slots.toList, n.first i = m.first i)
    (hsecond : ∀ i ∈ slots.toList, n.second i = m.second i) : Twins n slots q q' where
  heap := by
    refine ⟨?_, ?_⟩
    · rw [h.heap.1]
      exact Array.map_congr_left fun i hi => (hfirst i (Array.mem_toList_iff.mpr hi)).symm
    · rw [h.heap.2]
      exact Array.map_congr_left fun i hi => (hsecond i (Array.mem_toList_iff.mpr hi)).symm
  used := hused
  nodup := h.nodup

/-- **Offering** a slot adds it to both. -/
theorem offer (h : Twins m slots q q') (horder : order.Agree m order') (hi : i ∈ m.used)
    (hnew : i ∉ slots.toList) :
    Alike (fun r r' => ∃ slots' : Array Nat,
        slots'.toList.Perm (i :: slots.toList) ∧ Twins m slots' r r')
      (q.offer order (m.first i)) (q'.offer order' (m.second i)) := by
  have hpush := perm_push slots i
  have hused : ∀ j ∈ (slots.push i).toList, j ∈ m.used := by
    intro j hj
    rcases List.mem_cons.mp (hpush.mem_iff.mp hj) with rfl | hmem
    · exact hi
    · exact h.used j hmem
  rw [PriorityQueue.offer, PriorityQueue.offer, h.heap.1, h.heap.2, Array.size_map, Array.size_map,
    ← Array.map_push, ← Array.map_push]
  refine (siftUp_twins horder hused slots.size).bind fun heap heap' hheaps => ?_
  obtain ⟨slots', hperm, htwins⟩ := hheaps
  refine alike_pure ⟨slots', hperm.trans hpush, htwins, fun j hj => ?_, ?_⟩
  · exact hused j (hperm.mem_iff.mp hj)
  · exact (hperm.trans hpush).nodup_iff.mpr (List.nodup_cons.mpr ⟨hnew, h.nodup⟩)

end Twins

/-- The outcomes of polling twins: both are empty and nothing is taken, or the
same slot is. -/
inductive Polled (m : Pairing) (slots : Array Nat) :
    Bool × PriorityQueue × Reference → Bool × PriorityQueue × Reference → Prop where
  | none {q q' : PriorityQueue} {r r' : Reference} (empty : slots = #[]) :
      Polled m slots (false, q, r) (false, q', r')
  | some {q q' : PriorityQueue} {i : Nat} {rest : Array Nat}
      (perm : slots.toList.Perm (i :: rest.toList)) (twins : Twins m rest q q') :
      Polled m slots (true, q, m.first i) (true, q', m.second i)

/-- **Polling** takes the same slot from both. -/
theorem Twins.poll (h : Twins m slots q q') (horder : order.Agree m order') {r r' : Reference}
    (hr : ∀ i, r.pool = (m.first i).pool) (hr' : ∀ i, r'.pool = (m.second i).pool) :
    Alike (Polled m slots) (q.poll order r) (q'.poll order' r') := by
  rw [PriorityQueue.poll, PriorityQueue.poll, h.heap.1, h.heap.2, Array.back?_map, Array.back?_map]
  cases hlast : slots.back? with
  | none => exact alike_pure (.none (Array.back?_eq_none_iff.mp hlast))
  | some last =>
      obtain ⟨rest, rfl⟩ := Array.back?_eq_some_iff.mp hlast
      rw [Option.map_some, Option.map_some]
      dsimp only
      rw [Array.map_push, Array.map_push, Array.pop_push, Array.pop_push, Array.getElem?_map,
        Array.getElem?_map]
      cases htop : rest[0]? with
      | none =>
          obtain rfl : rest = #[] := by simpa using htop
          rw [Option.map_none, Option.map_none]
          dsimp only
          rw [repoint_eq (hr last), repoint_eq (hr' last)]
          rw [Array.map_empty, Array.map_empty]
          exact alike_ok (.some (perm_push #[] last) (twins_empty m))
      | some top =>
          -- the last slot takes the place of the first and sinks from there
          have hperm : (rest.push last).toList.Perm (top :: (rest.setIfInBounds 0 last).toList) :=
            perm_setIfInBounds_zero htop
          have hnodup := hperm.nodup_iff.mp h.nodup
          have hused : ∀ i ∈ (rest.setIfInBounds 0 last).toList, i ∈ m.used := fun i hi =>
            h.used i (hperm.mem_iff.mpr (List.mem_cons_of_mem top hi))
          rw [Option.map_some, Option.map_some]
          dsimp only
          rw [repoint_eq (hr top), repoint_eq (hr' top), ok_bind, ok_bind,
            ← Array.map_setIfInBounds, ← Array.map_setIfInBounds]
          refine (siftDown_twins horder hused 0).bind fun heap heap' hheaps => ?_
          obtain ⟨slots', hperm', htwins⟩ := hheaps
          refine alike_pure (.some (hperm.trans (hperm'.symm.cons top)) ⟨htwins, ?_, ?_⟩)
          · exact fun i hi => hused i (hperm'.mem_iff.mp hi)
          · exact hperm'.nodup_iff.mpr (List.nodup_cons.mp hnodup).2

end PriorityQueue

end RecordPool
