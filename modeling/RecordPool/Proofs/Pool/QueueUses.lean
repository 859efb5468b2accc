/-
# Uses of priority queues

A queue is used by offering, polling and clearing in any order.  What was
offered and neither polled nor dropped since (`held`) is what the queue has,
whatever its comparator answers.  While the records of its elements are live and
the comparator ranks them, each poll takes an element that no other one is less
than, and draining the queue gives all of them in ascending order.
-/
import RecordPool.Proofs.Pool.Heap
import RecordPool.Proofs.Pool.Tracking

namespace RecordPool

/-! ## What a queue holds -/

/-- What happened to a queue. -/
inductive QueueEvent where
  /-- An element was offered. -/
  | offered (r : Reference)
  /-- An element was polled. -/
  | polled (r : Reference)
  /-- All elements were dropped. -/
  | dropped
  deriving DecidableEq, Repr

/-- The elements after an event. -/
def QueueEvent.apply (elements : Multiset Reference) : QueueEvent → Multiset Reference
  | offered r => r ::ₘ elements
  | polled r => elements.erase r
  | dropped => 0

/-- The elements that were offered and neither polled nor dropped since. -/
def held (events : List QueueEvent) : Multiset Reference :=
  events.foldl QueueEvent.apply 0

/-- One more event changes the elements held before it. -/
theorem held_concat (events : List QueueEvent) (e : QueueEvent) :
    held (events ++ [e]) = e.apply (held events) := by
  rw [held, List.foldl_append]
  rfl

/-- Only what is held is polled. -/
def PollsHeld (events : List QueueEvent) : Prop :=
  ∀ n r, events[n]? = some (.polled r) → r ∈ held (events.take n)

/-- One more event that polls nothing or what is held. -/
theorem PollsHeld.concat {events : List QueueEvent} {e : QueueEvent} (h : PollsHeld events)
    (he : ∀ r, e = .polled r → r ∈ held events) : PollsHeld (events ++ [e]) := by
  intro n r hn
  rcases Nat.lt_trichotomy n events.length with hlt | rfl | hgt
  · rw [List.getElem?_append_left hlt] at hn
    rw [List.take_append_of_le_length (Nat.le_of_lt hlt)]
    exact h n r hn
  · rw [List.getElem?_concat_length] at hn
    rw [List.take_left' rfl]
    exact he r (Option.some.inj hn)
  · rw [List.getElem?_eq_none (by rw [List.length_append, List.length_singleton]; omega)] at hn
    cases hn

/-! ## Ranking live records -/

/-- On the references in `Queued`, whose records are live in the pool, the
comparator answers by `cmp`. -/
structure Comparator.Ranks {β : Type} (order : Comparator) (p : Pool β)
    (cmp : Reference → Reference → Ordering) (Queued : Reference → Prop) : Prop where
  live : ∀ x, Queued x → p.check x = pure ()
  answers : order.Answers cmp Queued

/-- A reference that a pool accepts is its own and points at a record. -/
theorem Pool.own_of_check {β : Type} {p : Pool β} {r : Reference} (h : p.check r = pure ()) :
    r.pool = p.id ∧ r.target ≠ none := by
  have hown : r.pool = p.id := by
    by_contra hr
    rw [Pool.check_of_refused (Pool.resolve_of_foreign hr)] at h
    exact throw_ne_pure h
  refine ⟨hown, fun htarget => ?_⟩
  rw [Pool.check_of_refused (Pool.resolve_of_unpointed hown htarget)] at h
  exact throw_ne_pure h

/-- The ranked references are of the pool. -/
theorem Comparator.Ranks.pool_eq {β : Type} {order : Comparator} {p : Pool β}
    {cmp : Reference → Reference → Ordering} {Queued : Reference → Prop} {x : Reference}
    (h : order.Ranks p cmp Queued) (hx : Queued x) : x.pool = p.id :=
  (Pool.own_of_check (h.live x hx)).1

namespace PriorityQueue

variable {β : Type} {order : Comparator} {cmp : Reference → Reference → Ordering}
  {heap heap' : Array Reference} {pos : Nat} {q q' : PriorityQueue} {r r' : Reference}
  {events : List QueueEvent}

/-! ## Calls -/

/-- Calls of a queue, with any comparators. -/
inductive Uses : List QueueEvent → PriorityQueue → Prop where
  | start : Uses [] .empty
  | offer {events : List QueueEvent} {q q' : PriorityQueue} {order : Comparator} {r : Reference} :
      Uses events q → q.offer order r = .ok q' → Uses (events ++ [.offered r]) q'
  | poll {events : List QueueEvent} {q q' : PriorityQueue} {order : Comparator}
      {r r' : Reference} : Uses events q → q.poll order r = .ok (true, q', r') →
      Uses (events ++ [.polled r']) q'
  | clear {events : List QueueEvent} {q : PriorityQueue} :
      Uses events q → Uses (events ++ [.dropped]) .empty

/-- Calls of a queue whose elements stay live in their pool and ranked by a
total preorder.  Between two calls the ranking of references that are not queued
may change. -/
inductive RankedUses (β : Type) :
    (Reference → Reference → Ordering) → List QueueEvent → PriorityQueue → Prop where
  | start (cmp : Reference → Reference → Ordering) [Std.TransCmp cmp] : RankedUses β cmp [] .empty
  | rerank {cmp : Reference → Reference → Ordering} {events : List QueueEvent}
      {q : PriorityQueue} (cmp' : Reference → Reference → Ordering) [Std.TransCmp cmp'] :
      RankedUses β cmp events q →
      (∀ x ∈ q.elements, ∀ y ∈ q.elements, cmp' x y = cmp x y) → RankedUses β cmp' events q
  | offer {cmp : Reference → Reference → Ordering} {events : List QueueEvent}
      {q q' : PriorityQueue} {order : Comparator} {r : Reference} (p : Pool β) :
      RankedUses β cmp events q → order.Ranks p cmp (· ∈ r :: q.elements) →
      q.offer order r = .ok q' → RankedUses β cmp (events ++ [.offered r]) q'
  | poll {cmp : Reference → Reference → Ordering} {events : List QueueEvent}
      {q q' : PriorityQueue} {order : Comparator} {r r' : Reference} (p : Pool β) :
      RankedUses β cmp events q → order.Ranks p cmp (· ∈ q.elements) →
      q.poll order r = .ok (true, q', r') → RankedUses β cmp (events ++ [.polled r']) q'
  | clear {cmp : Reference → Reference → Ordering} {events : List QueueEvent}
      {q : PriorityQueue} : RankedUses β cmp events q →
      RankedUses β cmp (events ++ [.dropped]) .empty

/-- Ranked calls are calls. -/
theorem RankedUses.uses (h : RankedUses β cmp events q) : Uses events q := by
  induction h with
  | start => exact .start
  | rerank _ _ _ ih => exact ih
  | offer _ _ _ hoffer ih => exact ih.offer hoffer
  | poll _ _ _ hpoll ih => exact ih.poll hpoll
  | clear _ ih => exact ih.clear

/-! ## Any comparator -/

/-- Sifting up exchanges elements only. -/
theorem perm_of_siftUp (h : siftUp order heap pos = .ok heap') :
    heap'.toList.Perm heap.toList := by
  induction pos using Nat.strong_induction_on generalizing heap with
  | _ pos ih =>
      rw [siftUp] at h
      by_cases hzero : pos = 0
      · rw [if_pos hzero] at h
        cases h
        exact List.Perm.refl _
      · rw [if_neg hzero] at h
        obtain ⟨less, -, hrest⟩ := bind_eq_ok_iff.mp h
        cases less with
        | false =>
            cases hrest
            exact List.Perm.refl _
        | true => exact (ih _ (by omega) hrest).trans (perm_swapIfInBounds _ _ _)

/-- The child that is compared is in the heap and below its parent. -/
theorem bounds_of_lesserChild {child : Nat} (hleft : 2 * pos + 1 < heap.size)
    (h : lesserChild order heap pos = .ok child) : pos < child ∧ child < heap.size := by
  rw [lesserChild] at h
  split at h
  · obtain ⟨toRight, -, hput⟩ := bind_eq_ok_iff.mp h
    cases hput
    split <;> omega
  · cases h
    omega

/-- Sifting down exchanges elements only. -/
theorem perm_of_siftDown (h : siftDown order heap pos = .ok heap') :
    heap'.toList.Perm heap.toList := by
  -- on the distance to the end; a step that goes on has fetched the child, so that it shrinks
  induction hsize : heap.size - pos using Nat.strong_induction_on generalizing heap pos with
  | _ size ih =>
      by_cases hleft : 2 * pos + 1 < heap.size
      · rw [siftDown_of_lt hleft] at h
        obtain ⟨child, hchild, hrest⟩ := bind_eq_ok_iff.mp h
        obtain ⟨less, -, hrest⟩ := bind_eq_ok_iff.mp hrest
        obtain ⟨hbelow, hlt⟩ := bounds_of_lesserChild hleft hchild
        cases less with
        | false =>
            cases hrest
            exact List.Perm.refl _
        | true =>
            refine (ih _ ?_ hrest rfl).trans (perm_swapIfInBounds _ _ _)
            rw [Array.size_swapIfInBounds]
            omega
      · rw [siftDown] at h
        dsimp only at h
        rw [if_neg hleft] at h
        cases h
        exact List.Perm.refl _

/-- A comparison of elements fails only where the comparator does. -/
theorem error_of_precedes {e : Fault} {i j : Nat} (hi : i < heap.size) (hj : j < heap.size)
    (h : precedes order heap i j = .error e) :
    ∃ x ∈ heap.toList, ∃ y ∈ heap.toList, order x y = .error e := by
  refine ⟨heap[i], Array.mem_toList_iff.mpr (Array.getElem_mem hi), heap[j],
    Array.mem_toList_iff.mpr (Array.getElem_mem hj), ?_⟩
  rw [precedes, fetch_eq_ok (Array.getElem?_eq_getElem hi), ok_bind,
    fetch_eq_ok (Array.getElem?_eq_getElem hj), ok_bind] at h
  obtain hfail | ⟨_, -, ⟨⟩⟩ := bind_eq_error_iff.mp h
  exact hfail

/-- Sifting up from a place in the heap fails only where the comparator does. -/
theorem error_of_siftUp {e : Fault} (hpos : pos < heap.size)
    (h : siftUp order heap pos = .error e) :
    ∃ x ∈ heap.toList, ∃ y ∈ heap.toList, order x y = .error e := by
  induction pos using Nat.strong_induction_on generalizing heap with
  | _ pos ih =>
      rw [siftUp] at h
      by_cases hzero : pos = 0
      · rw [if_pos hzero] at h
        cases h
      · rw [if_neg hzero] at h
        obtain hfail | ⟨less, -, hrest⟩ := bind_eq_error_iff.mp h
        · exact error_of_precedes hpos (by omega) hfail
        · cases less with
          | false => cases hrest
          | true =>
              have hswap : ∀ x, x ∈ (heap.swapIfInBounds pos ((pos - 1) / 2)).toList →
                  x ∈ heap.toList := fun x => (perm_swapIfInBounds heap _ _).mem_iff.mp
              obtain ⟨x, hx, y, hy, hfail⟩ :=
                ih _ (by omega) (by rw [Array.size_swapIfInBounds]; omega) hrest
              exact ⟨x, hswap x hx, y, hswap y hy, hfail⟩

/-- Sifting down fails only where the comparator does. -/
theorem error_of_siftDown {e : Fault} (h : siftDown order heap pos = .error e) :
    ∃ x ∈ heap.toList, ∃ y ∈ heap.toList, order x y = .error e := by
  induction hsize : heap.size - pos using Nat.strong_induction_on generalizing heap pos with
  | _ size ih =>
      by_cases hleft : 2 * pos + 1 < heap.size
      · rw [siftDown_of_lt hleft] at h
        obtain hfail | ⟨child, hchild, hrest⟩ := bind_eq_error_iff.mp h
        · rw [lesserChild] at hfail
          split at hfail
          · obtain hfail | ⟨_, -, ⟨⟩⟩ := bind_eq_error_iff.mp hfail
            exact error_of_precedes (by omega) (by omega) hfail
          · cases hfail
        obtain ⟨hbelow, hlt⟩ := bounds_of_lesserChild hleft hchild
        obtain hfail | ⟨less, -, hrest⟩ := bind_eq_error_iff.mp hrest
        · exact error_of_precedes hlt (by omega) hfail
        · cases less with
          | false => cases hrest
          | true =>
              have hswap : ∀ x, x ∈ (heap.swapIfInBounds pos child).toList → x ∈ heap.toList :=
                fun x => (perm_swapIfInBounds heap _ _).mem_iff.mp
              obtain ⟨x, hx, y, hy, hfail⟩ :=
                ih (heap.size - child) (by omega) hrest (by rw [Array.size_swapIfInBounds])
              exact ⟨x, hswap x hx, y, hswap y hy, hfail⟩
      · rw [siftDown] at h
        dsimp only at h
        rw [if_neg hleft] at h
        cases h

/-- Offering adds the element. -/
theorem perm_of_offer (h : q.offer order r = .ok q') : q'.elements.Perm (r :: q.elements) := by
  obtain ⟨heap', hsift, hput⟩ := bind_eq_ok_iff.mp h
  cases hput
  exact (perm_of_siftUp hsift).trans (perm_push q.heap r)

/-- Polling takes the first element of the heap, or none from an empty one. -/
theorem cases_of_poll {found : Bool} (h : q.poll order r = .ok (found, q', r')) :
    (found = false ∧ q.elements = [] ∧ q' = q ∧ r' = r) ∨
      (found = true ∧ r'.pool = r.pool ∧ q.heap[0]? = some r' ∧
        q.elements.Perm (r' :: q'.elements)) := by
  cases hback : q.heap.back? with
  | none =>
      have hheap : q.heap = #[] := by simpa using hback
      rw [poll, hback] at h
      cases h
      exact Or.inl ⟨rfl, by rw [elements, hheap], rfl, rfl⟩
  | some last =>
      obtain ⟨rest, hheap⟩ := Array.back?_eq_some_iff.mp hback
      rw [poll, hheap, Array.back?_push, Array.pop_push] at h
      refine Or.inr ?_
      dsimp only at h
      cases htop : rest[0]? with
      | none =>
          obtain rfl : rest = #[] := by simpa using htop
          obtain ⟨moved, hmoved, hput⟩ := bind_eq_ok_iff.mp h
          obtain ⟨hpool, -⟩ := Reference.eq_of_repoint hmoved
          rw [repoint_eq hpool] at hmoved
          cases hmoved
          cases hput
          refine ⟨rfl, hpool.symm, ?_, ?_⟩
          · rw [hheap]
            rfl
          · rw [elements, hheap]
            exact List.Perm.refl _
      | some top =>
          rw [htop] at h
          obtain ⟨moved, hmoved, hrest⟩ := bind_eq_ok_iff.mp h
          obtain ⟨hpool, -⟩ := Reference.eq_of_repoint hmoved
          rw [repoint_eq hpool] at hmoved
          cases hmoved
          obtain ⟨sunk, hsift, hput⟩ := bind_eq_ok_iff.mp hrest
          cases hput
          obtain ⟨hlt, hget⟩ := Array.getElem?_eq_some_iff.mp htop
          refine ⟨rfl, hpool.symm, ?_, ?_⟩
          · rw [hheap, Array.getElem?_push_lt hlt, hget]
          · rw [elements, hheap]
            exact (perm_setIfInBounds_zero htop).trans ((perm_of_siftDown hsift).symm.cons _)

/-- Offering fails only where the comparator does. -/
theorem error_of_offer {e : Fault} (h : q.offer order r = .error e) :
    ∃ x ∈ r :: q.elements, ∃ y ∈ r :: q.elements, order x y = .error e := by
  obtain hfail | ⟨heap', -, ⟨⟩⟩ := bind_eq_error_iff.mp h
  have hpush : ∀ x, x ∈ (q.heap.push r).toList → x ∈ r :: q.elements :=
    fun x => (perm_push q.heap r).mem_iff.mp
  obtain ⟨x, hx, y, hy, hcmp⟩ :=
    error_of_siftUp (by rw [Array.size_push]; omega : q.heap.size < (q.heap.push r).size) hfail
  exact ⟨x, hpush x hx, y, hpush y hy, hcmp⟩

/-- Polling into a reference of the pool of the elements fails only where the
comparator does. -/
theorem error_of_poll {e : Fault} (hpool : ∀ x ∈ q.elements, r.pool = x.pool)
    (h : q.poll order r = .error e) :
    ∃ x ∈ q.elements, ∃ y ∈ q.elements, order x y = .error e := by
  cases hback : q.heap.back? with
  | none =>
      rw [poll, hback] at h
      cases h
  | some last =>
      obtain ⟨rest, hheap⟩ := Array.back?_eq_some_iff.mp hback
      have helements : q.elements = (rest.push last).toList := by rw [elements, hheap]
      rw [poll, hheap, Array.back?_push, Array.pop_push] at h
      dsimp only at h
      cases htop : rest[0]? with
      | none =>
          rw [htop, repoint_eq (hpool last (by rw [helements]; simp))] at h
          cases h
      | some top =>
          have hperm : q.elements.Perm (top :: (rest.setIfInBounds 0 last).toList) := by
            rw [helements]
            exact perm_setIfInBounds_zero htop
          rw [htop] at h
          dsimp only at h
          rw [repoint_eq (hpool top (hperm.mem_iff.mpr List.mem_cons_self)), ok_bind] at h
          obtain hfail | ⟨sunk, -, ⟨⟩⟩ := bind_eq_error_iff.mp h
          have hsunk : ∀ x, x ∈ (rest.setIfInBounds 0 last).toList → x ∈ q.elements :=
            fun x hx => hperm.mem_iff.mpr (List.mem_cons_of_mem top hx)
          obtain ⟨x, hx, y, hy, hcmp⟩ := error_of_siftDown hfail
          exact ⟨x, hsunk x hx, y, hsunk y hy, hcmp⟩

/-- **A queue has what it holds**: what was offered and neither polled nor
dropped since.  Nothing else is ever polled. -/
theorem Uses.elements_eq (h : Uses events q) :
    (q.elements : Multiset Reference) = held events ∧ PollsHeld events := by
  induction h with
  | start => exact ⟨rfl, by rintro n r ⟨⟩⟩
  | @offer events q q' order r _ hoffer ih =>
      refine ⟨?_, ih.2.concat (by rintro r ⟨⟩)⟩
      rw [held_concat, QueueEvent.apply, ← ih.1, Multiset.cons_coe]
      exact Multiset.coe_eq_coe.mpr (perm_of_offer hoffer)
  | @poll events q q' order r r' _ hpoll ih =>
      obtain ⟨⟨⟩, -⟩ | ⟨-, -, -, hperm⟩ := cases_of_poll hpoll
      have hcons : held events = r' ::ₘ (q'.elements : Multiset Reference) := by
        rw [← ih.1, Multiset.cons_coe]
        exact Multiset.coe_eq_coe.mpr hperm
      refine ⟨?_, ih.2.concat ?_⟩
      · rw [held_concat, QueueEvent.apply, hcons, Multiset.erase_cons_head]
      · rintro r ⟨⟩
        rw [hcons]
        exact Multiset.mem_cons_self r' _
  | clear _ ih =>
      refine ⟨?_, ih.2.concat (by rintro r ⟨⟩)⟩
      rw [held_concat]
      rfl

/-- What a queue holds are its elements. -/
theorem Uses.mem_held_iff (h : Uses events q) {x : Reference} :
    x ∈ held events ↔ x ∈ q.elements := by
  rw [← h.elements_eq.1, Multiset.mem_coe]

/-- A queue that holds nothing has no element. -/
theorem Uses.held_eq_zero_iff (h : Uses events q) : held events = 0 ↔ q.elements = [] := by
  rw [← h.elements_eq.1, Multiset.coe_eq_zero]

/-- An empty queue has nothing to show. -/
theorem peek_of_nil (h : q.elements = []) : q.peek r = .ok (false, r) := by
  have hheap : q.heap = #[] := Array.toList_eq_nil_iff.mp h
  rw [peek, hheap]
  rfl

/-- A queue shows the first element of its heap. -/
theorem peek_of_getElem? {top : Reference} (htop : q.heap[0]? = some top)
    (hr : r.pool = top.pool) : q.peek r = .ok (true, top) := by
  rw [peek, htop]
  dsimp only
  rw [repoint_eq hr]
  rfl

/-! ## Ranked elements -/

/-- Ranked calls keep the heap in order. -/
theorem RankedUses.ordered (h : RankedUses β cmp events q) :
    Std.TransCmp cmp ∧ HeapOrdered cmp q.heap := by
  induction h with
  | start cmp => exact ⟨inferInstance, heapOrdered_empty⟩
  | rerank cmp' _ hsame ih => exact ⟨inferInstance, ih.2.congr hsame⟩
  | @offer cmp events q q' order r p _ hranks hoffer ih =>
      obtain ⟨q₁, heq, -, hordered⟩ := offer_eq hranks.answers
        (fun x hx => List.mem_cons_of_mem r hx) List.mem_cons_self
      obtain rfl := Except.ok.inj (heq.symm.trans hoffer)
      exact ⟨ih.1, hordered ih.1 ih.2⟩
  | @poll cmp events q q' order r r' p _ hranks hpoll ih =>
      obtain ⟨⟨⟩, -⟩ | ⟨-, hpool, -, hperm⟩ := cases_of_poll hpoll
      have hr : r.pool = p.id :=
        hpool.symm.trans (hranks.pool_eq (hperm.mem_iff.mpr List.mem_cons_self))
      obtain ⟨q₁, top, heq, -, hordered⟩ := poll_eq hranks.answers (fun x hx => hx)
        (fun hnil => by simp [hnil] at hperm) (fun x hx => hr.trans (hranks.pool_eq hx).symm)
      obtain ⟨-, rfl, -⟩ : (true, q₁, top) = (true, q', r') ∧ q₁ = q' ∧ top = r' := by
        have := Except.ok.inj (heq.symm.trans hpoll)
        simp_all
      exact ⟨ih.1, (hordered ih.1 ih.2).1⟩
  | clear _ ih => exact ⟨ih.1, heapOrdered_empty⟩

/-- **Draining** polls all elements; in order, they come in ascending order. -/
theorem drain_go_eq {Known : Reference → Prop} (h : order.Answers cmp Known)
    (hknown : ∀ x ∈ q.elements, Known x) (hpool : ∀ x ∈ q.elements, r.pool = x.pool)
    (hpointed : ∀ x ∈ q.elements, x.target ≠ none) (found : List RecordIndex) :
    ∃ (polled : List Reference) (indices : List RecordIndex) (q' : PriorityQueue),
      drain.go order q.elements.length found q r =
        .ok (found.reverse ++ indices, q', polled.getLast?.getD r) ∧
      q'.elements = [] ∧ polled.Perm q.elements ∧
      polled.map Reference.index? = indices.map some ∧
      (Std.TransCmp cmp → HeapOrdered cmp q.heap →
        polled.Pairwise fun x y => (cmp x y).isLE) := by
  induction hcount : q.elements.length generalizing q r found with
  | zero =>
      have hnil : q.elements = [] := List.length_eq_zero_iff.mp hcount
      refine ⟨[], [], q, ?_, hnil, hnil ▸ List.Perm.refl _, rfl, fun _ _ => List.Pairwise.nil⟩
      rw [drain.go, List.append_nil]
      rfl
  | succ count ih =>
      obtain ⟨q₁, top, hpoll, hperm, hordered⟩ := poll_eq h hknown
        (fun hnil => by simp [hnil] at hcount) hpool
      have hmem : ∀ x ∈ q₁.elements, x ∈ q.elements := fun x hx =>
        hperm.mem_iff.mpr (List.mem_cons_of_mem top hx)
      have htop : top ∈ q.elements := hperm.mem_iff.mpr List.mem_cons_self
      have hcount₁ : q₁.elements.length = count := by
        have := hperm.length_eq
        rw [List.length_cons] at this
        omega
      obtain ⟨target, htarget⟩ := Option.ne_none_iff_exists'.mp (hpointed top htop)
      have hindex : top.index = .ok target.index := by
        rw [Reference.index, htarget]
        rfl
      obtain ⟨polled, indices, q', hgo, hnil, hpolled, hindices, hsorted⟩ :=
        ih (q := q₁) (r := top) (fun x hx => hknown x (hmem x hx))
          (fun x hx => (hpool top htop).symm.trans (hpool x (hmem x hx)))
          (fun x hx => hpointed x (hmem x hx)) (target.index :: found) hcount₁
      refine ⟨top :: polled, target.index :: indices, q', ?_, hnil,
        (hpolled.cons top).trans hperm.symm, ?_, fun htrans hheap => ?_⟩
      · rw [drain.go, hpoll, ok_bind]
        dsimp only
        rw [hindex, ok_bind, hgo, List.getLast?_cons, List.reverse_cons, List.append_assoc]
        rfl
      · rw [List.map_cons, List.map_cons, hindices, Reference.index?, htarget]
        rfl
      · obtain ⟨hheap₁, hle⟩ := hordered htrans hheap
        refine List.pairwise_cons.mpr ⟨fun x hx => ?_, hsorted htrans hheap₁⟩
        exact hle x (hmem x (hpolled.mem_iff.mp hx))

/-- Peeking and polling point at an element that no other one is less than. -/
theorem RankedUses.least (h : RankedUses β cmp events q) {p : Pool β}
    (hranks : order.Ranks p cmp (· ∈ q.elements)) (hr : r.pool = p.id) (hne : q.elements ≠ []) :
    ∃ q' top, q.peek r = .ok (true, top) ∧ q.poll order r = .ok (true, q', top) ∧
      top ∈ q.elements ∧ ∀ x ∈ q.elements, cmp x top ≠ .lt := by
  obtain ⟨htrans, hordered⟩ := h.ordered
  have hpool : ∀ x ∈ q.elements, r.pool = x.pool :=
    fun x hx => hr.trans (hranks.pool_eq hx).symm
  obtain ⟨q', top, hpoll, hperm, hleast⟩ := poll_eq hranks.answers (fun x hx => hx) hne hpool
  have hmem : top ∈ q.elements := hperm.mem_iff.mpr List.mem_cons_self
  obtain ⟨⟨⟩, -⟩ | ⟨-, -, hhead, -⟩ := cases_of_poll hpoll
  refine ⟨q', top, peek_of_getElem? hhead (hpool top hmem), hpoll, hmem, fun x hx hlt => ?_⟩
  have hle := (hleast htrans hordered).2 x hx
  have hswap : cmp top x = (cmp x top).swap := Std.OrientedCmp.eq_swap
  rw [hswap, hlt] at hle
  cases hle

/-- **A queue is a multiset from which least elements are taken.**  Whatever the
comparator answers, the elements are those that were offered and neither polled
nor dropped since; only such elements are polled; without one, polling and
peeking leave the reference as it was; and a call fails only where the
comparator does, so that it never reaches outside the heap.  While the elements
are live and ranked, peeking and polling point at one that no other one is less
than, and draining gives all of them in ascending order. -/
theorem refines_multiset (h : Uses events q) :
    (q.elements : Multiset Reference) = held events ∧ PollsHeld events ∧
      (held events = 0 → ∀ order r,
        q.poll order r = .ok (false, q, r) ∧ q.peek r = .ok (false, r)) ∧
      (∀ order r e, q.offer order r = .error e →
        ∃ x ∈ r ::ₘ held events, ∃ y ∈ r ::ₘ held events, order x y = .error e) ∧
      (∀ order r e, (∀ x ∈ held events, r.pool = x.pool) → q.poll order r = .error e →
        ∃ x ∈ held events, ∃ y ∈ held events, order x y = .error e) ∧
      ∀ cmp, RankedUses β cmp events q → ∀ (p : Pool β) order r,
        order.Ranks p cmp (· ∈ held events) → r.pool = p.id →
          (held events ≠ 0 → ∃ q' top, q.peek r = .ok (true, top) ∧
            q.poll order r = .ok (true, q', top) ∧ top ∈ held events ∧
            ∀ x ∈ held events, cmp x top ≠ .lt) ∧
          ∃ (polled : List Reference) (indices : List RecordIndex) (q' : PriorityQueue),
            q.drain order r = .ok (indices, q', polled.getLast?.getD r) ∧ q'.elements = [] ∧
            (polled : Multiset Reference) = held events ∧
            polled.map Reference.index? = indices.map some ∧
            polled.Pairwise fun x y => (cmp x y).isLE := by
  obtain ⟨helements, hpolls⟩ := h.elements_eq
  refine ⟨helements, hpolls, fun hzero order r => ?_, fun order r e hfail => ?_,
    fun order r e hpool hfail => ?_, fun cmp hranked p order r hranks hr => ⟨fun hne => ?_, ?_⟩⟩
  · have hnil : q.elements = [] := h.held_eq_zero_iff.mp hzero
    exact ⟨poll_of_nil hnil, peek_of_nil hnil⟩
  · rw [← helements, Multiset.cons_coe]
    exact error_of_offer hfail
  · rw [← helements]
    exact error_of_poll (fun x hx => hpool x (h.mem_held_iff.mpr hx)) hfail
  · rw [← helements] at hranks hne ⊢
    exact hranked.least hranks hr fun hnil => hne ((Multiset.coe_eq_zero _).mpr hnil)
  · rw [← helements] at hranks ⊢
    obtain ⟨htrans, hordered⟩ := hranked.ordered
    obtain ⟨polled, indices, q', hdrain, hnil, hperm, hindices, hsorted⟩ :=
      drain_go_eq hranks.answers (fun x hx => hx)
        (fun x hx => hr.trans (hranks.pool_eq hx).symm)
        (fun x hx => (Pool.own_of_check (hranks.live x hx)).2) []
    exact ⟨polled, indices, q', hdrain, hnil, Multiset.coe_eq_coe.mpr hperm, hindices,
      hsorted htrans hordered⟩

/-- Two records, the first of rating 5 and the second of rating 3. -/
def ratedPool : Pool UInt8 :=
  ⟨0, ⟨0, [⟨"rating", .scalar .int, 0⟩], 4⟩,
    ⟨#[⟨#[5, 0, 0, 0, 3, 0, 0, 0], 4⟩], 4, none, 0, 0, 2, indexLimit, 2⟩, .keep, 2, [],
    #[true, true], #[0, 0], 0, []⟩

/-- The reference to a record of `ratedPool`. -/
def ratedReference (i : RecordIndex) : Reference :=
  ⟨0, some ⟨i, 0, 0⟩⟩

/-- The rating of a record of `ratedPool`. -/
def rating (r : Reference) : Nat :=
  if r = ratedReference 0 then 5 else 3

/-- The comparator of ratings ranks the two records. -/
theorem ranks_ratedPool {Queued : Reference → Prop}
    (hqueued : ∀ x, Queued x → x = ratedReference 0 ∨ x = ratedReference 1) :
    (Comparator.byInt ⟨0, 0⟩ ratedPool).Ranks ratedPool (compareOn rating) Queued := by
  constructor
  · intro x hx
    obtain rfl | rfl := hqueued x hx <;> rfl
  · intro x y hx hy
    obtain rfl | rfl := hqueued x hx <;> obtain rfl | rfl := hqueued y hy <;> rfl

/-- Either record can be offered to a queue that has no others. -/
theorem RankedUses.offer_rated (h : RankedUses UInt8 (compareOn rating) events q)
    (hrated : ∀ x ∈ r :: q.elements, x = ratedReference 0 ∨ x = ratedReference 1) :
    ∃ q', RankedUses UInt8 (compareOn rating) (events ++ [.offered r]) q' ∧
      ∀ x ∈ q'.elements, x = ratedReference 0 ∨ x = ratedReference 1 := by
  have hranks := ranks_ratedPool hrated
  obtain ⟨q', hoffer, hperm, -⟩ := offer_eq hranks.answers
    (fun x hx => List.mem_cons_of_mem r hx) List.mem_cons_self
  exact ⟨q', h.offer ratedPool hranks hoffer, fun x hx => hrated x (hperm.mem_iff.mp hx)⟩

/-- The first record is offered, then the second, then the first again: draining
gives the second one and then the first one twice. -/
theorem drains_lesser_first : ∃ q q' : PriorityQueue,
    Uses [.offered (ratedReference 0), .offered (ratedReference 1), .offered (ratedReference 0)] q ∧
      q.drain (.byInt ⟨0, 0⟩ ratedPool) (.unpointed 0) =
        .ok ([1, 0, 0], q', ratedReference 0) := by
  obtain ⟨q₁, h₁, hrated₁⟩ := (RankedUses.start (β := UInt8) (compareOn rating)).offer_rated
    (List.forall_mem_cons.mpr ⟨Or.inl rfl, fun x hx => by cases hx⟩)
  obtain ⟨q₂, h₂, hrated₂⟩ := h₁.offer_rated (List.forall_mem_cons.mpr ⟨Or.inr rfl, hrated₁⟩)
  obtain ⟨q₃, h₃, -⟩ := h₂.offer_rated (List.forall_mem_cons.mpr ⟨Or.inl rfl, hrated₂⟩)
  obtain ⟨-, -, -, -, -, hranked⟩ := refines_multiset (β := UInt8) h₃.uses
  obtain ⟨-, polled, indices, q', hdrain, -, hpolled, hindices, hsorted⟩ :=
    hranked _ h₃ ratedPool (.byInt ⟨0, 0⟩ ratedPool) (.unpointed 0)
      (ranks_ratedPool fun x hx => by
        have hx : x ∈ [ratedReference 0, ratedReference 1, ratedReference 0] := hx
        simpa [or_comm] using hx) rfl
  have hheld : (polled : Multiset Reference) =
      {ratedReference 0, ratedReference 1, ratedReference 0} := hpolled
  obtain rfl : polled = [ratedReference 1, ratedReference 0, ratedReference 0] := by
    obtain ⟨x, y, z, rfl⟩ := List.length_eq_three.mp (congrArg Multiset.card hheld)
    have hmem : ∀ u ∈ [x, y, z], u = ratedReference 0 ∨ u = ratedReference 1 := by
      intro u hu
      have hu : u ∈ [ratedReference 0, ratedReference 1, ratedReference 0] :=
        (Multiset.coe_eq_coe.mp hheld).mem_iff.mp hu
      grind
    have hx := hmem x (by simp)
    have hy := hmem y (by simp)
    have hz := hmem z (by simp)
    -- of the eight lists, one is in order and has the second record once
    rcases hx with rfl | rfl <;> rcases hy with rfl | rfl <;> rcases hz with rfl | rfl <;>
      first | rfl | (revert hheld hsorted; decide)
  obtain rfl : indices = [1, 0, 0] := by
    have hinj : Function.Injective (List.map (some : RecordIndex → Option RecordIndex)) :=
      List.map_injective_iff.mpr (Option.some_injective _)
    exact hinj hindices.symm
  exact ⟨q₃, q', h₃.uses, hdrain⟩

end PriorityQueue

end RecordPool
