/-
# The books of a search

A search counts the boxes it opens, the points it yields and the entries it
creates, and it notes the greatest length of its queue.  The counters are kept
at different places, but between any two of these they are in balance with the
queue, the entries held beside it, and the slots that the frontier has handed
out (`Books`).
-/
import RecordPool.Proofs.Pool.QueueUses
import RecordPool.Proofs.Search.Runs

namespace RecordPool

namespace NeighborSearch

open Frontier

variable {β F : Type} [Memory β F] [Arithmetic F]

/-! ## The balance -/

/-- The books of a search that has opened and yielded so many boxes and points
and holds so many entries beside the queue.  An entry that was created is
yielded, held or queued; the frontier has handed out as many slots as were ever
in use at once. -/
structure Books (s : NeighborSearch β F) (opened found held : Nat) : Prop where
  expanded : s.counters.expanded = opened
  yielded : s.counters.yielded = found
  created : s.counters.created = found + held + s.queue.size
  queued_le : s.queue.size ≤ s.counters.peak
  peak_le : s.counters.peak ≤ s.counters.created
  allocated : s.frontier.pool.allocated = max s.counters.peak (held + s.queue.size)

variable {s s' : NeighborSearch β F} {f' : Frontier β} {o : Outline F} {held : List Nat}
  {outside : List (Subtree F)} {items : List (Nat × Subtree F)} {i j opened found : Nat}
  {x : Subtree F} {e : EntryRecord F} {r : Reference}

omit [Memory β F] [Arithmetic F] in
/-- The size of a queue is the number of its elements. -/
theorem size_eq_length (q : PriorityQueue) : q.size = q.elements.length :=
  Array.length_toList.symm

/-- Offering lengthens the queue by one and notes its length. -/
theorem exists_queue_of_offer (hoffer : s.offer r = .ok s') :
    ∃ queue : PriorityQueue, queue.size = s.queue.size + 1 ∧
      s' = { s with
        queue
        counters := { s.counters with peak := max s.counters.peak queue.size } } := by
  obtain ⟨queue, hqueue, hput⟩ := bind_eq_ok_iff.mp hoffer
  cases hput
  refine ⟨queue, ?_, rfl⟩
  rw [size_eq_length, (PriorityQueue.perm_of_offer hqueue).length_eq, List.length_cons,
    size_eq_length]

/-- As many entries are listed as are queued. -/
theorem Explores.length_items (h : s.Explores o held outside items) :
    items.length = s.queue.size := by
  rw [size_eq_length, h.queue.length_eq, List.length_map]

/-- The slots in use and the free ones are all that were handed out. -/
theorem Explores.in_use_add_free (h : s.Explores o held outside items) :
    held.length + s.queue.size + s.frontier.pool.free.length = s.frontier.pool.allocated := by
  have hcount := h.frontier.pool.length_add_length h.nodup fun i => (h.live i).symm
  rwa [List.length_append, List.length_map, h.length_items] at hcount

/-- A new entry takes a new slot only if that makes more entries than there
ever were. -/
theorem Explores.allocated_of_adds (h : s.Explores o held outside items)
    (hadds : s.frontier.Adds j e f') :
    f'.pool.allocated = max s.frontier.pool.allocated (held.length + s.queue.size + 1) := by
  have hcount := h.in_use_add_free
  rw [hadds.allocated]
  split
  · rename_i hfree
    rw [hfree, List.length_nil] at hcount
    omega
  · rename_i hfree
    have hpos := List.length_pos_iff.mpr hfree
    omega

namespace Books

/-! ## Creating entries -/

/-- A new entry that is queued and counted is in the books. -/
theorem offer_new (hb : s.Books opened found held.length)
    (h : s.Explores o held outside items) (hadds : s.frontier.Adds j e f')
    (hoffer : ({ s with frontier := f' } : NeighborSearch β F).offer r = .ok s') :
    s'.countCreated.Books opened found held.length := by
  have hallocated := h.allocated_of_adds hadds
  obtain ⟨queue, hsize, rfl⟩ := exists_queue_of_offer hoffer
  have hcreated := hb.created
  have hpeak := hb.peak_le
  have hbefore := hb.allocated
  dsimp only at hsize
  refine ⟨hb.expanded, hb.yielded, ?_, Nat.le_max_right _ _, ?_, ?_⟩
  · show s.counters.created + 1 = found + held.length + queue.size
    omega
  · show max s.counters.peak queue.size ≤ s.counters.created + 1
    omega
  · show f'.pool.allocated = max (max s.counters.peak queue.size) (held.length + queue.size)
    omega

/-- Opening a child, if there is one, keeps the balance. -/
theorem openChild? {child : Outline F} {side : Int8} {crosses : Bool} {difference : F}
    (hb : s.Books opened found 1)
    (h : s.Explores o [i] (child.subtrees (x.depth + 1) ++ outside) items) (hout : outside ≠ [])
    (hopen : s.openChild? (s.frontier.pool.referenceTo i) child.root?
      (x.depth % s.tree.dimension) side crosses difference = .ok s') :
    s'.Books opened found 1 := by
  cases child with
  | empty =>
      cases hopen
      exact hb
  | node index point left right =>
      have hy : (⟨x.depth + 1, index, point, left, right⟩ : Subtree F) ∈
          (Outline.node index point left right).subtrees (x.depth + 1) := List.mem_cons_self
      have hmem := h.visits.mem_iff.mp (List.mem_append_left _ (List.mem_append_left _ hy))
      obtain ⟨j, f', hbox, hadds, -⟩ := h.boxChild (Explores.one_lt_length_append hy hout)
        (Nat.mod_lt x.depth h.tree.dimension_pos) (h.tree.index_le hmem) side crosses difference
      change s.openChild _ index _ _ _ _ = .ok s' at hopen
      rw [openChild_eq_boxChild, hbox, ok_bind] at hopen
      obtain ⟨s₁, hoffer, hput⟩ := bind_eq_ok_iff.mp hopen
      cases hput
      exact hb.offer_new h hadds hoffer

/-- Opening the left child of a held box keeps the balance. -/
theorem openLeft (hb : s.Books opened found 1)
    (h : s.Explores o [i] (x.left.subtrees (x.depth + 1) ++ outside) items)
    (hbox : BoxOf s.tree s.query o x (s.frontier.entryAt i)) (hout : outside ≠ [])
    (hopen : s.openLeft (s.frontier.pool.referenceTo i) (s.splitAt x) = .ok s') :
    s'.Books opened found 1 := by
  rw [NeighborSearch.openLeft, splitAt, h.tree.left_eq (h.tree.storedIn hbox.spec.1), ok_bind]
    at hopen
  exact hb.openChild? h hout hopen

/-- Opening the right child of a held box keeps the balance. -/
theorem openRight (hb : s.Books opened found 1)
    (h : s.Explores o [i] (x.right.subtrees (x.depth + 1) ++ outside) items)
    (hbox : BoxOf s.tree s.query o x (s.frontier.entryAt i)) (hout : outside ≠ [])
    (hopen : s.openRight (s.frontier.pool.referenceTo i) (s.splitAt x) = .ok s') :
    s'.Books opened found 1 := by
  rw [NeighborSearch.openRight, splitAt, h.tree.right_eq (h.tree.storedIn hbox.spec.1), ok_bind]
    at hopen
  exact hb.openChild? h hout hopen

/-- The point of a held box is queued in place of the box. -/
theorem requeue (hb : s.Books opened found 1) (h : s.Explores o [i] (x :: outside) items)
    (hbox : BoxOf s.tree s.query o x (s.frontier.entryAt i))
    (hrequeue : s.requeue (s.frontier.pool.referenceTo i) (s.splitAt x) = .ok s') :
    s'.Books opened found 0 := by
  obtain ⟨f', hmeasure, hfills⟩ := h.measure_eq List.mem_cons_self hbox
  have hallocated := hfills.allocated
  rw [NeighborSearch.requeue, hmeasure, ok_bind] at hrequeue
  obtain ⟨queue, hsize, rfl⟩ := exists_queue_of_offer hrequeue
  have hcreated := hb.created
  have hpeak := hb.peak_le
  have hbefore := hb.allocated
  dsimp only at hsize
  refine ⟨hb.expanded, hb.yielded, ?_, Nat.le_max_right _ _, ?_, ?_⟩
  · show s.counters.created = found + 0 + queue.size
    omega
  · show max s.counters.peak queue.size ≤ s.counters.created
    omega
  · show f'.pool.allocated = max (max s.counters.peak queue.size) (0 + queue.size)
    omega

/-- **Opening a box** counts it, and its entries are in the books. -/
theorem expand (hb : s.Books opened found 1) (h : s.Explores o [i] (x.below ++ outside) items)
    (hbox : BoxOf s.tree s.query o x (s.frontier.entryAt i))
    (hexpand : s.expand (s.frontier.pool.referenceTo i) x.index = .ok s') :
    s'.Books (opened + 1) found 0 := by
  have h₀ : s.countExpanded.Explores o [i] (x.left.subtrees (x.depth + 1) ++
      (x.right.subtrees (x.depth + 1) ++ x :: outside)) items :=
    (h.permOutside (x.below_append_perm outside)).notes _ _
  have hb₀ : s.countExpanded.Books (opened + 1) found 1 :=
    ⟨congrArg (· + 1) hb.expanded, hb.yielded, hb.created, hb.queued_le, hb.peak_le, hb.allocated⟩
  rw [expand_eq_parts, h.splitOf_eq List.mem_cons_self hbox, ok_bind] at hexpand
  obtain ⟨s₁, hleft, hexpand⟩ := bind_eq_ok_iff.mp hexpand
  obtain ⟨s₂, hright, hrequeue⟩ := bind_eq_ok_iff.mp hexpand
  -- each part is a function, so that it led to the state its lemma promises
  obtain ⟨s₁', items₁, hleft', h₁, keeps₁, -⟩ := h₀.openLeft_eq (x := x) hbox (by simp)
  obtain rfl : s₁' = s₁ := Except.ok.inj (hleft'.symm.trans hleft)
  have hb₁ := hb₀.openLeft h₀ hbox (by simp) hleft
  have hbox₁ : BoxOf s₁'.tree s₁'.query o x (s₁'.frontier.entryAt i) := by
    rw [keeps₁.tree, keeps₁.query, keeps₁.entryAt]
    exact hbox
  have hsplit₁ : s.splitAt x = s₁'.splitAt x := (keeps₁.splitAt x).symm
  have href₁ : s.frontier.pool.referenceTo i = s₁'.frontier.pool.referenceTo i :=
    keeps₁.referenceTo.symm
  rw [href₁, hsplit₁] at hright hrequeue
  obtain ⟨s₂', items₂, hright', h₂, keeps₂, -⟩ := h₁.openRight_eq hbox₁ (by simp)
  obtain rfl : s₂' = s₂ := Except.ok.inj (hright'.symm.trans hright)
  have hb₂ := hb₁.openRight h₁ hbox₁ (by simp) hright
  have hbox₂ : BoxOf s₂'.tree s₂'.query o x (s₂'.frontier.entryAt i) := by
    rw [keeps₂.tree, keeps₂.query, keeps₂.entryAt]
    exact hbox₁
  rw [← keeps₂.referenceTo, ← keeps₂.splitAt x] at hrequeue
  exact hb₂.requeue h₂ hbox₂ hrequeue

/-! ## Taking entries -/

/-- Polling holds an entry, and there were as many as before. -/
theorem poll (hb : s.Books opened found 0) {queue : PriorityQueue}
    (hpoll : s.queue.poll s.frontier.order s.frontier.pool.newReference = .ok (true, queue, r)) :
    ({ s with queue } : NeighborSearch β F).Books opened found 1 ∧
      1 + queue.size ≤ s.counters.peak := by
  obtain ⟨hfalse, -⟩ | ⟨-, -, -, hperm⟩ := PriorityQueue.cases_of_poll hpoll
  · cases hfalse
  have hsize : s.queue.size = queue.size + 1 := by
    rw [size_eq_length, hperm.length_eq, List.length_cons, ← size_eq_length]
  have hcreated := hb.created
  have hqueued := hb.queued_le
  have hallocated := hb.allocated
  refine ⟨⟨hb.expanded, hb.yielded, ?_, ?_, hb.peak_le, ?_⟩, by omega⟩
  · show s.counters.created = found + 1 + queue.size
    omega
  · show queue.size ≤ s.counters.peak
    omega
  · show s.frontier.pool.allocated = max s.counters.peak (1 + queue.size)
    omega

omit [Memory β F] [Arithmetic F] in
/-- **Yielding** a polled point counts it and removes its entry. -/
theorem yield (hb : s.Books opened found 1) (hpeak : 1 + s.queue.size ≤ s.counters.peak)
    {p' : Pool β} (hdeletes : s.frontier.pool.Deletes i p') (neighbor : Neighbor F) :
    ({ s with
      frontier := { s.frontier with pool := p' }
      neighbor := some neighbor
      counters := { s.counters with yielded := s.counters.yielded + 1 } } :
        NeighborSearch β F).noteCapacity.Books opened (found + 1) 0 := by
  have hcreated := hb.created
  have hallocated := hb.allocated
  refine ⟨hb.expanded, congrArg (· + 1) hb.yielded, ?_, hb.queued_le, hb.peak_le, ?_⟩
  · show s.counters.created = found + 1 + 0 + s.queue.size
    omega
  · show p'.allocated = max s.counters.peak (0 + s.queue.size)
    rw [hdeletes.allocated]
    omega

end Books

end NeighborSearch

end RecordPool
