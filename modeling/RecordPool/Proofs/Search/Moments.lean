/-
# The moments of a search

A search changes its queue by single operations: it polls an entry, and for a
box it offers the boxes of the children and the box again as a point.  What it
is in the middle of between two such operations is its `Stage`; `Moment` lists
the states that the stages can be in, over any number of queries.  Each of
them explores the tree.
-/
import RecordPool.Proofs.Search.Runs

namespace RecordPool

namespace NeighborSearch

open Frontier

variable {β F : Type} [Memory β F] [Arithmetic F]

/-- What a search is in the middle of. -/
inductive Stage (F : Type) where
  /-- No entry is held: a call may begin or end, or the next entry be polled. -/
  | resting
  /-- An entry was polled. -/
  | polled (entry : Reference)
  /-- The left child of a polled box was opened. -/
  | leftOpened (box : Reference) (split : Split F)
  /-- Both children of a polled box were opened. -/
  | rightOpened (box : Reference) (split : Split F)
  /-- An entry was filled in and is to be offered next. -/
  | filled

/-- The states of searches over the tree `t`, from the making of a search on,
with the stages they are in. -/
inductive Moment (t : KdTree β F) : Stage F → NeighborSearch β F → Prop
  | made {id : PoolId} {s : NeighborSearch β F} (make : make id t = pure s) : Moment t .resting s
  | begun {s s' : NeighborSearch β F} {query : List F} (before : Moment t .resting s)
      (search : s.search query = .ok (.ok (), s')) : Moment t .resting s'
  | ended {s : NeighborSearch β F} {queue : PriorityQueue} {entry : Reference}
      (before : Moment t .resting s)
      (poll : s.queue.poll s.frontier.order s.frontier.pool.newReference =
        .ok (false, queue, entry)) : Moment t .resting { s with neighbor := none }
  | polled {s : NeighborSearch β F} {queue : PriorityQueue} {entry : Reference}
      (before : Moment t .resting s)
      (poll : s.queue.poll s.frontier.order s.frontier.pool.newReference =
        .ok (true, queue, entry)) : Moment t (.polled entry) { s with queue }
  | yielded {s s' : NeighborSearch β F} {entry : Reference} {index : RecordIndex}
      {neighbor : Neighbor F} (before : Moment t (.polled entry) s)
      (node : s.frontier.nodeOf entry = .ok index)
      (point : s.frontier.entryIsPoint entry = .ok true)
      (yieldPoint : s.yieldPoint entry index = .ok (neighbor, s')) : Moment t .resting s'
  | leftFilled {s : NeighborSearch β F} {f : Frontier β} {box child : Reference}
      {index target : RecordIndex} {split : Split F} (before : Moment t (.polled box) s)
      (node : s.frontier.nodeOf box = .ok index)
      (point : s.frontier.entryIsPoint box = .ok false)
      (splitOf : s.splitOf box index = .ok split)
      (left : s.tree.left split.node = .ok (some target))
      (fill : s.boxChild box target split.axis 1 (Arithmetic.le split.difference Arithmetic.zero)
        split.difference = .ok (f, child)) : Moment t .filled { s with frontier := f }
  | leftOpened {s s' : NeighborSearch β F} {box : Reference} {index : RecordIndex}
      {split : Split F} (before : Moment t (.polled box) s)
      (node : s.frontier.nodeOf box = .ok index)
      (point : s.frontier.entryIsPoint box = .ok false)
      (splitOf : s.splitOf box index = .ok split)
      (openLeft : s.countExpanded.openLeft box split = .ok s') :
      Moment t (.leftOpened box split) s'
  | rightFilled {s : NeighborSearch β F} {f : Frontier β} {box child : Reference}
      {index : RecordIndex} {split : Split F} (before : Moment t (.leftOpened box split) s)
      (right : s.tree.right split.node = .ok (some index))
      (fill : s.boxChild box index split.axis (-1)
        (Arithmetic.lt Arithmetic.zero split.difference) split.difference = .ok (f, child)) :
      Moment t .filled { s with frontier := f }
  | rightOpened {s s' : NeighborSearch β F} {box : Reference} {split : Split F}
      (before : Moment t (.leftOpened box split) s)
      (openRight : s.openRight box split = .ok s') : Moment t (.rightOpened box split) s'
  | measured {s : NeighborSearch β F} {f : Frontier β} {box : Reference} {split : Split F}
      (before : Moment t (.rightOpened box split) s)
      (measure : s.measure box split = .ok f) : Moment t .filled { s with frontier := f }
  | requeued {s s' : NeighborSearch β F} {box : Reference} {split : Split F}
      (before : Moment t (.rightOpened box split) s)
      (requeue : s.requeue box split = .ok s') : Moment t .resting s'

variable {t : KdTree β F} {s s' : NeighborSearch β F} {o : Outline F}

/-! ## The calls of a search -/

/-- Opening a polled box passes through the stages between its queue operations
and lets the search rest. -/
theorem Moment.expand {box : Reference} {index : RecordIndex} (h : Moment t (.polled box) s)
    (hnode : s.frontier.nodeOf box = .ok index) (hpoint : s.frontier.entryIsPoint box = .ok false)
    (hexpand : s.expand box index = .ok s') : Moment t .resting s' := by
  rw [expand_eq_parts] at hexpand
  obtain ⟨split, hsplit, hexpand⟩ := bind_eq_ok_iff.mp hexpand
  obtain ⟨s₁, hleft, hexpand⟩ := bind_eq_ok_iff.mp hexpand
  obtain ⟨s₂, hright, hrequeue⟩ := bind_eq_ok_iff.mp hexpand
  have hopened := (h.leftOpened hnode hpoint hsplit hleft).rightOpened hright
  exact hopened.requeued hrequeue

/-- Taking entries goes from moment to moment. -/
theorem Moment.takeUntilPoint {fuel : Nat} {neighbor : Option (Neighbor F)}
    (h : Moment t .resting s) (htake : s.takeUntilPoint fuel = .ok (neighbor, s')) :
    Moment t .resting s' := by
  induction fuel generalizing s with
  | zero => cases htake
  | succ fuel ih =>
      rw [NeighborSearch.takeUntilPoint] at htake
      obtain ⟨⟨found, queue, entry⟩, hpoll, htake⟩ := bind_eq_ok_iff.mp htake
      cases found with
      | false =>
          cases htake
          exact .ended h hpoll
      | true =>
          obtain ⟨index, hnode, htake⟩ := bind_eq_ok_iff.mp htake
          obtain ⟨isPoint, hpoint, htake⟩ := bind_eq_ok_iff.mp htake
          have hpolled := h.polled hpoll
          cases isPoint with
          | true =>
              obtain ⟨⟨found, s₁⟩, hyield, htake⟩ := bind_eq_ok_iff.mp htake
              cases htake
              exact hpolled.yielded hnode hpoint hyield
          | false =>
              obtain ⟨s₁, hexpand, htake⟩ := bind_eq_ok_iff.mp htake
              exact ih (hpolled.expand hnode hpoint hexpand) htake

/-- **A call of `next` goes from moment to moment.** -/
theorem Moment.next {neighbor : Option (Neighbor F)} (h : Moment t .resting s)
    (hnext : s.next = .ok (neighbor, s')) : Moment t .resting s' :=
  h.takeUntilPoint hnext

/-- **After the root was opened** the boxes of its children are queued. -/
theorem exists_opened_root (ht : t.Represents o) (hleast : t.least.length = t.dimension)
    (hgreatest : t.greatest.length = t.dimension) (id : PoolId) {query : List F}
    (hquery : query.length = t.dimension) {x : Subtree F} (hx : x.outline = o)
    (hdepth : x.depth = 0) :
    ∃ (s : NeighborSearch β F) (items : List (Nat × Subtree F)), Moment t .resting s ∧
      s.tree = t ∧ s.query = query ∧ s.Explores o [] [] items ∧
      ∀ y : Subtree F, y.outline = x.left ∨ y.outline = x.right → y.depth = 1 →
        Boxed s.frontier items y := by
  obtain ⟨s₀, hmake, rfl, h₀⟩ := make_eq ht hleast hgreatest id
  obtain ⟨s₁, items₁, hsearch, htree₁, hquery₁, h₁, hroot⟩ := search_eq h₀.toServes hquery
  have hbegun : Moment s₀.tree .resting s₁ := .begun (.made hmake) hsearch
  have hne : items₁ ≠ [] := by
    -- the topmost node is to be visited
    rintro rfl
    have hmem : x ∈ o.subtrees 0 := hx ▸ hdepth ▸ x.mem_below_self
    exact absurd (h₁.visits.mem_iff.mpr hmem) List.not_mem_nil
  obtain ⟨queue, i, z, rest, hpoll, hperm, hentry, h₂, -⟩ := h₁.poll hne
  have htop : (i, z) ∈ items₁ := hperm.mem_iff.mpr List.mem_cons_self
  obtain ⟨houtline, hdepth', hbox⟩ := hroot _ htop
  obtain rfl : z = x := Subtree.eq_of_outline (houtline.trans hx.symm) (hdepth'.trans hdepth.symm)
  obtain ⟨hnode, hpoint, -⟩ := h₁.reads htop
  rw [hbox] at h₂ hpoint
  rcases hentry.cases with ⟨-, hentry⟩ | ⟨htrue, -⟩
  · obtain ⟨s₂, items₂, hexpand, h₃, htree, hquery', -, -, hboxed⟩ := h₂.expand_eq hentry
    refine ⟨s₂, items₂, (hbegun.polled hpoll).expand hnode hpoint hexpand, htree.trans htree₁,
      hquery'.trans hquery₁, h₃, fun y hy hone => hboxed y hy ?_⟩
    rw [hone, hdepth]
  · rw [hbox] at htrue
    cases htrue

/-! ## What the moments have in common -/

/-- What a stage says of the state: which nodes are queued and which are not,
and what the held entry is. -/
def Consistent (o : Outline F) : Stage F → NeighborSearch β F → Prop
  | .resting, s => ∃ outside items, s.Explores o [] outside items
  | .polled entry, s => ∃ i x outside items, entry = s.frontier.pool.referenceTo i ∧
      EntryOf s.tree s.query o x (s.frontier.entryAt i) ∧
      s.Explores o [i] (x.visits (s.frontier.entryAt i : EntryRecord F).isPoint ++ outside) items
  | .leftOpened box split, s => ∃ i x outside items, box = s.frontier.pool.referenceTo i ∧
      split = s.splitAt x ∧ BoxOf s.tree s.query o x (s.frontier.entryAt i) ∧
      s.Explores o [i] (x.right.subtrees (x.depth + 1) ++ x :: outside) items
  | .rightOpened box split, s => ∃ i x outside items, box = s.frontier.pool.referenceTo i ∧
      split = s.splitAt x ∧ BoxOf s.tree s.query o x (s.frontier.entryAt i) ∧
      s.Explores o [i] (x :: outside) items
  | .filled, s => ∃ held outside items, s.Explores o held outside items

/-- In every stage the search explores the tree. -/
theorem Consistent.explores {stage : Stage F} (h : Consistent o stage s) :
    ∃ held outside items, s.Explores o held outside items := by
  cases stage with
  | resting =>
      obtain ⟨outside, items, h⟩ := h
      exact ⟨_, _, _, h⟩
  | polled entry =>
      obtain ⟨i, x, outside, items, -, -, h⟩ := h
      exact ⟨_, _, _, h⟩
  | leftOpened box split =>
      obtain ⟨i, x, outside, items, -, -, -, h⟩ := h
      exact ⟨_, _, _, h⟩
  | rightOpened box split =>
      obtain ⟨i, x, outside, items, -, -, -, h⟩ := h
      exact ⟨_, _, _, h⟩
  | filled => exact h

/-- Only a query of the dimension of the tree is accepted. -/
theorem length_of_search {query : List F} (h : s.search query = .ok (.ok (), s')) :
    query.length = s.tree.dimension := by
  by_contra hne
  have hne' : HasCoordinates.dimension query ≠ s.tree.dimension := hne
  rw [search, if_pos hne'] at h
  cases h

namespace Consistent

variable {box : Reference} {split : Split F} {index : RecordIndex}

/-- A polled entry that is a point can only be yielded. -/
theorem yieldPoint {entry : Reference} {neighbor : Neighbor F}
    (h : Consistent o (.polled entry) s) (hnode : s.frontier.nodeOf entry = .ok index)
    (hpoint : s.frontier.entryIsPoint entry = .ok true)
    (hyield : s.yieldPoint entry index = .ok (neighbor, s')) :
    s'.tree = s.tree ∧ Consistent o .resting s' := by
  obtain ⟨i, x, outside, items, rfl, hentry, h⟩ := h
  have hlive : s.frontier.pool.IsLive i := (h.live i).mpr List.mem_cons_self
  rw [h.frontier.nodeOf_eq hlive hentry.spec.2] at hnode
  rw [h.frontier.entryIsPoint_eq hlive] at hpoint
  cases hnode
  obtain ⟨s₁, hyield₁, h₁, htree, -⟩ := h.yieldPoint_eq hentry (Except.ok.inj hpoint)
  rw [hyield₁] at hyield
  cases hyield
  exact ⟨htree, _, _, h₁⟩

/-- A polled entry that is no point is the box of some subtree. -/
theorem of_box (h : Consistent o (.polled box) s) (hnode : s.frontier.nodeOf box = .ok index)
    (hpoint : s.frontier.entryIsPoint box = .ok false) (hsplit : s.splitOf box index = .ok split) :
    ∃ i x outside items, box = s.frontier.pool.referenceTo i ∧ split = s.splitAt x ∧
      BoxOf s.tree s.query o x (s.frontier.entryAt i) ∧
      s.Explores o [i] (x.left.subtrees (x.depth + 1) ++
        (x.right.subtrees (x.depth + 1) ++ x :: outside)) items := by
  obtain ⟨i, x, outside, items, rfl, hentry, h⟩ := h
  have hlive : s.frontier.pool.IsLive i := (h.live i).mpr List.mem_cons_self
  rw [h.frontier.nodeOf_eq hlive hentry.spec.2] at hnode
  rw [h.frontier.entryIsPoint_eq hlive] at hpoint
  cases hnode
  have hfalse := Except.ok.inj hpoint
  rw [hfalse] at h
  rcases hentry.cases with ⟨-, hbox⟩ | ⟨htrue, -⟩
  · rw [h.splitOf_eq List.mem_cons_self hbox] at hsplit
    exact ⟨i, x, outside, items, rfl, (Except.ok.inj hsplit).symm, hbox,
      h.permOutside (x.below_append_perm outside)⟩
  · rw [hfalse] at htrue
    cases htrue

/-- Opening the left child leads to the next stage. -/
theorem openLeft (h : Consistent o (.polled box) s) (hnode : s.frontier.nodeOf box = .ok index)
    (hpoint : s.frontier.entryIsPoint box = .ok false) (hsplit : s.splitOf box index = .ok split)
    (hopen : s.countExpanded.openLeft box split = .ok s') :
    s'.tree = s.tree ∧ Consistent o (.leftOpened box split) s' := by
  obtain ⟨i, x, outside, items, rfl, rfl, hbox, h⟩ := h.of_box hnode hpoint hsplit
  have hcounted : s.countExpanded.Explores o [i] _ items := h.notes _ _
  obtain ⟨s₁, items₁, hopen₁, h₁, keeps, -⟩ := hcounted.openLeft_eq (x := x) hbox (by simp)
  obtain rfl : s₁ = s' := Except.ok.inj (hopen₁.symm.trans hopen)
  refine ⟨keeps.tree, i, x, outside, items₁, keeps.referenceTo.symm, (keeps.splitAt x).symm, ?_, h₁⟩
  rw [keeps.tree, keeps.query, keeps.entryAt]
  exact hbox

/-- Opening the right child leads to the next stage. -/
theorem openRight (h : Consistent o (.leftOpened box split) s)
    (hopen : s.openRight box split = .ok s') :
    s'.tree = s.tree ∧ Consistent o (.rightOpened box split) s' := by
  obtain ⟨i, x, outside, items, rfl, rfl, hbox, h⟩ := h
  obtain ⟨s₁, items₁, hopen₁, h₁, keeps, -⟩ := h.openRight_eq hbox (by simp)
  obtain rfl : s₁ = s' := Except.ok.inj (hopen₁.symm.trans hopen)
  refine ⟨keeps.tree, i, x, outside, items₁, keeps.referenceTo.symm, (keeps.splitAt x).symm, ?_, h₁⟩
  rw [keeps.tree, keeps.query, keeps.entryAt]
  exact hbox

/-- Queueing the point of the box lets the search rest. -/
theorem requeue (h : Consistent o (.rightOpened box split) s)
    (hrequeue : s.requeue box split = .ok s') : s'.tree = s.tree ∧ Consistent o .resting s' := by
  obtain ⟨i, x, outside, items, rfl, rfl, hbox, h⟩ := h
  obtain ⟨s₁, hrequeue₁, h₁, htree, -, -⟩ := h.requeue_eq hbox
  obtain rfl : s₁ = s' := Except.ok.inj (hrequeue₁.symm.trans hrequeue)
  exact ⟨htree, outside, _, h₁⟩

/-- A child is filled in beside the queue. -/
theorem fill {i : Nat} {x : Subtree F} {outside : List (Subtree F)}
    {items : List (Nat × Subtree F)} {f : Frontier β} {child : Reference} {side : Int8}
    {crosses : Bool} {part : Outline F}
    (h : s.Explores o [i] (part.subtrees (x.depth + 1) ++ outside) items) (hout : outside ≠ [])
    (hroot : part.root? = some index)
    (hfill : s.boxChild (s.frontier.pool.referenceTo i) index (s.splitAt x).axis side crosses
      (s.splitAt x).difference = .ok (f, child)) :
    Consistent o .filled ({ s with frontier := f } : NeighborSearch β F) := by
  obtain ⟨y, hy, rfl⟩ := Outline.exists_mem_subtrees (x.depth + 1) hroot
  have hmem : y ∈ o.subtrees 0 :=
    h.visits.mem_iff.mp (List.mem_append_left _ (List.mem_append_left _ hy))
  obtain ⟨j, f', hfill', -, h'⟩ := h.boxChild (Explores.one_lt_length_append hy hout)
    (Nat.mod_lt x.depth h.tree.dimension_pos) (h.tree.index_le hmem) side crosses
    (s.splitAt x).difference
  obtain ⟨rfl, -⟩ := Prod.mk.inj (Except.ok.inj (hfill'.symm.trans hfill))
  exact ⟨_, _, _, h'⟩

end Consistent

/-- **Every moment is consistent**: no node is lost and none is queued twice, at
any stage of any search. -/
theorem Moment.consistent {stage : Stage F} (ht : t.Represents o)
    (hleast : t.least.length = t.dimension) (hgreatest : t.greatest.length = t.dimension)
    (h : Moment t stage s) : s.tree = t ∧ Consistent o stage s := by
  induction h with
  | @made id s hmake =>
      obtain ⟨s₁, hmake₁, htree, h₁⟩ := make_eq ht hleast hgreatest id
      obtain rfl : s₁ = s := Except.ok.inj (Except.ok.inj (hmake₁.symm.trans hmake))
      exact ⟨htree, _, _, h₁⟩
  -- each operation is a function, so that it led to the state its lemma promises
  | @begun s s' query _ hsearch ih =>
      obtain ⟨htree, outside, items, h⟩ := ih
      obtain ⟨s₁, items₁, hsearch₁, htree₁, -, h₁, -⟩ :=
        search_eq h.toServes (length_of_search hsearch)
      obtain ⟨-, rfl⟩ := Prod.mk.inj (Except.ok.inj (hsearch₁.symm.trans hsearch))
      exact ⟨htree₁.trans htree, _, _, h₁⟩
  | ended _ _ ih =>
      obtain ⟨htree, outside, items, h⟩ := ih
      exact ⟨htree, outside, items, h.notes _ _⟩
  | @polled s queue entry _ hpoll ih =>
      obtain ⟨htree, outside, items, h⟩ := ih
      have hne : items ≠ [] := by
        -- an empty queue would not have been polled with success
        rintro rfl
        rw [PriorityQueue.poll_of_nil h.elements_of_nil] at hpoll
        cases hpoll
      obtain ⟨queue₁, i, x, rest, hpoll₁, -, hentry, h₁, -⟩ := h.poll hne
      obtain ⟨rfl, rfl⟩ := Prod.mk.inj (Prod.mk.inj (Except.ok.inj (hpoll₁.symm.trans hpoll))).2
      exact ⟨htree, i, x, outside, rest, rfl, hentry, h₁⟩
  | yielded _ hnode hpoint hyield ih =>
      obtain ⟨htree, h⟩ := ih.2.yieldPoint hnode hpoint hyield
      exact ⟨htree.trans ih.1, h⟩
  | leftFilled _ hnode hpoint hsplit hleft hfill ih =>
      obtain ⟨i, x, outside, items, rfl, rfl, hbox, h⟩ := ih.2.of_box hnode hpoint hsplit
      have hroot := (h.tree.left_eq (h.tree.storedIn hbox.spec.1)).symm.trans hleft
      exact ⟨ih.1, Consistent.fill h (by simp) (Except.ok.inj hroot) hfill⟩
  | leftOpened _ hnode hpoint hsplit hopen ih =>
      obtain ⟨htree, h⟩ := ih.2.openLeft hnode hpoint hsplit hopen
      exact ⟨htree.trans ih.1, h⟩
  | rightFilled _ hright hfill ih =>
      obtain ⟨htree, i, x, outside, items, rfl, rfl, hbox, h⟩ := ih
      have hroot := (h.tree.right_eq (h.tree.storedIn hbox.spec.1)).symm.trans hright
      exact ⟨htree, Consistent.fill h (by simp) (Except.ok.inj hroot) hfill⟩
  | rightOpened _ hopen ih =>
      obtain ⟨htree, h⟩ := ih.2.openRight hopen
      exact ⟨htree.trans ih.1, h⟩
  | measured _ hmeasure ih =>
      obtain ⟨htree, i, x, outside, items, rfl, rfl, hbox, h⟩ := ih
      obtain ⟨f', hmeasure', hfills⟩ := h.measure_eq List.mem_cons_self hbox
      obtain rfl := Except.ok.inj (hmeasure'.symm.trans hmeasure)
      exact ⟨htree, _, _, _, h.fills List.mem_cons_self hfills⟩
  | requeued _ hrequeue ih =>
      obtain ⟨htree, h⟩ := ih.2.requeue hrequeue
      exact ⟨htree.trans ih.1, h⟩

end NeighborSearch

end RecordPool
