/-
# The accounts of a search

Between two calls the counters of a search, its queue and its frontier agree:
the queue holds the entries created less those yielded, as many of them points
as boxes were opened less points yielded, and the frontier has handed out as
many slots as the queue was ever long, no more than there are nodes
(`NeighborSearch.Accounts`).  In the end every node was opened, yielded and
created once, and nothing is left.
-/
import RecordPool.Proofs.Search.Books
import RecordPool.Proofs.Pool.Checks
import RecordPool.Proofs.Search.Reuse

namespace RecordPool

namespace NeighborSearch

open Frontier

variable {β F : Type} [Memory β F] [Arithmetic F]

/-! ## Between two calls -/

/-- A search between two calls, with its books.  The nodes outside the queue
are those that were yielded, and each node is opened or unopened. -/
structure Tally (s : NeighborSearch β F) (o : Outline F) (outside : List (Subtree F))
    (items : List (Nat × Subtree F)) : Prop extends Explores s o [] outside items where
  books : s.Books s.counters.expanded outside.length 0
  opened : s.counters.expanded + unopened s.frontier items = s.tree.nodes.allocated

variable {t : KdTree β F} {s s' : NeighborSearch β F} {o : Outline F}
  {outside : List (Subtree F)} {items : List (Nat × Subtree F)} {x : Subtree F}

/-- Yielding a polled point keeps the balance: its node was opened before. -/
theorem tally_of_yieldPoint {i : Nat} {index : RecordIndex} {neighbor : Neighbor F}
    (h : s.Explores o [i] (x :: outside) items)
    (hb : s.Books s.counters.expanded outside.length 1)
    (hpeak : 1 + s.queue.size ≤ s.counters.peak)
    (hopened : s.counters.expanded + unopened s.frontier items = s.tree.nodes.allocated)
    (hyield : s.yieldPoint (s.frontier.pool.referenceTo i) index = .ok (neighbor, s')) :
    s'.Tally o (x :: outside) items ∧ s'.tree = s.tree := by
  have hlive : s.frontier.pool.IsLive i := (h.live i).mpr List.mem_cons_self
  obtain ⟨p', hdelete, hdeletes, hsound⟩ := h.frontier.delete_eq hlive
  obtain ⟨node, -, hyield⟩ := bind_eq_ok_iff.mp hyield
  obtain ⟨data, -, hyield⟩ := bind_eq_ok_iff.mp hyield
  obtain ⟨distance, -, hyield⟩ := bind_eq_ok_iff.mp hyield
  rw [hdelete, ok_bind] at hyield
  cases hyield
  refine ⟨⟨(h.deletes hdeletes hsound).notes _ _,
    hb.yield hpeak hdeletes ⟨index, data, distance⟩, ?_⟩, rfl⟩
  have hkept : unopened ({ s.frontier with pool := p' } : Frontier β) items =
      unopened s.frontier items :=
    unopened_congr fun item hitem => congrArg s.frontier.entryOf
      (hdeletes.kept item.1 (h.ne_of_held List.mem_cons_self hitem))
  exact (congrArg (s.counters.expanded + ·) hkept).trans hopened

namespace Tally

/-- The neighbor yielded last does not matter. -/
theorem withNeighbor (h : s.Tally o outside items) (neighbor : Option (Neighbor F)) :
    ({ s with neighbor } : NeighborSearch β F).Tally o outside items where
  toExplores := h.notes s.counters neighbor
  books := ⟨rfl, h.books.yielded, h.books.created, h.books.queued_le, h.books.peak_le,
    h.books.allocated⟩
  opened := h.opened

/-- **Taking entries** until one is a point keeps the balance. -/
theorem takeUntilPoint {fuel : Nat} {neighbor : Option (Neighbor F)} (h : s.Tally o outside items)
    (htake : s.takeUntilPoint fuel = .ok (neighbor, s')) :
    ∃ outside' items', s'.Tally o outside' items' ∧ s'.tree = s.tree := by
  induction fuel generalizing s items with
  | zero => cases htake
  | succ fuel ih =>
      by_cases hne : items = []
      · subst hne
        rw [h.takeUntilPoint_of_nil] at htake
        cases htake
        exact ⟨outside, [], h.withNeighbor none, rfl⟩
      obtain ⟨queue, i, x, rest, hpoll, hperm, hentry, h₁, -⟩ := h.poll hne
      obtain ⟨hnode, hkind, -⟩ := h.reads (hperm.mem_iff.mpr List.mem_cons_self)
      obtain ⟨hb₁, hpeak⟩ := h.books.poll hpoll
      have hopened := h.opened
      rw [unopened_perm hperm, unopened_cons] at hopened
      rw [NeighborSearch.takeUntilPoint, hpoll, ok_bind] at htake
      dsimp only at htake
      rw [hnode, ok_bind, hkind, ok_bind] at htake
      rcases hentry.cases with ⟨hpoint, hbox⟩ | ⟨hpoint, -⟩
      · -- a box is opened, and the search goes on
        rw [hpoint, if_neg (by simp)] at htake hopened
        rw [hpoint] at h₁
        obtain ⟨s₂, items₂, hexpand, h₂, htree, -, hcount, -⟩ := h₁.expand_eq hbox
        have hb₂ := hb₁.expand h₁ hbox hexpand
        dsimp only at hexpand hcount htree
        rw [hexpand, ok_bind] at htake
        have htally : s₂.Tally o outside items₂ := by
          refine ⟨h₂, hb₂.expanded ▸ hb₂, ?_⟩
          rw [hb₂.expanded, htree, ← hopened]
          dsimp only
          omega
        obtain ⟨outside', items', htally', htree'⟩ := ih htally htake
        exact ⟨outside', items', htally', htree'.trans htree⟩
      · -- a point is yielded: it was opened before, and its entry goes
        rw [hpoint, if_pos rfl] at htake hopened
        rw [hpoint] at h₁
        obtain ⟨⟨neighbor', s₂⟩, hyield, hput⟩ := bind_eq_ok_iff.mp htake
        cases hput
        rw [Nat.zero_add] at hopened
        obtain ⟨htally, htree⟩ := tally_of_yieldPoint h₁ hb₁ hpeak hopened hyield
        exact ⟨_, _, htally, htree⟩

/-- **A call of `next`** keeps the balance. -/
theorem next {neighbor : Option (Neighbor F)} (h : s.Tally o outside items)
    (hnext : s.next = .ok (neighbor, s')) :
    ∃ outside' items', s'.Tally o outside' items' ∧ s'.tree = s.tree :=
  h.takeUntilPoint hnext

end Tally

/-! ## Beginning -/

omit [Memory β F] [Arithmetic F] in
/-- Nothing is in the books before the first entry. -/
theorem books_of_zero (hcounters : s.counters = .zero) (hqueue : s.queue = .empty)
    (hallocated : s.frontier.pool.allocated = 0) : s.Books 0 0 0 := by
  constructor <;>
    simp [hcounters, hqueue, hallocated, Counters.zero, PriorityQueue.empty, PriorityQueue.size]

/-- The box of the whole tree is the first entry. -/
theorem Books.enqueueRoot (hb : s.Books 0 0 0) (h : s.Explores o [] (o.subtrees 0) [])
    (hx : x ∈ o.subtrees 0) (henqueue : s.enqueueRoot x.index = .ok s') : s'.Books 0 0 0 := by
  obtain ⟨i, f', heq, hadds⟩ := NeighborSearch.enqueueRoot_eq h.frontier
    (h.room (List.length_pos_of_mem hx)) h.dimension h.least h.greatest h.query
    (h.tree.index_le hx)
  rw [heq] at henqueue
  obtain ⟨s₁, hoffer, hput⟩ := bind_eq_ok_iff.mp henqueue
  cases hput
  have hb₁ := hb.offer_new h hadds hoffer
  exact ⟨hb₁.expanded, hb₁.yielded, hb₁.created, hb₁.queued_le, hb₁.peak_le, hb₁.allocated⟩

/-- The search cleared for a query. -/
def clearedFor (s : NeighborSearch β F) (query : List F) : NeighborSearch β F :=
  { s with
    queue := .empty
    frontier := s.frontier.clear
    neighbor := none
    counters := .zero
    query }

/-- Queues the box of the whole tree, unless it is empty. -/
def enqueueTree (s : NeighborSearch β F) : Checked (NeighborSearch β F) :=
  match s.tree.root with
  | none => pure s
  | some root => s.enqueueRoot root

section Queries

variable {P : Type} [HasCoordinates P F] {query : P} {values : List F}

/-- Starting a search clears it for the coordinates of the query and queues the
whole tree. -/
theorem search_eq_enqueueTree (hquery : HasCoordinates.dimension query = s.tree.dimension)
    (hcopy : HasCoordinates.copyInto query s.query = .ok values) :
    s.search query = (do
      let s ← (s.clearedFor values).enqueueTree
      pure (.ok (), s)) := by
  rw [search, if_neg (not_not_intro hquery), hcopy, ok_bind, enqueueTree, clearedFor]
  dsimp only
  cases s.tree.root <;> rfl

/-- A query of the right dimension that is a list of numbers is copied. -/
theorem search_eq_enqueueTree_of_length (hlength : s.query.length = s.tree.dimension)
    (hvalues : values.length = s.tree.dimension) :
    s.search values = (do
      let s ← (s.clearedFor values).enqueueTree
      pure (.ok (), s)) := by
  refine search_eq_enqueueTree hvalues ?_
  rw [copyInto_eq (le_of_eq (hvalues.trans hlength.symm)),
    List.drop_of_length_le (le_of_eq (hlength.trans hvalues.symm)), List.append_nil]

/-- **A query is refused and nothing changes, or it is served** like the list of
its coordinates. -/
theorem search_cases [LawfulCoordinates P F] {outcome : Except TreeError Unit}
    (hlength : s.query.length = s.tree.dimension) (hsearch : s.search query = .ok (outcome, s')) :
    (∃ refusal, outcome = .error refusal ∧ s' = s) ∨
      outcome = .ok () ∧ ∃ values : List F, s.search values = .ok (.ok (), s') := by
  by_cases hquery : HasCoordinates.dimension query = s.tree.dimension
  · have hopened := hsearch
    rw [search, if_neg (not_not_intro hquery)] at hopened
    obtain ⟨values, hcopy, -⟩ := bind_eq_ok_iff.mp hopened
    have hvalues := LawfulCoordinates.length_of_copyInto query (hlength.trans hquery.symm) hcopy
    rw [search_eq_enqueueTree hquery hcopy] at hsearch
    have hsame := search_eq_enqueueTree_of_length hlength (hvalues.trans hlength)
    obtain ⟨s₁, -, hput⟩ := bind_eq_ok_iff.mp hsearch
    cases hput
    exact Or.inr ⟨rfl, values, hsame.trans hsearch⟩
  · rw [search_of_ne rfl hquery] at hsearch
    cases hsearch
    exact Or.inl ⟨_, rfl, rfl⟩

end Queries

/-- **A search that has begun is in balance**: the box of the whole tree is
queued, and nothing was yielded. -/
theorem tally_of_search {query : List F} (h : Serves s.tree s.query s.frontier o)
    (hsearch : s.search query = .ok (.ok (), s')) :
    ∃ items, s'.Tally o [] items ∧ s'.tree = s.tree := by
  have hquery := length_of_search hsearch
  rw [search_eq_enqueueTree_of_length h.query hquery] at hsearch
  obtain ⟨s₁, hbegin, hput⟩ := bind_eq_ok_iff.mp hsearch
  cases hput
  have h₀ : (s.clearedFor query).Explores o [] (o.subtrees 0) [] := h.cleared hquery
  have hb₀ : (s.clearedFor query).Books 0 0 0 := books_of_zero rfl rfl rfl
  have hcount := h.tree.length_subtrees
  rw [enqueueTree, h₀.tree.root] at hbegin
  cases o with
  | empty =>
      cases hbegin
      exact ⟨[], ⟨h₀, hb₀, hcount⟩, rfl⟩
  | node index point left right =>
      obtain ⟨s₂, i, henqueue, htree, -, h₁, hbox⟩ :=
        h₀.enqueueRoot_eq (x := ⟨0, index, point, left, right⟩) rfl rfl
      obtain rfl : s₂ = s' := Except.ok.inj (henqueue.symm.trans hbegin)
      have hb₁ := hb₀.enqueueRoot h₀ (Subtree.mem_below_self _) henqueue
      refine ⟨_, ⟨h₁, by rw [hb₁.expanded]; exact hb₁, ?_⟩, htree⟩
      rw [hb₁.expanded, unopened_cons, hbox, if_neg (by simp), htree]
      exact (Nat.zero_add _).trans hcount

/-! ## Used searches -/

/-- Taking several neighbors goes from moment to moment. -/
theorem Moment.take {count : Nat} {found : List (Neighbor F)} (h : Moment t .resting s)
    (htake : s.take count = .ok (found, s')) : Moment t .resting s' := by
  induction count generalizing s found with
  | zero =>
      cases htake
      exact h
  | succ count ih =>
      rw [NeighborSearch.take] at htake
      obtain ⟨⟨neighbor, s₁⟩, hnext, htake⟩ := bind_eq_ok_iff.mp htake
      cases neighbor with
      | none =>
          cases htake
          exact h.next hnext
      | some neighbor =>
          obtain ⟨⟨rest, s₂⟩, htake, hput⟩ := bind_eq_ok_iff.mp htake
          cases hput
          exact ih (h.next hnext) htake

/-- The query of a used search has a coordinate on each axis. -/
theorem Used.length_query (h : Used t s) : s.query.length = s.tree.dimension := by
  have htrails := h.resting.trails
  rw [htrails.length, htrails.tree]

/-- **A used search is at a moment between two calls**, whatever it was asked
for and in which form. -/
theorem Used.moment (h : Used t s) : Moment t .resting s := by
  induction h with
  | made hmake => exact .made hmake
  | searched hbefore hsearch ih =>
      obtain ⟨_, -, rfl⟩ | ⟨-, values, hbegun⟩ := search_cases hbefore.length_query hsearch
      · exact ih
      · exact ih.begun hbegun
  | advanced _ hnext ih => exact ih.next hnext
  | drained hbefore hall ih =>
      obtain ⟨⟨outcome, s₁⟩, hsearch, htake⟩ := bind_eq_ok_iff.mp hall
      obtain ⟨_, rfl, rfl⟩ | ⟨rfl, values, hbegun⟩ := search_cases hbefore.length_query hsearch
      · cases htake
        exact ih
      · obtain ⟨⟨found, s₂⟩, htake, hput⟩ := bind_eq_ok_iff.mp htake
        cases hput
        exact (ih.begun hbegun).take htake

/-! ## Reading the accounts -/

omit [Arithmetic F] in
/-- Some entries stand for the unopened nodes and for a node for each point. -/
theorem length_toVisit (f : Frontier β) (items : List (Nat × Subtree F)) :
    (toVisit f items).length = unopened f items +
      (items.map fun item => (f.entryAt item.1 : EntryRecord F).isPoint).count true := by
  induction items with
  | nil => rfl
  | cons item items ih =>
      rw [toVisit_cons, unopened_cons, List.length_append, ih, List.map_cons, List.count_cons,
        Subtree.visits]
      cases (f.entryAt item.1 : EntryRecord F).isPoint with
      | false => simp; omega
      | true => simp; omega

/-- The entries of the queue are asked for their kinds. -/
theorem Explores.exists_kinds (h : s.Explores o [] outside items) :
    ∃ kinds, s.queue.elements.mapM s.frontier.entryIsPoint = .ok kinds ∧
      kinds.Perm (items.map fun item => (s.frontier.entryAt item.1 : EntryRecord F).isPoint) := by
  refine ⟨_, mapM_eq_ok (g := fun r => (s.frontier.entryAt (slotOf r) : EntryRecord F).isPoint)
    fun r hr => ?_, ?_⟩
  · obtain ⟨item, hitem, rfl⟩ := List.mem_map.mp (h.queue.mem_iff.mp hr)
    exact h.frontier.entryIsPoint_eq (h.isLive hitem)
  · refine (h.queue.map _).trans (List.Perm.of_eq ?_)
    rw [List.map_map]
    rfl

/-- **The accounts of a search** between two calls, over a tree of `count`
nodes.  The pool of the frontier has as many entries in use as are queued, the
very ones that the queue refers to, and has handed out as many slots as the
queue was ever long. -/
structure Accounts (s : NeighborSearch β F) (count : Nat) : Prop where
  occupancy : ∃ figures, s.frontier.pool.occupancy = .ok figures ∧
    figures.live = s.queue.size ∧ figures.handedOut = s.counters.peak
  live : ∀ i, s.frontier.pool.isLive i = .ok true ↔
    ∃ r ∈ s.queue.elements, s.frontier.pool.resolve r = pure i
  created : s.counters.created = s.counters.yielded + s.queue.size
  points : ∃ kinds, s.queue.elements.mapM s.frontier.entryIsPoint = .ok kinds ∧
    s.counters.expanded = s.counters.yielded + kinds.count true
  yielded_le : s.counters.yielded ≤ s.counters.expanded
  expanded_le : s.counters.expanded ≤ s.counters.created
  created_le : s.counters.created ≤ count
  peak_le : s.counters.peak ≤ count

/-- What is left of a search over a tree of `count` nodes when every neighbor
was yielded. -/
structure Drained (s : NeighborSearch β F) (count : Nat) : Prop where
  expanded : s.counters.expanded = count
  yielded : s.counters.yielded = count
  created : s.counters.created = count
  queued : s.queue.size = 0
  idle : ∀ i, s.frontier.pool.isLive i = .ok false

namespace Tally

/-- The slots in use are those that the queue refers to. -/
theorem isLive_iff (h : s.Tally o outside items) (i : Nat) :
    s.frontier.pool.isLive i = .ok true ↔
      ∃ r ∈ s.queue.elements, s.frontier.pool.resolve r = pure i := by
  rw [h.frontier.pool.isLive_eq_true_iff]
  constructor
  · intro hi
    obtain ⟨item, hitem, rfl⟩ := List.mem_map.mp ((h.live i).mp hi)
    exact ⟨_, h.queue.mem_iff.mpr (List.mem_map_of_mem hitem),
      h.frontier.pool.resolve_referenceTo hi⟩
  · rintro ⟨r, hr, hresolve⟩
    obtain ⟨item, hitem, rfl⟩ := List.mem_map.mp (h.queue.mem_iff.mp hr)
    rw [h.frontier.pool.resolve_referenceTo (h.isLive hitem)] at hresolve
    cases hresolve
    exact h.isLive hitem

/-- **A search in balance has its accounts in order.** -/
theorem accounts (h : s.Tally o outside items) : s.Accounts s.tree.nodes.allocated := by
  have hb := h.books
  have hyielded := hb.yielded
  have hcreated := hb.created
  have hqueued := hb.queued_le
  have hpeak := hb.peak_le
  have hallocated := hb.allocated
  have hslots := h.in_use_add_free
  rw [List.length_nil] at hslots
  -- what was yielded, the points and the unopened nodes are all nodes
  have hopened := h.opened
  have hvisits := h.visits.length_eq
  rw [List.length_append, length_toVisit, h.tree.length_subtrees] at hvisits
  obtain ⟨kinds, hkinds, hperm⟩ := h.exists_kinds
  have hpoints := hperm.count_eq true
  have hentries := length_le_length_toVisit s.frontier items
  rw [length_toVisit, h.length_items] at hentries
  have hle : kinds.count true ≤ s.queue.size := by
    rw [← h.length_items, ← List.length_map, ← hperm.length_eq]
    exact List.count_le_length
  have hsize : s.frontier.pool.size = .ok s.queue.size := by
    rw [Pool.size, subSize_eq_ok (by omega)]
    exact congrArg Except.ok (by omega)
  refine ⟨⟨_, by rw [Pool.occupancy, hsize, ok_bind]; rfl, rfl, ?_⟩, h.isLive_iff, by omega,
    ⟨kinds, hkinds, by omega⟩, by omega, by omega, by omega, by omega⟩
  show s.frontier.pool.allocated = s.counters.peak
  omega

/-- **Without entries everything is done.** -/
theorem drained (h : s.Tally o outside []) : s.Drained s.tree.nodes.allocated := by
  have hyielded := h.books.yielded
  have hcreated := h.books.created
  have hopened := h.opened
  have hvisits := h.visits.length_eq
  have hqueued := h.length_items
  rw [List.length_nil] at hqueued
  rw [toVisit_nil, List.append_nil, h.tree.length_subtrees] at hvisits
  refine ⟨hopened, by omega, by omega, hqueued.symm, fun i => ?_⟩
  exact h.frontier.pool.isLive_eq_false fun hi => List.not_mem_nil ((h.live i).mp hi)

/-- A search without a next neighbor has no entries. -/
theorem eq_nil_of_next (h : s.Tally o outside items) (hnext : s.next = .ok (none, s')) :
    items = [] := by
  by_contra hne
  obtain ⟨x, s₁, items₁, hsome, -⟩ := h.next_eq hne
  cases hsome.symm.trans hnext

end Tally

/-! ## Whole searches -/

/-- States that come one after the other from a search in balance are in
balance. -/
theorem exists_tally_of_states {neighbors : Nat → Option (Neighbor F)}
    {states : Nat → NeighborSearch β F} (h : (states 0).Tally o outside items)
    (hnext : ∀ k, (states k).next = .ok (neighbors k, states (k + 1))) (k : Nat) :
    ∃ outside' items', (states k).Tally o outside' items' ∧ (states k).tree = (states 0).tree := by
  induction k with
  | zero => exact ⟨outside, items, h, rfl⟩
  | succ k ih =>
      obtain ⟨outside₁, items₁, h₁, htree₁⟩ := ih
      obtain ⟨outside₂, items₂, h₂, htree₂⟩ := h₁.next (hnext k)
      exact ⟨outside₂, items₂, h₂, htree₂.trans htree₁⟩

/-- **Every search over a stored tree keeps its accounts** and is drained when
its neighbors are used up. -/
theorem exists_accounts (ht : t.Represents o) (hleast : t.least.length = t.dimension)
    (hgreatest : t.greatest.length = t.dimension) {P : Type} [HasCoordinates P F]
    [LawfulCoordinates P F] {query : P} (hs : Used t s)
    (hsearch : s.search query = .ok (.ok (), s')) :
    ∃ (found : List (Neighbor F)) (states : Nat → NeighborSearch β F),
      states 0 = s' ∧ found.length = t.nodes.allocated ∧
      ∀ k, (states k).next = .ok (found[k]?, states (k + 1)) ∧
        (states k).Accounts t.nodes.allocated ∧
        (t.nodes.allocated ≤ k → (states k).Drained t.nodes.allocated) := by
  obtain ⟨rfl, outside, items, h⟩ := hs.moment.consistent ht hleast hgreatest
  obtain ⟨_, ⟨⟩, -⟩ | ⟨-, values, hbegun⟩ := search_cases h.query hsearch
  obtain ⟨items₀, h₀, htree⟩ := tally_of_search h.toServes hbegun
  obtain ⟨found, states, rfl, hperm, hstates, -⟩ := h₀.exists_yields
  have hlength : found.length = s.tree.nodes.allocated := by
    rw [hperm.length_eq, ← ht.length_subtrees, ← h₀.visits.length_eq]
    rfl
  refine ⟨found.map (neighborAt (states 0).tree (states 0).query), states, rfl,
    by rw [List.length_map, hlength], fun k => ⟨(hstates k).1, ?_⟩⟩
  obtain ⟨outside', items', h', htree'⟩ :=
    exists_tally_of_states h₀ (fun k => (hstates k).1) k
  rw [← htree, ← htree']
  refine ⟨h'.accounts, fun hk => ?_⟩
  have hnone : (states k).next = .ok (none, states (k + 1)) := by
    rw [(hstates k).1, List.getElem?_eq_none]
    rw [List.length_map, hlength, ← htree, ← htree']
    exact hk
  obtain rfl := h'.eq_nil_of_next hnone
  exact h'.drained

/-- **The frontier is conserved.**  A tree of points can be built and searched,
and whatever the search was used for before, from the beginning of a new query
on its accounts are in order before and after every call of `next`: there are
never more entries than points, and when all neighbors were yielded nothing is
left. -/
theorem frontier_accounts (selection : Selection) (treeId searchId : PoolId) {dimension : Nat}
    (hpos : 0 < dimension) (hdim : dimension < 2 ^ 28) {points : List (RecordIndex × List F)}
    (hcount : points.length ≤ indexLimit)
    (hpoints : ∀ x ∈ points, x.2.length = dimension ∧ x.1 ≤ indexLimit) :
    ∃ t : KdTree β F, KdTree.build selection treeId dimension points = pure t ∧
      (∃ s, make searchId t = pure s) ∧
      ∀ {P : Type} [HasCoordinates P F] [LawfulCoordinates P F] {query : P}
        {s s₀ : NeighborSearch β F}, Used t s → s.search query = .ok (.ok (), s₀) →
          ∃ (found : List (Neighbor F)) (states : Nat → NeighborSearch β F),
            states 0 = s₀ ∧ found.length = points.length ∧
            ∀ k, (states k).next = .ok (found[k]?, states (k + 1)) ∧
              (states k).Accounts points.length ∧
              (points.length ≤ k → (states k).Drained points.length) := by
  obtain ⟨t, o, hbuild, -, hallocated, ht, hleast, hgreatest⟩ :=
    KdTree.build_represents (β := β) selection treeId hpos hdim hcount hpoints
  obtain ⟨s, hmake, -, -⟩ := make_eq ht hleast hgreatest searchId
  refine ⟨t, hbuild, ⟨s, hmake⟩, fun hs hsearch => ?_⟩
  rw [← hallocated]
  exact exists_accounts ht hleast hgreatest hs hsearch

/-- Between its two neighbors a search has its accounts in order, and after
them it is drained. -/
theorem accounts_of_zero_and_infinity :
    ∃ (t : KdTree UInt8 Double) (s : NeighborSearch UInt8 Double)
      (a b : Neighbor Double) (states : Nat → NeighborSearch UInt8 Double),
      KdTree.build .bySorting 0 1 [(0, [Double.zero]), (7, [Double.infinity])] = pure t ∧
      make 1 t = pure s ∧ s.search [Double.infinity] = .ok (.ok (), states 0) ∧
      (states 0).next = .ok (some a, states 1) ∧ (states 1).Accounts 2 ∧
      (states 1).next = .ok (some b, states 2) ∧ (states 2).Drained 2 := by
  obtain ⟨t, hbuild, ⟨s, hmake⟩, haccounts⟩ :=
    frontier_accounts (β := UInt8) .bySorting 0 1 (by decide : 0 < 1) (by decide)
      (by decide : [(0, [Double.zero]), (7, [Double.infinity])].length ≤ indexLimit) (by decide)
  -- the search begins because its query has the dimension of the tree
  obtain ⟨t', o, hbuild', hdimension, -, ht, hleast, hgreatest⟩ :=
    KdTree.build_represents (β := UInt8) .bySorting 0 (by decide : 0 < 1) (by decide)
      (by decide : [(0, [Double.zero]), (7, [Double.infinity])].length ≤ indexLimit) (by decide)
  obtain rfl : t' = t := Except.ok.inj (Except.ok.inj (hbuild'.symm.trans hbuild))
  have hquery : [Double.infinity].length = t'.dimension := hdimension.symm
  obtain ⟨_, _, hsearch, -⟩ := exists_neighbors ht hleast hgreatest (.made hmake) hquery
  obtain ⟨found, states, hstart, hlength, hstates⟩ := haccounts (.made hmake) hsearch
  obtain ⟨a, b, rfl⟩ := List.length_eq_two.mp hlength
  refine ⟨t', s, a, b, states, hbuild, hmake, by rw [hstart, hsearch], (hstates 0).1,
    (hstates 1).2.1, (hstates 1).1, (hstates 2).2.2 (by decide)⟩

end NeighborSearch

end RecordPool
