/-
# Best first

With exact arithmetic the entries that a search polls, boxes and points alike,
come by distance: nothing that opening a box queues is nearer than the box.  So
when a neighbor is yielded, the boxes opened by then are at most as far as it,
and the points not yet yielded at least as far.
-/
import RecordPool.Proofs.Search.Completeness
import RecordPool.Proofs.Search.Nesting

namespace RecordPool

namespace NeighborSearch

open Frontier

/-! ## What is polled -/

/-- An entry that was polled. -/
structure Polled (F : Type) where
  /-- The squared distance by which it was queued. -/
  priority : F
  /-- Whether it was a point rather than a box. -/
  isPoint : Bool
  /-- The tree node that it was about. -/
  node : RecordIndex

section Logs

variable {β F : Type} [Memory β F] [Arithmetic F]

/-- Takes entries as `takeUntilPoint` does and lists them. -/
def takeLogged : (fuel : Nat) → NeighborSearch β F →
    Checked (Option (Neighbor F) × List (Polled F) × NeighborSearch β F)
  | 0, _ => throw .exhausted
  | fuel + 1, s => do
      match ← s.queue.poll s.frontier.order s.frontier.pool.newReference with
      | (false, _, _) => pure (none, [], { s with neighbor := none })
      | (true, queue, entry) => do
          let s := { s with queue }
          let index ← s.frontier.nodeOf entry
          let isPoint ← s.frontier.entryIsPoint entry
          let priority ← s.frontier.distanceOf entry
          if isPoint then
            let (neighbor, s) ← s.yieldPoint entry index
            pure (some neighbor, [⟨priority, isPoint, index⟩], s)
          else
            let (neighbor, log, s) ← takeLogged fuel (← s.expand entry index)
            pure (neighbor, ⟨priority, isPoint, index⟩ :: log, s)

/-- The next neighbor as in `next`, with the entries that were polled for it. -/
def nextLogged (s : NeighborSearch β F) :
    Checked (Option (Neighbor F) × List (Polled F) × NeighborSearch β F) :=
  s.takeLogged (s.tree.nodes.allocated + 1)

/-- The entries that are polled for the next neighbor. -/
def polledNext (s : NeighborSearch β F) : List (Polled F) :=
  match s.nextLogged with
  | .ok (_, log, _) => log
  | .error _ => []

/-- The entries that are polled in the first `count` calls of `next`, of which
each starts in one of the states. -/
def polledIn (states : Nat → NeighborSearch β F) (count : Nat) : List (Polled F) :=
  (List.range count).flatMap fun k => (states k).polledNext

/-- Listing the entries changes nothing else. -/
theorem takeUntilPoint_of_logged {fuel : Nat} {s s' : NeighborSearch β F}
    {neighbor : Option (Neighbor F)} {log : List (Polled F)}
    (htake : s.takeLogged fuel = .ok (neighbor, log, s')) :
    s.takeUntilPoint fuel = .ok (neighbor, s') := by
  induction fuel generalizing s log with
  | zero => cases htake
  | succ fuel ih =>
      rw [takeLogged] at htake
      obtain ⟨⟨found, queue, entry⟩, hpoll, htake⟩ := bind_eq_ok_iff.mp htake
      rw [takeUntilPoint, hpoll, ok_bind]
      cases found with
      | false =>
          cases htake
          rfl
      | true =>
          obtain ⟨index, hnode, htake⟩ := bind_eq_ok_iff.mp htake
          obtain ⟨isPoint, hpoint, htake⟩ := bind_eq_ok_iff.mp htake
          obtain ⟨priority, -, htake⟩ := bind_eq_ok_iff.mp htake
          dsimp only at hnode hpoint ⊢
          rw [hnode, ok_bind, hpoint, ok_bind]
          cases isPoint with
          | true =>
              obtain ⟨⟨found, s₁⟩, hyield, htake⟩ := bind_eq_ok_iff.mp htake
              cases htake
              exact bind_eq_ok_iff.mpr ⟨_, hyield, rfl⟩
          | false =>
              obtain ⟨s₁, hexpand, htake⟩ := bind_eq_ok_iff.mp htake
              obtain ⟨⟨found, rest, s₂⟩, htaken, htake⟩ := bind_eq_ok_iff.mp htake
              cases htake
              exact bind_eq_ok_iff.mpr ⟨s₁, hexpand, ih htaken⟩

/-- Listing the entries changes nothing about the next neighbor. -/
theorem next_of_logged {s s' : NeighborSearch β F} {neighbor : Option (Neighbor F)}
    {log : List (Polled F)} (hnext : s.nextLogged = .ok (neighbor, log, s')) :
    s.next = .ok (neighbor, s') ∧ s.polledNext = log := by
  refine ⟨takeUntilPoint_of_logged hnext, ?_⟩
  unfold polledNext
  rw [hnext]

/-- The entries of one more call come after the others. -/
theorem polledIn_succ (states : Nat → NeighborSearch β F) (count : Nat) :
    polledIn states (count + 1) = polledIn states count ++ (states count).polledNext := by
  unfold polledIn
  rw [List.range_succ, List.flatMap_append, List.flatMap_singleton]

/-- With an empty queue nothing is polled. -/
theorem Explores.nextLogged_of_nil {s : NeighborSearch β F} {o : Outline F}
    {outside : List (Subtree F)} (h : s.Explores o [] outside []) :
    s.nextLogged = .ok (none, [], { s with neighbor := none }) := by
  unfold nextLogged
  rw [takeLogged, PriorityQueue.poll_of_nil h.elements_of_nil, ok_bind]
  rfl

end Logs

/-! ## The order of what is polled -/

variable {β F : Type} [Memory β F] [LinearOrder F]

/-- The entries polled so far came by distance, and nothing that is queued is
nearer than any of them. -/
structure Ordered (log : List (Polled F)) (f : Frontier β) (items : List (Nat × Subtree F)) :
    Prop where
  sorted : (log.map Polled.priority).Pairwise (· ≤ ·)
  le_queued : ∀ polled ∈ log, ∀ item ∈ items,
    polled.priority ≤ (f.entryAt item.1 : EntryRecord F).distance

variable {s : NeighborSearch β F} {f f' : Frontier β} {o : Outline F} {outside : List (Subtree F)}
  {items items' rest : List (Nat × Subtree F)} {log : List (Polled F)} {i : Nat} {x : Subtree F}
  {new : List (Subtree F)} {t : KdTree β F} {query : List F}

/-- At first nothing was polled. -/
theorem ordered_nil : Ordered [] f items where
  sorted := List.Pairwise.nil
  le_queued := fun _ hpolled => absurd hpolled List.not_mem_nil

namespace Ordered

/-- **Polling** a nearest entry keeps the order. -/
theorem poll (h : Ordered log f items) (hperm : items.Perm ((i, x) :: rest))
    (hleast : ∀ item ∈ items,
      (f.entryAt i : EntryRecord F).distance ≤ (f.entryAt item.1 : EntryRecord F).distance)
    (isPoint : Bool) :
    Ordered (log ++ [⟨(f.entryAt i : EntryRecord F).distance, isPoint, x.index⟩]) f rest := by
  have htop : (i, x) ∈ items := hperm.mem_iff.mpr List.mem_cons_self
  have hrest : ∀ item ∈ rest, item ∈ items := fun item hitem =>
    hperm.mem_iff.mpr (List.mem_cons_of_mem _ hitem)
  constructor
  · rw [List.map_append, List.pairwise_append]
    refine ⟨h.sorted, List.pairwise_singleton _ _, ?_⟩
    intro a ha b hb
    obtain ⟨polled, hpolled, rfl⟩ := List.mem_map.mp ha
    obtain rfl := List.mem_singleton.mp hb
    exact h.le_queued polled hpolled _ htop
  · intro polled hpolled item hitem
    rcases List.mem_append.mp hpolled with hpolled | hpolled
    · exact h.le_queued polled hpolled item (hrest item hitem)
    · rw [List.mem_singleton.mp hpolled]
      exact hleast item (hrest item hitem)

/-- **New entries** that are not nearer than what was polled keep the order. -/
theorem queues (h : Ordered log f items) (hqueues : Queues f f' items items' new)
    (hnew : ∀ item ∈ items', item.2 ∈ new → ∀ polled ∈ log,
      polled.priority ≤ (f'.entryAt item.1 : EntryRecord F).distance) :
    Ordered log f' items' where
  sorted := h.sorted
  le_queued := by
    intro polled hpolled item hitem
    rcases hqueues.mem item hitem with hmem | hmem
    · exact hnew item hitem hmem polled hpolled
    · rw [(hqueues.kept item hmem).2]
      exact h.le_queued polled hpolled item hmem

/-- What was polled last is the farthest. -/
theorem le_last {last : Polled F} (h : Ordered (log ++ [last]) f items) :
    ∀ polled ∈ log ++ [last], polled.priority ≤ last.priority := by
  have hsorted := h.sorted
  rw [List.map_append, List.pairwise_append] at hsorted
  intro polled hpolled
  rcases List.mem_append.mp hpolled with hpolled | hpolled
  · exact hsorted.2.2 _ (List.mem_map_of_mem hpolled) _ List.mem_cons_self
  · rw [List.mem_singleton.mp hpolled]

end Ordered

variable [CommRing F]

/-- A polled entry was queued by the distance of what it was about: for a point the squared
distance of the point, for a box that of the cell. -/
def Polled.Measures (polled : Polled F) (t : KdTree β F) (query : List F) : Prop :=
  if polled.isPoint then
    ∃ node, t.node polled.node = .ok node ∧
      t.squaredDistanceTo node query = .ok polled.priority
  else
    ∃ cell, t.HasCell polled.node cell ∧ cell.distance t.dimension query = polled.priority

variable [IsStrictOrderedRing F]

/-- What an entry says of its subtree is what polling it shows. -/
theorem EntryOf.measures (ht : t.Spans o) (hquery : query.length = t.dimension)
    {e : EntryRecord F} (h : EntryOf t query o x e) :
    (⟨e.distance, e.isPoint, x.index⟩ : Polled F).Measures t query := by
  unfold Polled.Measures
  have hstored := ht.represents.storedIn h.spec.1
  rcases h.cases with ⟨hpoint, hbox⟩ | ⟨hpoint, hdistance⟩
  · obtain ⟨cell, hcell, hdescribes, -⟩ := hbox.exists_cell ht
    rw [hpoint, if_neg (by simp)]
    exact ⟨cell, hcell, hdescribes.distance.symm⟩
  · rw [hpoint, if_pos rfl, hdistance]
    exact ⟨_, ht.represents.node_eq hstored, ht.represents.squaredDistanceTo_eq hstored hquery⟩

namespace Explores

/-- **Taking entries until one is a point** keeps the order: what was polled
before and for it is at most as far as the point, and what is still to visit at
least as far. -/
theorem takeLogged_eq {fuel : Nat} (h : s.Explores o [] outside items) (ht : s.tree.Spans o)
    (hne : items ≠ []) (hfuel : unopened s.frontier items < fuel)
    (hordered : Ordered log s.frontier items) :
    ∃ x more s' items', s.takeLogged fuel = .ok (some (neighborAt s.tree s.query x), more, s') ∧
      s'.Explores o [] (x :: outside) items' ∧ s'.tree = s.tree ∧ s'.query = s.query ∧
      Ordered (log ++ more) s'.frontier items' ∧
      (∀ polled ∈ more, polled.Measures s.tree s.query) ∧
      (∀ polled ∈ log ++ more, polled.priority ≤ pointDistance s.tree s.query x) ∧
      ∀ item ∈ items', pointDistance s.tree s.query x ≤
        (s'.frontier.entryAt item.1 : EntryRecord F).distance := by
  -- as long as boxes are polled the order is kept, and the first point ends the loop
  induction fuel generalizing s items log with
  | zero => omega
  | succ fuel ih =>
      obtain ⟨queue, i, x, rest, hpoll, hperm, hentry, h₁, hleast⟩ := h.poll hne
      obtain ⟨hnode, hkind, hpriority⟩ := h.reads (hperm.mem_iff.mpr List.mem_cons_self)
      have hcount := unopened_perm (f := s.frontier) hperm
      have hpolled := hordered.poll hperm
        (fun item hitem => Exact.isLE_compare_iff.mp (hleast inferInstance item hitem))
        (s.frontier.entryAt i : EntryRecord F).isPoint
      have hmeasures := hentry.measures ht h.query
      rw [takeLogged, hpoll, ok_bind]
      dsimp only
      rw [hnode, ok_bind, hkind, ok_bind, hpriority, ok_bind]
      rcases hentry.cases with ⟨hpoint, hbox⟩ | ⟨hpoint, hdistance⟩
      · rw [unopened_cons, hpoint, if_neg (by simp)] at hcount
        rw [hpoint] at h₁ hpolled hmeasures
        obtain ⟨s₂, items₂, hexpand, h₂, htree, hquery, hcount₂, hqueues, -⟩ :=
          h₁.expand_eq hbox
        have hfuel₂ : unopened s₂.frontier items₂ < fuel := by
          dsimp only at hcount hcount₂
          omega
        -- what comes into the queue is below the box, hence not nearer than it
        have hordered₂ := hpolled.queues hqueues (by
          intro item hitem hbelow polled hmem
          have hentry₂ := h₂.entries item hitem
          rw [htree, hquery] at hentry₂
          exact (hpolled.le_last polled hmem).trans
            (EntryOf.distance_le ht hbox hentry₂ hbelow))
        obtain ⟨y, more, s₃, items₃, htake, h₃, htree₃, hquery₃, hordered₃, hmeasures₃, hle, hge⟩ :=
          ih h₂ (htree ▸ ht) (h.ne_nil h₂ hne) hfuel₂ hordered₂
        rw [htree, hquery] at htake hmeasures₃ hle hge
        rw [List.append_assoc, List.singleton_append] at hordered₃ hle
        refine ⟨y, _, s₃, items₃, ?_, h₃, htree₃.trans htree, hquery₃.trans hquery, hordered₃, ?_,
          hle, hge⟩
        · rw [hpoint, if_neg (by simp)]
          dsimp only at hexpand
          rw [hexpand, ok_bind, htake]
          rfl
        · intro polled hmem
          rcases List.mem_cons.mp hmem with rfl | hmem
          · exact hmeasures
          · exact hmeasures₃ polled hmem
      · rw [hpoint] at h₁ hpolled hmeasures
        obtain ⟨s₂, hyield, h₂, htree, hquery, hqueues⟩ := h₁.yieldPoint_eq hentry hpoint
        have hordered₂ := hpolled.queues hqueues fun item _ hmem =>
          absurd hmem List.not_mem_nil
        rw [hdistance] at hpolled hordered₂ hmeasures
        refine ⟨x, _, s₂, rest, ?_, h₂, htree, hquery, hordered₂, ?_, hpolled.le_last, ?_⟩
        · rw [hpoint, if_pos rfl]
          dsimp only at hyield
          rw [hyield, hdistance]
          rfl
        · intro polled hmem
          rw [List.mem_singleton.mp hmem]
          exact hmeasures
        · exact hordered₂.le_queued _ (List.mem_append_right log List.mem_cons_self)

end Explores

/-! ## Whole searches -/

/-- A search for `query` over `t` that has yielded the nodes `yielded` and
polled the entries `log`. -/
structure Underway (t : KdTree β F) (query : List F) (o : Outline F) (yielded : List (Subtree F))
    (log : List (Polled F)) (items : List (Nat × Subtree F)) (s : NeighborSearch β F) : Prop where
  explores : s.Explores o [] yielded items
  tree_eq : s.tree = t
  query_eq : s.query = query
  ordered : Ordered log s.frontier items
  measures : ∀ polled ∈ log, polled.Measures t query

variable {yielded : List (Subtree F)} {s' : NeighborSearch β F} {neighbor? : Option (Neighbor F)}

/-- **A call of `next`** ends the search, or yields a node that is as far as
anything polled so far and no farther than anything queued. -/
theorem Underway.next (h : Underway t query o yielded log items s) (ht : t.Spans o)
    (hnext : s.next = .ok (neighbor?, s')) :
    s.nextLogged = .ok (neighbor?, s.polledNext, s') ∧
      ((neighbor? = none ∧ Underway t query o yielded (log ++ s.polledNext) items s') ∨
        ∃ x items', neighbor? = some (neighborAt t query x) ∧
          Underway t query o (yielded ++ [x]) (log ++ s.polledNext) items' s' ∧
          (∀ polled ∈ log ++ s.polledNext, polled.priority ≤ pointDistance t query x) ∧
          ∀ item ∈ items', pointDistance t query x ≤
            (s'.frontier.entryAt item.1 : EntryRecord F).distance) := by
  obtain ⟨hexplores, rfl, rfl, hordered, hmeasures⟩ := h
  by_cases hne : items = []
  · subst hne
    have hlogged := hexplores.nextLogged_of_nil
    obtain ⟨hnext', hpolled⟩ := next_of_logged hlogged
    obtain ⟨rfl, rfl⟩ := Prod.mk.inj (Except.ok.inj (hnext'.symm.trans hnext))
    rw [hpolled, List.append_nil]
    exact ⟨hlogged, Or.inl ⟨rfl, hexplores.notes _ _, rfl, rfl, ⟨hordered.sorted, by simp⟩,
      hmeasures⟩⟩
  · obtain ⟨x, more, s₁, items', hlogged, h₁, htree, hquery, hordered₁, hmeasures₁, hle, hge⟩ :=
      hexplores.takeLogged_eq ht hne hexplores.unopened_lt hordered
    obtain ⟨hnext', hpolled⟩ := next_of_logged hlogged
    obtain ⟨rfl, rfl⟩ := Prod.mk.inj (Except.ok.inj (hnext'.symm.trans hnext))
    rw [hpolled]
    refine ⟨hlogged, Or.inr ⟨x, items', rfl, ?_, hle, hge⟩⟩
    refine ⟨h₁.permOutside ?_, htree, hquery, hordered₁, ?_⟩
    · exact (List.perm_append_singleton x yielded).symm
    · intro polled hmem
      rcases List.mem_append.mp hmem with hmem | hmem
      · exact hmeasures polled hmem
      · exact hmeasures₁ polled hmem

/-- **Every run of calls** is a search under way. -/
theorem Underway.states {neighbors : List (Neighbor F)} {states : Nat → NeighborSearch β F}
    (h : Underway t query o [] [] items (states 0)) (ht : t.Spans o)
    (hnext : ∀ k, (states k).next = .ok (neighbors[k]?, states (k + 1))) (k : Nat) :
    ∃ yielded items, Underway t query o yielded (polledIn states k) items (states k) ∧
      yielded.map (neighborAt t query) = neighbors.take k := by
  induction k with
  | zero => exact ⟨[], items, h, rfl⟩
  | succ k ih =>
      obtain ⟨yielded, items, hunder, hyielded⟩ := ih
      rw [polledIn_succ]
      rcases (hunder.next ht (hnext k)).2 with ⟨hnone, hunder'⟩ | ⟨x, items', hsome, hunder', -⟩
      · refine ⟨yielded, items, hunder', ?_⟩
        have hlength := List.getElem?_eq_none_iff.mp hnone
        rw [hyielded, List.take_of_length_le hlength, List.take_of_length_le (by omega)]
      · refine ⟨yielded ++ [x], items', hunder', ?_⟩
        rw [List.map_append, hyielded, List.take_add_one, hsome]
        rfl

/-- What a search has done that yielded a neighbor at the squared distance
`bound` last: every node opened so far has a cell that is at most as far, no
node with a cell that is farther was opened, and every node not yet yielded is
at least as far. -/
structure Lazy (t : KdTree β F) (query : List F) (polled : List (Polled F))
    (yielded : List (Neighbor F)) (bound : F) : Prop where
  opened_le : ∀ entry ∈ polled, entry.isPoint = false →
    ∃ cell, t.HasCell entry.node cell ∧ cell.distance t.dimension query ≤ bound
  not_opened : ∀ i cell, t.HasCell i cell → bound < cell.distance t.dimension query →
    ∀ entry ∈ polled, entry.isPoint = false → entry.node ≠ i
  le_unyielded : ∀ i, t.nodes.IsLive i → i ∉ yielded.map Neighbor.node →
    ∃ node x, t.node i = .ok node ∧ t.squaredDistanceTo node query = .ok x ∧ bound ≤ x

/-- A search that yielded a node that is as far as anything polled and no
farther than anything queued has opened no more than it had to. -/
theorem Underway.lazy (h : Underway t query o yielded log items s) (ht : t.Spans o)
    (hquery : query.length = t.dimension) {bound : F}
    (hle : ∀ polled ∈ log, polled.priority ≤ bound)
    (hge : ∀ item ∈ items, bound ≤ (s.frontier.entryAt item.1 : EntryRecord F).distance) :
    Lazy t query log (yielded.map (neighborAt t query)) bound := by
  have hopened : ∀ entry ∈ log, entry.isPoint = false →
      ∃ cell, t.HasCell entry.node cell ∧ cell.distance t.dimension query ≤ bound := by
    intro entry hmem hpoint
    have hmeasures := h.measures entry hmem
    unfold Polled.Measures at hmeasures
    rw [hpoint, if_neg (by simp)] at hmeasures
    obtain ⟨cell, hcell, hdistance⟩ := hmeasures
    exact ⟨cell, hcell, hdistance ▸ hle entry hmem⟩
  refine ⟨hopened, ?_, ?_⟩
  · rintro i cell hcell hlt entry hmem hpoint rfl
    obtain ⟨cell', hcell', hdistance⟩ := hopened entry hmem hpoint
    rw [hcell.unique ht.represents hcell'] at hdistance
    exact absurd hdistance (not_le.mpr hlt)
  · intro i hlive hnot
    have hindex : i ∈ o.indices := by
      rw [ht.represents.indices, List.mem_range]
      exact ht.represents.isLive_iff.mp hlive
    rw [← Outline.map_index_subtrees o 0] at hindex
    obtain ⟨y, hy, rfl⟩ := List.mem_map.mp hindex
    have hstored := ht.represents.storedIn hy
    refine ⟨_, _, ht.represents.node_eq hstored,
      ht.represents.squaredDistanceTo_eq hstored hquery, ?_⟩
    -- a node that was not yielded is still to visit
    have hvisit : y ∈ toVisit s.frontier items := by
      rcases List.mem_append.mp (h.explores.visits.mem_iff.mpr hy) with hyielded | hvisit
      · refine absurd ?_ hnot
        rw [List.map_map]
        exact List.mem_map.mpr ⟨y, hyielded, rfl⟩
      · exact hvisit
    have hfar := h.explores.le_of_mem_toVisit (by rw [h.tree_eq, h.query_eq]; exact admissible ht query)
      (fun item hitem => Exact.isLE_compare_iff.mpr (hge item hitem)) hvisit
    rw [h.tree_eq, h.query_eq] at hfar
    exact Exact.isLE_compare_iff.mp hfar

/-- **Best first.**  With exact arithmetic, whatever was searched before, the
entries that a search over a tree that was built polls, boxes and points alike,
come by distance over all calls of `next`; and with each neighbor it yields it
has opened only nodes whose cells are at most as far, while every node not yet
yielded is at least as far. -/
theorem search_is_best_first (selection : Selection) (treeId searchId : PoolId) {dimension : Nat}
    (hpos : 0 < dimension) (hdim : dimension < 2 ^ 28) {points : List (RecordIndex × List F)}
    (hcount : points.length ≤ indexLimit)
    (hpoints : ∀ x ∈ points, x.2.length = dimension ∧ x.1 ≤ indexLimit) :
    ∃ t : KdTree β F, KdTree.build selection treeId dimension points = pure t ∧
      (∃ s, make searchId t = pure s ∧ Moment t .resting s) ∧
      ∀ (s : NeighborSearch β F) (query : List F), Moment t .resting s → query.length = dimension →
        ∃ (found : List (Neighbor F)) (states : Nat → NeighborSearch β F),
          s.search query = .ok (.ok (), states 0) ∧ found.length = points.length ∧
          (∀ k, (states k).next = .ok (found[k]?, states (k + 1)) ∧
            (states k).nextLogged = .ok (found[k]?, (states k).polledNext, states (k + 1))) ∧
          (∀ k, ((polledIn states k).map Polled.priority).Pairwise (· ≤ ·) ∧
            ∀ polled ∈ polledIn states k, polled.Measures t query) ∧
          ∀ k neighbor, found[k]? = some neighbor →
            Lazy t query (polledIn states (k + 1)) (found.take (k + 1))
              neighbor.squaredDistance := by
  obtain ⟨t, o, hbuild, rfl, hallocated, ht, -⟩ :=
    KdTree.build_spans (β := β) selection treeId hpos hdim hcount hpoints
  obtain ⟨s₀, hmake, -, -⟩ := make_eq ht.represents ht.least ht.greatest searchId
  refine ⟨t, hbuild, ⟨s₀, hmake, .made hmake⟩, fun s query hmoment hquery => ?_⟩
  obtain ⟨rfl, outside, items, hs⟩ := hmoment.consistent ht.represents ht.least ht.greatest
  obtain ⟨s₁, items₁, hsearch, htree, hquery₁, h₁, -⟩ := search_eq hs.toServes hquery
  obtain ⟨visited, states, rfl, hperm, hstates, -⟩ := h₁.exists_yields
  rw [htree, hquery₁] at hstates
  have hstart : Underway s.tree query o [] [] items₁ (states 0) :=
    ⟨h₁, htree, hquery₁, ordered_nil, fun _ hmem => absurd hmem List.not_mem_nil⟩
  have hunder := hstart.states ht fun k => (hstates k).1
  refine ⟨visited.map (neighborAt s.tree query), states, hsearch, ?_, fun k => ⟨(hstates k).1, ?_⟩,
    fun k => ?_, fun k neighbor hneighbor => ?_⟩
  · have hlength := (hperm.trans h₁.visits).length_eq
    rw [List.length_map, hlength, ht.represents.length_subtrees, hallocated]
  · obtain ⟨yielded, items, hk, -⟩ := hunder k
    exact (hk.next ht (hstates k).1).1
  · obtain ⟨yielded, items, hk, -⟩ := hunder k
    exact ⟨hk.ordered.sorted, hk.measures⟩
  · obtain ⟨yielded, items, hk, hyielded⟩ := hunder k
    have hnext := (hstates k).1
    rw [hneighbor] at hnext
    rcases (hk.next ht hnext).2 with ⟨hnone, -⟩ | ⟨x, items', hsome, hk', hle, hge⟩
    · cases hnone
    · cases hsome
      have hlazy := hk'.lazy ht hquery hle hge
      rw [← polledIn_succ, List.map_append, hyielded] at hlazy
      rw [List.take_add_one, hneighbor]
      exact hlazy

/-- A search for `2` among `0`, `3` and `4` polls by distance, and it yields its
first neighbor without having opened a node that is farther. -/
theorem best_first_two_of_three :
    ∃ (t : KdTree (ExactCell ℚ) ℚ) (s : NeighborSearch (ExactCell ℚ) ℚ)
      (states : Nat → NeighborSearch (ExactCell ℚ) ℚ) (nearest : Neighbor ℚ),
      KdTree.build .bySorting 0 1 [(0, [0]), (1, [3]), (2, [4])] = pure t ∧ make 1 t = pure s ∧
      s.search [2] = .ok (.ok (), states 0) ∧ (states 0).next = .ok (some nearest, states 1) ∧
      ((polledIn states 3).map Polled.priority).Pairwise (· ≤ ·) ∧
      Lazy t [2] (polledIn states 1) [nearest] nearest.squaredDistance := by
  have hcount : [((0 : RecordIndex), [(0 : ℚ)]), (1, [3]), (2, [4])].length ≤ indexLimit := by
    decide
  have hpoints : ∀ x ∈ [((0 : RecordIndex), [(0 : ℚ)]), (1, [3]), (2, [4])],
      x.2.length = 1 ∧ x.1 ≤ indexLimit := by
    simp [indexLimit]
  obtain ⟨t, hbuild, ⟨s, hmake, hmoment⟩, hsearch⟩ := search_is_best_first (β := ExactCell ℚ)
    .bySorting 0 1 (by decide : 0 < 1) (by decide) hcount hpoints
  obtain ⟨found, states, hbegin, hlength, hnext, hpolled, hlazy⟩ := hsearch s [2] hmoment rfl
  cases found with
  | nil => cases hlength
  | cons nearest later =>
      exact ⟨t, s, states, nearest, hbuild, hmake, hbegin, (hnext 0).1, (hpolled 3).1,
        hlazy 0 nearest rfl⟩

end NeighborSearch

end RecordPool
