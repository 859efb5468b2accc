/-
# What a search has still to visit

Every queued entry is about a subtree: as a box it stands for all the nodes of
the subtree, as a point for the topmost one.  The nodes that the queue stands
for, together with those already yielded, are all the nodes of the tree, each
once (`Explores`).  The queue operations keep this, whatever the comparisons
of distances answer.
-/
import RecordPool.Proofs.KdTree.Subtrees
import RecordPool.Proofs.Search.Boxes

namespace RecordPool

namespace NeighborSearch

open Frontier

variable {β F : Type}

/-! ## What entries stand for -/

section Visiting

variable [Memory β F] {f f' : Frontier β} {items items' : List (Nat × Subtree F)}

/-- The nodes that some entries stand for. -/
def toVisit (f : Frontier β) (items : List (Nat × Subtree F)) : List (Subtree F) :=
  items.flatMap fun item => item.2.visits (f.entryAt item.1 : EntryRecord F).isPoint

/-- The nodes of the boxes among some entries. -/
def unopened (f : Frontier β) (items : List (Nat × Subtree F)) : Nat :=
  (items.map fun item =>
    if (f.entryAt item.1 : EntryRecord F).isPoint then 0 else item.2.below.length).sum

@[simp] theorem toVisit_nil : toVisit f [] = ([] : List (Subtree F)) := rfl

@[simp] theorem toVisit_cons (item : Nat × Subtree F) : toVisit f (item :: items) =
    item.2.visits (f.entryAt item.1 : EntryRecord F).isPoint ++ toVisit f items := rfl

/-- A box has its nodes unopened and a point has none. -/
theorem unopened_cons (item : Nat × Subtree F) : unopened f (item :: items) =
    (if (f.entryAt item.1 : EntryRecord F).isPoint then 0 else item.2.below.length) +
      unopened f items := rfl

/-- Only the entries themselves matter for what they stand for. -/
theorem toVisit_congr
    (h : ∀ item ∈ items, (f'.entryAt item.1 : EntryRecord F) = f.entryAt item.1) :
    toVisit f' items = toVisit f items := by
  induction items with
  | nil => rfl
  | cons item items ih =>
      rw [toVisit_cons, toVisit_cons, h item List.mem_cons_self,
        ih fun item' hitem' => h item' (List.mem_cons_of_mem item hitem')]

/-- Only the entries themselves matter for what is unopened. -/
theorem unopened_congr
    (h : ∀ item ∈ items, (f'.entryAt item.1 : EntryRecord F) = f.entryAt item.1) :
    unopened f' items = unopened f items := by
  induction items with
  | nil => rfl
  | cons item items ih =>
      rw [unopened_cons, unopened_cons, h item List.mem_cons_self,
        ih fun item' hitem' => h item' (List.mem_cons_of_mem item hitem')]

/-- The order of the entries does not matter. -/
theorem unopened_perm (h : items.Perm items') : unopened f items = unopened f items' :=
  (h.map _).sum_eq

/-- What is unopened is to be visited. -/
theorem unopened_le (f : Frontier β) (items : List (Nat × Subtree F)) :
    unopened f items ≤ (toVisit f items).length := by
  induction items with
  | nil => exact Nat.le_refl 0
  | cons item items ih =>
      rw [unopened_cons, toVisit_cons, List.length_append, Subtree.visits]
      split
      · omega
      · omega

/-- Every entry stands for some node. -/
theorem length_le_length_toVisit (f : Frontier β) (items : List (Nat × Subtree F)) :
    items.length ≤ (toVisit f items).length := by
  induction items with
  | nil => exact Nat.le_refl 0
  | cons item items ih =>
      have hpos := List.length_pos_of_mem
        (item.2.mem_visits_self (f.entryAt item.1 : EntryRecord F).isPoint)
      rw [toVisit_cons, List.length_append, List.length_cons]
      omega

/-- Without nodes to visit there is no entry. -/
theorem eq_nil_of_toVisit (h : toVisit f items = []) : items = [] := by
  have hlength := length_le_length_toVisit f items
  rw [h, List.length_nil, Nat.le_zero_eq] at hlength
  exact List.length_eq_zero_iff.mp hlength

end Visiting

variable [Arithmetic F]

/-! ## The entries of a subtree -/

/-- From the query to the point of a subtree, along the axis that the subtree
is split on. -/
def offset (t : KdTree β F) (query : List F) (x : Subtree F) : F :=
  Arithmetic.sub (x.point.coordinate (x.depth % t.dimension))
    (query.getD (x.depth % t.dimension) Arithmetic.zero)

/-- The box of the child `index` of a subtree, next to or beyond its point. -/
def boxBeside (t : KdTree β F) (query : List F) (x : Subtree F) (e : EntryRecord F)
    (index : RecordIndex) (side : Int8) (crosses : Bool) : EntryRecord F :=
  childBox e index ((x.depth % t.dimension + 1) % t.dimension) (x.depth % t.dimension) side crosses
    (offset t query x)

/-- The box that a search makes for a subtree: that of the whole tree for the
tree itself, and for a child one that comes from the box of its parent. -/
inductive BoxOf (t : KdTree β F) (query : List F) (o : Outline F) : Subtree F → EntryRecord F → Prop
  | root {x : Subtree F} (outline : x.outline = o) (depth : x.depth = 0) :
      BoxOf t query o x (rootBox t query x.index)
  | left {x y : Subtree F} {e : EntryRecord F} (parent : BoxOf t query o x e)
      (outline : y.outline = x.left) (depth : y.depth = x.depth + 1) :
      BoxOf t query o y (boxBeside t query x e y.index 1
        (Arithmetic.le (offset t query x) Arithmetic.zero))
  | right {x y : Subtree F} {e : EntryRecord F} (parent : BoxOf t query o x e)
      (outline : y.outline = x.right) (depth : y.depth = x.depth + 1) :
      BoxOf t query o y (boxBeside t query x e y.index (-1)
        (Arithmetic.lt Arithmetic.zero (offset t query x)))

/-- The squared distance from the point of a subtree to the query. -/
def pointDistance (t : KdTree β F) (query : List F) (x : Subtree F) : F :=
  distanceBetween t.dimension x.point.position query

/-- A box whose point was measured. -/
def measured (t : KdTree β F) (query : List F) (x : Subtree F) (e : EntryRecord F) :
    EntryRecord F :=
  { e with isPoint := true, distance := pointDistance t query x }

/-- An entry for a subtree: its box or its measured point. -/
def EntryOf (t : KdTree β F) (query : List F) (o : Outline F) (x : Subtree F) (e : EntryRecord F) :
    Prop :=
  BoxOf t query o x e ∨ ∃ b, BoxOf t query o x b ∧ e = measured t query x b

section Boxes

variable {t : KdTree β F} {query : List F} {o : Outline F} {x : Subtree F} {e : EntryRecord F}

/-- A child's box is about the child. -/
theorem boxBeside_spec (t : KdTree β F) (query : List F) (x : Subtree F) (e : EntryRecord F)
    (index : RecordIndex) (side : Int8) (crosses : Bool) :
    (boxBeside t query x e index side crosses).node = some index ∧
      (boxBeside t query x e index side crosses).split =
        Kind.narrow ((x.depth + 1) % t.dimension) ∧
      (boxBeside t query x e index side crosses).isPoint = false := by
  have haxis : (x.depth % t.dimension + 1) % t.dimension = (x.depth + 1) % t.dimension :=
    Nat.mod_add_mod x.depth t.dimension 1
  rw [boxBeside, childBox, haxis]
  split <;> exact ⟨rfl, rfl, rfl⟩

/-- Bounding a box leaves it a box of the same node. -/
theorem boundedBox_spec (t : KdTree β F) (query : List F) (root : RecordIndex) (count : Nat) :
    (boundedBox t query root count).1.node = some root ∧
      (boundedBox t query root count).1.split = Kind.narrow 0 ∧
      (boundedBox t query root count).1.isPoint = false := by
  induction count with
  | zero => exact ⟨rfl, rfl, rfl⟩
  | succ count ih =>
      rw [boundedBox_succ, boundBox]
      split
      · exact ih
      · exact ih

/-- The box of a subtree of the tree is about it: it names its topmost node and
the axis of its depth. -/
theorem BoxOf.spec (h : BoxOf t query o x e) :
    x ∈ o.subtrees 0 ∧ e.node = some x.index ∧ e.split = Kind.narrow (x.depth % t.dimension) ∧
      e.isPoint = false := by
  induction h with
  | @root x houtline hdepth =>
      obtain ⟨hnode, hsplit, hpoint⟩ := boundedBox_spec t query x.index t.dimension
      refine ⟨?_, hnode, ?_, hpoint⟩
      · rw [← houtline, ← hdepth]
        exact x.mem_below_self
      · rw [hdepth, Nat.zero_mod]
        exact hsplit
  | @left x y e _ houtline hdepth ih =>
      obtain ⟨hnode, hsplit, hpoint⟩ := boxBeside_spec t query x e y.index 1
        (Arithmetic.le (offset t query x) Arithmetic.zero)
      refine ⟨Subtree.mem_subtrees_of_below ih.1 (Subtree.left_mem_below ?_), hnode, ?_, hpoint⟩
      · rw [← houtline, ← hdepth]
        exact y.mem_below_self
      · rw [hdepth, hsplit]
  | @right x y e _ houtline hdepth ih =>
      obtain ⟨hnode, hsplit, hpoint⟩ := boxBeside_spec t query x e y.index (-1)
        (Arithmetic.lt Arithmetic.zero (offset t query x))
      refine ⟨Subtree.mem_subtrees_of_below ih.1 (Subtree.right_mem_below ?_), hnode, ?_, hpoint⟩
      · rw [← houtline, ← hdepth]
        exact y.mem_below_self
      · rw [hdepth, hsplit]

/-- An entry for a subtree names its topmost node. -/
theorem EntryOf.spec (h : EntryOf t query o x e) : x ∈ o.subtrees 0 ∧ e.node = some x.index := by
  rcases h with h | ⟨b, h, rfl⟩
  · exact ⟨h.spec.1, h.spec.2.1⟩
  · exact ⟨h.spec.1, h.spec.2.1⟩

/-- An entry for a subtree is a box or has the distance of its point. -/
theorem EntryOf.cases (h : EntryOf t query o x e) :
    (e.isPoint = false ∧ BoxOf t query o x e) ∨
      (e.isPoint = true ∧ e.distance = pointDistance t query x) := by
  rcases h with h | ⟨b, h, rfl⟩
  · exact Or.inl ⟨h.spec.2.2.2, h⟩
  · exact Or.inr ⟨rfl, rfl⟩

end Boxes

/-! ## The invariant of a search -/

variable [Memory β F]

/-- A search that can serve a query: its tree is stored as the outline `o`, and
its frontier has entries for that tree. -/
structure Serves (t : KdTree β F) (query : List F) (f : Frontier β) (o : Outline F) : Prop where
  tree : t.Represents o
  least : t.least.length = t.dimension
  greatest : t.greatest.length = t.dimension
  query : query.length = t.dimension
  frontier : f.Sound
  dimension : f.dimension = t.dimension
  limit : f.pool.store.limit = indexLimit

/-- The state of a search.  The queue holds the entries `items`, each in its
slot and for its subtree; besides them the slots `held` are in use.  The nodes
that the queue stands for and those `outside` it are all nodes of the tree. -/
structure Explores (s : NeighborSearch β F) (o : Outline F) (held : List Nat)
    (outside : List (Subtree F)) (items : List (Nat × Subtree F)) : Prop
    extends Serves s.tree s.query s.frontier o where
  live : ∀ i, s.frontier.pool.IsLive i ↔ i ∈ held ++ items.map Prod.fst
  nodup : (held ++ items.map Prod.fst).Nodup
  queue : s.queue.elements.Perm (items.map fun item => s.frontier.pool.referenceTo item.1)
  ordered : Std.TransCmp (Arithmetic.compare (F := F)) →
    HeapOrdered s.frontier.ranking s.queue.heap
  entries : ∀ item ∈ items, EntryOf s.tree s.query o item.2 (s.frontier.entryAt item.1)
  visits : (outside ++ toVisit s.frontier items).Perm (o.subtrees 0)

variable {s : NeighborSearch β F} {f f' : Frontier β} {o : Outline F} {held held' : List Nat}
  {outside : List (Subtree F)} {items items' : List (Nat × Subtree F)} {i : Nat} {x : Subtree F}
  {e : EntryRecord F}

namespace Explores

/-! ## Changes beside the queue -/

/-- What a search counts and the neighbor it yielded last do not matter. -/
theorem notes (h : s.Explores o held outside items) (counters : Counters)
    (neighbor : Option (Neighbor F)) :
    ({ s with counters, neighbor } : NeighborSearch β F).Explores o held outside items :=
  ⟨h.toServes, h.live, h.nodup, h.queue, h.ordered, h.entries, h.visits⟩

/-- The order in which the entries are listed does not matter. -/
theorem perm (h : s.Explores o held outside items) (hperm : items.Perm items') :
    s.Explores o held outside items' where
  toServes := h.toServes
  live := fun i => (h.live i).trans ((hperm.map Prod.fst).append_left held).mem_iff
  nodup := ((hperm.map Prod.fst).append_left held).nodup_iff.mp h.nodup
  queue := h.queue.trans (hperm.map _)
  ordered := h.ordered
  entries := fun item hitem => h.entries item (hperm.mem_iff.mpr hitem)
  visits := ((hperm.symm.flatMap_right _).append_left outside).trans h.visits

/-- The nodes outside the queue may be listed in another order. -/
theorem permOutside (h : s.Explores o held outside items) {outside' : List (Subtree F)}
    (hperm : outside.Perm outside') : s.Explores o held outside' items :=
  { h with visits := (hperm.symm.append_right _).trans h.visits }

/-- A queued entry is in use. -/
theorem isLive (h : s.Explores o held outside items) {item : Nat × Subtree F}
    (hitem : item ∈ items) : s.frontier.pool.IsLive item.1 :=
  (h.live item.1).mpr (List.mem_append_right held (List.mem_map_of_mem hitem))

/-- A queued entry tells its node, its kind and its distance. -/
theorem reads (h : s.Explores o held outside items) {item : Nat × Subtree F}
    (hitem : item ∈ items) :
    s.frontier.nodeOf (s.frontier.pool.referenceTo item.1) = .ok item.2.index ∧
      s.frontier.entryIsPoint (s.frontier.pool.referenceTo item.1) =
        .ok (s.frontier.entryAt item.1 : EntryRecord F).isPoint ∧
      s.frontier.distanceOf (s.frontier.pool.referenceTo item.1) =
        .ok (s.frontier.entryAt item.1 : EntryRecord F).distance := by
  have hlive := h.isLive hitem
  exact ⟨h.frontier.nodeOf_eq hlive (h.entries item hitem).spec.2,
    h.frontier.entryIsPoint_eq hlive, h.frontier.distanceOf_eq hlive⟩

/-- The queued entries are known to the comparator. -/
theorem known (h : s.Explores o held outside items) :
    ∀ r ∈ s.queue.elements, s.frontier.Known r := by
  intro r hr
  obtain ⟨item, hitem, rfl⟩ := List.mem_map.mp (h.queue.mem_iff.mp hr)
  exact ⟨item.1, h.isLive hitem, rfl⟩

/-- **A frontier that keeps the queued entries** may take the place of the one
before. -/
theorem withFrontier (h : s.Explores o held outside items) (hsound : f'.Sound)
    (hdimension : f'.dimension = s.frontier.dimension)
    (hlimit : f'.pool.store.limit = s.frontier.pool.store.limit)
    (hlive : ∀ i, f'.pool.IsLive i ↔ i ∈ held' ++ items.map Prod.fst)
    (hnodup : (held' ++ items.map Prod.fst).Nodup)
    (href : ∀ item ∈ items, f'.pool.referenceTo item.1 = s.frontier.pool.referenceTo item.1)
    (hkept : ∀ item ∈ items, (f'.entryAt item.1 : EntryRecord F) = s.frontier.entryAt item.1) :
    ({ s with frontier := f' } : NeighborSearch β F).Explores o held' outside items where
  toServes := ⟨h.tree, h.least, h.greatest, h.query, hsound, hdimension.trans h.dimension,
    hlimit.trans h.limit⟩
  live := hlive
  nodup := hnodup
  queue := by
    show s.queue.elements.Perm (items.map fun item => f'.pool.referenceTo item.1)
    rw [List.map_congr_left href]
    exact h.queue
  ordered := by
    intro htrans
    -- the heap is ranked by queued entries only, and these are the same
    refine (h.ordered htrans).congr ?_
    have hslot : ∀ r ∈ s.queue.heap.toList,
        (f'.entryAt (slotOf r) : EntryRecord F) = s.frontier.entryAt (slotOf r) := by
      intro r hr
      obtain ⟨item, hitem, rfl⟩ := List.mem_map.mp (h.queue.mem_iff.mp hr)
      exact hkept item hitem
    intro r hr r' hr'
    rw [ranking, ranking, hslot r hr, hslot r' hr']
  entries := by
    intro item hitem
    show EntryOf s.tree s.query o item.2 (f'.entryAt item.1)
    rw [hkept item hitem]
    exact h.entries item hitem
  visits := by
    show (outside ++ toVisit f' items).Perm _
    rw [toVisit_congr hkept]
    exact h.visits

/-- A new entry is held at first. -/
theorem adds (h : s.Explores o held outside items) (hadds : s.frontier.Adds i e f') :
    ({ s with frontier := f' } : NeighborSearch β F).Explores o (i :: held) outside items := by
  refine h.withFrontier hadds.sound hadds.dimension hadds.limit ?_ ?_ ?_ ?_
  · intro j
    rw [hadds.live, h.live, List.cons_append, List.mem_cons]
  · rw [List.cons_append, List.nodup_cons, ← h.live]
    exact ⟨hadds.fresh, h.nodup⟩
  · intro item _
    rw [hadds.referenceTo]
  · exact fun item hitem => hadds.kept item.1 (h.isLive hitem)

/-- A held entry is not queued. -/
theorem ne_of_held (h : s.Explores o held outside items) (hi : i ∈ held)
    {item : Nat × Subtree F} (hitem : item ∈ items) : item.1 ≠ i := by
  rintro rfl
  exact List.disjoint_of_nodup_append h.nodup hi (List.mem_map_of_mem hitem)

/-- A held entry may be filled in. -/
theorem fills (h : s.Explores o held outside items) (hi : i ∈ held)
    (hfills : s.frontier.Fills i e f') :
    ({ s with frontier := f' } : NeighborSearch β F).Explores o held outside items := by
  refine h.withFrontier (hfills.sound h.frontier) hfills.dimension hfills.limit ?_ h.nodup ?_ ?_
  · exact fun j => hfills.isLive_iff.trans (h.live j)
  · intro item _
    rw [hfills.referenceTo]
  · exact fun item hitem => hfills.entryAt_of_ne (h.ne_of_held hi hitem)

/-- A held entry may be removed. -/
theorem deletes (h : s.Explores o (i :: held) outside items) {p' : Pool β}
    (hdeletes : s.frontier.pool.Deletes i p')
    (hsound : ({ s.frontier with pool := p' } : Frontier β).Sound) :
    ({ s with frontier := { s.frontier with pool := p' } } : NeighborSearch β F).Explores o held
      outside items := by
  have hnodup := List.nodup_cons.mp h.nodup
  refine h.withFrontier hsound rfl hdeletes.limit ?_ hnodup.2 ?_ ?_
  · intro j
    rw [hdeletes.live, h.live, List.cons_append, List.mem_cons]
    constructor
    · rintro ⟨hne, rfl | hj⟩
      · exact absurd rfl hne
      · exact hj
    · exact fun hj => ⟨fun heq => hnodup.1 (heq ▸ hj), Or.inr hj⟩
  · exact fun item hitem => hdeletes.referenceTo item.1 (h.ne_of_held List.mem_cons_self hitem)
  · intro item hitem
    exact congrArg s.frontier.entryOf
      (hdeletes.kept item.1 (h.ne_of_held List.mem_cons_self hitem))

/-- The memory of the frontier stays within the machine range however much the
frontier grows. -/
theorem bound (h : s.Explores o held outside items) :
    2 ^ 31 * s.frontier.pool.layout.size < sizeBound := by
  have hdim := h.tree.dimension_lt
  rw [h.frontier.laid.size, h.dimension]
  unfold sizeBound
  omega

/-- **There is room for another entry** as long as more nodes are outside the
queue than entries are held. -/
theorem room (h : s.Explores o held outside items) (hlt : held.length < outside.length)
    (hfull : s.frontier.pool.free = []) : s.frontier.pool.HasRoom := by
  -- a slot in use is held or queued, and a queued entry stands for some node
  have hcount := h.frontier.pool.length_add_length h.nodup fun i => (h.live i).symm
  have hvisits := h.visits.length_eq
  have hitems := length_le_length_toVisit s.frontier items
  have hsmall := h.tree.count_le
  have hlimit := h.limit
  rw [hfull, List.length_nil, Nat.add_zero, List.length_append, List.length_map] at hcount
  rw [h.tree.length_subtrees, List.length_append] at hvisits
  exact Or.inr ⟨by omega, h.bound⟩

/-! ## The queue -/

/-- **Offering** a held entry queues it with the nodes it stands for. -/
theorem offer (h : s.Explores o (i :: held)
      (x.visits (s.frontier.entryAt i : EntryRecord F).isPoint ++ outside) items)
    (hentry : EntryOf s.tree s.query o x (s.frontier.entryAt i)) :
    ∃ queue counters, s.offer (s.frontier.pool.referenceTo i) =
        .ok { s with queue, counters } ∧
      ({ s with queue, counters } : NeighborSearch β F).Explores o held outside
        ((i, x) :: items) := by
  have hlive : s.frontier.pool.IsLive i := (h.live i).mpr List.mem_cons_self
  obtain ⟨queue, hoffer, hperm, hordered⟩ :=
    PriorityQueue.offer_eq h.frontier.order_answers h.known ⟨i, hlive, rfl⟩
  refine ⟨queue, _, by rw [NeighborSearch.offer, hoffer]; rfl, ?_⟩
  have hmiddle : (held ++ i :: items.map Prod.fst).Perm (i :: (held ++ items.map Prod.fst)) :=
    List.perm_middle
  exact {
    toServes := h.toServes
    live := fun j => (h.live j).trans hmiddle.symm.mem_iff
    nodup := hmiddle.nodup_iff.mpr h.nodup
    queue := hperm.trans (h.queue.cons _)
    ordered := fun htrans =>
      hordered (transCmp_ranking s.frontier) (h.ordered htrans)
    entries := by
      intro item hitem
      rcases List.mem_cons.mp hitem with rfl | hitem
      · exact hentry
      · exact h.entries item hitem
    visits := by
      -- the nodes of the entry change sides
      have happend := List.perm_append_comm_assoc outside
        (x.visits (s.frontier.entryAt i : EntryRecord F).isPoint) (toVisit s.frontier items)
      rw [← List.append_assoc (x.visits _)] at happend
      exact happend.trans h.visits }

/-- **Polling** takes an entry and holds it; nothing queued is nearer if
coordinates are totally ordered. -/
theorem poll (h : s.Explores o [] outside items) (hne : items ≠ []) :
    ∃ queue i x rest, s.queue.poll s.frontier.order s.frontier.pool.newReference =
        .ok (true, queue, s.frontier.pool.referenceTo i) ∧
      items.Perm ((i, x) :: rest) ∧ EntryOf s.tree s.query o x (s.frontier.entryAt i) ∧
      ({ s with queue } : NeighborSearch β F).Explores o [i]
        (x.visits (s.frontier.entryAt i : EntryRecord F).isPoint ++ outside) rest ∧
      (Std.TransCmp (Arithmetic.compare (F := F)) → ∀ item ∈ items,
        (Arithmetic.compare (s.frontier.entryAt i : EntryRecord F).distance
          (s.frontier.entryAt item.1 : EntryRecord F).distance).isLE) := by
  have hne' : s.queue.elements ≠ [] := by
    intro hnil
    have hlength := h.queue.length_eq
    rw [hnil, List.length_map] at hlength
    exact hne (List.length_eq_zero_iff.mp hlength.symm)
  have hpool : ∀ r ∈ s.queue.elements, s.frontier.pool.newReference.pool = r.pool := by
    intro r hr
    obtain ⟨item, -, rfl⟩ := List.mem_map.mp (h.queue.mem_iff.mp hr)
    rfl
  obtain ⟨queue, top, hpoll, hperm, hordered⟩ :=
    PriorityQueue.poll_eq h.frontier.order_answers h.known hne' hpool
  -- the reference that is polled belongs to one of the items
  have htop : top ∈ s.queue.elements := hperm.mem_iff.mpr List.mem_cons_self
  obtain ⟨⟨i, x⟩, hitem, rfl⟩ := List.mem_map.mp (h.queue.mem_iff.mp htop)
  obtain ⟨before, after, rfl⟩ := List.append_of_mem hitem
  have hitems : (before ++ (i, x) :: after).Perm ((i, x) :: (before ++ after)) :=
    List.perm_middle
  have h' := h.perm hitems
  refine ⟨queue, i, x, before ++ after, hpoll, hitems, h.entries _ hitem, ?_, ?_⟩
  · exact {
      toServes := h.toServes
      live := h'.live
      nodup := h'.nodup
      queue := (List.Perm.cons_inv (hperm.symm.trans h'.queue))
      ordered := fun htrans => (hordered (transCmp_ranking s.frontier) (h.ordered htrans)).1
      entries := fun item hmem => h'.entries item (List.mem_cons_of_mem _ hmem)
      visits := by
        have happend := List.perm_append_comm_assoc outside
          (x.visits (s.frontier.entryAt i : EntryRecord F).isPoint)
          (toVisit s.frontier (before ++ after))
        rw [← List.append_assoc (x.visits _)] at happend
        exact happend.symm.trans h'.visits }
  · intro htrans item hmem
    exact (hordered (transCmp_ranking s.frontier) (h.ordered htrans)).2
      (s.frontier.pool.referenceTo item.1)
      (h.queue.mem_iff.mpr (List.mem_map_of_mem hmem))

end Explores

end NeighborSearch

end RecordPool
