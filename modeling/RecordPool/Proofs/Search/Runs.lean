/-
# Whole searches

A search that goes on until nothing is queued yields each node of the tree
once, whatever the comparisons of distances answer.  If distances are totally
ordered and no box is farther than a point in it, every neighbor is a nearest
one of those still to come.
-/
import RecordPool.Proofs.Search.Steps

namespace RecordPool

namespace NeighborSearch

open Frontier

variable {β F : Type} [Memory β F] [Arithmetic F]

/-! ## Nearest entries -/

/-- No box of a search is farther than a point in it. -/
def Admissible (t : KdTree β F) (query : List F) (o : Outline F) : Prop :=
  ∀ x e, BoxOf t query o x e → ∀ y ∈ x.below,
    (Arithmetic.compare e.distance (pointDistance t query y)).isLE

variable {s s' : NeighborSearch β F} {o : Outline F} {outside : List (Subtree F)}
  {items items' : List (Nat × Subtree F)} {x : Subtree F} {query : List F}

namespace Explores

/-- A value that is at most the distance of each entry is at most that of each
node the entries stand for. -/
theorem le_of_mem_toVisit {held : List Nat} [Std.TransCmp (Arithmetic.compare (F := F))]
    (h : s.Explores o held outside items) (hadmissible : Admissible s.tree s.query o) {c : F}
    (hle : ∀ item ∈ items,
      (Arithmetic.compare c (s.frontier.entryAt item.1 : EntryRecord F).distance).isLE)
    {y : Subtree F} (hy : y ∈ toVisit s.frontier items) :
    (Arithmetic.compare c (pointDistance s.tree s.query y)).isLE := by
  obtain ⟨item, hitem, hy⟩ := List.mem_flatMap.mp hy
  -- a box bounds the distances below it, and a point is its own distance
  rcases (h.entries item hitem).cases with ⟨hpoint, hbox⟩ | ⟨hpoint, hdistance⟩
  · rw [hpoint] at hy
    exact Std.TransCmp.isLE_trans (hle item hitem) (hadmissible _ _ hbox y hy)
  · rw [hpoint] at hy
    obtain rfl := List.mem_singleton.mp hy
    rw [← hdistance]
    exact hle item hitem

/-- As long as the same nodes are outside the queue, the same are to visit. -/
theorem toVisit_perm (h : s.Explores o [] outside items) (h' : s'.Explores o [] outside items') :
    (toVisit s'.frontier items').Perm (toVisit s.frontier items) :=
  (List.perm_append_left_iff outside).mp (h'.visits.trans h.visits.symm)

/-- As long as the same nodes are outside the queue, it stays nonempty. -/
theorem ne_nil (h : s.Explores o [] outside items) (h' : s'.Explores o [] outside items')
    (hne : items ≠ []) : items' ≠ [] := by
  rintro rfl
  exact hne (eq_nil_of_toVisit (List.nil_perm.mp (h.toVisit_perm h')))

/-- What was to visit before a node was yielded is that node and what is to
visit afterwards. -/
theorem toVisit_perm_cons (h : s.Explores o [] outside items)
    (h' : s'.Explores o [] (x :: outside) items') :
    (toVisit s.frontier items).Perm (x :: toVisit s'.frontier items') := by
  have hboth : (outside ++ toVisit s.frontier items).Perm
      (outside ++ x :: toVisit s'.frontier items') :=
    (h.visits.trans h'.visits.symm).trans List.perm_middle.symm
  exact (List.perm_append_left_iff outside).mp hboth

/-- A queue without entries has none to poll. -/
theorem elements_of_nil (h : s.Explores o [] outside []) : s.queue.elements = [] :=
  List.perm_nil.mp h.queue

/-! ## The next neighbor -/

/-- With an empty queue a search takes nothing. -/
theorem takeUntilPoint_of_nil (h : s.Explores o [] outside []) (fuel : Nat) :
    s.takeUntilPoint (fuel + 1) = .ok (none, { s with neighbor := none }) := by
  rw [takeUntilPoint, PriorityQueue.poll_of_nil h.elements_of_nil, ok_bind]
  rfl

/-- **Taking entries ends at a point** after at most as many boxes as there are
unopened nodes; the point is a nearest one. -/
theorem takeUntilPoint_eq {fuel : Nat} (h : s.Explores o [] outside items) (hne : items ≠ [])
    (hfuel : unopened s.frontier items < fuel) :
    ∃ x s' items', s.takeUntilPoint fuel = .ok (some (neighborAt s.tree s.query x), s') ∧
      s'.Explores o [] (x :: outside) items' ∧ s'.tree = s.tree ∧ s'.query = s.query ∧
      (Std.TransCmp (Arithmetic.compare (F := F)) → Admissible s.tree s.query o →
        ∀ y ∈ toVisit s.frontier items,
          (Arithmetic.compare (pointDistance s.tree s.query x)
            (pointDistance s.tree s.query y)).isLE) := by
  -- the nodes of unopened boxes are the fuel, and opening a box uses one of them up
  induction fuel generalizing s items with
  | zero => omega
  | succ fuel ih =>
      obtain ⟨queue, i, x, rest, hpoll, hperm, hentry, h₁, hleast⟩ := h.poll hne
      obtain ⟨hnode, hkind, -⟩ := h.reads (hperm.mem_iff.mpr List.mem_cons_self)
      have hcount := unopened_perm (f := s.frontier) hperm
      rw [takeUntilPoint, hpoll, ok_bind]
      dsimp only
      rw [hnode, ok_bind, hkind, ok_bind]
      rcases hentry.cases with ⟨hpoint, hbox⟩ | ⟨hpoint, hdistance⟩
      · -- a box is opened: the same nodes are still to visit
        rw [unopened_cons, hpoint, if_neg (by simp)] at hcount
        rw [hpoint] at h₁
        obtain ⟨s₂, items₂, hexpand, h₂, htree, hquery, hcount₂, -⟩ := h₁.expand_eq hbox
        have hfuel₂ : unopened s₂.frontier items₂ < fuel := by
          dsimp only at hcount hcount₂
          omega
        obtain ⟨y, s₃, items₃, htake, h₃, htree₃, hquery₃, hnearest⟩ := ih h₂ (h.ne_nil h₂ hne) hfuel₂
        rw [htree, hquery] at htake hnearest
        refine ⟨y, s₃, items₃, ?_, h₃, htree₃.trans htree, hquery₃.trans hquery, ?_⟩
        · rw [hpoint, if_neg (by simp)]
          dsimp only at hexpand
          rw [hexpand, ok_bind, htake]
        · intro htrans hadmissible z hz
          exact hnearest htrans hadmissible z ((h.toVisit_perm h₂).mem_iff.mpr hz)
      · -- a point is yielded: it is as near as any entry, hence as any node to visit
        rw [hpoint] at h₁
        obtain ⟨s₂, hyield, h₂, htree, hquery, -⟩ := h₁.yieldPoint_eq hentry hpoint
        refine ⟨x, s₂, rest, ?_, h₂, htree, hquery, ?_⟩
        · rw [hpoint, if_pos rfl]
          dsimp only at hyield
          rw [hyield]
          rfl
        · intro htrans hadmissible z hz
          rw [← hdistance]
          exact h.le_of_mem_toVisit hadmissible (hleast htrans) hz

/-- The unopened nodes are no more than the records of the tree. -/
theorem unopened_lt {held : List Nat} (h : s.Explores o held outside items) :
    unopened s.frontier items < s.tree.nodes.allocated + 1 := by
  have hle := unopened_le s.frontier items
  have hlength := h.visits.length_eq
  rw [List.length_append, h.tree.length_subtrees] at hlength
  omega

/-- With an empty queue there is no next neighbor. -/
theorem next_of_nil (h : s.Explores o [] outside []) :
    s.next = .ok (none, { s with neighbor := none }) :=
  h.takeUntilPoint_of_nil _

/-- **The next neighbor** is a nearest one of those to come. -/
theorem next_eq (h : s.Explores o [] outside items) (hne : items ≠ []) :
    ∃ x s' items', s.next = .ok (some (neighborAt s.tree s.query x), s') ∧
      s'.Explores o [] (x :: outside) items' ∧ s'.tree = s.tree ∧ s'.query = s.query ∧
      (Std.TransCmp (Arithmetic.compare (F := F)) → Admissible s.tree s.query o →
        ∀ y ∈ toVisit s.frontier items,
          (Arithmetic.compare (pointDistance s.tree s.query x)
            (pointDistance s.tree s.query y)).isLE) :=
  h.takeUntilPoint_eq hne h.unopened_lt

/-- Another neighbor is to come as long as something is queued. -/
theorem hasNext_eq (h : s.Explores o [] outside items) : s.hasNext = !items.isEmpty := by
  have hlength := h.queue.length_eq
  rw [List.length_map] at hlength
  have hempty : s.queue.elements.isEmpty = items.isEmpty := by
    rw [Bool.eq_iff_iff, List.isEmpty_iff_length_eq_zero, List.isEmpty_iff_length_eq_zero, hlength]
  rw [hasNext, PriorityQueue.isEmpty_eq, hempty]

/-! ## All neighbors -/

/-- **Until nothing is queued a search yields every node to visit once**, and
after that nothing.  If no box is farther than a point in it, the neighbors
come by distance. -/
theorem exists_yields (h : s.Explores o [] outside items) :
    ∃ (found : List (Subtree F)) (states : Nat → NeighborSearch β F),
      states 0 = s ∧ found.Perm (toVisit s.frontier items) ∧
      (∀ k, (states k).next =
        .ok ((found.map (neighborAt s.tree s.query))[k]?, states (k + 1)) ∧
          (states k).hasNext = found[k]?.isSome) ∧
      (Std.TransCmp (Arithmetic.compare (F := F)) → Admissible s.tree s.query o →
        found.Pairwise fun x y => (Arithmetic.compare (pointDistance s.tree s.query x)
          (pointDistance s.tree s.query y)).isLE) := by
  -- on the number of nodes to visit, of which each neighbor takes one
  induction hcount : (toVisit s.frontier items).length generalizing s outside items with
  | zero =>
      obtain rfl := eq_nil_of_toVisit (List.length_eq_zero_iff.mp hcount)
      have hnote : ({ s with neighbor := none } : NeighborSearch β F).Explores o [] outside [] :=
        h.notes s.counters none
      -- after the first `none` the state does not change any more
      refine ⟨[], fun k => if k = 0 then s else { s with neighbor := none }, rfl, List.Perm.refl _,
        fun k => ?_, fun _ _ => List.Pairwise.nil⟩
      by_cases hk : k = 0
      · subst hk
        exact ⟨h.next_of_nil, h.hasNext_eq⟩
      · dsimp only
        rw [if_neg hk, if_neg (Nat.succ_ne_zero k)]
        exact ⟨hnote.next_of_nil, hnote.hasNext_eq⟩
  | succ count ih =>
      have hne : items ≠ [] := by
        rintro rfl
        cases hcount
      obtain ⟨x, s', items', hnext, h', htree, hquery, hnearest⟩ := h.next_eq hne
      have hperm := h.toVisit_perm_cons h'
      have hcount' : (toVisit s'.frontier items').length = count := by
        have hlength := hperm.length_eq
        rw [List.length_cons] at hlength
        omega
      obtain ⟨found, states, hstart, hfound, hstates, hsorted⟩ := ih h' hcount'
      rw [htree, hquery] at hstates hsorted
      have hall : (x :: found).Perm (toVisit s.frontier items) := (hfound.cons x).trans hperm.symm
      refine ⟨x :: found, fun k => Nat.casesOn k s states, rfl, hall, fun k => ?_, ?_⟩
      · cases k with
        | zero =>
            refine ⟨?_, ?_⟩
            · show s.next = .ok (some (neighborAt s.tree s.query x), states 0)
              rw [hnext, hstart]
            · show s.hasNext = _
              rw [h.hasNext_eq]
              simp [hne]
        | succ k =>
            show (states k).next = .ok _ ∧ (states k).hasNext = _
            rw [(hstates k).1, (hstates k).2]
            simp
      · intro htrans hadmissible
        refine List.pairwise_cons.mpr ⟨fun y hy => ?_, hsorted htrans hadmissible⟩
        exact hnearest htrans hadmissible y (hall.mem_iff.mp (List.mem_cons_of_mem x hy))

end Explores

/-- Neighbors that come one after the other are taken all at once. -/
theorem take_eq {found : List (Neighbor F)} {states : Nat → NeighborSearch β F}
    (h : ∀ k, (states k).next = .ok (found[k]?, states (k + 1))) (j count : Nat)
    (hcount : j + count = found.length) :
    (states j).take (count + 1) = .ok (found.drop j, states (found.length + 1)) := by
  induction count generalizing j with
  | zero =>
      have hnone : found[j]? = none := List.getElem?_eq_none (by omega)
      rw [take, h j, ok_bind, hnone]
      dsimp only
      rw [List.drop_of_length_le (by omega), ← hcount, Nat.add_zero]
      rfl
  | succ count ih =>
      have hlt : j < found.length := by omega
      rw [take, h j, ok_bind, List.getElem?_eq_getElem hlt]
      dsimp only
      rw [ih (j + 1) (by omega), ok_bind, ← List.drop_eq_getElem_cons hlt]
      rfl

/-! ## Beginning -/

/-- A search without a queue has all nodes to visit. -/
theorem Serves.cleared {s : NeighborSearch β F} (h : Serves s.tree s.query s.frontier o)
    (hquery : query.length = s.tree.dimension) :
    ({ s with
      queue := .empty
      frontier := s.frontier.clear
      neighbor := none
      counters := .zero
      query } : NeighborSearch β F).Explores o [] (o.subtrees 0) [] where
  toServes := ⟨h.tree, h.least, h.greatest, hquery, h.frontier.clear, h.dimension, h.limit⟩
  live := fun i => iff_of_false (Pool.not_isLive_clear s.frontier.pool i) (List.not_mem_nil)
  nodup := List.nodup_nil
  queue := List.Perm.nil
  ordered := fun _ => PriorityQueue.heapOrdered_empty
  entries := fun item hitem => absurd hitem List.not_mem_nil
  visits := by
    rw [toVisit_nil, List.append_nil]

/-- The box of the whole tree is queued with all its nodes. -/
theorem Explores.enqueueRoot_eq (h : s.Explores o [] (o.subtrees 0) []) (houtline : x.outline = o)
    (hdepth : x.depth = 0) :
    ∃ s' i, s.enqueueRoot x.index = .ok s' ∧ s'.tree = s.tree ∧ s'.query = s.query ∧
      s'.Explores o [] [] [(i, x)] ∧ (s'.frontier.entryAt i : EntryRecord F).isPoint = false := by
  have hbelow : o.subtrees 0 = x.below := by
    rw [← houtline, ← hdepth]
    rfl
  have hmem : x ∈ o.subtrees 0 := hbelow ▸ x.mem_below_self
  have hindex := h.tree.index_le hmem
  obtain ⟨i, f', heq, hadds⟩ := NeighborSearch.enqueueRoot_eq h.frontier
    (h.room (List.length_pos_of_mem hmem))
    h.dimension h.least h.greatest h.query hindex
  have h₁ := h.adds hadds
  have hbox : BoxOf s.tree s.query o x (f'.entryAt i) := by
    rw [hadds.entryAt_self]
    exact BoxOf.root houtline hdepth
  have hvisits : o.subtrees 0 = x.visits (f'.entryAt i : EntryRecord F).isPoint ++ [] := by
    rw [hbox.spec.2.2.2, List.append_nil, hbelow]
    rfl
  rw [hvisits] at h₁
  obtain ⟨queue, counters, hoffer, h₂⟩ := h₁.offer (Or.inl hbox)
  dsimp only at hoffer
  rw [hadds.referenceTo] at hoffer
  refine ⟨NeighborSearch.noteCapacity (NeighborSearch.countCreated
    { s with frontier := f', queue, counters }), i, ?_, rfl, rfl, h₂.notes _ _, hbox.spec.2.2.2⟩
  rw [heq, hoffer]
  rfl

/-- **Beginning a search** queues the whole tree as a box. -/
theorem search_eq (h : Serves s.tree s.query s.frontier o)
    (hquery : query.length = s.tree.dimension) :
    ∃ s' items, s.search query = .ok (.ok (), s') ∧ s'.tree = s.tree ∧ s'.query = query ∧
      s'.Explores o [] [] items ∧
      ∀ item ∈ items, item.2.outline = o ∧ item.2.depth = 0 ∧
        (s'.frontier.entryAt item.1 : EntryRecord F).isPoint = false := by
  have hlength : query.length = s.query.length := hquery.trans h.query.symm
  have hcopy : HasCoordinates.copyInto query s.query = .ok query := by
    rw [copyInto_eq (le_of_eq hlength), List.drop_of_length_le (le_of_eq hlength.symm),
      List.append_nil]
  have hdimension : ¬ HasCoordinates.dimension query ≠ s.tree.dimension := not_not_intro hquery
  have h₀ := h.cleared hquery
  rw [search, if_neg hdimension, hcopy, ok_bind]
  dsimp only
  rw [h.tree.root]
  cases o with
  | empty => exact ⟨_, [], rfl, rfl, rfl, h₀, fun item hitem => absurd hitem List.not_mem_nil⟩
  | node index point left right =>
      obtain ⟨s', i, henqueue, htree, hquery', h', hbox⟩ :=
        h₀.enqueueRoot_eq (x := ⟨0, index, point, left, right⟩) rfl rfl
      refine ⟨s', _, ?_, htree, hquery', h', ?_⟩
      · dsimp only [Outline.root?] at henqueue ⊢
        rw [henqueue]
        rfl
      · intro item hitem
        obtain rfl := List.mem_singleton.mp hitem
        exact ⟨rfl, rfl, hbox⟩

/-- **A new search** has nothing queued. -/
theorem make_eq {t : KdTree β F} (h : t.Represents o) (hleast : t.least.length = t.dimension)
    (hgreatest : t.greatest.length = t.dimension) (id : PoolId) :
    ∃ s : NeighborSearch β F, make id t = pure s ∧ s.tree = t ∧
      s.Explores o [] (o.subtrees 0) [] := by
  obtain ⟨f, hmake, hsound, hdimension, hallocated, -, hlimit⟩ := Frontier.make_eq (β := β) id
    h.dimension_pos h.dimension_lt (by decide : Frontier.defaultCapacity ≤ indexLimit)
  have hdead : ∀ i, ¬ f.pool.IsLive i := by
    intro i hi
    have hlt := hsound.pool.lt_allocated hi
    omega
  refine ⟨⟨t, List.replicate t.dimension Arithmetic.zero, f, .empty, none, .zero⟩, ?_, rfl, ?_⟩
  · rw [make, hmake]
    rfl
  exact {
    toServes := ⟨h, hleast, hgreatest, List.length_replicate, hsound, hdimension, hlimit⟩
    live := fun i => iff_of_false (hdead i) List.not_mem_nil
    nodup := List.nodup_nil
    queue := List.Perm.nil
    ordered := fun _ => PriorityQueue.heapOrdered_empty
    entries := fun item hitem => absurd hitem List.not_mem_nil
    visits := by
      rw [toVisit_nil, List.append_nil] }

end NeighborSearch

end RecordPool
