/-
# Searches that are used again

What a search was used for before does not show.  The frontier of a used search
may have grown, its memory holds old entries and its references have moved on,
but beginning a search makes it a twin of a new one, and twins give the same
answers for good.
-/
import RecordPool.Proofs.Search.Completeness
import RecordPool.Proofs.Search.TwinSearches

namespace RecordPool

namespace NeighborSearch

variable {β F : Type} [Memory β F] [Arithmetic F]

variable {t : KdTree β F} {s s' fresh : NeighborSearch β F} {id : PoolId}

/-! ## Used searches -/

/-- The searches over the tree `t` that were used in any way: for any queries,
also refused ones, each drained as far as the caller cared to. -/
inductive Used (t : KdTree β F) : NeighborSearch β F → Prop where
  | made {id : PoolId} {s : NeighborSearch β F} (make : make id t = pure s) : Used t s
  | searched {P : Type} [HasCoordinates P F] [LawfulCoordinates P F] {query : P}
      {outcome : Except TreeError Unit} {s s' : NeighborSearch β F} (before : Used t s)
      (search : s.search query = .ok (outcome, s')) : Used t s'
  | advanced {neighbor : Option (Neighbor F)} {s s' : NeighborSearch β F} (before : Used t s)
      (next : s.next = .ok (neighbor, s')) : Used t s'
  | drained {P : Type} [HasCoordinates P F] [LawfulCoordinates P F] {query : P}
      {outcome : Except TreeError (List (Neighbor F))} {s s' : NeighborSearch β F}
      (before : Used t s) (searchAll : s.searchAll query = .ok (outcome, s')) : Used t s'

/-- **New searches are twins**, and making one succeeds with any identity if it
does with one. -/
theorem exists_resting_of_make (hmake : make id t = pure s) (id' : PoolId) :
    ∃ fresh, make id' t = pure fresh ∧ Resting t s fresh := by
  rw [make] at hmake
  obtain ⟨f, hfrontier, hput⟩ := bind_eq_pure_iff.mp hmake
  cases hput
  obtain ⟨f', m, hfrontier', hplan, htwins⟩ :=
    Frontier.exists_twin_of_make (by decide : Frontier.defaultCapacity ≤ indexLimit) hfrontier id'
  refine ⟨⟨t, List.replicate t.dimension Arithmetic.zero, f', .empty, none, .zero⟩, ?_, m, #[], ?_⟩
  · rw [make, hfrontier', pure_bind]
  · exact {
      plan := hplan
      tree := rfl
      tree' := rfl
      query := rfl
      length := List.length_replicate
      neighbor := rfl
      counters := ⟨rfl, rfl, rfl, rfl⟩
      frontier := htwins
      queue := PriorityQueue.twins_empty m }

/-- Where a search was used, one can be made anew. -/
theorem Used.exists_make (h : Used t s) (id : PoolId) : ∃ fresh, make id t = pure fresh := by
  induction h with
  | made hmake =>
      obtain ⟨fresh, hfresh, -⟩ := exists_resting_of_make hmake id
      exact ⟨fresh, hfresh⟩
  | searched _ _ ih | advanced _ _ ih | drained _ _ ih => exact ih

/-- **A used search is its own twin**: each call keeps it so. -/
theorem Used.resting (h : Used t s) : Resting t s s := by
  -- a call on two copies of one search has one outcome, which is therefore its own twin
  induction h with
  | @made id s hmake =>
      obtain ⟨fresh, hfresh, hresting⟩ := exists_resting_of_make hmake id
      obtain rfl : s = fresh := Except.ok.inj (Except.ok.inj (hmake.symm.trans hfresh))
      exact hresting
  | @searched _ _ _ query _ _ _ _ hsearch ih => exact ((ih.search query).of_eq_ok hsearch hsearch).2
  | advanced _ hnext ih => exact (ih.next.of_eq_ok hnext hnext).2
  | @drained _ _ _ query _ _ _ _ hsearch ih =>
      exact ((ih.searchAll query).of_eq_ok hsearch hsearch).2

/-- **A new search is in step with a used one**: it has not grown. -/
theorem Used.trails_of_make (h : Used t s) (hmake : make id t = pure fresh) : Trails t fresh s := by
  have hfresh := (Used.made hmake).resting.trails
  have hs := h.resting.trails
  have hcapacity : fresh.frontier.pool.store.capacity = Frontier.defaultCapacity := by
    rw [make] at hmake
    obtain ⟨f, hfrontier, hput⟩ := bind_eq_pure_iff.mp hmake
    cases hput
    exact Frontier.capacity_of_make hfrontier
  exact ⟨hfresh.tree, hs.tree, hfresh.length, hs.length,
    hfresh.frontier.of_initial hs.frontier hcapacity⟩

/-! ## Calls and their answers -/

/-- The calls between two queries.  The node, the data index and the distance
of the current neighbor are parts of it. -/
inductive Call where
  | next
  | hasNext
  | current
  | position (d : Nat)
  | counters
  | dimension

/-- What a call answers. -/
inductive Answer (F : Type) where
  | neighbor (neighbor : Option (Neighbor F))
  | flag (flag : Bool)
  | coordinate (coordinate : Option F)
  | counters (expanded yielded created peak : Nat)
  | dimension (dimension : Nat)

/-- Makes a call. -/
def answer (s : NeighborSearch β F) : Call → Checked (Answer F × NeighborSearch β F)
  | .next => do
      let (neighbor, s) ← s.next
      pure (.neighbor neighbor, s)
  | .hasNext => pure (.flag s.hasNext, s)
  | .current => pure (.neighbor s.neighbor, s)
  | .position d => do pure (.coordinate (← s.position d), s)
  | .counters =>
      let c := s.counters
      pure (.counters c.expanded c.yielded c.created c.peak, s)
  | .dimension => pure (.dimension s.tree.dimension, s)

/-- The answers to calls that are made in turn. -/
def answers : List Call → NeighborSearch β F → Checked (List (Answer F))
  | [], _ => pure []
  | call :: calls, s => do
      let (answer, s) ← s.answer call
      pure (answer :: (← answers calls s))

/-- The outcome of starting a search for `query`, and the answers to calls that
are made after it. -/
def replay {P : Type} [HasCoordinates P F] (s : NeighborSearch β F) (query : P)
    (calls : List Call) : Checked (Except TreeError Unit × List (Answer F)) := do
  let (outcome, s) ← s.search query
  pure (outcome, ← answers calls s)

/-- **Twins answer a call alike** and stay twins. -/
theorem Resting.answer (h : Resting t s s') (call : Call) :
    Alike (Yielding t) (s.answer call) (s'.answer call) := by
  have hstay := h
  obtain ⟨m, slots, htwins⟩ := h
  cases call with
  | next => exact hstay.next.bind fun x x' hx => alike_pure ⟨congrArg Answer.neighbor hx.1, hx.2⟩
  | hasNext => exact alike_pure ⟨congrArg Answer.flag hstay.hasNext_eq, hstay⟩
  | current => exact alike_pure ⟨congrArg Answer.neighbor htwins.neighbor, hstay⟩
  | position d =>
      rw [NeighborSearch.answer, NeighborSearch.answer, hstay.position_eq d]
      exact alike_bind _ fun coordinate _ => alike_pure ⟨rfl, hstay⟩
  | counters =>
      refine alike_pure ⟨?_, hstay⟩
      dsimp only
      rw [htwins.counters.expanded, htwins.counters.yielded, htwins.counters.created,
        htwins.counters.peak]
  | dimension =>
      exact alike_pure ⟨congrArg (fun tree => Answer.dimension tree.dimension) hstay.tree_eq, hstay⟩

/-- **Twins give the same answers** to any calls. -/
theorem Resting.answers (h : Resting t s s') (calls : List Call) :
    Alike Eq (answers calls s) (answers calls s') := by
  -- over all pairs of twins, since each call leaves other ones
  induction calls generalizing s s' with
  | nil => exact alike_pure rfl
  | cons call calls ih =>
      rw [NeighborSearch.answers, NeighborSearch.answers]
      refine (h.answer call).bind fun x x' hx => ?_
      obtain ⟨answer, u⟩ := x
      obtain ⟨answer', u'⟩ := x'
      obtain ⟨rfl, hu⟩ := hx
      exact (ih hu).bind fun y y' hy => alike_pure (congrArg (answer' :: ·) hy)

/-- **What a search was used for does not show.**  After it has begun to search
for a query, every call on it is answered as on a new search over the tree that
has begun with the same query.  A query of another dimension is refused, and
the search goes on where it was. -/
theorem used_search_answers_as_new (hs : Used t s) (id : PoolId) :
    ∃ fresh, make id t = pure fresh ∧
      (∀ {P : Type} [HasCoordinates P F] [LawfulCoordinates P F] (query : P) (calls : List Call),
        HasCoordinates.dimension query = t.dimension →
          s.replay query calls = fresh.replay query calls) ∧
      ∀ {P : Type} [HasCoordinates P F] (query : P), HasCoordinates.dimension query ≠ t.dimension →
        s.search query =
          .ok (.error (.dimensionMismatch t.dimension (HasCoordinates.dimension query)), s) := by
  obtain ⟨fresh, hmake⟩ := hs.exists_make id
  have htrails := hs.trails_of_make hmake
  refine ⟨fresh, hmake, fun query calls hquery => ?_, fun query hquery =>
    search_of_ne htrails.tree' hquery⟩
  have hreplay : Alike Eq (fresh.replay query calls) (s.replay query calls) := by
    rw [replay, replay]
    refine (htrails.search hquery).bind fun x x' hx => ?_
    obtain ⟨outcome, u⟩ := x
    obtain ⟨outcome', u'⟩ := x'
    obtain ⟨rfl, hu⟩ := hx
    exact (hu.answers calls).bind fun y y' hy => alike_pure (congrArg (outcome', ·) hy)
  exact hreplay.eq.symm

/-- A search that was left after the first of two neighbors, and then refused a
query without coordinates, finds both neighbors of the next query like a new
one. -/
theorem left_search_answers_as_new :
    ∃ (t : KdTree UInt8 Double) (s₀ s₁ s₂ fresh : NeighborSearch UInt8 Double)
      (first a b : Neighbor Double),
      KdTree.build .bySorting 0 1 [(0, [Double.zero]), (7, [Double.infinity])] = pure t ∧
      make 1 t = pure s₀ ∧ s₀.search [Double.infinity] = .ok (.ok (), s₁) ∧
      s₁.next = .ok (some first, s₂) ∧
      s₂.search ([] : List Double) = .ok (.error (.dimensionMismatch 1 0), s₂) ∧
      make 2 t = pure fresh ∧
      fresh.replay [Double.zero] [.next, .hasNext, .next, .next, .hasNext] = .ok (.ok (),
        [.neighbor (some a), .flag true, .neighbor (some b), .neighbor none, .flag false]) := by
  obtain ⟨t, hbuild, hdimension, hallocated, ht, hleast, hgreatest⟩ :=
    KdTree.build_eq (β := UInt8) .bySorting 0 (by decide : 0 < 1) (by decide)
      (by decide : [(0, [Double.zero]), (7, [Double.infinity])].length ≤ indexLimit) (by decide)
  have hleast' : t.least.length = t.dimension := by
    rw [hleast, KdTree.length_extremes, hdimension]
  have hgreatest' : t.greatest.length = t.dimension := by
    rw [hgreatest, KdTree.length_extremes, hdimension]
  have hlength : ∀ x : Double, [x].length = t.dimension := fun x => hdimension.symm
  -- any search over the tree finds two nodes
  have hfinds : ∀ (s : NeighborSearch UInt8 Double) (x : Double), Moment t .resting s →
      ∃ (a b : Neighbor Double) (states : Nat → NeighborSearch UInt8 Double),
        s.search [x] = .ok (.ok (), states 0) ∧
        ∀ k, (states k).next = .ok ([a, b][k]?, states (k + 1)) ∧
          (states k).hasNext = [a, b][k]?.isSome := by
    intro s x hs
    obtain ⟨found, states, hsearch, hcount, hstates⟩ :=
      exists_neighbors ht hleast' hgreatest' hs (hlength x)
    obtain ⟨a, b, rfl⟩ := List.length_eq_two.mp (hcount.trans hallocated)
    exact ⟨a, b, states, hsearch, hstates⟩
  obtain ⟨s₀, hmake, -, -⟩ := make_eq ht hleast' hgreatest' 1
  obtain ⟨first, _, before, hsearch, hbefore⟩ := hfinds s₀ Double.infinity (.made hmake)
  have hfirst : (before 0).next = .ok (some first, before 1) := (hbefore 0).1
  have hleft : Used t (before 1) := ((Used.made hmake).searched hsearch).advanced hfirst
  have hrefused : (before 1).search ([] : List Double) =
      .ok (.error (.dimensionMismatch t.dimension 0), before 1) :=
    search_of_ne hleft.resting.trails.tree (by rw [hdimension]; decide)
  obtain ⟨fresh, hfresh, hanswers, -⟩ := used_search_answers_as_new (hleft.searched hrefused) 2
  obtain ⟨a, b, after, hsearch', hafter⟩ :=
    hfinds (before 1) Double.zero ((Moment.begun (.made hmake) hsearch).next hfirst)
  refine ⟨t, s₀, before 0, before 1, fresh, first, a, b, hbuild, hmake, hsearch, hfirst,
    hdimension ▸ hrefused, hfresh, ?_⟩
  rw [← hanswers [Double.zero] _ (hlength Double.zero), replay, hsearch', ok_bind]
  simp only [answers, answer, (hafter _).1, (hafter _).2, ok_bind, pure_bind]
  rfl

end NeighborSearch

end RecordPool
