/-
# The room that a search reports

A search notes the capacity of its frontier when the first entry of a query is
queued and when a neighbor is yielded.  Opening boxes may let the frontier grow
in between, but a call that opens a box yields a point, and taking from an empty
queue leaves the frontier as it is.  What goes unnoted is the frontier of a
search without entries: the counters start from zero for each query, so that
nothing is reported over the empty tree, and nothing before the first query.
-/
import RecordPool.Proofs.Search.Accounts

namespace RecordPool

namespace NeighborSearch

variable {β F : Type} [Memory β F] [Arithmetic F]

/-- The capacity that was noted is the one that the frontier has. -/
def Current (s : NeighborSearch β F) : Prop :=
  s.counters.capacity = s.frontier.pool.store.capacity

/-- The searches over the tree `t` that were used in any way; `begun` tells
whether a query was accepted. -/
inductive Asked (t : KdTree β F) : (begun : Bool) → NeighborSearch β F → Prop where
  | made {id : PoolId} {s : NeighborSearch β F} (make : make id t = pure s) : Asked t false s
  | searched {P : Type} [HasCoordinates P F] [LawfulCoordinates P F] {query : P} {begun : Bool}
      {outcome : Except TreeError Unit} {s s' : NeighborSearch β F} (before : Asked t begun s)
      (search : s.search query = .ok (outcome, s')) : Asked t (begun || outcome.isOk) s'
  | advanced {neighbor : Option (Neighbor F)} {begun : Bool} {s s' : NeighborSearch β F}
      (before : Asked t begun s) (next : s.next = .ok (neighbor, s')) : Asked t begun s'
  | drained {P : Type} [HasCoordinates P F] [LawfulCoordinates P F] {query : P} {begun : Bool}
      {outcome : Except TreeError (List (Neighbor F))} {s s' : NeighborSearch β F}
      (before : Asked t begun s) (searchAll : s.searchAll query = .ok (outcome, s')) :
      Asked t (begun || outcome.isOk) s'

/-- What is noted of the frontier.  A search with entries, in a query or in one
before, has noted its capacity; one that never had an entry has noted nothing,
and its frontier is as it was made. -/
def Noted : (entered : Bool) → NeighborSearch β F → Prop
  | true, s => s.Current
  | false, s => s.counters.capacity = 0 ∧
      s.frontier.pool.store.capacity = Frontier.defaultCapacity ∧ s.queue.elements = []

variable {t : KdTree β F} {s s' : NeighborSearch β F} {o : Outline F} {begun entered : Bool}
  {outside : List (Subtree F)} {items : List (Nat × Subtree F)} {neighbor : Neighbor F}

/-! ## Calls that note the capacity -/

/-- Queueing the root notes the capacity. -/
theorem current_of_enqueueRoot {root : RecordIndex} (h : s.enqueueRoot root = .ok s') :
    s'.Current := by
  rw [enqueueRoot] at h
  obtain ⟨created, -, h⟩ := bind_eq_ok_iff.mp h
  obtain ⟨filled, -, h⟩ := bind_eq_ok_iff.mp h
  obtain ⟨bounded, -, h⟩ := bind_eq_ok_iff.mp h
  obtain ⟨measured, -, h⟩ := bind_eq_ok_iff.mp h
  obtain ⟨offered, -, h⟩ := bind_eq_ok_iff.mp h
  cases h
  rfl

omit [Arithmetic F] in
/-- Yielding a point notes the capacity. -/
theorem current_of_yieldPoint {entry : Reference} {index : RecordIndex}
    (h : s.yieldPoint entry index = .ok (neighbor, s')) : s'.Current := by
  rw [yieldPoint] at h
  obtain ⟨node, -, h⟩ := bind_eq_ok_iff.mp h
  obtain ⟨data, -, h⟩ := bind_eq_ok_iff.mp h
  obtain ⟨distance, -, h⟩ := bind_eq_ok_iff.mp h
  obtain ⟨deleted, -, h⟩ := bind_eq_ok_iff.mp h
  cases h
  rfl

/-- Taking entries until one is a point notes the capacity, however much the
frontier grew meanwhile. -/
theorem current_of_takeUntilPoint {fuel : Nat}
    (h : s.takeUntilPoint fuel = .ok (some neighbor, s')) : s'.Current := by
  induction fuel generalizing s with
  | zero => cases h
  | succ fuel ih =>
      rw [takeUntilPoint] at h
      obtain ⟨⟨found, queue, entry⟩, -, h⟩ := bind_eq_ok_iff.mp h
      cases found with
      | false => cases h
      | true =>
          obtain ⟨index, -, h⟩ := bind_eq_ok_iff.mp h
          obtain ⟨isPoint, -, h⟩ := bind_eq_ok_iff.mp h
          cases isPoint with
          | true =>
              obtain ⟨⟨yielded, s₁⟩, hyield, hput⟩ := bind_eq_ok_iff.mp h
              cases hput
              exact current_of_yieldPoint hyield
          | false =>
              obtain ⟨s₁, -, h⟩ := bind_eq_ok_iff.mp h
              exact ih h

/-- A search that was asked was used. -/
theorem Asked.used (h : Asked t begun s) : Used t s := by
  induction h with
  | made hmake => exact .made hmake
  | searched _ hsearch ih => exact ih.searched hsearch
  | advanced _ hnext ih => exact ih.advanced hnext
  | drained _ hall ih => exact ih.drained hall

/-! ## Steps of a used search -/

namespace Noted

/-- **A call of `next`** leaves noted what was noted: it either yields a point or
takes nothing. -/
theorem next {neighbor : Option (Neighbor F)} (h : Noted entered s)
    (hs : s.Explores o [] outside items) (hnext : s.next = .ok (neighbor, s')) :
    Noted entered s' := by
  by_cases hne : items = []
  · subst hne
    rw [hs.next_of_nil] at hnext
    cases hnext
    cases entered <;> exact h
  · obtain ⟨x, s₁, items₁, hsome, -⟩ := hs.next_eq hne
    obtain ⟨rfl, rfl⟩ := Prod.mk.inj (Except.ok.inj (hsome.symm.trans hnext))
    cases entered with
    | true => exact current_of_takeUntilPoint hnext
    | false =>
        -- there would be nothing to take
        have hqueue := hs.queue
        rw [h.2.2] at hqueue
        exact absurd (List.map_eq_nil_iff.mp (List.nil_perm.mp hqueue)) hne

/-- **An accepted query** notes the capacity unless the tree is empty. -/
theorem search {query : List F} (h : Noted (begun && t.root.isSome) s)
    (hs : s.tree = t) (hlength : s.query.length = s.tree.dimension)
    (hsearch : s.search query = .ok (.ok (), s')) : Noted t.root.isSome s' := by
  rw [search_eq_enqueueTree_of_length hlength (length_of_search hsearch)] at hsearch
  obtain ⟨s₁, hbegin, hput⟩ := bind_eq_ok_iff.mp hsearch
  cases hput
  have htree : (s.clearedFor query).tree.root = t.root := congrArg KdTree.root hs
  rw [enqueueTree, htree] at hbegin
  cases hroot : t.root with
  | none =>
      rw [hroot] at hbegin h
      cases hbegin
      rw [Option.isSome_none, Bool.and_false] at h
      exact ⟨rfl, h.2.1, rfl⟩
  | some root =>
      rw [hroot] at hbegin
      exact current_of_enqueueRoot hbegin

end Noted

/-- A new search has noted nothing. -/
theorem noted_of_make {id : PoolId} (hmake : make id t = pure s) : Noted false s := by
  rw [make] at hmake
  obtain ⟨f, hfrontier, hput⟩ := bind_eq_pure_iff.mp hmake
  cases hput
  exact ⟨rfl, Frontier.capacity_of_make hfrontier, rfl⟩

/-- A query leaves noted what was noted if it is refused, and notes the capacity
if it is accepted and the tree has nodes. -/
theorem Noted.ask {P : Type} [HasCoordinates P F] [LawfulCoordinates P F] {query : P}
    {outcome : Except TreeError Unit} (h : Noted (begun && t.root.isSome) s) (hs : Used t s)
    (hsearch : s.search query = .ok (outcome, s')) :
    Noted ((begun || outcome.isOk) && t.root.isSome) s' := by
  obtain ⟨_, rfl, rfl⟩ | ⟨rfl, values, hbegun⟩ := search_cases hs.length_query hsearch
  · show Noted ((begun || false) && t.root.isSome) _
    rwa [Bool.or_false]
  · show Noted ((begun || true) && t.root.isSome) _
    rw [Bool.or_true, Bool.true_and]
    exact h.search hs.resting.trails.tree hs.length_query hbegun

section Stored

variable (ht : t.Represents o) (hleast : t.least.length = t.dimension)
  (hgreatest : t.greatest.length = t.dimension)
include ht hleast hgreatest

/-- Taking several neighbors leaves noted what was noted. -/
theorem Noted.take {count : Nat} {found : List (Neighbor F)} (h : Noted entered s)
    (hmoment : Moment t .resting s) (htake : s.take count = .ok (found, s')) :
    Noted entered s' := by
  induction count generalizing s found with
  | zero =>
      cases htake
      exact h
  | succ count ih =>
      rw [NeighborSearch.take] at htake
      obtain ⟨⟨neighbor, s₁⟩, hnext, htake⟩ := bind_eq_ok_iff.mp htake
      obtain ⟨-, outside, items, hs⟩ := hmoment.consistent ht hleast hgreatest
      have h₁ := h.next hs hnext
      cases neighbor with
      | none =>
          cases htake
          exact h₁
      | some neighbor =>
          obtain ⟨⟨rest, s₂⟩, htake, hput⟩ := bind_eq_ok_iff.mp htake
          cases hput
          exact ih h₁ (hmoment.next hnext) htake

/-- **In every run** the capacity is noted once a query was accepted over a tree
with nodes, and not before. -/
theorem Asked.noted (h : Asked t begun s) : Noted (begun && t.root.isSome) s := by
  induction h with
  | made hmake => exact noted_of_make hmake
  | searched hbefore hsearch ih => exact ih.ask hbefore.used hsearch
  | advanced hbefore hnext ih =>
      obtain ⟨-, outside, items, hs⟩ := hbefore.used.moment.consistent ht hleast hgreatest
      exact ih.next hs hnext
  | @drained _ _ _ query _ _ s _ hbefore hall ih =>
      rw [searchAll] at hall
      obtain ⟨⟨outcome, s₁⟩, hsearch, hall⟩ := bind_eq_ok_iff.mp hall
      have h₁ := ih.ask hbefore.used hsearch
      have hused := hbefore.used.searched hsearch
      cases outcome with
      | error refusal =>
          cases hall
          exact h₁
      | ok _ =>
          obtain ⟨⟨found, s₂⟩, htake, hput⟩ := bind_eq_ok_iff.mp hall
          cases hput
          exact h₁.take ht hleast hgreatest hused.moment htake

end Stored

/-! ## The capacity reported -/

/-- **The capacity is reported once a query was accepted over points.**  In every
run of queries, calls of `next` and whole searches over a tree of points, the
capacity in the counters is that of the frontier exactly if some query was
accepted and the tree is not empty.  Otherwise it is zero, while the frontier has
the room that it was made with.  Accepted queries and calls of `next` never
fail. -/
theorem capacity_current_iff (selection : Selection) (treeId searchId : PoolId) {dimension : Nat}
    (hpos : 0 < dimension) (hdim : dimension < 2 ^ 28) {points : List (RecordIndex × List F)}
    (hcount : points.length ≤ indexLimit)
    (hpoints : ∀ x ∈ points, x.2.length = dimension ∧ x.1 ≤ indexLimit) :
    ∃ t : KdTree β F, KdTree.build selection treeId dimension points = pure t ∧
      (∃ s, make searchId t = pure s) ∧
      ∀ begun s, Asked t begun s →
        (s.Current ↔ begun = true ∧ points ≠ []) ∧
        (¬ s.Current → s.counters.capacity = 0 ∧
          s.frontier.pool.store.capacity = Frontier.defaultCapacity) ∧
        (∀ query : List F, query.length = dimension → ∃ s', s.search query = .ok (.ok (), s')) ∧
        ∃ neighbor s', s.next = .ok (neighbor, s') := by
  obtain ⟨t, o, hbuild, rfl, hallocated, ht, hleast, hgreatest⟩ :=
    KdTree.build_represents (β := β) selection treeId hpos hdim hcount hpoints
  obtain ⟨s₀, hmake, -, -⟩ := make_eq ht hleast hgreatest searchId
  have hroot : t.root.isSome = true ↔ points ≠ [] := by
    rw [Option.isSome_iff_ne_none, ne_eq, ht.root_eq_none_iff, hallocated, List.length_eq_zero_iff]
  refine ⟨t, hbuild, ⟨s₀, hmake⟩, fun begun s hs => ?_⟩
  obtain ⟨rfl, outside, items, hexplores⟩ := hs.used.moment.consistent ht hleast hgreatest
  have hnoted := hs.noted ht hleast hgreatest
  have hcurrent : s.Current ↔ (begun && s.tree.root.isSome) = true := by
    cases hentered : begun && s.tree.root.isSome with
    | true =>
        rw [hentered] at hnoted
        exact iff_of_true hnoted rfl
    | false =>
        rw [hentered] at hnoted
        obtain ⟨hzero, hroom, -⟩ := hnoted
        refine iff_of_false ?_ Bool.false_ne_true
        rw [Current, hzero, hroom]
        decide
  refine ⟨by rw [hcurrent, Bool.and_eq_true, hroot], fun hne => ?_, fun query hquery => ?_, ?_⟩
  · rw [hcurrent, Bool.not_eq_true] at hne
    rw [hne] at hnoted
    exact ⟨hnoted.1, hnoted.2.1⟩
  · obtain ⟨s', -, hsearch, -⟩ := search_eq hexplores.toServes hquery
    exact ⟨s', hsearch⟩
  · by_cases hne : items = []
    · subst hne
      exact ⟨_, _, hexplores.next_of_nil⟩
    · obtain ⟨x, s', -, hnext, -⟩ := hexplores.next_eq hne
      exact ⟨_, _, hnext⟩

/-- Over two points the capacity is reported as soon as the search has begun, and
after the first neighbor. -/
theorem capacity_current_over_zero_and_infinity :
    ∃ (t : KdTree UInt8 Double) (s s₁ s₂ : NeighborSearch UInt8 Double)
      (neighbor : Option (Neighbor Double)),
      KdTree.build .bySorting 0 1 [(0, [Double.zero]), (7, [Double.infinity])] = pure t ∧
      make 1 t = pure s ∧ ¬ s.Current ∧ s.search [Double.infinity] = .ok (.ok (), s₁) ∧
      s₁.Current ∧ s₁.next = .ok (neighbor, s₂) ∧ s₂.Current := by
  obtain ⟨t, hbuild, ⟨s, hmake⟩, hruns⟩ :=
    capacity_current_iff (β := UInt8) .bySorting 0 1 (by decide : 0 < 1) (by decide)
      (by decide : [(0, [Double.zero]), (7, [Double.infinity])].length ≤ indexLimit) (by decide)
  have hmade : Asked t false s := .made hmake
  obtain ⟨hcurrent, -, hsearches, -⟩ := hruns _ _ hmade
  obtain ⟨s₁, hsearch⟩ := hsearches [Double.infinity] rfl
  have hbegun : Asked t true s₁ := hmade.searched hsearch
  obtain ⟨hcurrent₁, -, -, neighbor, s₂, hnext⟩ := hruns _ _ hbegun
  obtain ⟨hcurrent₂, -⟩ := hruns _ _ (hbegun.advanced hnext)
  exact ⟨t, s, s₁, s₂, neighbor, hbuild, hmake, fun h => Bool.false_ne_true (hcurrent.mp h).1,
    hsearch, hcurrent₁.mpr ⟨rfl, List.cons_ne_nil _ _⟩, hnext,
    hcurrent₂.mpr ⟨rfl, List.cons_ne_nil _ _⟩⟩

/-- **Over the empty tree no capacity is reported.**  A query is accepted, the
frontier has room for 50 entries, and the counters tell of none. -/
theorem capacity_unreported_over_empty_tree :
    ∃ (t : KdTree UInt8 Double) (s s' : NeighborSearch UInt8 Double),
      KdTree.build .bySorting 0 1 ([] : List (RecordIndex × List Double)) = pure t ∧
      make 1 t = pure s ∧ s.search [Double.zero] = .ok (.ok (), s') ∧
      s'.counters.capacity = 0 ∧ s'.frontier.pool.store.capacity = 50 := by
  obtain ⟨t, o, hbuild, hdimension, hallocated, ht, hleast, hgreatest⟩ :=
    KdTree.build_represents (β := UInt8) .bySorting 0 (by decide : 0 < 1) (by decide)
      (by decide : ([] : List (RecordIndex × List Double)).length ≤ indexLimit) (by decide)
  obtain ⟨s, hmake, rfl, hs⟩ := make_eq ht hleast hgreatest 1
  have hquery : [Double.zero].length = s.tree.dimension := hdimension.symm
  obtain ⟨s', -, hsearch, -⟩ := search_eq hs.toServes hquery
  have hasked : Asked s.tree true s' := (Asked.made hmake).searched hsearch
  have hnoted := hasked.noted ht hleast hgreatest
  rw [ht.root_eq_none_iff.mpr hallocated] at hnoted
  exact ⟨s.tree, s, s', hbuild, hmake, hsearch, hnoted.1, hnoted.2.1⟩

end NeighborSearch

end RecordPool
