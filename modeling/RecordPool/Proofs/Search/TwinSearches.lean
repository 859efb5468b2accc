/-
# Twin searches

Two searches over one tree are twins if they are at the same point of one
query, whatever they were used for before: their frontiers are twins and their
queues hold the same entries, place by place.  Each operation of twins yields
the same and leaves twins, and beginning a search makes twins out of any two
searches that are in step.
-/
import RecordPool.Proofs.Coordinates
import RecordPool.Proofs.Search.TwinFrontiers
import RecordPool.Search.Incremental

namespace RecordPool

/-- The counters agree, but for the room of the frontier. -/
structure Counters.Agree (c c' : Counters) : Prop where
  expanded : c'.expanded = c.expanded
  yielded : c'.yielded = c.yielded
  created : c'.created = c.created
  peak : c'.peak = c.peak

namespace NeighborSearch

variable {β F : Type} [Memory β F] [Arithmetic F]

/-! ## Searches at the same point -/

/-- The searches over the tree `t` are at the same point of one query, with the
entries `slots` queued. -/
structure Twins (t : KdTree β F) (m : Pairing) (slots : Array Nat) (s s' : NeighborSearch β F) :
    Prop where
  plan : m.plan = .single Frontier.defaultCapacity
  tree : s.tree = t
  tree' : s'.tree = t
  query : s'.query = s.query
  length : s.query.length = t.dimension
  neighbor : s'.neighbor = s.neighbor
  counters : s.counters.Agree s'.counters
  frontier : s.frontier.Twins t.dimension m ∅ s'.frontier
  queue : s.queue.Twins m slots s'.queue

/-- The searches are twins between two calls. -/
def Resting (t : KdTree β F) (s s' : NeighborSearch β F) : Prop :=
  ∃ m slots, Twins t m slots s s'

/-- The searches are twins that hold an entry which is not queued. -/
inductive Holding (t : KdTree β F) :
    Reference → Reference → NeighborSearch β F → NeighborSearch β F → Prop where
  | intro {m : Pairing} {slots : Array Nat} {i : Nat} {s s' : NeighborSearch β F}
      (used : i ∈ m.used) (apart : i ∉ slots.toList) (twins : Twins t m slots s s') :
      Holding t (m.first i) (m.second i) s s'

variable {t : KdTree β F} {m : Pairing} {slots : Array Nat} {s s' : NeighborSearch β F}
  {r r' : Reference} {i : Nat}

omit [Memory β F] [Arithmetic F] in
/-- Twins differ in their frontiers, their queues and their counters only. -/
theorem Twins.exists_eq (h : Twins t m slots s s') :
    ∃ frontier queue counters, s' = { s with frontier, queue, counters } := by
  refine ⟨s'.frontier, s'.queue, s'.counters, ?_⟩
  rw [← h.tree'.trans h.tree.symm, ← h.query, ← h.neighbor]

/-! ## Entries -/

/-- Offering an entry queues it in both. -/
theorem Twins.offer (h : Twins t m slots s s') (hi : i ∈ m.used) (hnew : i ∉ slots.toList) :
    Alike (fun u u' => ∃ slots' : Array Nat,
        slots'.toList.Perm (i :: slots.toList) ∧ Twins t m slots' u u')
      (s.offer (m.first i)) (s'.offer (m.second i)) := by
  rw [NeighborSearch.offer, NeighborSearch.offer]
  refine (h.queue.offer h.frontier.order_agree hi hnew).bind fun q q' hq => ?_
  obtain ⟨slots', hperm, htwins⟩ := hq
  refine alike_pure ⟨slots', hperm, { h with queue := htwins, counters := ?_ }⟩
  refine { h.counters with peak := ?_ }
  show max s'.counters.peak q'.size = max s.counters.peak q.size
  rw [h.counters.peak, htwins.size_eq.1, htwins.size_eq.2]

omit [Memory β F] [Arithmetic F] in
/-- Twins with other counters that agree. -/
theorem Twins.withCounters (h : Twins t m slots s s') {c c' : Counters} (hc : c.Agree c') :
    Twins t m slots { s with counters := c } { s' with counters := c' } :=
  { h with counters := hc }

omit [Memory β F] [Arithmetic F] in
/-- Counting an entry keeps twins. -/
theorem Twins.countCreated (h : Twins t m slots s s') :
    Twins t m slots s.countCreated s'.countCreated :=
  h.withCounters { h.counters with created := congrArg (· + 1) h.counters.created }

omit [Memory β F] [Arithmetic F] in
/-- The room that is noted does not matter. -/
theorem Twins.noteCapacity (h : Twins t m slots s s') :
    Twins t m slots s.noteCapacity s'.noteCapacity :=
  h.withCounters ⟨h.counters.expanded, h.counters.yielded, h.counters.created, h.counters.peak⟩

omit [Memory β F] [Arithmetic F] in
/-- Twins with other twin frontiers. -/
theorem Twins.withFrontier (h : Twins t m slots s s') {g g' : Frontier β}
    (hg : g.Twins t.dimension m ∅ g') :
    Twins t m slots { s with frontier := g } { s' with frontier := g' } :=
  { h with frontier := hg }

/-! ## Opening boxes -/

/-- Tightening the box of a child gives both the same sides and gaps. -/
theorem tighten_twins {dimension j : Nat} {f f' : Frontier β} (h : f.Twins dimension m ∅ f')
    (hi : i ∈ m.used) (hj : j ∈ m.used) (d : Nat) (inherited side : Int8) (difference : F) :
    Alike (Frontier.Twins dimension m ∅)
      (tighten f (m.first i) (m.first j) d inherited side difference)
      (tighten f' (m.second i) (m.second j) d inherited side difference) := by
  have hside : Alike (Frontier.Twins dimension m ∅)
      (if inherited = 0 then f.setSide (m.first j) d side else pure f)
      (if inherited = 0 then f'.setSide (m.second j) d side else pure f') := by
    split
    · exact Frontier.Twins.alike_written (h.setSide hj d side)
    · exact alike_pure h
  rw [tighten, tighten, ite_bind, ite_bind]
  refine hside.bind fun g g' hg => ?_
  dsimp only
  rw [hg.gapOf_eq hi, hg.distanceOf_eq hj]
  refine alike_bind _ fun previous _ => ?_
  refine alike_bind _ fun total _ => ?_
  refine (Frontier.Twins.alike_written (hg.setGap hj d _)).bind fun k k' hk => ?_
  exact Frontier.Twins.alike_written (hk.setDistance hj _)

/-- Opening a child of a held box queues the same box in both. -/
theorem Holding.openChild (h : Holding t r r' s s') (node : RecordIndex) (d : Nat) (side : Int8)
    (crosses : Bool) (difference : F) :
    Alike (Holding t r r') (s.openChild r node d side crosses difference)
      (s'.openChild r' node d side crosses difference) := by
  obtain @⟨m, slots, i, _, _, hi, hapart, htwins⟩ := h
  rw [NeighborSearch.openChild, NeighborSearch.openChild]
  refine htwins.frontier.create.bind fun x x' hcreated => ?_
  obtain @⟨j, g, g', hfresh, hcreated⟩ := hcreated
  -- the child takes a slot of its own, so that the box stays readable
  have hi' : i ∈ (m.insert j).used := Or.inr hi
  have hj : j ∈ (m.insert j).used := Or.inl rfl
  have hne : j ≠ i := fun heq => hfresh (heq ▸ hi)
  have hqueue := htwins.queue.congr (n := m.insert j)
    (fun k hk => Or.inr (htwins.queue.used k hk)) (fun _ _ => rfl) (fun _ _ => rfl)
  have hnew : j ∉ slots.toList := fun hmem => hfresh (htwins.queue.used j hmem)
  obtain ⟨f, q, c, rfl⟩ := htwins.exists_eq
  dsimp only
  refine (hcreated.inherit hi' hj hne node _).bind fun g g' hg => ?_
  rw [show (m.second j) = (m.insert j).second j from rfl,
    show (m.first j) = (m.insert j).first j from rfl, hg.sideOf_eq hj]
  refine alike_bind _ fun inherited _ => ?_
  have htightened : Alike (Frontier.Twins t.dimension (m.insert j) ∅)
      (if inherited = side ∨ crosses then
        tighten g (m.first i) (m.first j) d inherited side difference else pure g)
      (if inherited = side ∨ crosses then
        tighten g' (m.second i) (m.second j) d inherited side difference else pure g') := by
    split
    · exact tighten_twins hg hi' hj d inherited side difference
    · exact alike_pure hg
  rw [ite_bind, ite_bind]
  refine htightened.bind fun k k' hk => ?_
  have hopened : Twins t (m.insert j) slots { s with frontier := k }
      { s with frontier := k', queue := q, counters := c } :=
    { htwins with frontier := hk, queue := hqueue }
  refine (hopened.offer hj hnew).bind fun u u' hu => ?_
  obtain ⟨slots', hperm, hu⟩ := hu
  refine alike_pure (Holding.intro (m := m.insert j) hi' (fun hmem => ?_) hu.countCreated)
  rcases List.mem_cons.mp (hperm.mem_iff.mp hmem) with heq | hmem
  · exact hne heq.symm
  · exact hapart hmem

/-- A child that is not there is not opened in either. -/
theorem Holding.openChild? (h : Holding t r r' s s') (node : Option RecordIndex) (d : Nat)
    (side : Int8) (crosses : Bool) (difference : F) :
    Alike (Holding t r r') (s.openChild? r node d side crosses difference)
      (s'.openChild? r' node d side crosses difference) := by
  cases node with
  | none => exact alike_pure h
  | some node => exact h.openChild node d side crosses difference

/-- A held box is queued again as a point. -/
theorem Holding.requeue (h : Holding t r r' s s') (node : Reference) :
    Alike (Resting t)
      (do
        let exact ← s.tree.squaredDistanceTo node s.query
        let frontier ← s.frontier.setPoint r true
        let frontier ← frontier.setDistance r exact
        { s with frontier }.offer r)
      (do
        let exact ← s'.tree.squaredDistanceTo node s'.query
        let frontier ← s'.frontier.setPoint r' true
        let frontier ← frontier.setDistance r' exact
        { s' with frontier }.offer r') := by
  obtain @⟨m, slots, i, _, _, hi, hapart, htwins⟩ := h
  obtain ⟨f, q, c, rfl⟩ := htwins.exists_eq
  refine alike_bind _ fun exact _ => ?_
  refine (Frontier.Twins.alike_written (htwins.frontier.setPoint hi true)).bind fun g g' hg => ?_
  refine (Frontier.Twins.alike_written (hg.setDistance hi exact)).bind fun k k' hk => ?_
  refine ((htwins.withFrontier hk).offer hi hapart).mono fun u u' hu => ?_
  obtain ⟨slots', -, hu⟩ := hu
  exact ⟨m, slots', hu⟩

omit [Memory β F] [Arithmetic F] in
/-- Twins that hold an entry search one tree. -/
theorem Holding.tree_eq (h : Holding t r r' s s') : s'.tree = s.tree := by
  obtain ⟨-, -, htwins⟩ := h
  exact htwins.tree'.trans htwins.tree.symm

/-- **Opening a box** queues the same entries in both. -/
theorem Holding.expand (h : Holding t r r' s s') (index : RecordIndex) :
    Alike (Resting t) (s.expand r index) (s'.expand r' index) := by
  obtain @⟨m, slots, i, _, _, hi, hapart, htwins⟩ := h
  obtain ⟨f, q, c, rfl⟩ := htwins.exists_eq
  have hcounted : Holding t (m.first i) (m.second i)
      { s with counters := { s.counters with expanded := s.counters.expanded + 1 } }
      { s with frontier := f, queue := q, counters := { c with expanded := c.expanded + 1 } } :=
    .intro hi hapart (htwins.withCounters
      { htwins.counters with expanded := congrArg (· + 1) htwins.counters.expanded })
  rw [NeighborSearch.expand, NeighborSearch.expand]
  dsimp only
  refine alike_bind _ fun node _ => ?_
  rw [htwins.frontier.axisOf_eq hi]
  refine alike_bind _ fun d _ => ?_
  refine alike_bind _ fun x _ => ?_
  refine alike_bind _ fun y _ => ?_
  refine alike_bind _ fun left _ => ?_
  refine (hcounted.openChild? left d 1 _ _).bind fun u u' hu => ?_
  rw [hu.tree_eq]
  refine alike_bind _ fun right _ => ?_
  refine (hu.openChild? right d (-1) _ _).bind fun v v' hv => ?_
  exact hv.requeue node

/-! ## Yielding points -/

/-- The outcomes yield the same and leave twins. -/
def Yielding (t : KdTree β F) {γ : Type} (x x' : γ × NeighborSearch β F) : Prop :=
  x'.1 = x.1 ∧ Resting t x.2 x'.2

omit [Arithmetic F] in
/-- **Yielding** the point of a held entry yields the same and drops the entry. -/
theorem Holding.yieldPoint (h : Holding t r r' s s') (index : RecordIndex) :
    Alike (Yielding t) (s.yieldPoint r index) (s'.yieldPoint r' index) := by
  obtain @⟨m, slots, i, _, _, hi, hapart, htwins⟩ := h
  obtain ⟨f, q, c, rfl⟩ := htwins.exists_eq
  rw [NeighborSearch.yieldPoint, NeighborSearch.yieldPoint]
  dsimp only
  refine alike_bind _ fun node _ => ?_
  refine alike_bind _ fun data _ => ?_
  rw [htwins.frontier.distanceOf_eq hi]
  refine alike_bind _ fun distance _ => ?_
  refine (htwins.frontier.delete hi).bind fun g g' hg => ?_
  obtain ⟨n, hdrops, hg⟩ := hg
  -- the queued slots outlive the one that is taken back
  have hne : ∀ j ∈ slots.toList, j ≠ i := by
    rintro j hj rfl
    exact hapart hj
  have hqueue := htwins.queue.congr (n := n)
    (fun j hj => by
      rw [hdrops.used]
      exact ⟨htwins.queue.used j hj, hne j hj⟩)
    (fun j hj => hdrops.first j (hne j hj)) (fun j hj => hdrops.second j (hne j hj))
  have hdropped : Twins t n slots
      { s with
        frontier := g, neighbor := some ⟨index, data, distance⟩
        counters := { s.counters with yielded := s.counters.yielded + 1 } }
      { s with
        frontier := g', neighbor := some ⟨index, data, distance⟩, queue := q
        counters := { c with yielded := c.yielded + 1 } } :=
    { htwins with
      plan := hdrops.plan.trans htwins.plan
      frontier := hg
      queue := hqueue
      neighbor := rfl
      counters := ⟨htwins.counters.expanded, congrArg (· + 1) htwins.counters.yielded,
        htwins.counters.created, htwins.counters.peak⟩ }
  exact alike_pure ⟨rfl, n, slots, hdropped.noteCapacity⟩

/-- **Taking entries** until a point comes takes the same ones from both. -/
theorem Resting.takeUntilPoint (h : Resting t s s') (fuel : Nat) :
    Alike (Yielding t) (s.takeUntilPoint fuel)
      (s'.takeUntilPoint fuel) := by
  induction fuel generalizing s s' with
  | zero => exact alike_error _
  | succ fuel ih =>
      obtain ⟨m, slots, htwins⟩ := h
      rw [NeighborSearch.takeUntilPoint, NeighborSearch.takeUntilPoint]
      refine (htwins.queue.poll htwins.frontier.order_agree
        (fun i => (htwins.frontier.pool_newReference i).1)
        (fun i => (htwins.frontier.pool_newReference i).2)).bind fun x x' hpolled => ?_
      cases hpolled with
      | none hempty =>
          exact alike_pure ⟨rfl, m, slots, { htwins with neighbor := rfl }⟩
      | @some q q' i rest hperm hqueue =>
          -- no slot is queued twice, so that the polled one is apart from the rest
          have hused : ∀ j ∈ i :: rest.toList, j ∈ m.used := fun j hj =>
            htwins.queue.used j (hperm.mem_iff.mpr hj)
          have hi : i ∈ m.used := hused i List.mem_cons_self
          have hapart : i ∉ rest.toList :=
            (List.nodup_cons.mp (hperm.nodup_iff.mp htwins.queue.nodup)).1
          have hpolled : Holding t (m.first i) (m.second i) { s with queue := q }
              { s' with queue := q' } := .intro hi hapart { htwins with queue := hqueue }
          dsimp only
          rw [htwins.frontier.nodeOf_eq hi, htwins.frontier.entryIsPoint_eq hi]
          refine alike_bind _ fun index _ => ?_
          refine alike_bind _ fun isPoint _ => ?_
          cases isPoint with
          | true =>
              refine (hpolled.yieldPoint index).bind fun y y' hy => ?_
              exact alike_pure ⟨congrArg some hy.1, hy.2⟩
          | false => exact (hpolled.expand index).bind fun u u' hu => ih hu

omit [Memory β F] [Arithmetic F] in
/-- Twins search one tree. -/
theorem Resting.tree_eq (h : Resting t s s') : s'.tree = s.tree := by
  obtain ⟨m, slots, htwins⟩ := h
  exact htwins.tree'.trans htwins.tree.symm

/-- **The next neighbor** is the same. -/
theorem Resting.next (h : Resting t s s') :
    Alike (Yielding t) s.next s'.next := by
  rw [NeighborSearch.next, NeighborSearch.next, h.tree_eq]
  exact h.takeUntilPoint _

/-- The next neighbors are the same. -/
theorem Resting.take (h : Resting t s s') (count : Nat) :
    Alike (Yielding t) (s.take count) (s'.take count) := by
  induction count generalizing s s' with
  | zero => exact alike_pure ⟨rfl, h⟩
  | succ count ih =>
      rw [NeighborSearch.take, NeighborSearch.take]
      refine h.next.bind fun x x' hx => ?_
      obtain ⟨neighbor, u⟩ := x
      obtain ⟨neighbor', u'⟩ := x'
      obtain ⟨rfl, hu⟩ := hx
      cases neighbor' with
      | none => exact alike_pure ⟨rfl, hu⟩
      | some neighbor =>
          refine (ih hu).bind fun y y' hy => ?_
          exact alike_pure ⟨congrArg (neighbor :: ·) hy.1, hy.2⟩

omit [Memory β F] [Arithmetic F] in
/-- Another neighbor is to come from both or from neither. -/
theorem Resting.hasNext_eq (h : Resting t s s') : s'.hasNext = s.hasNext := by
  obtain ⟨m, slots, htwins⟩ := h
  rw [hasNext, hasNext, htwins.queue.isEmpty_eq]

omit [Arithmetic F] in
/-- The neighbor yielded last has the same coordinates. -/
theorem Resting.position_eq (h : Resting t s s') (d : Nat) : s'.position d = s.position d := by
  obtain ⟨m, slots, htwins⟩ := h
  rw [position, position, htwins.neighbor, htwins.tree, htwins.tree']

/-! ## Beginning a search -/

/-- The searches are over the tree `t`, and their frontiers are in step. -/
structure Trails (t : KdTree β F) (s s' : NeighborSearch β F) : Prop where
  tree : s.tree = t
  tree' : s'.tree = t
  length : s.query.length = t.dimension
  length' : s'.query.length = t.dimension
  frontier : s.frontier.Trails t.dimension (.single Frontier.defaultCapacity) s'.frontier

omit [Memory β F] [Arithmetic F] in
/-- Twins are in step. -/
theorem Resting.trails (h : Resting t s s') : Trails t s s' := by
  obtain ⟨m, slots, htwins⟩ := h
  exact ⟨htwins.tree, htwins.tree', htwins.length, htwins.query ▸ htwins.length,
    htwins.plan ▸ htwins.frontier.trails⟩

/-- The states of bounding the root's box are twins, with the same sum. -/
def Bounding (dimension : Nat) (m : Pairing) (x x' : Frontier β × F) : Prop :=
  Frontier.Twins dimension m ∅ x.1 x'.1 ∧ x'.2 = x.2

/-- Bounding the root's box on one axis gives both the same side and gap. -/
theorem boundAxis_twins {dimension : Nat} (tree : KdTree β F) (query : List F)
    {x x' : Frontier β × F} (h : Bounding dimension m x x') (hi : i ∈ m.used) (d : Nat) :
    Alike (Bounding dimension m) (boundAxis tree query (m.first i) x d)
      (boundAxis tree query (m.second i) x' d) := by
  obtain ⟨f, total⟩ := x
  obtain ⟨f', total'⟩ := x'
  obtain ⟨htwins, rfl⟩ := h
  have hset : ∀ (side : Int8) (square next : F), Alike (Bounding dimension m)
      (do
        let f ← f.setSide (m.first i) d side
        pure (← f.setGap (m.first i) d square, next))
      (do
        let f' ← f'.setSide (m.second i) d side
        pure (← f'.setGap (m.second i) d square, next)) := by
    intro side square next
    refine (Frontier.Twins.alike_written (htwins.setSide hi d side)).bind fun g g' hg => ?_
    refine (Frontier.Twins.alike_written (hg.setGap hi d square)).bind fun k k' hk => ?_
    exact alike_pure ⟨hk, rfl⟩
  rw [boundAxis, boundAxis]
  dsimp only
  refine alike_bind _ fun q _ => ?_
  refine alike_bind _ fun low _ => ?_
  split
  · exact hset _ _ _
  · refine alike_bind _ fun high _ => ?_
    split
    · exact hset _ _ _
    · exact alike_pure ⟨htwins, rfl⟩

/-- Queueing the box of the whole tree queues the same in both. -/
theorem Twins.enqueueRoot (h : Twins t m slots s s') (root : RecordIndex) :
    Alike (Resting t) (s.enqueueRoot root) (s'.enqueueRoot root) := by
  obtain ⟨f, q, c, rfl⟩ := h.exists_eq
  rw [NeighborSearch.enqueueRoot, NeighborSearch.enqueueRoot]
  dsimp only
  refine h.frontier.create.bind fun x x' hcreated => ?_
  obtain @⟨i, f, f', hfresh, hcreated⟩ := hcreated
  have hi : i ∈ (m.insert i).used := Or.inl rfl
  have hqueue := h.queue.congr (n := m.insert i)
    (fun k hk => Or.inr (h.queue.used k hk)) (fun _ _ => rfl) (fun _ _ => rfl)
  have hnew : i ∉ slots.toList := fun hmem => hfresh (h.queue.used i hmem)
  refine (hcreated.fill hi root 0).bind fun g g' hg => ?_
  have hbounds : Alike (Bounding t.dimension (m.insert i))
      ((List.range s.tree.dimension).foldlM (boundAxis s.tree s.query (m.first i))
        (g, Arithmetic.zero))
      ((List.range s.tree.dimension).foldlM (boundAxis s.tree s.query (m.second i))
        (g', Arithmetic.zero)) :=
    alike_foldlM_range (fun _ => Bounding t.dimension (m.insert i)) ⟨hg, rfl⟩
      fun d _ x x' hx => boundAxis_twins s.tree s.query hx hi d
  refine hbounds.bind fun x x' hx => ?_
  obtain ⟨k, total⟩ := x
  obtain ⟨k', total'⟩ := x'
  obtain ⟨hk, rfl⟩ := hx
  refine (Frontier.Twins.alike_written (hk.setDistance hi total')).bind fun l l' hl => ?_
  have hfilled : Twins t (m.insert i) slots { s with frontier := l }
      { s with frontier := l', queue := q, counters := c } :=
    { h with frontier := hl, queue := hqueue }
  refine (hfilled.offer hi hnew).bind fun u u' hu => ?_
  obtain ⟨slots', -, hu⟩ := hu
  exact alike_pure ⟨_, slots', hu.countCreated.noteCapacity⟩

section Queries

variable {P : Type} [HasCoordinates P F]

/-- **A query of another dimension** is refused and changes nothing. -/
theorem search_of_ne {query : P} (htree : s.tree = t)
    (hquery : HasCoordinates.dimension query ≠ t.dimension) :
    s.search query =
      .ok (.error (.dimensionMismatch t.dimension (HasCoordinates.dimension query)), s) := by
  subst htree
  rw [search]
  dsimp only
  rw [if_pos hquery]
  rfl

/-- **Beginning a search** makes twins out of searches in step. -/
theorem Trails.search [LawfulCoordinates P F] (h : Trails t s s') {query : P}
    (hquery : HasCoordinates.dimension query = t.dimension) :
    Alike (Yielding t) (s.search query) (s'.search query) := by
  -- the old queries do not show in the new one, which overwrites all of them
  have hlength := h.length.trans hquery.symm
  have hcopy : HasCoordinates.copyInto query s'.query = HasCoordinates.copyInto query s.query :=
    LawfulCoordinates.copyInto_congr query (h.length'.trans hquery.symm) hlength
  obtain ⟨m, hplan, hfrontier⟩ := h.frontier.clear
  obtain ⟨tree, values, frontier, _, _, _⟩ := s
  obtain ⟨tree', values', frontier', _, _, _⟩ := s'
  obtain rfl : tree = t := h.tree
  obtain rfl : tree' = tree := h.tree'
  dsimp only at hcopy hlength hfrontier
  rw [NeighborSearch.search, NeighborSearch.search]
  dsimp only
  rw [if_neg (not_not_intro hquery), if_neg (not_not_intro hquery), hcopy]
  refine alike_bind _ fun copied hcopied => ?_
  have hcleared : Twins tree' m #[]
      (⟨tree', copied, frontier.clear, .empty, none, .zero⟩ : NeighborSearch β F)
      ⟨tree', copied, frontier'.clear, .empty, none, .zero⟩ :=
    { plan := hplan
      tree := rfl
      tree' := rfl
      query := rfl
      length := (LawfulCoordinates.length_of_copyInto query hlength hcopied).trans h.length
      neighbor := rfl
      counters := ⟨rfl, rfl, rfl, rfl⟩
      frontier := hfrontier
      queue := PriorityQueue.twins_empty m }
  cases tree'.root with
  | none => exact alike_pure ⟨rfl, m, #[], hcleared⟩
  | some root =>
      exact (hcleared.enqueueRoot root).bind fun u u' hu => alike_pure ⟨rfl, hu⟩

/-- Searching twins for any query leaves twins. -/
theorem Resting.search [LawfulCoordinates P F] (h : Resting t s s') (query : P) :
    Alike (Yielding t) (s.search query) (s'.search query) := by
  by_cases hquery : HasCoordinates.dimension query = t.dimension
  · exact h.trails.search hquery
  · rw [search_of_ne h.trails.tree hquery, search_of_ne h.trails.tree' hquery]
    exact alike_pure ⟨rfl, h⟩

/-- A whole search on twins yields the same and leaves twins. -/
theorem Resting.searchAll [LawfulCoordinates P F] (h : Resting t s s') (query : P) :
    Alike (Yielding t) (s.searchAll query) (s'.searchAll query) := by
  rw [NeighborSearch.searchAll, NeighborSearch.searchAll]
  refine (h.search query).bind fun x x' hx => ?_
  obtain ⟨outcome, u⟩ := x
  obtain ⟨outcome', u'⟩ := x'
  obtain ⟨rfl, hu⟩ := hx
  cases outcome' with
  | error refusal => exact alike_pure ⟨rfl, hu⟩
  | ok _ =>
      dsimp only
      rw [hu.tree_eq]
      refine (hu.take _).bind fun y y' hy => ?_
      exact alike_pure ⟨congrArg Except.ok hy.1, hy.2⟩

end Queries

end NeighborSearch

end RecordPool
