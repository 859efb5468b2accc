/-
# The steps of a search

Taking an entry, opening a box into its children and its point, and yielding a
point: each step succeeds, and each keeps the nodes that the search has still
to visit together with those it has yielded.
-/
import RecordPool.Proofs.Search.Exploration

namespace RecordPool

namespace NeighborSearch

open Frontier

variable {β F : Type} [Memory β F] [Arithmetic F]

/-! ## The parts of opening a box -/

/-- What opening a box reads of its node. -/
structure Split (F : Type) where
  /-- The node. -/
  node : Reference
  /-- The axis that the node splits on. -/
  axis : Nat
  /-- From the query to the node along the axis. -/
  difference : F

/-- The split of the node that a box is about. -/
def splitOf (s : NeighborSearch β F) (box : Reference) (index : RecordIndex) :
    Checked (Split F) := do
  let node ← s.tree.node index
  let d ← s.frontier.axisOf box
  pure ⟨node, d, Arithmetic.sub (← s.tree.coordinate node d) (← fetchAt s.query d)⟩

/-- Counts one more box opened. -/
def countExpanded (s : NeighborSearch β F) : NeighborSearch β F :=
  { s with counters := { s.counters with expanded := s.counters.expanded + 1 } }

/-- Queues the box of the left child, if there is one. -/
def openLeft (s : NeighborSearch β F) (box : Reference) (split : Split F) :
    Checked (NeighborSearch β F) := do
  s.openChild? box (← s.tree.left split.node) split.axis 1
    (Arithmetic.le split.difference Arithmetic.zero) split.difference

/-- Queues the box of the right child, if there is one. -/
def openRight (s : NeighborSearch β F) (box : Reference) (split : Split F) :
    Checked (NeighborSearch β F) := do
  s.openChild? box (← s.tree.right split.node) split.axis (-1)
    (Arithmetic.lt Arithmetic.zero split.difference) split.difference

/-- Makes a box the point of its node. -/
def measure (s : NeighborSearch β F) (box : Reference) (split : Split F) :
    Checked (Frontier β) := do
  let exact ← s.tree.squaredDistanceTo split.node s.query
  let frontier ← s.frontier.setPoint box true
  frontier.setDistance box exact

/-- Queues the point of a box. -/
def requeue (s : NeighborSearch β F) (box : Reference) (split : Split F) :
    Checked (NeighborSearch β F) := do
  let frontier ← s.measure box split
  { s with frontier }.offer box

/-- Opening a box opens its children and queues its point. -/
theorem expand_eq_parts (s : NeighborSearch β F) (box : Reference) (index : RecordIndex) :
    s.expand box index = (do
      let split ← s.splitOf box index
      let s ← s.countExpanded.openLeft box split
      let s ← s.openRight box split
      s.requeue box split) := by
  simp only [expand, splitOf, openLeft, openRight, requeue, measure, bind_assoc, pure_bind]
  rfl

/-- The split of a subtree. -/
def splitAt (s : NeighborSearch β F) (x : Subtree F) : Split F :=
  ⟨s.tree.nodes.referenceTo x.index, x.depth % s.tree.dimension, offset s.tree s.query x⟩

/-- What an operation on other entries leaves alone: the tree, the query, and
the entry in the slot `i`. -/
structure Keeps (s : NeighborSearch β F) (i : Nat) (s' : NeighborSearch β F) : Prop where
  tree : s'.tree = s.tree
  query : s'.query = s.query
  entryAt : (s'.frontier.entryAt i : EntryRecord F) = s.frontier.entryAt i
  referenceTo : s'.frontier.pool.referenceTo i = s.frontier.pool.referenceTo i

/-- The neighbor at the topmost node of a subtree. -/
def neighborAt (t : KdTree β F) (query : List F) (x : Subtree F) : Neighbor F :=
  ⟨x.index, x.point.data, pointDistance t query x⟩

/-- The split of a subtree is one of its tree and the query. -/
theorem Keeps.splitAt {s s' : NeighborSearch β F} {i : Nat} (h : s.Keeps i s') (x : Subtree F) :
    s'.splitAt x = s.splitAt x := by
  rw [NeighborSearch.splitAt, h.tree, h.query]
  rfl

variable {s : NeighborSearch β F} {o : Outline F} {held : List Nat}
  {outside : List (Subtree F)} {items items' : List (Nat × Subtree F)} {i d : Nat}
  {x y : Subtree F} {e : EntryRecord F}

/-- The entries `items'` are the entries `items`, which are as they were, and
others for subtrees in `new`. -/
structure Queues (f f' : Frontier β) (items items' : List (Nat × Subtree F))
    (new : List (Subtree F)) : Prop where
  mem : ∀ item ∈ items', item.2 ∈ new ∨ item ∈ items
  kept : ∀ item ∈ items, item ∈ items' ∧
    (f'.entryAt item.1 : EntryRecord F) = f.entryAt item.1

/-- Among the entries `items` is the box of a subtree. -/
def Boxed (f : Frontier β) (items : List (Nat × Subtree F)) (x : Subtree F) : Prop :=
  ∃ i, (i, x) ∈ items ∧ (f.entryAt i : EntryRecord F).isPoint = false

section Queues

omit [Arithmetic F]

variable {f f' f'' : Frontier β} {items'' : List (Nat × Subtree F)} {new new' : List (Subtree F)}

/-- Nothing may change. -/
theorem Queues.refl (f : Frontier β) (items : List (Nat × Subtree F)) (new : List (Subtree F)) :
    Queues f f items items new where
  mem := fun _ hitem => Or.inr hitem
  kept := fun _ hitem => ⟨hitem, rfl⟩

/-- One more entry may be for a subtree in `new`. -/
theorem Queues.cons (hx : x ∈ new)
    (hkept : ∀ item ∈ items, (f'.entryAt item.1 : EntryRecord F) = f.entryAt item.1) :
    Queues f f' items ((i, x) :: items) new where
  mem := by
    intro item hitem
    rcases List.mem_cons.mp hitem with rfl | hitem
    · exact Or.inl hx
    · exact Or.inr hitem
  kept := fun item hitem => ⟨List.mem_cons_of_mem _ hitem, hkept item hitem⟩

/-- Changes of the queue follow each other. -/
theorem Queues.trans (h : Queues f f' items items' new) (h' : Queues f' f'' items' items'' new') :
    Queues f f'' items items'' (new ++ new') where
  mem := by
    intro item hitem
    rcases h'.mem item hitem with hnew | hitem
    · exact Or.inl (List.mem_append_right new hnew)
    · exact (h.mem item hitem).imp_left (List.mem_append_left new')
  kept := by
    intro item hitem
    obtain ⟨hitem', hkept⟩ := h.kept item hitem
    obtain ⟨hitem'', hkept'⟩ := h'.kept item hitem'
    exact ⟨hitem'', hkept'.trans hkept⟩

/-- The new entries may be for other subtrees as well. -/
theorem Queues.mono (h : Queues f f' items items' new) (hsub : new ⊆ new') :
    Queues f f' items items' new' where
  mem := fun item hitem => (h.mem item hitem).imp_left fun hnew => hsub hnew
  kept := h.kept

/-- A queued box stays queued. -/
theorem Boxed.queues (h : Boxed f items x) (hqueues : Queues f f' items items' new) :
    Boxed f' items' x := by
  obtain ⟨i, hitem, hpoint⟩ := h
  obtain ⟨hitem', hkept⟩ := hqueues.kept (i, x) hitem
  exact ⟨i, hitem', by rw [hkept, hpoint]⟩

end Queues

namespace Explores

/-! ## Opening the children -/

omit [Arithmetic F] in
/-- With a node below and one beside it there is more than one node outside. -/
theorem one_lt_length_append {below : List (Subtree F)} (hy : y ∈ below) (hout : outside ≠ []) :
    1 < (below ++ outside).length := by
  have hpos := List.length_pos_of_mem hy
  have hpos' := List.length_pos_iff.mpr hout
  rw [List.length_append]
  omega

/-- Boxing a child holds its box. -/
theorem boxChild (h : s.Explores o [i] outside items) (hlt : 1 < outside.length)
    (hd : d < s.tree.dimension) {node : RecordIndex} (hnode : node ≤ indexLimit) (side : Int8)
    (crosses : Bool) (difference : F) :
    ∃ j f', s.boxChild (s.frontier.pool.referenceTo i) node d side crosses difference =
        .ok (f', s.frontier.pool.referenceTo j) ∧
      s.frontier.Adds j (childBox (s.frontier.entryAt i) node ((d + 1) % s.tree.dimension) d side
        crosses difference) f' ∧
      ({ s with frontier := f' } : NeighborSearch β F).Explores o [j, i] outside items := by
  have hlive : s.frontier.pool.IsLive i := (h.live i).mpr List.mem_cons_self
  obtain ⟨j, f', hbox, hadds⟩ := boxChild_eq h.frontier (h.room hlt) hlive
    (h.dimension.symm ▸ hd) hnode side crosses difference
  exact ⟨j, f', hbox, hadds, h.adds hadds⟩

/-- Opening a child that is there queues the box of its subtree. -/
theorem openChild {side : Int8} {crosses : Bool}
    (h : s.Explores o [i] (y.below ++ outside) items) (hout : outside ≠ [])
    (hbox : BoxOf s.tree s.query o y
      (boxBeside s.tree s.query x (s.frontier.entryAt i) y.index side crosses)) :
    ∃ s' items', s.openChild (s.frontier.pool.referenceTo i) y.index
        (x.depth % s.tree.dimension) side crosses (offset s.tree s.query x) = .ok s' ∧
      s'.Explores o [i] outside items' ∧ s.Keeps i s' ∧
      unopened s'.frontier items' = unopened s.frontier items + y.below.length ∧
      Queues s.frontier s'.frontier items items' y.below ∧ Boxed s'.frontier items' y := by
  have hindex := h.tree.index_le hbox.spec.1
  have hlt := one_lt_length_append y.mem_below_self hout
  have hlive : s.frontier.pool.IsLive i := (h.live i).mpr List.mem_cons_self
  obtain ⟨j, f', heq, hadds, h'⟩ := h.boxChild hlt (Nat.mod_lt x.depth h.tree.dimension_pos)
    hindex side crosses (offset s.tree s.query x)
  have hself : (f'.entryAt j : EntryRecord F) =
      boxBeside s.tree s.query x (s.frontier.entryAt i) y.index side crosses :=
    hadds.entryAt_self
  have hpoint : (f'.entryAt j : EntryRecord F).isPoint = false := by
    rw [hself]
    exact hbox.spec.2.2.2
  have hentry : EntryOf s.tree s.query o y (f'.entryAt j) := by
    rw [hself]
    exact Or.inl hbox
  -- a box stands for all nodes below it
  have hvisits : y.below = y.visits (f'.entryAt j : EntryRecord F).isPoint := by
    rw [hpoint]
    rfl
  rw [hvisits] at h'
  obtain ⟨queue, counters, hoffer, h''⟩ := h'.offer hentry
  have hcounted := h''.notes { counters with created := counters.created + 1 } s.neighbor
  have hkept : ∀ item ∈ items, (f'.entryAt item.1 : EntryRecord F) = s.frontier.entryAt item.1 :=
    fun item hitem => hadds.kept item.1 (h.isLive hitem)
  refine ⟨_, (j, y) :: items, ?_, hcounted, ⟨rfl, rfl, hadds.kept i hlive, ?_⟩, ?_,
    Queues.cons y.mem_below_self hkept, j, List.mem_cons_self, hpoint⟩
  · dsimp only at hoffer
    rw [hadds.referenceTo] at hoffer
    rw [openChild_eq_boxChild, heq, ok_bind]
    dsimp only
    rw [hoffer]
    rfl
  · show f'.pool.referenceTo i = _
    rw [hadds.referenceTo]
  · show unopened f' ((j, y) :: items) = _
    rw [unopened_cons, hpoint, unopened_congr hkept, if_neg (by simp)]
    exact Nat.add_comm _ _

/-- **Opening a child**, if there is one, moves its nodes into the queue. -/
theorem openChild? {child : Outline F} {side : Int8} {crosses : Bool}
    (h : s.Explores o [i] (child.subtrees (x.depth + 1) ++ outside) items)
    (hout : outside ≠ [])
    (hchild : ∀ y : Subtree F, y.outline = child → y.depth = x.depth + 1 →
      BoxOf s.tree s.query o y
        (boxBeside s.tree s.query x (s.frontier.entryAt i) y.index side crosses)) :
    ∃ s' items', s.openChild? (s.frontier.pool.referenceTo i) child.root?
        (x.depth % s.tree.dimension) side crosses (offset s.tree s.query x) = .ok s' ∧
      s'.Explores o [i] outside items' ∧ s.Keeps i s' ∧
      unopened s'.frontier items' =
        unopened s.frontier items + (child.subtrees (x.depth + 1)).length ∧
      Queues s.frontier s'.frontier items items' (child.subtrees (x.depth + 1)) ∧
      ∀ y : Subtree F, y.outline = child → y.depth = x.depth + 1 →
        Boxed s'.frontier items' y := by
  cases child with
  | empty =>
      refine ⟨s, items, rfl, h, ⟨rfl, rfl, rfl, rfl⟩, rfl, Queues.refl _ _ _, ?_⟩
      rintro y ⟨⟩
  | node index point left right =>
      obtain ⟨s', items', hopen, h', keeps, count, queues, hboxed⟩ :=
        openChild (y := ⟨x.depth + 1, index, point, left, right⟩) h hout (hchild _ rfl rfl)
      refine ⟨s', items', hopen, h', keeps, count, queues, fun y houtline hdepth => ?_⟩
      obtain rfl : y = ⟨x.depth + 1, index, point, left, right⟩ :=
        Subtree.eq_of_outline houtline hdepth
      exact hboxed

/-- The split of a held box is that of its subtree. -/
theorem splitOf_eq (h : s.Explores o held outside items) (hi : i ∈ held)
    (hbox : BoxOf s.tree s.query o x (s.frontier.entryAt i)) :
    s.splitOf (s.frontier.pool.referenceTo i) x.index = .ok (s.splitAt x) := by
  have hstored := h.tree.storedIn hbox.spec.1
  have hlive : s.frontier.pool.IsLive i := (h.live i).mpr (List.mem_append_left _ hi)
  have hlt := Nat.mod_lt x.depth h.tree.dimension_pos
  have hdim := h.tree.dimension_lt
  have haxis := h.frontier.axisOf_eq hlive (by omega) hbox.spec.2.2.1
  have hquery : x.depth % s.tree.dimension < s.query.length := by
    rw [h.query]
    exact hlt
  rw [splitOf, h.tree.node_eq hstored, ok_bind, haxis, ok_bind, h.tree.coordinate_eq hstored hlt,
    ok_bind, fetchAt_eq_getD hquery]
  rfl

/-- **Opening the left child** of a held box moves its nodes into the queue. -/
theorem openLeft_eq
    (h : s.Explores o [i] (x.left.subtrees (x.depth + 1) ++ outside) items)
    (hbox : BoxOf s.tree s.query o x (s.frontier.entryAt i)) (hout : outside ≠ []) :
    ∃ s' items', s.openLeft (s.frontier.pool.referenceTo i) (s.splitAt x) = .ok s' ∧
      s'.Explores o [i] outside items' ∧ s.Keeps i s' ∧
      unopened s'.frontier items' =
        unopened s.frontier items + (x.left.subtrees (x.depth + 1)).length ∧
      Queues s.frontier s'.frontier items items' (x.left.subtrees (x.depth + 1)) ∧
      ∀ y : Subtree F, y.outline = x.left → y.depth = x.depth + 1 →
        Boxed s'.frontier items' y := by
  have hstored := h.tree.storedIn hbox.spec.1
  obtain ⟨s', items', hopen, h'⟩ := h.openChild? hout fun y houtline hdepth =>
    BoxOf.left hbox houtline hdepth
  refine ⟨s', items', ?_, h'⟩
  rw [openLeft, splitAt, h.tree.left_eq hstored, ok_bind, hopen]

/-- **Opening the right child** of a held box moves its nodes into the queue. -/
theorem openRight_eq
    (h : s.Explores o [i] (x.right.subtrees (x.depth + 1) ++ outside) items)
    (hbox : BoxOf s.tree s.query o x (s.frontier.entryAt i)) (hout : outside ≠ []) :
    ∃ s' items', s.openRight (s.frontier.pool.referenceTo i) (s.splitAt x) = .ok s' ∧
      s'.Explores o [i] outside items' ∧ s.Keeps i s' ∧
      unopened s'.frontier items' =
        unopened s.frontier items + (x.right.subtrees (x.depth + 1)).length ∧
      Queues s.frontier s'.frontier items items' (x.right.subtrees (x.depth + 1)) ∧
      ∀ y : Subtree F, y.outline = x.right → y.depth = x.depth + 1 →
        Boxed s'.frontier items' y := by
  have hstored := h.tree.storedIn hbox.spec.1
  obtain ⟨s', items', hopen, h'⟩ := h.openChild? hout fun y houtline hdepth =>
    BoxOf.right hbox houtline hdepth
  refine ⟨s', items', ?_, h'⟩
  rw [openRight, splitAt, h.tree.right_eq hstored, ok_bind, hopen]

/-! ## Queueing the point -/

/-- Measuring a held box makes it the point of its subtree. -/
theorem measure_eq (h : s.Explores o held outside items) (hi : i ∈ held)
    (hbox : BoxOf s.tree s.query o x (s.frontier.entryAt i)) :
    ∃ f', s.measure (s.frontier.pool.referenceTo i) (s.splitAt x) = .ok f' ∧
      s.frontier.Fills i (measured s.tree s.query x (s.frontier.entryAt i)) f' := by
  have hstored := h.tree.storedIn hbox.spec.1
  have hlive : s.frontier.pool.IsLive i := (h.live i).mpr (List.mem_append_left _ hi)
  obtain ⟨f₁, hpoint, h₁⟩ := h.frontier.setPoint_eq hlive true
  obtain ⟨f₂, hdistance, h₂⟩ := (h₁.sound h.frontier).setDistance_eq (h₁.isLive_iff.mpr hlive)
    (pointDistance s.tree s.query x)
  rw [h₁.referenceTo] at hdistance
  rw [h₁.entryAt_self] at h₂
  refine ⟨f₂, ?_, h₁.trans h₂⟩
  rw [measure, splitAt, h.tree.squaredDistanceTo_eq hstored h.query, ok_bind, hpoint, ok_bind]
  exact hdistance

/-- **Queueing the point** of a held box moves its node into the queue. -/
theorem requeue_eq (h : s.Explores o [i] (x :: outside) items)
    (hbox : BoxOf s.tree s.query o x (s.frontier.entryAt i)) :
    ∃ s', s.requeue (s.frontier.pool.referenceTo i) (s.splitAt x) = .ok s' ∧
      s'.Explores o [] outside ((i, x) :: items) ∧ s'.tree = s.tree ∧ s'.query = s.query ∧
      unopened s'.frontier ((i, x) :: items) = unopened s.frontier items ∧
      Queues s.frontier s'.frontier items ((i, x) :: items) [x] := by
  obtain ⟨f', hmeasure, hfills⟩ := h.measure_eq List.mem_cons_self hbox
  have h' := h.fills List.mem_cons_self hfills
  have hpoint : (f'.entryAt i : EntryRecord F).isPoint = true := by
    rw [hfills.entryAt_self]
    rfl
  have hentry : EntryOf s.tree s.query o x (f'.entryAt i) := by
    rw [hfills.entryAt_self]
    exact Or.inr ⟨_, hbox, rfl⟩
  have hvisits : x :: outside = x.visits (f'.entryAt i : EntryRecord F).isPoint ++ outside := by
    rw [hpoint]
    rfl
  rw [hvisits] at h'
  obtain ⟨queue, counters, hoffer, h''⟩ := h'.offer hentry
  have hkept : ∀ item ∈ items, (f'.entryAt item.1 : EntryRecord F) = s.frontier.entryAt item.1 :=
    fun item hitem => hfills.entryAt_of_ne (h.ne_of_held List.mem_cons_self hitem)
  refine ⟨_, ?_, h'', rfl, rfl, ?_, Queues.cons (List.mem_singleton_self x) hkept⟩
  · dsimp only at hoffer
    rw [hfills.referenceTo] at hoffer
    rw [requeue, hmeasure, ok_bind, hoffer]
  · show unopened f' ((i, x) :: items) = _
    rw [unopened_cons, hpoint, if_pos rfl, unopened_congr hkept, Nat.zero_add]

/-! ## Opening a box -/

/-- **Opening a box** opens its children and queues its point: one node fewer
is unopened, only nodes below the box come into the queue, and among them are
the boxes of its children. -/
theorem expand_eq (h : s.Explores o [i] (x.below ++ outside) items)
    (hbox : BoxOf s.tree s.query o x (s.frontier.entryAt i)) :
    ∃ s' items', s.expand (s.frontier.pool.referenceTo i) x.index = .ok s' ∧
      s'.Explores o [] outside items' ∧ s'.tree = s.tree ∧ s'.query = s.query ∧
      unopened s'.frontier items' + 1 = unopened s.frontier items + x.below.length ∧
      Queues s.frontier s'.frontier items items' x.below ∧
      ∀ y : Subtree F, y.outline = x.left ∨ y.outline = x.right → y.depth = x.depth + 1 →
        Boxed s'.frontier items' y := by
  have h₀ : s.countExpanded.Explores o [i] (x.left.subtrees (x.depth + 1) ++
      (x.right.subtrees (x.depth + 1) ++ x :: outside)) items :=
    (h.permOutside (x.below_append_perm outside)).notes _ _
  obtain ⟨s₁, items₁, hleft, h₁, keeps₁, count₁, queues₁, boxed₁⟩ :=
    h₀.openLeft_eq (x := x) hbox (by simp)
  have hbox₁ : BoxOf s₁.tree s₁.query o x (s₁.frontier.entryAt i) := by
    rw [keeps₁.tree, keeps₁.query, keeps₁.entryAt]
    exact hbox
  obtain ⟨s₂, items₂, hright, h₂, keeps₂, count₂, queues₂, boxed₂⟩ :=
    h₁.openRight_eq hbox₁ (by simp)
  have hbox₂ : BoxOf s₂.tree s₂.query o x (s₂.frontier.entryAt i) := by
    rw [keeps₂.tree, keeps₂.query, keeps₂.entryAt]
    exact hbox₁
  obtain ⟨s₃, hrequeue, h₃, htree, hquery, count₃, queues₃⟩ := h₂.requeue_eq hbox₂
  rw [keeps₂.referenceTo, keeps₂.splitAt, keeps₁.referenceTo, keeps₁.splitAt] at hrequeue
  rw [keeps₁.referenceTo, keeps₁.splitAt] at hright
  refine ⟨s₃, (i, x) :: items₂, ?_, h₃, by rw [htree, keeps₂.tree, keeps₁.tree]; rfl,
    by rw [hquery, keeps₂.query, keeps₁.query]; rfl, ?_, ?_, ?_⟩
  · rw [expand_eq_parts, h.splitOf_eq List.mem_cons_self hbox, ok_bind]
    exact bind_eq_ok_iff.mpr ⟨s₁, hleft, bind_eq_ok_iff.mpr ⟨s₂, hright, hrequeue⟩⟩
  · rw [count₃, count₂, count₁, x.below_eq, List.length_cons, List.length_append]
    show unopened s.frontier items + _ + _ + 1 = _
    omega
  · refine ((queues₁.trans queues₂).trans queues₃).mono fun y hnew => ?_
    rcases List.mem_append.mp hnew with hnew | hnew
    · rcases List.mem_append.mp hnew with hnew | hnew
      · exact Subtree.left_mem_below hnew
      · exact Subtree.right_mem_below hnew
    · rw [List.mem_singleton.mp hnew]
      exact x.mem_below_self
  · rintro y (hy | hy) hdepth
    · exact ((boxed₁ y hy hdepth).queues queues₂).queues queues₃
    · exact (boxed₂ y hy hdepth).queues queues₃

/-! ## Yielding a point -/

/-- **Yielding a held point** gives the neighbor at the node of its subtree. -/
theorem yieldPoint_eq (h : s.Explores o [i] outside items)
    (hentry : EntryOf s.tree s.query o x (s.frontier.entryAt i))
    (hpoint : (s.frontier.entryAt i : EntryRecord F).isPoint = true) :
    ∃ s', s.yieldPoint (s.frontier.pool.referenceTo i) x.index =
        .ok (neighborAt s.tree s.query x, s') ∧
      s'.Explores o [] outside items ∧ s'.tree = s.tree ∧ s'.query = s.query ∧
      Queues s.frontier s'.frontier items items [] := by
  have hstored := h.tree.storedIn hentry.spec.1
  have hlive : s.frontier.pool.IsLive i := (h.live i).mpr List.mem_cons_self
  obtain ⟨p', hdelete, hdeletes, hsound⟩ := h.frontier.delete_eq hlive
  have hdistance :
      (s.frontier.entryAt i : EntryRecord F).distance = pointDistance s.tree s.query x := by
    rcases hentry.cases with ⟨hbox, -⟩ | ⟨-, hdistance⟩
    · rw [hbox] at hpoint
      cases hpoint
    · exact hdistance
  refine ⟨NeighborSearch.noteCapacity { s with
    frontier := { s.frontier with pool := p' }
    neighbor := some (neighborAt s.tree s.query x)
    counters := { s.counters with yielded := s.counters.yielded + 1 } }, ?_,
    (h.deletes hdeletes hsound).notes _ _, rfl, rfl, ?_⟩
  · rw [yieldPoint, h.tree.node_eq hstored, ok_bind, h.tree.dataIndex_eq hstored, ok_bind,
      h.frontier.distanceOf_eq hlive, ok_bind, hdelete, hdistance]
    rfl
  · refine ⟨fun item hitem => Or.inr hitem, fun item hitem => ⟨hitem, ?_⟩⟩
    have hne := h.ne_of_held List.mem_cons_self hitem
    exact congrArg s.frontier.entryOf (hdeletes.kept item.1 hne)

end Explores

end NeighborSearch

end RecordPool
