/-
# How boxes arise

The box of the whole tree is filled in axis by axis from the extent; the box of
a child is inherited from its parent and tightened on the parent's axis.  Both
are computed here as plain values, and creating them changes no other entry
(`Frontier.Adds`).
-/
import RecordPool.Proofs.Coordinates
import RecordPool.Proofs.Search.EntryForms
import RecordPool.Search.Incremental

namespace RecordPool

namespace Frontier

variable {β F : Type} [Memory β F]

/-! ## New entries -/

/-- The frontier `f'` is `f` with a new entry `e` in the slot `i`. -/
structure Adds (f : Frontier β) (i : Nat) (e : EntryRecord F) (f' : Frontier β) : Prop where
  sound : f'.Sound
  fresh : ¬ f.pool.IsLive i
  allocated : f'.pool.allocated =
    if f.pool.free = [] then f.pool.allocated + 1 else f.pool.allocated
  live : ∀ j, f'.pool.IsLive j ↔ j = i ∨ f.pool.IsLive j
  dimension : f'.dimension = f.dimension
  id : f'.pool.id = f.pool.id
  referenceTo : f'.pool.referenceTo = f.pool.referenceTo
  limit : f'.pool.store.limit = f.pool.store.limit
  entryAt_self : f'.entryAt i = e
  kept : ∀ j, f.pool.IsLive j → (f'.entryAt j : EntryRecord F) = f.entryAt j

variable {f f' : Frontier β} {i : Nat} {e e' : EntryRecord F} {p' : Pool β}

/-- A slot that was put into use holds some entry. -/
theorem adds_of_allocates (halloc : f.pool.Allocates i p')
    (hsound : ({ f with pool := p' } : Frontier β).Sound) :
    f.Adds i (Frontier.entryAt { f with pool := p' } i : EntryRecord F) { f with pool := p' } where
  sound := hsound
  fresh := halloc.fresh
  allocated := halloc.allocated
  live := halloc.live
  dimension := rfl
  id := halloc.id
  referenceTo := halloc.referenceTo
  limit := halloc.limit
  entryAt_self := rfl
  kept := fun j hj => congrArg f.entryOf (halloc.kept j hj)

/-- A new entry may be filled in. -/
theorem Adds.fills (h : f.Adds i e f') {f'' : Frontier β} (h' : f'.Fills i e' f'') :
    f.Adds i e' f'' where
  sound := h'.sound h.sound
  fresh := h.fresh
  allocated := h'.allocated.trans h.allocated
  live := fun j => h'.isLive_iff.trans (h.live j)
  dimension := h'.dimension.trans h.dimension
  id := h'.id.trans h.id
  referenceTo := h'.referenceTo.trans h.referenceTo
  limit := h'.limit.trans h.limit
  entryAt_self := h'.entryAt_self
  kept := by
    intro j hj
    have hne : j ≠ i := fun heq => h.fresh (heq ▸ hj)
    rw [h'.entryAt_of_ne hne, h.kept j hj]

end Frontier

namespace NeighborSearch

open Frontier

variable {β F : Type} [Memory β F] [Arithmetic F]

/-! ## The box of a child -/

/-- The box with the gap `difference` on the axis `d`. -/
def tightened (e : EntryRecord F) (d : Nat) (side : Int8) (difference : F) : EntryRecord F :=
  { e with
    sides := if e.sides.getD d 0 = 0 then e.sides.set d side else e.sides
    gaps := e.gaps.set d (Arithmetic.square difference)
    distance := Arithmetic.add (Arithmetic.sub e.distance (e.gaps.getD d Arithmetic.zero))
      (Arithmetic.square difference) }

/-- The box of a child of `e`: the parent's box for the node and the axis of
the child, tightened if the query lies on or crosses to the given side. -/
def childBox (e : EntryRecord F) (node : RecordIndex) (axis d : Nat) (side : Int8) (crosses : Bool)
    (difference : F) : EntryRecord F :=
  let child := { e with node := some node, split := Kind.narrow axis, isPoint := false }
  if e.sides.getD d 0 = side ∨ crosses then tightened child d side difference else child

variable {f : Frontier β} {i parent d : Nat}

/-- Tightening a box with the sides and the gaps of its parent. -/
theorem tighten_eq (hf : f.Sound) (hi : f.pool.IsLive i) (hparent : f.pool.IsLive parent)
    (hne : i ≠ parent) (hd : d < f.dimension)
    (hgaps : (f.entryAt parent : EntryRecord F).gaps = (f.entryAt i).gaps) (side : Int8)
    (difference : F) :
    ∃ f', tighten f (f.pool.referenceTo parent) (f.pool.referenceTo i) d
        ((f.entryAt i : EntryRecord F).sides.getD d 0) side difference = .ok f' ∧
      f.Fills i (tightened (f.entryAt i) d side difference) f' := by
  obtain ⟨f₁, hside, h₁⟩ : ∃ f₁, (if (f.entryAt i : EntryRecord F).sides.getD d 0 = 0 then
        f.setSide (f.pool.referenceTo i) d side else pure f) = .ok f₁ ∧
      f.Fills i { (f.entryAt i : EntryRecord F) with
        sides := if (f.entryAt i : EntryRecord F).sides.getD d 0 = 0 then
          (f.entryAt i : EntryRecord F).sides.set d side
        else (f.entryAt i : EntryRecord F).sides } f₁ := by
    split
    · exact hf.setSide_eq hi hd side
    · exact ⟨f, rfl, Fills.refl hf.pool i⟩
  have hf₁ := h₁.sound hf
  have hi₁ := h₁.isLive_iff.mpr hi
  have hd₁ : d < f₁.dimension := h₁.dimension.symm ▸ hd
  have hgap := hf₁.gapOf_eq (h₁.isLive_iff.mpr hparent) hd₁
  have hdistance := hf₁.distanceOf_eq hi₁
  obtain ⟨f₂, hset, h₂⟩ := hf₁.setGap_eq hi₁ hd₁ (Arithmetic.square difference)
  have h₁₂ := h₁.trans h₂
  obtain ⟨f₃, hset', h₃⟩ := (h₁₂.sound hf).setDistance_eq (h₁₂.isLive_iff.mpr hi)
    (Arithmetic.add (Arithmetic.sub (f.entryAt i : EntryRecord F).distance
      ((f.entryAt i : EntryRecord F).gaps.getD d Arithmetic.zero)) (Arithmetic.square difference))
  rw [h₁.referenceTo, h₁.entryAt_of_ne (Ne.symm hne), hgaps] at hgap
  rw [h₁.referenceTo, h₁.entryAt_self] at hdistance
  rw [h₁.referenceTo] at hset
  rw [h₁₂.referenceTo] at hset'
  rw [h₁.entryAt_self] at h₂
  rw [h₂.entryAt_self] at h₃
  refine ⟨f₃, ?_, h₁₂.trans h₃⟩
  rw [tighten, ite_bind, hside, ok_bind]
  dsimp only
  rw [hgap, ok_bind, hdistance, ok_bind, hset, ok_bind, hset']

/-- Creates and fills in the box of a child, as `openChild` does before it
queues it. -/
def boxChild (s : NeighborSearch β F) (parent : Reference) (node : RecordIndex) (d : Nat)
    (side : Int8) (crosses : Bool) (difference : F) : Checked (Frontier β × Reference) := do
  let (_, frontier, child) ← s.frontier.create s.frontier.pool.newReference
  let frontier ← frontier.inherit child node ((d + 1) % s.tree.dimension) parent
  let inherited ← frontier.sideOf child d
  let frontier ←
    if inherited = side ∨ crosses then
      tighten frontier parent child d inherited side difference
    else
      pure frontier
  pure (frontier, child)

/-- Opening a child queues its box. -/
theorem openChild_eq_boxChild (s : NeighborSearch β F) (parent : Reference) (node : RecordIndex)
    (d : Nat) (side : Int8) (crosses : Bool) (difference : F) :
    s.openChild parent node d side crosses difference = (do
      let (frontier, child) ← s.boxChild parent node d side crosses difference
      let s ← { s with frontier }.offer child
      pure s.countCreated) := by
  rw [openChild, boxChild]
  simp only [bind_assoc]
  congr 1
  funext created
  congr 1
  funext frontier
  congr 1
  funext inherited
  split
  · rw [bind_assoc]
    rfl
  · rfl

/-- **Boxing a child** adds its box and changes no other entry. -/
theorem boxChild_eq {s : NeighborSearch β F} (hf : s.frontier.Sound)
    (hroom : s.frontier.pool.free = [] → s.frontier.pool.HasRoom)
    (hparent : s.frontier.pool.IsLive parent) (hd : d < s.frontier.dimension)
    {node : RecordIndex} (hnode : node ≤ indexLimit) (side : Int8) (crosses : Bool)
    (difference : F) :
    ∃ i f', s.boxChild (s.frontier.pool.referenceTo parent) node d side crosses difference =
        .ok (f', s.frontier.pool.referenceTo i) ∧
      s.frontier.Adds i (childBox (s.frontier.entryAt parent) node ((d + 1) % s.tree.dimension) d
        side crosses difference) f' := by
  obtain ⟨i, p₁, hcreate, halloc, hf₁⟩ := hf.create_eq hroom
  have h₁ := adds_of_allocates (F := F) halloc hf₁
  set f₁ : Frontier β := { s.frontier with pool := p₁ } with hdef
  have hi₁ : f₁.pool.IsLive i := (h₁.live i).mpr (Or.inl rfl)
  have hparent₁ : f₁.pool.IsLive parent := (h₁.live parent).mpr (Or.inr hparent)
  have hne : i ≠ parent := fun heq => h₁.fresh (heq ▸ hparent)
  obtain ⟨f₂, hinherit, h₂⟩ :=
    hf₁.inherit_eq (F := F) hi₁ hparent₁ hnode ((d + 1) % s.tree.dimension)
  rw [h₁.kept parent hparent] at h₂
  have hf₂ := h₂.sound hf₁
  have hi₂ := h₂.isLive_iff.mpr hi₁
  have hd₂ : d < f₂.dimension := by
    rw [h₂.dimension, h₁.dimension]
    exact hd
  have hside := hf₂.sideOf_eq (F := F) hi₂ hd₂
  have hparentEntry : (f₂.entryAt parent : EntryRecord F) = s.frontier.entryAt parent := by
    rw [h₂.entryAt_of_ne (Ne.symm hne), h₁.kept parent hparent]
  obtain ⟨f₃, htighten, h₃⟩ := tighten_eq hf₂ hi₂ (h₂.isLive_iff.mpr hparent₁) hne hd₂
    (by rw [hparentEntry, h₂.entryAt_self]) side difference
  rw [h₁.referenceTo] at hinherit
  rw [h₂.referenceTo, h₁.referenceTo] at hside htighten
  rw [h₂.entryAt_self] at hside htighten h₃
  have hbox : s.boxChild (s.frontier.pool.referenceTo parent) node d side crosses difference =
      (do
        let frontier ←
          if (s.frontier.entryAt parent : EntryRecord F).sides.getD d 0 = side ∨ crosses then
            tighten f₂ (s.frontier.pool.referenceTo parent) (s.frontier.pool.referenceTo i) d
              ((s.frontier.entryAt parent : EntryRecord F).sides.getD d 0) side difference
          else pure f₂
        pure (frontier, s.frontier.pool.referenceTo i)) := by
    rw [boxChild, hcreate, ok_bind]
    dsimp only
    rw [hinherit, ok_bind, hside, ok_bind, ite_bind]
  rw [hbox, childBox]
  by_cases hcond : (s.frontier.entryAt parent : EntryRecord F).sides.getD d 0 = side ∨ crosses
  · rw [if_pos hcond, if_pos hcond]
    exact ⟨i, f₃, by rw [htighten, ok_bind]; rfl, (h₁.fills h₂).fills h₃⟩
  · rw [if_neg hcond, if_neg hcond]
    exact ⟨i, f₂, rfl, h₁.fills h₂⟩

/-! ## The box of the whole tree -/

/-- The side and the gap on an axis where the query is not inside the extent. -/
def axisBound (low high q : F) : Option (Int8 × F) :=
  let below := Arithmetic.sub low q
  if Arithmetic.lt Arithmetic.zero below then
    some (-1, Arithmetic.square below)
  else
    let above := Arithmetic.sub q high
    if Arithmetic.le Arithmetic.zero above then some (1, Arithmetic.square above) else none

/-- A box and the total of its gaps, bounded on one more axis. -/
def boundBox (tree : KdTree β F) (query : List F) (state : EntryRecord F × F) (d : Nat) :
    EntryRecord F × F :=
  match axisBound (tree.least.getD d Arithmetic.zero) (tree.greatest.getD d Arithmetic.zero)
    (query.getD d Arithmetic.zero) with
  | none => state
  | some (side, gap) => (state.1.setAxis d side gap, Arithmetic.add state.2 gap)

/-- The first axes of the box of a tree. -/
def boundedBox (tree : KdTree β F) (query : List F) (root : RecordIndex) (count : Nat) :
    EntryRecord F × F :=
  (List.range count).foldl (boundBox tree query) (.box tree.dimension root 0, Arithmetic.zero)

/-- The box of a tree. -/
def rootBox (tree : KdTree β F) (query : List F) (root : RecordIndex) : EntryRecord F :=
  let (box, total) := boundedBox tree query root tree.dimension
  { box with distance := total }

/-- Bounding an entry on one axis. -/
theorem boundAxis_eq (tree : KdTree β F) (query : List F) (hf : f.Sound) (hi : f.pool.IsLive i)
    (hd : d < f.dimension) (hleast : d < tree.least.length)
    (hgreatest : d < tree.greatest.length) (hquery : d < query.length) (total : F) :
    ∃ f', boundAxis tree query (f.pool.referenceTo i) (f, total) d =
        .ok (f', (boundBox tree query (f.entryAt i, total) d).2) ∧
      f.Fills i (boundBox tree query (f.entryAt i, total) d).1 f' := by
  have hlow : tree.lowerBound d = .ok (tree.least.getD d Arithmetic.zero) :=
    fetchAt_eq_getD hleast
  have hhigh : tree.upperBound d = .ok (tree.greatest.getD d Arithmetic.zero) :=
    fetchAt_eq_getD hgreatest
  rw [boundAxis]
  dsimp only
  rw [fetchAt_eq_getD hquery, ok_bind, hlow, ok_bind, boundBox, axisBound]
  dsimp only
  split
  · obtain ⟨f₁, f₂, hside, hgap, h₂⟩ := hf.setAxis_eq hi hd (-1) (Arithmetic.square
      (Arithmetic.sub (tree.least.getD d Arithmetic.zero) (query.getD d Arithmetic.zero)))
    exact ⟨f₂, by rw [hside, ok_bind, hgap]; rfl, h₂⟩
  · rw [hhigh, ok_bind]
    split
    · obtain ⟨f₁, f₂, hside, hgap, h₂⟩ := hf.setAxis_eq hi hd 1 (Arithmetic.square
        (Arithmetic.sub (query.getD d Arithmetic.zero) (tree.greatest.getD d Arithmetic.zero)))
      exact ⟨f₂, by rw [hside, ok_bind, hgap]; rfl, h₂⟩
    · exact ⟨f, rfl, Fills.refl hf.pool i⟩

omit [Memory β F] in
/-- One more axis of the box of a tree. -/
theorem boundedBox_succ (tree : KdTree β F) (query : List F) (root : RecordIndex) (count : Nat) :
    boundedBox tree query root (count + 1) =
      boundBox tree query (boundedBox tree query root count) count := by
  rw [boundedBox, List.range_succ, List.foldl_append]
  rfl

/-- Bounding the box of the root on all axes, one after the other. -/
theorem boundAxes_eq {tree : KdTree β F} {query : List F} {root : RecordIndex} (hf : f.Sound)
    (hi : f.pool.IsLive i) (hdim : f.dimension = tree.dimension)
    (hleast : tree.least.length = tree.dimension)
    (hgreatest : tree.greatest.length = tree.dimension) (hquery : query.length = tree.dimension)
    (hentry : f.entryAt i = EntryRecord.box tree.dimension root 0) :
    ∃ f', (List.range tree.dimension).foldlM (boundAxis tree query (f.pool.referenceTo i))
        (f, Arithmetic.zero) = .ok (f', (boundedBox tree query root tree.dimension).2) ∧
      f.Fills i (boundedBox tree query root tree.dimension).1 f' := by
  obtain ⟨⟨f', total⟩, hloop, hfills, rfl⟩ :
      ∃ state : Frontier β × F, (List.range tree.dimension).foldlM
          (boundAxis tree query (f.pool.referenceTo i)) (f, Arithmetic.zero) = .ok state ∧
        f.Fills i (boundedBox tree query root tree.dimension).1 state.1 ∧
        state.2 = (boundedBox tree query root tree.dimension).2 := by
    -- after `d` axes the entry is the box bounded on the first `d` axes
    apply foldlM_range_ok fun d (state : Frontier β × F) =>
      f.Fills i (boundedBox tree query root d).1 state.1 ∧
        state.2 = (boundedBox tree query root d).2
    · have hself := Fills.refl (F := F) hf.pool i
      rw [hentry] at hself
      exact ⟨hself, rfl⟩
    · rintro d hd ⟨f₁, total⟩ ⟨h₁, rfl⟩
      obtain ⟨f₂, hstep, h₂⟩ := boundAxis_eq tree query (h₁.sound hf) (h₁.isLive_iff.mpr hi)
        (by rw [h₁.dimension, hdim]; exact hd) (by omega) (by omega) (by omega)
        (boundedBox tree query root d).2
      rw [h₁.referenceTo, h₁.entryAt_self] at hstep
      rw [h₁.entryAt_self] at h₂
      rw [boundedBox_succ]
      exact ⟨_, hstep, h₁.trans h₂, rfl⟩
  exact ⟨f', hloop, hfills⟩

/-- **Beginning a search** adds the box of the whole tree and queues it. -/
theorem enqueueRoot_eq {s : NeighborSearch β F} (hf : s.frontier.Sound)
    (hroom : s.frontier.pool.free = [] → s.frontier.pool.HasRoom)
    (hdim : s.frontier.dimension = s.tree.dimension)
    (hleast : s.tree.least.length = s.tree.dimension)
    (hgreatest : s.tree.greatest.length = s.tree.dimension)
    (hquery : s.query.length = s.tree.dimension) {root : RecordIndex} (hroot : root ≤ indexLimit) :
    ∃ i f', s.enqueueRoot root = (do
        let s ← { s with frontier := f' }.offer (s.frontier.pool.referenceTo i)
        pure s.countCreated.noteCapacity) ∧
      s.frontier.Adds i (rootBox s.tree s.query root) f' := by
  obtain ⟨i, p₁, hcreate, halloc, hf₁⟩ := hf.create_eq hroom
  have h₁ := adds_of_allocates (F := F) halloc hf₁
  set f₁ : Frontier β := { s.frontier with pool := p₁ } with hdef
  have hi₁ : f₁.pool.IsLive i := (h₁.live i).mpr (Or.inl rfl)
  obtain ⟨f₂, hfill, h₂⟩ := hf₁.fill_eq (F := F) hi₁ hroot 0
  have h₁₂ := h₁.fills h₂
  have hi₂ : f₂.pool.IsLive i := (h₁₂.live i).mpr (Or.inl rfl)
  rw [show f₁.dimension = s.tree.dimension from hdim] at h₂
  obtain ⟨f₃, hloop, h₃⟩ := boundAxes_eq h₁₂.sound hi₂ (h₁₂.dimension.trans hdim) hleast
    hgreatest hquery h₂.entryAt_self
  obtain ⟨f₄, hdistance, h₄⟩ := (h₃.sound h₁₂.sound).setDistance_eq (h₃.isLive_iff.mpr hi₂)
    (boundedBox s.tree s.query root s.tree.dimension).2
  rw [h₁.referenceTo] at hfill
  rw [h₁₂.referenceTo] at hloop
  rw [h₃.referenceTo, h₁₂.referenceTo] at hdistance
  rw [h₃.entryAt_self] at h₄
  refine ⟨i, f₄, ?_, (h₁₂.fills h₃).fills h₄⟩
  rw [enqueueRoot, hcreate, ok_bind]
  dsimp only
  rw [hfill, ok_bind, hloop, ok_bind]
  dsimp only
  rw [hdistance, ok_bind]

end NeighborSearch

end RecordPool
