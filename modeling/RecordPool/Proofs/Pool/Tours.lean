/-
# Tours of a pool

A cursor holds nothing but the next slot to look at, and looks at the pool
anew at each step.  While nothing happens to the pool it meets every record in
use once, by ascending index, through new references or through one that it
repoints.  On a tour, records are created and taken back between its steps, in
slots before it and behind it; still it meets no slot twice, no slot that is
not in use, and every record that stays in use until the cursor is at its end.
-/
import RecordPool.Proofs.Pool.Peak
import RecordPool.Proofs.Pool.Walking

namespace RecordPool

variable {β F : Type} [Memory β F]

/-! ## Walks through one reference -/

/-- The records still to come, at most `count` of them, each as the reference
`r` when it was pointed at it, and with the cursor behind it. -/
def Cursor.restThrough (p : Pool β) :
    (count : Nat) → Cursor → Reference → Checked (List (Reference × Cursor))
  | 0, _, _ => pure []
  | count + 1, c, r => do
      match ← c.advance p r with
      | (true, c, r) => pure ((r, c) :: (← restThrough p count c r))
      | (false, _, _) => pure []

namespace Pool

variable {p p' p₀ : Pool β} {h later events : History} {visited : List Nat} {i count : Nat}
  {r r' : Reference} {c c' : Cursor}

/-- One reference meets the same records as new ones. -/
theorem Sound.restThrough_eq (h : p.Sound) (hr : r.pool = p.id) :
    Cursor.restThrough p count c r = Cursor.rest p count c := by
  induction count generalizing c r with
  | zero => rfl
  | succ count ih =>
      have hnew := h.advance_cases (rfl : p.newReference.pool = p.id) c
      rw [Cursor.restThrough, Cursor.rest, Cursor.yield?]
      rcases h.advance_cases hr c with ⟨hnone, hadvance⟩ | ⟨i, hcons, hadvance⟩
      · rcases hnew with ⟨-, hadvance'⟩ | ⟨_, hcons', -⟩
        · rw [hadvance, hadvance']
          rfl
        · rw [hnone] at hcons'
          cases hcons'
      · rcases hnew with ⟨hnone', -⟩ | ⟨j, hcons', hadvance'⟩
        · rw [hnone'] at hcons
          cases hcons
        · obtain ⟨rfl, -⟩ := List.cons.inj (hcons.symm.trans hcons')
          rw [hadvance, hadvance', ok_bind, ok_bind]
          dsimp only
          rw [pure_bind]
          dsimp only
          rw [ih rfl]

/-! ## What is still to come -/

/-- The records in the slots `todo` are what a walk has still to come. -/
structure Ahead (p : Pool β) (c : Cursor) (todo : List Nat) : Prop where
  /-- No slot comes twice, and lower ones come first. -/
  ascending : todo.Pairwise fun i j => i < j
  /-- The slots are those in use that the cursor has before it. -/
  mem_iff : ∀ i, i ∈ todo ↔ c.next ≤ i ∧ p.isLive i = .ok true
  /-- References to them are valid. -/
  check : ∀ i ∈ todo, p.check (p.referenceTo i) = pure ()
  /-- New references meet them, in as many steps as it takes. -/
  rest : ∀ count, todo.length ≤ count →
    Cursor.rest p count c = .ok (todo.map fun i => (p.referenceTo i, ⟨i + 1⟩))
  /-- One reference of the pool meets the same. -/
  restThrough : ∀ count, todo.length ≤ count → ∀ r : Reference, r.pool = p.id →
    Cursor.restThrough p count c r = .ok (todo.map fun i => (p.referenceTo i, ⟨i + 1⟩))
  /-- The hint of the cursor encloses their number. -/
  hint : (c.hint p).1 ≤ todo.length ∧ ∀ most ∈ (c.hint p).2, todo.length ≤ most

/-- **A walk at any place** has the slots in use before it. -/
theorem Sound.ahead (h : p.Sound) (c : Cursor) : p.Ahead c (p.liveFrom c.next) where
  ascending := pairwise_liveFrom p c.next
  mem_iff := by
    intro i
    rw [h.mem_liveFrom_iff, h.isLive_eq_true_iff]
  check := fun i hi => h.check_eq_pure_iff.mpr ⟨i, (h.mem_liveFrom_iff.mp hi).2, rfl⟩
  rest := fun _ hcount => h.rest_eq hcount
  restThrough := fun _ hcount _ hr => (h.restThrough_eq hr).trans (h.rest_eq hcount)
  hint := by
    refine ⟨Nat.zero_le _, fun most hmost => ?_⟩
    obtain rfl := Option.some.inj hmost
    exact length_liveFrom_le p c.next

/-! ## Tours -/

/-- A tour from the pool `p₀` on: a cursor starts its walk and goes on from time
to time, through whatever references, while operations that do not drop all
records leave the events `later`.  It visited the slots `visited`; finding no
record to come ends no tour, as one may be created yet. -/
inductive Tours (p₀ : Pool β) : History → List Nat → Pool β → Cursor → Prop where
  | start : Tours p₀ [] [] p₀ .start
  | operate {later events : History} {visited : List Nat} {p p' : Pool β} {c : Cursor} :
      Tours p₀ later visited p c → p.Does events p' → .cleared ∉ events →
        Tours p₀ (later ++ events) visited p' c
  | visit {later : History} {visited : List Nat} {p : Pool β} {c c' : Cursor}
      {r r' : Reference} {i : Nat} :
      Tours p₀ later visited p c → c.advance p r = .ok (true, c', r') → r'.index? = some i →
        Tours p₀ later (visited ++ [i]) p c'
  | pause {later : History} {visited : List Nat} {p : Pool β} {c c' : Cursor}
      {r r' : Reference} :
      Tours p₀ later visited p c → c.advance p r = .ok (false, c', r') →
        Tours p₀ later visited p c'

/-- The tour from a pool with the history `h` visited in order what lasted, as
far as it came. -/
structure Toured (h later : History) (visited : List Nat) (p : Pool β) (c : Cursor) : Prop where
  recorded : p.Recorded (h ++ later)
  ascending : visited.Pairwise fun i j => i < j
  below : ∀ i ∈ visited, i < c.next
  seen : ∀ n i, h.InUse n i → (h ++ later).InUse n i → i < c.next → i ∈ visited

namespace Toured

/-- At first nothing was visited. -/
theorem start (hrec : p.Recorded h) : Toured h [] [] p .start where
  recorded := by
    rw [List.append_nil]
    exact hrec
  ascending := List.Pairwise.nil
  below := by simp
  seen := fun _ i _ _ hlt => absurd hlt (Nat.not_lt_zero i)

/-- What lasts until after an operation lasted until before it. -/
theorem operate (ht : Toured h later visited p c) (hdoes : p.Does events p') :
    Toured h (later ++ events) visited p' c where
  recorded := by
    rw [← List.append_assoc]
    exact ht.recorded.does hdoes
  ascending := ht.ascending
  below := ht.below
  seen := by
    intro n i hfirst hlast
    rw [← List.append_assoc, History.inUse_append] at hlast
    · exact ht.seen n i hfirst hlast.1
    · have hlt := hfirst.lt_length
      rw [List.length_append]
      omega

/-- A step visits the first slot in use, before which none lasts unvisited. -/
theorem visit (ht : Toured h later visited p c)
    (hcons : p.liveFrom c.next = i :: p.liveFrom (i + 1)) :
    Toured h later (visited ++ [i]) p ⟨i + 1⟩ := by
  have hsound := ht.recorded.sound
  have hge : c.next ≤ i := (hsound.mem_liveFrom_iff.mp (hcons ▸ List.mem_cons_self)).1
  refine ⟨ht.recorded, ?_, ?_, ?_⟩
  · rw [List.pairwise_append]
    refine ⟨ht.ascending, List.pairwise_singleton _ i, fun j hj k hk => ?_⟩
    obtain rfl := List.mem_singleton.mp hk
    exact lt_of_lt_of_le (ht.below j hj) hge
  · intro j hj
    show j < i + 1
    rcases List.mem_append.mp hj with hj | hj
    · have := ht.below j hj
      omega
    · have := List.mem_singleton.mp hj
      omega
  · intro n j hfirst hlast hlt
    rw [List.mem_append, List.mem_singleton]
    by_cases hj : j < c.next
    · exact Or.inl (ht.seen n j hfirst hlast hj)
    · -- the slot is in use, so that it is still to come, and only the head is not behind `i`
      have hlive : p.IsLive j := (ht.recorded.live_iff j).mpr ⟨n, hlast⟩
      have hmem : j ∈ p.liveFrom c.next := hsound.mem_liveFrom_iff.mpr ⟨by omega, hlive⟩
      rw [hcons, List.mem_cons, hsound.mem_liveFrom_iff] at hmem
      change j < i + 1 at hlt
      omega

/-- With nothing to come, what lasts was visited. -/
theorem mem_of_none (ht : Toured h later visited p c) (hnone : p.liveFrom c.next = []) {n : Nat}
    (hfirst : h.InUse n i) (hlast : (h ++ later).InUse n i) : i ∈ visited := by
  by_cases hi : i < c.next
  · exact ht.seen n i hfirst hlast hi
  · have hlive : p.IsLive i := (ht.recorded.live_iff i).mpr ⟨n, hlast⟩
    have hmem : i ∈ p.liveFrom c.next :=
      ht.recorded.sound.mem_liveFrom_iff.mpr ⟨Nat.le_of_not_lt hi, hlive⟩
    rw [hnone] at hmem
    cases hmem

/-- A step that finds nothing only moves the cursor on. -/
theorem pause (ht : Toured h later visited p c) (hnone : p.liveFrom c.next = [])
    (hle : c.next ≤ c'.next) : Toured h later visited p c' where
  recorded := ht.recorded
  ascending := ht.ascending
  below := fun i hi => lt_of_lt_of_le (ht.below i hi) hle
  seen := fun _ _ hfirst hlast _ => ht.mem_of_none hnone hfirst hlast

end Toured

/-- **Every tour** visits in order what lasts. -/
theorem Tours.toured (hrec : p₀.Recorded h) (htours : p₀.Tours later visited p c) :
    Toured h later visited p c := by
  induction htours with
  | start => exact .start hrec
  | operate _ hdoes _ ih => exact ih.operate hdoes
  | visit _ hadvance hindex ih =>
      rcases ih.recorded.sound.advance_outcome hadvance with
        ⟨hmore, -⟩ | ⟨i, -, rfl, hcons, rfl⟩
      · cases hmore
      · obtain rfl := Option.some.inj hindex
        exact ih.visit hcons
  | pause _ hadvance ih =>
      rcases ih.recorded.sound.advance_outcome hadvance with
        ⟨-, -, hnone, hle⟩ | ⟨_, hmore, -⟩
      · exact ih.pause hnone hle
      · cases hmore

/-- Wherever the tour is, its cursor goes on as it should. -/
structure Guided (h later : History) (visited : List Nat) (p : Pool β) (c : Cursor) : Prop where
  /-- The slots visited were in ascending order. -/
  ascending : visited.Pairwise fun i j => i < j
  /-- With a reference of the pool it can go on. -/
  advance : ∀ r : Reference, r.pool = p.id → ∃ more c' r', c.advance p r = .ok (more, c', r')
  /-- A slot that it visits next is in use, beyond those visited, and the
  reference to it is valid. -/
  visit : ∀ (r r' : Reference) (c' : Cursor), c.advance p r = .ok (true, c', r') →
    ∃ i, r'.index? = some i ∧ p.isLive i = .ok true ∧ p.check r' = pure () ∧
      ∀ j ∈ visited, j < i
  /-- If it finds none, the reference stays where it was, and each record in use
  from the start until now was visited exactly once. -/
  finish : ∀ (r r' : Reference) (c' : Cursor), c.advance p r = .ok (false, c', r') →
    r' = r ∧ ∀ n i, h.InUse n i → (h ++ later).InUse n i → visited.count i = 1

/-- A tour that visited in order what lasts goes on so. -/
theorem Toured.guided (ht : Toured h later visited p c) : Guided h later visited p c where
  ascending := ht.ascending
  advance := by
    intro r hr
    rcases ht.recorded.sound.advance_cases hr c with ⟨-, hadvance⟩ | ⟨i, -, hadvance⟩
    · exact ⟨_, _, _, hadvance⟩
    · exact ⟨_, _, _, hadvance⟩
  visit := by
    intro r r' c' hadvance
    have hsound := ht.recorded.sound
    rcases hsound.advance_outcome hadvance with ⟨hmore, -⟩ | ⟨i, -, rfl, hcons, -⟩
    · cases hmore
    · obtain ⟨hge, hlive⟩ := hsound.mem_liveFrom_iff.mp (hcons ▸ List.mem_cons_self)
      exact ⟨i, rfl, hsound.isLive_eq_true_iff.mpr hlive,
        hsound.check_eq_pure_iff.mpr ⟨i, hlive, rfl⟩,
        fun j hj => lt_of_lt_of_le (ht.below j hj) hge⟩
  finish := by
    intro r r' c' hadvance
    rcases ht.recorded.sound.advance_outcome hadvance with ⟨-, rfl, hnone, -⟩ | ⟨_, hmore, -⟩
    · refine ⟨rfl, fun n i hfirst hlast => ?_⟩
      have hnodup : visited.Nodup := ht.ascending.imp Nat.ne_of_lt
      exact List.count_eq_one_of_mem hnodup (ht.mem_of_none hnone hfirst hlast)
    · cases hmore

/-! ## Every pool -/

/-- **Walks and tours.**  In a pool after any run, a walk meets every record in
use once, by ascending index, through valid references, new ones or one that is
repointed, and its hints hold; and from there on every tour is guided. -/
theorem walks_and_tours {id : PoolId} {layout : Layout} {plan : StorePlan} {reset : Reset β}
    {p₀ p : Pool β} {h : History} (hrange : plan.InRange)
    (hmake : make id layout plan reset = pure p₀) (hruns : p₀.Runs h p) :
    (∀ c : Cursor, ∃ todo, p.Ahead c todo) ∧
      (∃ todo, p.Ahead .start todo ∧
        p.walk = .ok (todo.map fun i => (p.referenceTo i, ⟨i + 1⟩))) ∧
      ∀ (later : History) (visited : List Nat) (p' : Pool β) (c : Cursor),
        p.Tours later visited p' c → Guided h later visited p' c := by
  have hrec : p.Recorded h := (recorded_of_make hrange hmake).runs hruns
  have hsound := hrec.sound
  exact ⟨fun c => ⟨_, hsound.ahead c⟩, ⟨_, hsound.ahead .start, hsound.walk_eq⟩,
    fun _ _ _ _ htours => (htours.toured hrec).guided⟩

/-- A tour of two records, the first of which is taken back after its visit and
its slot used again behind the cursor, visits both slots once. -/
theorem tour_of_two : ((StorePlan.blocks 1 1).withLimit 2).InRange ∧
    ∃ p₀ p p' : Pool UInt8,
      make 0 counterLayout ((StorePlan.blocks 1 1).withLimit 2) .keep = pure p₀ ∧
        p₀.Runs [.created 0, .created 1] p ∧
        p.Tours [.deleted 0, .created 0] [0, 1] p' ⟨2⟩ ∧
        Guided [.created 0, .created 1] [.deleted 0, .created 0] [0, 1] p' ⟨2⟩ := by
  have hrange : ((StorePlan.blocks 1 1).withLimit 2).InRange := by
    rintro size ⟨⟩
    decide
  have hmake : make 0 counterLayout ((StorePlan.blocks 1 1).withLimit 2) .keep =
      pure (cappedPool 1 [] #[] #[]) := rfl
  have hfirst : (cappedPool 1 [] #[] #[]).allocate (.unpointed 0) =
      .ok (.ok 0, cappedPool 1 [] #[true] #[0], ⟨0, some ⟨0, 0, 0⟩⟩) := rfl
  have hsecond : (cappedPool 1 [] #[true] #[0]).allocate (.unpointed 0) =
      .ok (.ok 1, cappedPool 2 [] #[true, true] #[0, 0], ⟨0, some ⟨1, 0, 0⟩⟩) := rfl
  have hvisit : Cursor.start.advance (cappedPool 2 [] #[true, true] #[0, 0]) (.unpointed 0) =
      .ok (true, ⟨1⟩, ⟨0, some ⟨0, 0, 0⟩⟩) := rfl
  have hrequire : (cappedPool 2 [] #[true, true] #[0, 0]).require ⟨0, some ⟨0, 0, 0⟩⟩ = .ok 0 := rfl
  have hdelete : (cappedPool 2 [] #[true, true] #[0, 0]).delete ⟨0, some ⟨0, 0, 0⟩⟩ =
      .ok (cappedPool 2 [0] #[false, true] #[1, 0]) := rfl
  have hagain : (cappedPool 2 [0] #[false, true] #[1, 0]).allocate (.unpointed 0) =
      .ok (.ok 0, cappedPool 2 [] #[true, true] #[1, 0], ⟨0, some ⟨0, 1, 0⟩⟩) := rfl
  have hvisit' : (⟨1⟩ : Cursor).advance (cappedPool 2 [] #[true, true] #[1, 0])
      ⟨0, some ⟨0, 0, 0⟩⟩ = .ok (true, ⟨2⟩, ⟨0, some ⟨1, 0, 0⟩⟩) := rfl
  have hruns : (cappedPool 1 [] #[] #[]).Runs [.created 0, .created 1]
      (cappedPool 2 [] #[true, true] #[0, 0]) :=
    (Runs.start.step (.allocate hfirst)).step (.allocate hsecond)
  have htours : (cappedPool 2 [] #[true, true] #[0, 0]).Tours [.deleted 0, .created 0] [0, 1]
      (cappedPool 2 [] #[true, true] #[1, 0]) ⟨2⟩ :=
    (((Tours.start.visit hvisit rfl).operate (.delete hrequire hdelete) (by decide)).operate
      (.allocate hagain) (by decide)).visit hvisit' rfl
  exact ⟨hrange, _, _, _, hmake, hruns, htours,
    (walks_and_tours hrange hmake hruns).2.2 _ _ _ _ htours⟩

end Pool

end RecordPool
