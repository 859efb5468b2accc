/-
# Walking a pool

The records in use from some slot on are a list, and a step of a cursor takes
its head.  So a walk over a pool meets every record in use once, by ascending
index, whether it repoints one reference or makes new ones.
-/
import RecordPool.Pool.Cursor
import RecordPool.Proofs.Pool.Checks

namespace RecordPool

variable {β F : Type} [Memory β F]

namespace Pool

instance (p : Pool β) (i : Nat) : Decidable (p.IsLive i) :=
  inferInstanceAs (Decidable (p.live[i]? = some true))

/-- The slots in use from the slot `next` on, in ascending order. -/
def liveFrom (p : Pool β) (next : Nat) : List Nat :=
  (List.range' next (p.allocated - next)).filter fun i => p.IsLive i

variable {p : Pool β} {i next count : Nat} {r : Reference} {c : Cursor}

/-! ## What is still to come -/

theorem Sound.mem_liveFrom_iff (h : p.Sound) : i ∈ p.liveFrom next ↔ next ≤ i ∧ p.IsLive i := by
  unfold liveFrom
  rw [List.mem_filter, List.mem_range'_1, decide_eq_true_iff]
  constructor
  · rintro ⟨⟨hle, -⟩, hlive⟩
    exact ⟨hle, hlive⟩
  · rintro ⟨hle, hlive⟩
    have hlt := h.lt_allocated hlive
    exact ⟨⟨hle, by omega⟩, hlive⟩

/-- The slots come in ascending order. -/
theorem pairwise_liveFrom (p : Pool β) (next : Nat) :
    (p.liveFrom next).Pairwise fun i j => i < j := by
  unfold liveFrom
  apply List.Pairwise.filter
  exact List.pairwise_lt_range'

/-- There are no more slots in use than slots handed out. -/
theorem length_liveFrom_le (p : Pool β) (next : Nat) :
    (p.liveFrom next).length ≤ p.allocated - next := by
  unfold liveFrom
  simpa using List.length_filter_le (fun i => decide (p.IsLive i))
    (List.range' next (p.allocated - next))

/-- Behind the slots handed out nothing is to come. -/
theorem liveFrom_of_le (hnext : p.allocated ≤ next) : p.liveFrom next = [] := by
  unfold liveFrom
  rw [Nat.sub_eq_zero_of_le hnext]
  rfl

/-- One slot more is looked at. -/
theorem liveFrom_of_lt (hnext : next < p.allocated) :
    p.liveFrom next = if p.IsLive next then next :: p.liveFrom (next + 1)
      else p.liveFrom (next + 1) := by
  have hcount : p.allocated - next = p.allocated - (next + 1) + 1 := by omega
  unfold liveFrom
  rw [hcount, List.range'_succ, List.filter_cons]
  simp

/-! ## Steps of a cursor -/

/-- A scan to the end finds the first slot in use, if there is one. -/
theorem Sound.scan_cases (h : p.Sound) (hcount : count = p.allocated - next) :
    (p.liveFrom next = [] ∧ Cursor.scan p count next = .ok (none, ⟨next + count⟩)) ∨
      ∃ i, p.IsLive i ∧ p.liveFrom next = i :: p.liveFrom (i + 1) ∧
        Cursor.scan p count next = .ok (some i, ⟨i + 1⟩) := by
  induction count generalizing next with
  | zero => exact Or.inl ⟨liveFrom_of_le (by omega), rfl⟩
  | succ count ih =>
      have hnext : p.liveFrom next = _ := liveFrom_of_lt (by omega)
      have hrest := ih (show count = p.allocated - (next + 1) by omega)
      rw [Cursor.scan]
      by_cases hlive : p.IsLive next
      · rw [if_pos hlive] at hnext
        rw [h.isLive_eq_true_iff.mpr hlive, ok_bind, if_pos rfl]
        exact Or.inr ⟨next, hlive, hnext, rfl⟩
      · rw [if_neg hlive] at hnext
        rw [h.isLive_eq_false hlive, ok_bind, if_neg Bool.false_ne_true, hnext]
        rwa [show next + 1 + count = next + (count + 1) by omega] at hrest

/-- **A step of a cursor** points the reference at the first record that is
still to come, or finds that none is. -/
theorem Sound.advance_cases (h : p.Sound) (hr : r.pool = p.id) (c : Cursor) :
    (p.liveFrom c.next = [] ∧ c.advance p r = .ok (false, ⟨c.next + c.remaining p⟩, r)) ∨
      ∃ i, p.liveFrom c.next = i :: p.liveFrom (i + 1) ∧
        c.advance p r = .ok (true, ⟨i + 1⟩, p.referenceTo i) := by
  rw [Cursor.advance, Cursor.nextLive]
  rcases h.scan_cases (rfl : c.remaining p = p.allocated - c.next) with
    ⟨hnone, hscan⟩ | ⟨i, hlive, hcons, hscan⟩
  · rw [hscan, ok_bind]
    exact Or.inl ⟨hnone, rfl⟩
  · rw [hscan, ok_bind]
    dsimp only
    rw [h.pointAt_eq hlive hr]
    exact Or.inr ⟨i, hcons, rfl⟩

/-- **What a step did** tells what was still to come. -/
theorem Sound.advance_outcome (h : p.Sound) {c' : Cursor} {r' : Reference} {more : Bool}
    (hadvance : c.advance p r = .ok (more, c', r')) :
    (more = false ∧ r' = r ∧ p.liveFrom c.next = [] ∧ c.next ≤ c'.next) ∨
      ∃ i, more = true ∧ r' = p.referenceTo i ∧ p.liveFrom c.next = i :: p.liveFrom (i + 1) ∧
        c' = ⟨i + 1⟩ := by
  rw [Cursor.advance, Cursor.nextLive] at hadvance
  rcases h.scan_cases (rfl : c.remaining p = p.allocated - c.next) with
    ⟨hnone, hscan⟩ | ⟨i, -, hcons, hscan⟩
  · rw [hscan, ok_bind] at hadvance
    cases hadvance
    exact Or.inl ⟨rfl, rfl, hnone, Nat.le_add_right _ _⟩
  · rw [hscan, ok_bind] at hadvance
    obtain ⟨r₁, hpoint, hput⟩ := bind_eq_ok_iff.mp hadvance
    cases hput
    exact Or.inr ⟨i, rfl, (h.eq_of_pointAt hpoint).2, hcons, rfl⟩

/-- The rest of a walk meets what is still to come. -/
theorem Sound.rest_eq (h : p.Sound) (hcount : (p.liveFrom c.next).length ≤ count) :
    Cursor.rest p count c =
      .ok ((p.liveFrom c.next).map fun i => (p.referenceTo i, ⟨i + 1⟩)) := by
  induction count generalizing c with
  | zero =>
      rw [List.length_eq_zero_iff.mp (Nat.le_zero.mp hcount)]
      rfl
  | succ count ih =>
      rw [Cursor.rest, Cursor.yield?]
      rcases h.advance_cases (rfl : p.newReference.pool = p.id) c with
        ⟨hnone, hadvance⟩ | ⟨i, hcons, hadvance⟩
      · rw [hadvance, hnone]
        rfl
      · rw [hcons, List.length_cons] at hcount
        have hrest := ih (c := ⟨i + 1⟩) (by simpa using hcount)
        rw [hadvance, hcons, List.map_cons, ok_bind]
        dsimp only
        rw [pure_bind]
        dsimp only
        rw [hrest]
        rfl

/-- **A walk** meets every record in use, by ascending index. -/
theorem Sound.walk_eq (h : p.Sound) :
    p.walk = .ok ((p.liveFrom 0).map fun i => (p.referenceTo i, ⟨i + 1⟩)) := by
  unfold walk
  apply h.rest_eq
  exact length_liveFrom_le p 0

end Pool

end RecordPool
