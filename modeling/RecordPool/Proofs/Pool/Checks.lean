/-
# Checking references

Every outcome of checking a reference against a sound pool.  A reference is
accepted exactly when it is the one that the pool hands out for a record in
use, so that all valid references to one record are equal; any other pointed
reference of the pool is stale.
-/
import RecordPool.Proofs.Pool.Allocation

namespace RecordPool

variable {β F : Type} [Memory β F]

namespace Pool

variable {p p' : Pool β} {i : Nat} {r : Reference}

/-! ## Slots in use -/

/-- A slot that was handed out has its liveness. -/
theorem Sound.exists_live (h : p.Sound) (hi : i < p.allocated) :
    ∃ live, p.live[i]? = some live := by
  rw [← h.live_size] at hi
  exact ⟨_, Array.getElem?_eq_getElem hi⟩

/-- The program finds a slot in use when it was handed out and is not free. -/
theorem Sound.isLive_eq (h : p.Sound) (i : Nat) :
    p.isLive i = .ok (decide (i < p.allocated ∧ i ∉ p.free)) := by
  rw [isLive]
  by_cases hlt : i < p.allocated
  · obtain ⟨live, hget⟩ := h.exists_live hlt
    rw [if_pos hlt, fetch_eq_ok hget]
    have hfree := h.mem_free_iff i
    rw [hget] at hfree
    cases live <;> simp [hlt, hfree]
  · rw [if_neg hlt]
    simp [hlt]
    rfl

/-- A slot is found in use when it is. -/
theorem Sound.isLive_eq_true_iff (h : p.Sound) : p.isLive i = .ok true ↔ p.IsLive i := by
  rw [isLive]
  by_cases hlt : i < p.allocated
  · obtain ⟨live, hget⟩ := h.exists_live hlt
    rw [if_pos hlt, fetch_eq_ok hget, IsLive, hget, Except.ok.injEq, Option.some.injEq]
  · rw [if_neg hlt]
    refine iff_of_false (by rintro ⟨⟩) fun hlive => hlt (h.lt_allocated hlive)

/-- A slot that is not in use is found so. -/
theorem Sound.isLive_eq_false (h : p.Sound) (hi : ¬ p.IsLive i) : p.isLive i = .ok false := by
  have heq := h.isLive_eq i
  cases hdecide : decide (i < p.allocated ∧ i ∉ p.free) with
  | false => rw [heq, hdecide]
  | true =>
      rw [hdecide] at heq
      exact absurd (h.isLive_eq_true_iff.mp heq) hi

/-! ## Refused references -/

/-- A reference of another pool is foreign. -/
theorem resolve_of_foreign (hr : r.pool ≠ p.id) :
    p.resolve r = throw (.foreignReference p.id r.pool) := by
  simp [resolve, hr]

/-- A reference that points at nothing is refused as such. -/
theorem resolve_of_unpointed (hr : r.pool = p.id) (htarget : r.target = none) :
    p.resolve r = throw .unpointed := by
  simp [resolve, hr, htarget]

/-- A target is stale in a pool that would hand out another one for its slot,
or none. -/
theorem Sound.resolve_of_stale (h : p.Sound) (hr : r.pool = p.id) {target : Target}
    (htarget : r.target = some target)
    (hstale : ¬ (p.IsLive target.index ∧ r = p.referenceTo target.index)) :
    p.resolve r = throw (.staleReference target.index target.generation
      (p.generations.getD target.index 0)) := by
  by_cases hslot : target.epoch ≠ p.epoch ∨ p.allocated ≤ target.index
  · simp only [resolve, hr, htarget, ne_eq, not_true_eq_false, if_false, if_pos hslot]
    rfl
  obtain ⟨hepoch, hlt⟩ : target.epoch = p.epoch ∧ target.index < p.allocated := by
    rw [not_or, not_not] at hslot
    exact ⟨hslot.1, Nat.lt_of_not_le hslot.2⟩
  obtain ⟨live, hlive⟩ := h.exists_live hlt
  simp only [resolve, hr, htarget, ne_eq, not_true_eq_false, if_false, if_neg hslot,
    fetch_eq_ok hlive, lift_ok, pure_bind]
  cases live with
  | false => simp
  | true =>
      have hgeneration : p.generations.getD target.index 0 ≠ target.generation := by
        intro heq
        refine hstale ⟨hlive, ?_⟩
        cases r
        cases target
        simp_all [referenceTo]
      simp only [Bool.not_true, Bool.false_eq_true, if_false, if_pos hgeneration]
      rfl

/-! ## Valid references -/

/-- **A reference is accepted exactly when it is the one to a record in use.** -/
theorem Sound.resolve_eq_pure_iff (h : p.Sound) :
    p.resolve r = pure i ↔ p.IsLive i ∧ r = p.referenceTo i := by
  constructor
  · intro hresolve
    by_cases hr : r.pool = p.id
    · cases htarget : r.target with
      | none =>
          rw [resolve_of_unpointed hr htarget] at hresolve
          cases hresolve
      | some target =>
          by_cases hvalid : p.IsLive target.index ∧ r = p.referenceTo target.index
          · obtain ⟨hlive, rfl⟩ := hvalid
            rw [h.resolve_referenceTo hlive] at hresolve
            cases hresolve
            exact ⟨hlive, rfl⟩
          · rw [h.resolve_of_stale hr htarget hvalid] at hresolve
            cases hresolve
    · rw [resolve_of_foreign hr] at hresolve
      cases hresolve
  · rintro ⟨hlive, rfl⟩
    exact h.resolve_referenceTo hlive

/-- A required reference points at a record in use. -/
theorem Sound.require_eq_ok_iff (h : p.Sound) :
    p.require r = .ok i ↔ p.IsLive i ∧ r = p.referenceTo i := by
  rw [← h.resolve_eq_pure_iff, require, insist]
  constructor
  · intro hrequire
    obtain ⟨outcome, hrun, hvalue⟩ := bind_eq_ok_iff.mp hrequire
    cases outcome with
    | error refusal => cases hvalue
    | ok index =>
        cases hvalue
        exact hrun
  · intro hresolve
    rw [hresolve]
    rfl

/-- A reference that was pointed is the one to a record in use. -/
theorem Sound.eq_of_pointAt (h : p.Sound) {r' : Reference} (hpoint : p.pointAt i r = .ok r') :
    p.IsLive i ∧ r' = p.referenceTo i := by
  obtain ⟨_, hown, hrest⟩ := bind_eq_ok_iff.mp hpoint
  obtain ⟨live, hlive, hrest⟩ := bind_eq_ok_iff.mp hrest
  obtain ⟨_, hused, -⟩ := bind_eq_ok_iff.mp hrest
  obtain rfl := eq_true_of_demand hused
  have hi : p.IsLive i := h.isLive_eq_true_iff.mp hlive
  rw [h.pointAt_eq hi (by simpa using eq_true_of_demand hown)] at hpoint
  exact ⟨hi, (Except.ok.inj hpoint).symm⟩

/-- What a reference cannot be resolved for it does not pass the check for. -/
theorem check_of_refused {refusal : PoolError} (hresolve : p.resolve r = throw refusal) :
    p.check r = throw refusal := by
  rw [check, hresolve]
  rfl

/-- Checking a reference accepts the ones that resolve. -/
theorem check_eq_pure_iff : p.check r = pure () ↔ ∃ i, p.resolve r = pure i := by
  rw [check]
  constructor
  · intro hcheck
    cases hresolve : p.resolve r with
    | error fault =>
        rw [hresolve] at hcheck
        cases hcheck
    | ok outcome =>
        cases outcome with
        | error refusal =>
            rw [hresolve] at hcheck
            cases hcheck
        | ok i => exact ⟨i, rfl⟩
  · rintro ⟨i, hresolve⟩
    rw [hresolve]
    rfl

/-- **A reference passes the check exactly when it is the one to some record in
use**: all valid references to one record are the same. -/
theorem Sound.check_eq_pure_iff (h : p.Sound) :
    p.check r = pure () ↔ ∃ i, p.IsLive i ∧ r = p.referenceTo i := by
  rw [Pool.check_eq_pure_iff]
  exact exists_congr fun i => h.resolve_eq_pure_iff

end Pool

end RecordPool
