/-
# Pairs of computations

Two checked computations are alike if both have values, related in a given
way, or both are cut short by the same fault.  The relation goes through
sequences and loops, so that two runs can be compared step by step.
-/
import RecordPool.Proofs.Outcome

namespace RecordPool

variable {α α' γ γ' σ σ' : Type}

/-- Both computations have values that `R` relates, or the same fault. -/
def Alike (R : α → α' → Prop) : Checked α → Checked α' → Prop
  | .ok a, .ok a' => R a a'
  | .error e, .error e' => e = e'
  | .ok _, .error _ => False
  | .error _, .ok _ => False

variable {R : α → α' → Prop} {S : γ → γ' → Prop} {x : Checked α} {x' : Checked α'}

/-- Related values are alike. -/
theorem alike_ok {a : α} {a' : α'} (h : R a a') : Alike R (.ok a) (.ok a') := h

/-- Related values are alike, written as pure computations. -/
theorem alike_pure {a : α} {a' : α'} (h : R a a') : Alike R (pure a) (pure a') := h

/-- A fault is like itself. -/
theorem alike_error (e : Fault) : Alike R (.error e) (.error e) := rfl

/-- A computation is like itself. -/
theorem alike_refl (x : Checked α) : Alike Eq x x := by
  cases x with
  | error e => exact alike_error e
  | ok a => exact alike_ok rfl

/-- Computations with equal values or the same fault are equal. -/
theorem Alike.eq {x y : Checked α} (h : Alike Eq x y) : x = y := by
  cases x with
  | error e =>
      cases y with
      | error e' => exact congrArg Except.error h
      | ok b => exact h.elim
  | ok a =>
      cases y with
      | error e' => exact h.elim
      | ok b => exact congrArg Except.ok h

/-- The values of computations that are alike are related. -/
theorem Alike.of_eq_ok {a : α} {a' : α'} (h : Alike R x x') (hx : x = .ok a)
    (hx' : x' = .ok a') : R a a' := by
  subst hx hx'
  exact h

/-- Values that are related in one way, and are those of the computations, may be
related in another. -/
theorem Alike.mono_of_ok {R' : α → α' → Prop} (h : Alike R x x')
    (himp : ∀ a a', x = .ok a → R a a' → R' a a') : Alike R' x x' := by
  cases x with
  | error e =>
      cases x' with
      | error e' => exact h
      | ok a' => exact h.elim
  | ok a =>
      cases x' with
      | error e' => exact h.elim
      | ok a' => exact himp a a' rfl h

/-- Values that are related in one way are so in a weaker one. -/
theorem Alike.mono {R' : α → α' → Prop} (h : Alike R x x') (himp : ∀ a a', R a a' → R' a a') :
    Alike R' x x' :=
  h.mono_of_ok fun a a' _ => himp a a'

/-- Sequences are alike when their first steps are, and their rests on related
values. -/
theorem Alike.bind {f : α → Checked γ} {f' : α' → Checked γ'} (h : Alike R x x')
    (hf : ∀ a a', R a a' → Alike S (f a) (f' a')) : Alike S (x >>= f) (x' >>= f') := by
  cases x with
  | error e =>
      cases x' with
      | error e' => exact h
      | ok a' => exact h.elim
  | ok a =>
      cases x' with
      | error e' => exact h.elim
      | ok a' => exact hf a a' h

/-- Sequences with the same first step are alike when their rests are. -/
theorem alike_bind (x : Checked α) {f : α → Checked γ} {f' : α → Checked γ'}
    (hf : ∀ a, x = .ok a → Alike S (f a) (f' a)) : Alike S (x >>= f) (x >>= f') := by
  cases x with
  | error e => rfl
  | ok a => exact hf a rfl

/-- Loops over `0, …, n - 1` are alike when their steps keep a relation. -/
theorem alike_foldlM_range {step : σ → Nat → Checked σ} {step' : σ' → Nat → Checked σ'}
    (Inv : Nat → σ → σ' → Prop) {n : Nat} {s : σ} {s' : σ'} (start : Inv 0 s s')
    (keep : ∀ d < n, ∀ s s', Inv d s s' → Alike (Inv (d + 1)) (step s d) (step' s' d)) :
    Alike (Inv n) ((List.range n).foldlM step s) ((List.range n).foldlM step' s') := by
  induction n with
  | zero => exact alike_pure start
  | succ n ih =>
      rw [List.range_succ, List.foldlM_append, List.foldlM_append]
      refine (ih fun d hd => keep d (by omega)).bind fun s s' hinv => ?_
      refine (keep n (by omega) s s' hinv).bind fun s s' hinv' => ?_
      exact alike_pure hinv'

/-! ## Faults that set computations apart -/

/-- The computations are alike, unless a fault of some sort cuts one of them
short. -/
def AlikeUnless (D : Fault → Prop) (R : α → α' → Prop) (x : Checked α) (x' : Checked α') : Prop :=
  Alike R x x' ∨ (∃ e, x = .error e ∧ D e) ∨ ∃ e, x' = .error e ∧ D e

/-- A fault that cuts the first step short cuts the sequence short. -/
theorem AlikeUnless.bind {D : Fault → Prop} {f : α → Checked γ} {f' : α' → Checked γ'}
    (h : AlikeUnless D R x x') (hf : ∀ a a', R a a' → AlikeUnless D S (f a) (f' a')) :
    AlikeUnless D S (x >>= f) (x' >>= f') := by
  rcases h with halike | ⟨e, rfl, he⟩ | ⟨e, rfl, he⟩
  · cases x with
    | error e =>
        cases x' with
        | error e' => exact Or.inl halike
        | ok a' => exact halike.elim
    | ok a =>
        cases x' with
        | error e' => exact halike.elim
        | ok a' => exact hf a a' halike
  · exact Or.inr (Or.inl ⟨e, rfl, he⟩)
  · exact Or.inr (Or.inr ⟨e, rfl, he⟩)

end RecordPool
