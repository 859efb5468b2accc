/-
# Outcomes of checked computations

A checked computation either has a value or is cut short by a fault, and a
computation in `ExceptT` may moreover return an error.  The value of a step is
written `.ok a` in the first case and `pure a` in the second; the lemmas here
move such values through sequences and loops.
-/
import Mathlib
import RecordPool.Checked

namespace RecordPool

variable {α γ σ ε : Type}

/-! ## Sequences -/

/-- After a value the rest of the computation runs on it. -/
@[simp] theorem ok_bind (a : α) (f : α → Checked γ) :
    ((Except.ok a : Checked α) >>= f) = f a := rfl

/-- After a fault nothing runs. -/
@[simp] theorem error_bind (e : Fault) (f : α → Checked γ) :
    ((Except.error e : Checked α) >>= f) = .error e := rfl

/-- A sequence has a value when its first step has one, from which the rest
gives that value. -/
theorem bind_eq_ok_iff {x : Checked α} {f : α → Checked γ} {b : γ} :
    (x >>= f) = .ok b ↔ ∃ a, x = .ok a ∧ f a = .ok b := by
  cases x with
  | error e => simp
  | ok a => simp

/-- A sequence is cut short in its first step or in the rest. -/
theorem bind_eq_error_iff {x : Checked α} {f : α → Checked γ} {e : Fault} :
    (x >>= f) = .error e ↔ x = .error e ∨ ∃ a, x = .ok a ∧ f a = .error e := by
  cases x with
  | error e' => simp
  | ok a => simp

/-- A sequence returns a value when its first step returns one, from which the
rest returns that value. -/
theorem bind_eq_pure_iff {x : ExceptT ε Checked α} {f : α → ExceptT ε Checked γ} {b : γ} :
    (x >>= f) = pure b ↔ ∃ a, x = pure a ∧ f a = pure b := by
  constructor
  · intro h
    cases x with
    | error fault => cases h
    | ok outcome =>
        cases outcome with
        | error refusal => cases h
        | ok a => exact ⟨a, rfl, h⟩
  · rintro ⟨a, rfl, h⟩
    exact h

/-- A choice of the first step, with the same rest in both cases. -/
theorem ite_bind {c : Prop} [Decidable c] (x y : Checked α) (f : α → Checked γ) :
    (if c then x >>= f else y >>= f) = (if c then x else y) >>= f := by
  split <;> rfl

/-- A lifted value is pure. -/
@[simp] theorem lift_ok (a : α) :
    (ExceptT.lift (Except.ok a : Checked α) : ExceptT ε Checked α) = pure a := rfl

/-- A lifted computation that returns a value has that value. -/
theorem eq_ok_of_lift {x : Checked α} {a : α}
    (h : (ExceptT.lift x : ExceptT ε Checked α) = pure a) : x = .ok a := by
  cases x with
  | error fault => cases h
  | ok a' =>
      cases h
      rfl

/-- Renaming errors leaves a value as it is. -/
@[simp] theorem adapt_pure {ε' : Type} (f : ε → ε') (a : α) :
    (pure a : ExceptT ε Checked α).adapt f = pure a := rfl

/-- A value under renamed errors was a value before. -/
theorem eq_pure_of_adapt {ε' : Type} {f : ε → ε'} {x : ExceptT ε Checked α} {a : α}
    (h : x.adapt f = pure a) : x = pure a := by
  cases x with
  | error fault => cases h
  | ok outcome =>
      cases outcome with
      | error refusal => cases h
      | ok a' =>
          cases h
          rfl

/-- Returned errors are the same outcome when they are the same error. -/
theorem throw_eq_throw_iff {e e' : ε} :
    (throw e : ExceptT ε Checked α) = throw e' ↔ e = e' := by
  constructor
  · rintro ⟨⟩
    rfl
  · rintro rfl
    rfl

/-- A returned error is no value. -/
theorem throw_ne_pure {e : ε} {a : α} : (throw e : ExceptT ε Checked α) ≠ pure a := by
  rintro ⟨⟩

/-! ## Preconditions and accesses -/

/-- A precondition that holds lets the computation go on. -/
@[simp] theorem demand_true (violation : Violation) : demand true violation = .ok () := rfl

/-- A precondition that lets the computation go on holds. -/
theorem eq_true_of_demand {condition : Bool} {violation : Violation} {u : Unit}
    (h : demand condition violation = .ok u) : condition = true := by
  cases condition with
  | false => cases h
  | true => rfl

/-- An element that is there is fetched. -/
theorem fetch_eq_ok {xs : Array α} {i : Nat} {x : α} (h : xs[i]? = some x) :
    fetch xs i = .ok x := by
  rw [fetch, h]
  rfl

/-- A list element that is there is fetched. -/
theorem fetchAt_eq_ok {xs : List α} {i : Nat} {x : α} (h : xs[i]? = some x) :
    fetchAt xs i = .ok x := by
  rw [fetchAt, h]
  rfl

/-! ## Avoiding faults -/

/-- The fault lies with the program: it is no precondition that a caller
broke. -/
def Fault.IsInternal (fault : Fault) : Prop :=
  ∀ violation, fault ≠ .broken violation

/-- The computation is not cut short by the fault. -/
def Avoids (fault : Fault) (x : Checked α) : Prop :=
  x ≠ .error fault

/-- The computation does not look outside a sequence. -/
def InBounds (x : Checked α) : Prop :=
  x ≠ .error .bounds

variable {fault : Fault}

/-- A computation that has a value is not cut short. -/
theorem avoids_ok (a : α) : Avoids fault (.ok a : Checked α) := by
  rintro ⟨⟩

/-- A computation whose value is known is not cut short. -/
theorem avoids_of_eq_ok {x : Checked α} {a : α} (h : x = .ok a) : Avoids fault x :=
  h ▸ avoids_ok a

/-- A broken precondition is no fault of the program. -/
theorem avoids_violate (hfault : fault.IsInternal) (violation : Violation) :
    Avoids fault (violate violation : Checked α) := by
  intro h
  apply hfault violation
  exact (Except.error.inj h).symm

/-- Whether a precondition holds or not, it is no fault of the program. -/
theorem avoids_demand (hfault : fault.IsInternal) (condition : Bool) (violation : Violation) :
    Avoids fault (demand condition violation) := by
  cases condition with
  | false => exact avoids_violate hfault violation
  | true => exact avoids_ok ()

/-- A sequence avoids a fault when its steps do. -/
theorem Avoids.bind {x : Checked α} {f : α → Checked γ} (hx : Avoids fault x)
    (hf : ∀ a, x = .ok a → Avoids fault (f a)) : Avoids fault (x >>= f) := by
  cases x with
  | error fault' =>
      intro h
      apply hx
      exact congrArg Except.error (Except.error.inj h)
  | ok a => exact hf a rfl

/-! ## Machine arithmetic -/

/-- A product within the machine range. -/
theorem mulSize_eq_ok {a b : Nat} (h : a * b < sizeBound) : mulSize a b = .ok (a * b) := by
  rw [mulSize, if_pos h]
  rfl

/-- A product beyond the machine range. -/
theorem mulSize_eq_error {a b : Nat} (h : sizeBound ≤ a * b) : mulSize a b = .error .arithmetic := by
  rw [mulSize, if_neg (by omega)]
  rfl

/-- A sum within the machine range. -/
theorem addSize_eq_ok {a b : Nat} (h : a + b < sizeBound) : addSize a b = .ok (a + b) := by
  rw [addSize, if_pos h]
  rfl

/-- A difference that is not negative. -/
theorem subSize_eq_ok {a b : Nat} (h : b ≤ a) : subSize a b = .ok (a - b) := by
  rw [subSize, if_pos h]
  rfl

/-- A sum of counts within the machine range. -/
theorem addCount_eq_ok {a b : Nat} (h : a + b < countBound) : addCount a b = .ok (a + b) := by
  rw [addCount, if_pos h]
  rfl

/-- A sum of counts that is given is the sum. -/
theorem eq_of_addCount {a b c : Nat} (h : addCount a b = .ok c) : c = a + b := by
  unfold addCount at h
  split at h
  · cases h
    rfl
  · cases h

/-! ## Loops -/

/-- A loop over a list has the list of the values of its steps. -/
theorem mapM_eq_pure {m : Type → Type} [Monad m] [LawfulMonad m] {f : α → m γ} {g : α → γ}
    {xs : List α} (h : ∀ x ∈ xs, f x = pure (g x)) : xs.mapM f = pure (xs.map g) := by
  induction xs with
  | nil => rfl
  | cons x xs ih =>
      rw [List.mapM_cons, h x List.mem_cons_self, pure_bind,
        ih fun y hy => h y (List.mem_cons_of_mem x hy), pure_bind]
      rfl

/-- A checked loop over a list has the list of the values of its steps. -/
theorem mapM_eq_ok {f : α → Checked γ} {g : α → γ} {xs : List α}
    (h : ∀ x ∈ xs, f x = .ok (g x)) : xs.mapM f = .ok (xs.map g) :=
  mapM_eq_pure h

/-- A checked loop over a list has one value for each element. -/
theorem length_of_mapM_eq_ok {f : α → Checked γ} {xs : List α} {ys : List γ}
    (h : xs.mapM f = .ok ys) : ys.length = xs.length := by
  induction xs generalizing ys with
  | nil =>
      cases h
      rfl
  | cons x xs ih =>
      rw [List.mapM_cons] at h
      obtain ⟨y, -, hrest⟩ := bind_eq_ok_iff.mp h
      obtain ⟨zs, hzs, hput⟩ := bind_eq_ok_iff.mp hrest
      cases hput
      rw [List.length_cons, List.length_cons, ih hzs]

/-- A checked loop over `0, …, n - 1` has the value of each step in its place. -/
theorem getElem?_of_mapM_range_eq_ok {f : Nat → Checked γ} {n d : Nat} {ys : List γ}
    (h : (List.range n).mapM f = .ok ys) (hd : d < n) : ∃ y, ys[d]? = some y ∧ f d = .ok y := by
  induction n generalizing ys with
  | zero => omega
  | succ n ih =>
      rw [List.range_succ, List.mapM_append] at h
      obtain ⟨before, hbefore, hrest⟩ := bind_eq_ok_iff.mp h
      obtain ⟨last, hlast, hput⟩ := bind_eq_ok_iff.mp hrest
      cases hput
      rw [List.mapM_cons] at hlast
      obtain ⟨y, hy, hnil⟩ := bind_eq_ok_iff.mp hlast
      cases hnil
      have hlength : before.length = n := by
        rw [length_of_mapM_eq_ok hbefore, List.length_range]
      rcases Nat.lt_or_ge d n with hlt | hge
      · rw [List.getElem?_append_left (by omega)]
        exact ih hbefore hlt
      · obtain rfl : d = n := by omega
        refine ⟨y, ?_, hy⟩
        rw [List.getElem?_append_right (by omega), hlength, Nat.sub_self]
        rfl

/-- A loop over `0, …, n - 1` whose steps succeed and keep an invariant
succeeds and ends with the invariant. -/
theorem foldlM_range_ok {step : σ → Nat → Checked σ} (Inv : Nat → σ → Prop) {n : Nat} {s : σ}
    (start : Inv 0 s)
    (keep : ∀ d < n, ∀ s, Inv d s → ∃ s', step s d = .ok s' ∧ Inv (d + 1) s') :
    ∃ s', (List.range n).foldlM step s = .ok s' ∧ Inv n s' := by
  induction n with
  | zero => exact ⟨s, rfl, start⟩
  | succ n ih =>
      obtain ⟨s₁, hfold, hinv⟩ := ih fun d hd => keep d (by omega)
      obtain ⟨s₂, hstep, hinv'⟩ := keep n (by omega) s₁ hinv
      refine ⟨s₂, ?_, hinv'⟩
      rw [List.range_succ, List.foldlM_append, hfold, ok_bind, List.foldlM_cons, hstep, ok_bind]
      rfl

end RecordPool
