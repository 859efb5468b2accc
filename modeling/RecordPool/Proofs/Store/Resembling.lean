/-
# Stores that grow alike

A full store that is asked for one more record grows once: a single array to
its next capacity, and blocks by one.  So what a store does with such a request
is told by its plan and its room; two stores that have these in common grant
it, refuse it or leave the machine range together, whatever their memory holds.
-/
import RecordPool.Proofs.Store.Strict
import RecordPool.Proofs.Store.Trailing

namespace RecordPool

variable {β F : Type} [Memory β F]

namespace Store

variable {s s' t t' : Store β} {size required fuel n j : Nat}

/-! ## One growth -/

/-- Blocks are appended up to the first whole number of them with the room that
is asked for. -/
theorem capacity_of_appendUntil (hdvd : size ∣ 2 ^ 31) (hrequired : required ≤ 2 ^ 31)
    (hfuel : required ≤ s.capacity + fuel) (hwhole : size ∣ s.capacity)
    (hmask : s.mask + 1 = size) (happend : appendUntil required fuel s = .ok s') :
    IsLeast {room | size ∣ room ∧ max s.capacity required ≤ room} s'.capacity := by
  have hpos : 0 < size := Nat.pos_of_dvd_of_pos hdvd (by decide)
  induction fuel generalizing s with
  | zero =>
      cases happend
      exact ⟨⟨hwhole, by omega⟩, fun room hroom => (Nat.le_max_left _ _).trans hroom.2⟩
  | succ fuel ih =>
      unfold appendUntil at happend
      split at happend
      · rename_i hless
        obtain ⟨s₁, hblock, hrest⟩ := bind_eq_ok_iff.mp happend
        obtain ⟨size', hcount, hmake⟩ := bind_eq_ok_iff.mp hblock
        obtain rfl : size' = size := (eq_of_addCount hcount).trans hmask
        obtain ⟨block, -, hput⟩ := bind_eq_ok_iff.mp hmake
        have hfit := StorePlan.add_le_of_dvd_of_lt hwhole hdvd (by omega)
        have hmask₁ : s₁.mask + 1 = size' := by
          cases hput
          exact hmask
        have hcap : s₁.capacity = s.capacity + size' := by
          cases hput
          show addCountCapped s.capacity size' = s.capacity + size'
          unfold addCountCapped countBound
          omega
        obtain ⟨hmem, hleast⟩ :=
          ih (by omega) (hcap ▸ Nat.dvd_add_self_right.mpr hwhole) hmask₁ hrest
        refine ⟨⟨hmem.1, by have := hmem.2; omega⟩, fun room hroom => hleast ⟨hroom.1, ?_⟩⟩
        -- a whole number of blocks beyond the capacity has room for the next one
        have hnext := StorePlan.add_le_of_dvd_of_lt hwhole hroom.1 (by have := hroom.2; omega)
        have := hroom.2
        omega
      · cases happend
        exact ⟨⟨hwhole, by omega⟩, fun room hroom => (Nat.le_max_left _ _).trans hroom.2⟩

/-- The full store `s` grew to `t`, a single array to its next capacity and
blocks by one. -/
structure Grows (s t : Store β) : Prop where
  blockSize : t.blockSize = s.blockSize
  limit : t.limit = s.limit
  lt_limit : s.capacity < s.limit
  growths : t.growths = s.growths + 1
  single : s.blockSize = none → t.capacity = nextCapacity s.limit s.capacity
  blocks : ∀ size, s.blockSize = some size → t.capacity = s.capacity + size

/-- A full store that is asked for one more record grows once. -/
theorem Sound.grows_of_reserve (h : s.Sound) {grew : Bool}
    (hreserve : s.reserve (s.capacity + 1) = .ok (.ok grew, t)) : s.Grows t := by
  have hlimit_le := h.limit_le
  have hindex : indexLimit < 2 ^ 31 := by decide
  have hext : s.Extends t := by
    rcases h.reserve_cases (s.capacity + 1) with ⟨_, _, heq, hext, -⟩ | ⟨heq, -⟩ | ⟨heq, -⟩ <;>
      rw [heq] at hreserve <;> cases hreserve
    exact hext
  unfold reserve at hreserve
  split at hreserve
  · omega
  split at hreserve
  · cases hreserve
  obtain ⟨grown, henlarge, hput⟩ := bind_eq_ok_iff.mp hreserve
  cases hput
  refine ⟨hext.blockSize, hext.limit, by omega, congrArg (· + 1) (growths_of_enlarge henlarge),
    fun hmode => ?_, fun size hmode => ?_⟩
  · rw [enlarge, hmode] at henlarge
    obtain ⟨block, -, hrest⟩ := bind_eq_ok_iff.mp henlarge
    obtain ⟨block', -, hput⟩ := bind_eq_ok_iff.mp hrest
    cases hput
    rfl
  · rw [enlarge, hmode] at henlarge
    have hdvd := h.divides size hmode
    have hpos : 0 < size := Nat.pos_of_dvd_of_pos hdvd (by decide)
    have hfull : size ∣ s.capacity := Dvd.intro_left _ (h.size_mul_eq hmode)
    obtain ⟨⟨hwhole, hroom⟩, hleast⟩ :=
      capacity_of_appendUntil hdvd (by omega) (by omega) hfull (h.splits size hmode).succ_mask
        henlarge
    have hnext := StorePlan.add_le_of_dvd_of_lt hfull hwhole (by omega)
    exact Nat.le_antisymm (hleast ⟨Nat.dvd_add_self_right.mpr hfull, by omega⟩) hnext

/-! ## Stores of one plan and room -/

/-- Writing a record leaves the plan and the room of a store alone. -/
theorem resembles_setRecord (s : Store β) (i : Nat) (cells : List β) :
    s.Resembles (s.setRecord i cells) :=
  ⟨rfl, rfl, rfl, rfl⟩

namespace Resembles

/-- Whatever is written to them, they keep their plan and their room. -/
theorem setRecord (h : s.Resembles t) (i : Nat) (cells cells' : List β) :
    (s.setRecord i cells).Resembles (t.setRecord i cells') :=
  ⟨h.blockSize, h.limit, h.recordSize, h.capacity⟩

/-- The stores make blocks of one size. -/
theorem blockFor_eq (h : s.Resembles s') (required : Nat) :
    s'.blockFor required = s.blockFor required := by
  rw [blockFor, blockFor, grownCapacity, grownCapacity, h.blockSize, h.capacity, h.limit]

/-- The stores grow to the same room. -/
theorem of_grows (h : s.Resembles s') (hgrows : s.Grows t) (hgrows' : s'.Grows t')
    (hsize : t'.recordSize = t.recordSize) : t.Resembles t' where
  blockSize := by rw [hgrows'.blockSize, hgrows.blockSize, h.blockSize]
  limit := by rw [hgrows'.limit, hgrows.limit, h.limit]
  recordSize := hsize
  capacity := by
    cases hmode : s.blockSize with
    | none =>
        rw [hgrows.single hmode, hgrows'.single (h.blockSize.trans hmode), h.limit, h.capacity]
    | some size =>
        rw [hgrows.blocks size hmode, hgrows'.blocks size (h.blockSize.trans hmode), h.capacity]

end Resembles

/-- How both stores take a request for `n` records: they grant it and have the
same room then, they refuse it, or they leave the machine range. -/
inductive TakenAlike (n : Nat) (s s' : Store β) : Prop where
  | granted {grew grew' : Bool} {t t' : Store β} (first : s.reserve n = .ok (.ok grew, t))
      (second : s'.reserve n = .ok (.ok grew', t')) (extends_first : s.Extends t)
      (extends_second : s'.Extends t') (resembles : t.Resembles t') (room : n ≤ t.capacity)
  | refused {refusal : PoolError} (first : s.reserve n = .ok (.error refusal, s))
      (second : s'.reserve n = .ok (.error refusal, s'))
  | overflow (first : s.reserve n = .error .arithmetic) (second : s'.reserve n = .error .arithmetic)

/-- **Stores of one plan and room** take a request for one more record alike. -/
theorem Resembles.reserve (h : s.Resembles s') (hs : s.Sound) (hs' : s'.Sound)
    (hn : n ≤ s.capacity) : TakenAlike (n + 1) s s' := by
  have hcap := h.capacity
  have hlimit := h.limit
  by_cases hroom : n + 1 ≤ s.capacity
  · exact .granted (reserve_of_le hroom) (reserve_of_le (by omega)) hs.extends_refl
      hs'.extends_refl h hroom
  obtain rfl : n = s.capacity := by omega
  by_cases hfull : s.limit < s.capacity + 1
  · refine .refused (reserve_of_limit_lt (by omega) hfull) ?_
    rw [← hlimit]
    exact reserve_of_limit_lt (by omega) (by omega)
  by_cases hfits : s.blockFor (s.capacity + 1) * s.recordSize < sizeBound
  · have hfits' : s'.blockFor (s.capacity + 1) * s'.recordSize < sizeBound := by
      rw [h.blockFor_eq, h.recordSize]
      exact hfits
    obtain ⟨grown, henlarge, hext, hroom⟩ := hs.enlarge_eq (by omega) (by omega) hfits
    obtain ⟨grown', henlarge', hext', -⟩ := hs'.enlarge_eq (by omega) (by omega) hfits'
    obtain ⟨hreserve, hext⟩ := hext.reserve_eq (by omega) (by omega) henlarge
    obtain ⟨hreserve', hext'⟩ := hext'.reserve_eq (by omega) (by omega) henlarge'
    have hsize := hext'.recordSize.trans (h.recordSize.trans hext.recordSize.symm)
    have hgrows' := hs'.grows_of_reserve (hcap.symm ▸ hreserve')
    exact .granted hreserve hreserve' hext hext'
      (h.of_grows (hs.grows_of_reserve hreserve) hgrows' hsize) hroom
  · have hover : sizeBound ≤ s.blockFor (s.capacity + 1) * s.recordSize := by omega
    have hover' : sizeBound ≤ s'.blockFor (s.capacity + 1) * s'.recordSize := by
      rw [h.blockFor_eq, h.recordSize]
      exact hover
    exact .overflow (hs.reserve_of_overflow (by omega) (by omega) hover)
      (hs'.reserve_of_overflow (by omega) (by omega) hover')

end Store

end RecordPool
