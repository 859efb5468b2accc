/-
# Arrays that grow in step

A single array that is asked for one record after the other grows through a
fixed sequence of capacities, so that of two such arrays one is ahead of the
other.  Asked for the same records, both grant them, both refuse, or both
leave the machine range: the one behind never grows beyond the other.
-/
import RecordPool.Proofs.Store.Growth

namespace RecordPool

variable {β F : Type} [Memory β F]

namespace Store

/-! ## The capacities of an array -/

/-- The room that a full array with room for `capacity` records grows to. -/
def nextCapacity (limit capacity : Nat) : Nat :=
  min (max (max (doubleCountCapped capacity) leastGrowth) (capacity + 1)) limit

/-- Growing leads from one capacity to the other. -/
def Leads (limit : Nat) : Nat → Nat → Prop :=
  Relation.ReflTransGen fun c d => d = nextCapacity limit c

variable {limit c d : Nat}

/-- Below the limit an array grows. -/
theorem lt_nextCapacity (h : c < limit) : c < nextCapacity limit c := by
  unfold nextCapacity
  omega

/-- An array does not grow beyond the limit. -/
theorem nextCapacity_le (limit c : Nat) : nextCapacity limit c ≤ limit :=
  Nat.min_le_right _ _

/-- Growing never shrinks an array and keeps it within the limit. -/
theorem Leads.bounds (h : Leads limit c d) (hc : c ≤ limit) : c ≤ d ∧ d ≤ limit := by
  induction h with
  | refl => exact ⟨Nat.le_refl c, hc⟩
  | @tail d e hlead hnext ih =>
      have hle := nextCapacity_le limit d
      have hgrow : d = limit ∨ d < nextCapacity limit d :=
        (Nat.eq_or_lt_of_le ih.2).imp_right lt_nextCapacity
      have hlimit : d = limit → nextCapacity limit d = limit := by
        rintro rfl
        unfold nextCapacity
        omega
      omega

/-! ## Two arrays -/

/-- The stores have one plan and the same room, whatever their memory holds. -/
structure Resembles (s t : Store β) : Prop where
  blockSize : t.blockSize = s.blockSize
  limit : t.limit = s.limit
  recordSize : t.recordSize = s.recordSize
  capacity : t.capacity = s.capacity

/-- The stores are single arrays of records of one size that follow one plan;
both have grown from its initial room, and `s'` is not behind `s`. -/
structure Trails (plan : StorePlan) (s s' : Store β) : Prop where
  single : s.blockSize = none
  single' : s'.blockSize = none
  limit : s.limit = plan.limit
  limit' : s'.limit = plan.limit
  recordSize : s'.recordSize = s.recordSize
  initial_le : plan.initial ≤ plan.limit
  begun : Leads plan.limit plan.initial s.capacity
  ahead : Leads plan.limit s.capacity s'.capacity

variable {plan : StorePlan} {n : Nat} {s s' t t' : Store β}

namespace Trails

/-- The array ahead has at least as much room, within the limit. -/
theorem capacity_le (h : Trails plan s s') :
    s.capacity ≤ s'.capacity ∧ s'.capacity ≤ plan.limit :=
  h.ahead.bounds (h.begun.bounds h.initial_le).2

/-- Only the plan and the room of a store matter. -/
theorem congr (h : Trails plan s s') (ht : s.Resembles t) (ht' : s'.Resembles t') :
    Trails plan t t' where
  single := ht.blockSize.trans h.single
  single' := ht'.blockSize.trans h.single'
  limit := ht.limit.trans h.limit
  limit' := ht'.limit.trans h.limit'
  recordSize := by rw [ht.recordSize, ht'.recordSize, h.recordSize]
  initial_le := h.initial_le
  begun := by
    rw [ht.capacity]
    exact h.begun
  ahead := by
    rw [ht.capacity, ht'.capacity]
    exact h.ahead

/-- An array that has not grown is behind every other one. -/
theorem of_initial (h : Trails plan s s) (h' : Trails plan t t) (hcap : s.capacity = plan.initial)
    (hsize : t.recordSize = s.recordSize) : Trails plan s t where
  single := h.single
  single' := h'.single
  limit := h.limit
  limit' := h'.limit
  recordSize := hsize
  initial_le := h.initial_le
  begun := h.begun
  ahead := hcap ▸ h'.begun

end Trails

/-- The memory of a single array is within the machine range. -/
theorem Sound.capacity_mul_lt (h : s.Sound) (hmode : s.blockSize = none) :
    s.capacity * s.recordSize < sizeBound := by
  have hone := h.single hmode
  have hroom : s.blockRoom = s.capacity := by
    rw [blockRoom, hmode, Option.getD_none]
  exact hroom ▸ (h.shaped _ (Array.getElem_mem (by omega : 0 < s.blocks.size))).bound

/-- A full single array grows to its next capacity. -/
theorem Sound.reserve_next (h : s.Sound) (hmode : s.blockSize = none)
    (hlimit : s.capacity < s.limit)
    (hfits : nextCapacity s.limit s.capacity * s.recordSize < sizeBound) :
    ∃ t, s.reserve (s.capacity + 1) = .ok (.ok true, t) ∧ s.Extends t ∧
      t.capacity = nextCapacity s.limit s.capacity := by
  obtain ⟨grown, henlarge, hext, hroom⟩ :=
    h.enlarge_single hmode (Nat.lt_succ_self _) hlimit hfits
  obtain ⟨hreserve, hext'⟩ := hext.reserve_eq (Nat.lt_succ_self _) hlimit henlarge
  exact ⟨_, hreserve, hext', hroom⟩

/-- Both stores were extended for `n` records and are in step. -/
structure Grants (plan : StorePlan) (n : Nat) (s s' t t' : Store β) : Prop where
  extends_first : s.Extends t
  extends_second : s'.Extends t'
  room_first : n ≤ t.capacity
  room_second : n ≤ t'.capacity
  trails : Trails plan t t'

/-- An extended array is in step with whatever its new capacity leads to. -/
theorem Trails.of_extends (h : Trails plan s s') (hext : s.Extends t) (hext' : s'.Extends t')
    (hbegun : Leads plan.limit plan.initial t.capacity)
    (hahead : Leads plan.limit t.capacity t'.capacity) : Trails plan t t' where
  single := hext.blockSize.trans h.single
  single' := hext'.blockSize.trans h.single'
  limit := hext.limit.trans h.limit
  limit' := hext'.limit.trans h.limit'
  recordSize := by rw [hext'.recordSize, hext.recordSize, h.recordSize]
  initial_le := h.initial_le
  begun := hbegun
  ahead := hahead

/-- How both stores take a request for `n` records: they grant it, refuse it or
leave the machine range. -/
inductive Reserved (plan : StorePlan) (n : Nat) (s s' : Store β) : Prop where
  | granted {grown grown' : Bool} {t t' : Store β} (first : s.reserve n = .ok (.ok grown, t))
      (second : s'.reserve n = .ok (.ok grown', t')) (grants : Grants plan n s s' t t')
  | refused {refusal : PoolError} (first : s.reserve n = .ok (.error refusal, s))
      (second : s'.reserve n = .ok (.error refusal, s'))
  | overflow (first : s.reserve n = .error .arithmetic) (second : s'.reserve n = .error .arithmetic)

/-- Full arrays with the same room grow alike, if the memory allows. -/
theorem Trails.reserved_level (h : Trails plan s s') (hs : s.Sound) (hs' : s'.Sound)
    (hgrows : s.capacity < plan.limit) (heq : s.capacity = s'.capacity) :
    Reserved plan (s.capacity + 1) s s' := by
  have hlimit := h.limit
  have hlimit' := h.limit'
  have hless := lt_nextCapacity hgrows
  by_cases hfits : nextCapacity plan.limit s.capacity * s.recordSize < sizeBound
  · obtain ⟨t, hreserve, hext, hcap⟩ :=
      hs.reserve_next h.single (by omega) (by rw [hlimit]; exact hfits)
    obtain ⟨t', hreserve', hext', hcap'⟩ := hs'.reserve_next h.single' (by omega)
      (by rw [hlimit', h.recordSize, ← heq]; exact hfits)
    rw [hlimit] at hcap
    rw [← heq] at hreserve' hcap'
    rw [hlimit'] at hcap'
    refine .granted hreserve hreserve' ⟨hext, hext', by omega, by omega, ?_⟩
    refine h.of_extends hext hext' (hcap ▸ h.begun.tail rfl) ?_
    rw [hcap, hcap']
    exact .refl
  · have hover : sizeBound ≤ nextCapacity plan.limit s.capacity * s.recordSize := by omega
    have hblock : s.blockFor (s.capacity + 1) = nextCapacity plan.limit s.capacity := by
      rw [blockFor, h.single, Option.getD_none, ← hlimit]
      rfl
    have hblock' : s'.blockFor (s.capacity + 1) = nextCapacity plan.limit s.capacity := by
      rw [blockFor, h.single', Option.getD_none, ← hlimit', heq]
      rfl
    exact .overflow
      (hs.reserve_of_overflow (by omega) (by omega) (by rw [hblock]; exact hover))
      (hs'.reserve_of_overflow (by omega) (by omega) (by rw [hblock', h.recordSize]; exact hover))

/-- A full array that is behind grows to at most the memory that the other one
has. -/
theorem Trails.reserved_behind (h : Trails plan s s') (hs : s.Sound) (hs' : s'.Sound)
    (hgrows : s.capacity < plan.limit)
    (hlead : Leads plan.limit (nextCapacity plan.limit s.capacity) s'.capacity) :
    Reserved plan (s.capacity + 1) s s' := by
  have hlimit := h.limit
  have hless := lt_nextCapacity hgrows
  have hreach := hlead.bounds (nextCapacity_le plan.limit s.capacity)
  have hfits : nextCapacity plan.limit s.capacity * s.recordSize < sizeBound := by
    have hmul := Nat.mul_le_mul_right s.recordSize hreach.1
    have hbound := hs'.capacity_mul_lt h.single'
    rw [h.recordSize] at hbound
    omega
  obtain ⟨t, hreserve, hext, hcap⟩ :=
    hs.reserve_next h.single (by omega) (by rw [hlimit]; exact hfits)
  rw [hlimit] at hcap
  refine .granted hreserve (reserve_of_le (by omega))
    ⟨hext, hs'.extends_refl, by omega, by omega, ?_⟩
  refine h.of_extends hext hs'.extends_refl (hcap ▸ h.begun.tail rfl) ?_
  rw [hcap]
  exact hlead

/-- **Arrays in step answer requests alike.** -/
theorem Trails.reserved (h : Trails plan s s') (hs : s.Sound) (hs' : s'.Sound)
    (hn : n ≤ s.capacity) : Reserved plan (n + 1) s s' := by
  obtain ⟨hle, hle'⟩ := h.capacity_le
  have hlimit := h.limit
  have hlimit' := h.limit'
  by_cases hroom : n + 1 ≤ s.capacity
  · exact .granted (reserve_of_le hroom) (reserve_of_le (by omega))
      ⟨hs.extends_refl, hs'.extends_refl, hroom, by omega, h⟩
  obtain rfl : n = s.capacity := by omega
  by_cases hfull : plan.limit < s.capacity + 1
  · have hrefused : s.reserve (s.capacity + 1) =
        .ok (.error (.capacityExceeded (s.capacity + 1) plan.limit), s) := by
      rw [reserve_of_limit_lt (by omega) (by omega), hlimit]
    refine .refused hrefused ?_
    rw [reserve_of_limit_lt (by omega) (by omega), hlimit']
  have hgrows : s.capacity < plan.limit := by omega
  rcases h.ahead.cases_head with heq | ⟨_, rfl, hlead⟩
  · exact h.reserved_level hs hs' hgrows heq
  · exact h.reserved_behind hs hs' hgrows hlead

/-! ## New arrays -/

/-- A store that was made as a single array. -/
theorem eq_of_make_single {recordSize initial : Nat}
    (hmake : make recordSize (.single initial) = .ok s) :
    s.blockSize = none ∧ s.capacity = initial ∧ s.limit = indexLimit := by
  obtain ⟨shift, mask, -, hmade⟩ := make_eq_ok_iff.mp hmake
  cases hmade with
  | single _ _ heq =>
      rw [heq]
      exact ⟨rfl, rfl, rfl⟩
  | blocks hmode _ => cases hmode

/-- A new single array is at the beginning of its course. -/
theorem trails_of_make {recordSize initial : Nat} (hinitial : initial ≤ indexLimit)
    (hmake : make recordSize (.single initial) = .ok s) : Trails (.single initial) s s := by
  obtain ⟨hmode, hcap, hlimit⟩ := eq_of_make_single hmake
  exact ⟨hmode, hmode, hlimit, hlimit, rfl, hinitial, hcap ▸ .refl, .refl⟩

end Store

end RecordPool
