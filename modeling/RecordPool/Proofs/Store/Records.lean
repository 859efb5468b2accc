/-
# Stores as arrays of records

However a store is laid out and grows, it acts as one array of records: each
index has a slot of its own inside some block, a record reads as it was last
written or copied, or blank, and no operation touches another record.
-/
import RecordPool.Proofs.Store.Growth

namespace RecordPool

variable {β F : Type} [Memory β F]

/-- A block has room for as many records as it was shaped for. -/
theorem Block.Shaped.capacity_eq {b : Block β} {records size : Nat} (h : b.Shaped records size)
    (hpos : 0 < size) : b.capacity = .ok records := by
  rw [capacity, h.cells, h.recordSize, divSize, if_neg (by omega), Nat.mul_div_cancel _ hpos]
  rfl

namespace Store

/-! ## Arrays of records -/

/-- What can be asked of a store after it was made. -/
inductive Operation (β : Type) where
  /-- Make room for `required` records. -/
  | reserve (required : Nat)
  /-- Write a whole record. -/
  | write (index : RecordIndex) (cells : List β)
  /-- Copy a record over another one. -/
  | copy (source target : RecordIndex)

/-- What an operation does to an array of records. -/
def Operation.act (records : RecordIndex → List β) : Operation β → RecordIndex → List β
  | reserve _ => records
  | write index cells => Function.update records index cells
  | copy source target => Function.update records target (records source)

/-- The array of records after some operations.  At first every record is
blank, and there is no end of them. -/
def replay (recordSize : Nat) (operations : List (Operation β)) : RecordIndex → List β :=
  operations.foldl Operation.act fun _ => List.replicate recordSize Memory.blank

/-- The last operation acts on what the others left. -/
theorem replay_concat (recordSize : Nat) (operations : List (Operation β))
    (operation : Operation β) :
    replay recordSize (operations ++ [operation]) =
      operation.act (replay recordSize operations) := by
  rw [replay, List.foldl_append]
  rfl

/-- A run of operations on records that there is room for. -/
inductive Runs (s : Store β) : List (Operation β) → Store β → Prop where
  | start : Runs s [] s
  | reserve {operations : List (Operation β)} {s' s'' : Store β} {required : Nat}
      {outcome : Except PoolError Bool} :
      Runs s operations s' → s'.reserve required = .ok (outcome, s'') →
        Runs s (operations ++ [.reserve required]) s''
  | write {operations : List (Operation β)} {s' s'' : Store β} {i : RecordIndex} {cells : List β} :
      Runs s operations s' → i < s'.capacity → s'.write i cells = .ok s'' →
        Runs s (operations ++ [.write i cells]) s''
  | copy {operations : List (Operation β)} {s' s'' : Store β} {i j : RecordIndex} :
      Runs s operations s' → i < s'.capacity → j < s'.capacity → s'.copy i j = .ok s'' →
        Runs s (operations ++ [.copy i j]) s''

/-- The store acts as the array `records` does. -/
structure ActsAs (s : Store β) (recordSize : Nat) (records : RecordIndex → List β) : Prop where
  /-- Every record has a slot inside a block. -/
  address_inside : ∀ i < s.capacity, ∃ b room, s.blocks[(s.address i).1]? = some b ∧
    b.capacity = .ok room ∧ (s.address i).2 < room
  /-- No two records share a slot. -/
  address_injective : ∀ i < s.capacity, ∀ j < s.capacity, s.address i = s.address j → i = j
  /-- A record reads as it is in the array. -/
  record_eq : ∀ i < s.capacity, s.record i = .ok (records i)
  /-- There is no memory but that of the records. -/
  memory_eq : s.memory = s.capacity * recordSize
  /-- A record that is written reads so, and the others are left alone. -/
  write : ∀ i < s.capacity, ∀ cells : List β, cells.length = recordSize →
    ∃ s', s.write i cells = .ok s' ∧ s'.capacity = s.capacity ∧ s'.record i = .ok cells ∧
      ∀ j < s.capacity, j ≠ i → s'.record j = s.record j
  /-- A record that is copied over reads as the other one, which may be itself,
  and the others are left alone. -/
  copy : ∀ i < s.capacity, ∀ j < s.capacity,
    ∃ s', s.copy i j = .ok s' ∧ s'.capacity = s.capacity ∧ s'.record j = s.record i ∧
      ∀ k < s.capacity, k ≠ j → s'.record k = s.record k
  /-- Room is made without touching a record, or, beyond the limit, refused
  without any effect. -/
  reserve : ∀ required, ∃ outcome s', s.reserve required = .ok (outcome, s') ∧
    s.capacity ≤ s'.capacity ∧ (∀ i < s.capacity, s'.record i = s.record i) ∧
    (outcome = .ok true ↔ s.capacity < s'.capacity) ∧
    (∀ grew, outcome = .ok grew → required ≤ s'.capacity) ∧
    ∀ refusal, outcome = .error refusal → s' = s ∧ s.capacity < required ∧ s.limit < required

variable {s s' : Store β} {i j recordSize : Nat} {records : RecordIndex → List β}

/-! ## One operation -/

/-- Blocks of one size hold as many cells as their number says. -/
theorem foldl_size_eq {blocks : List (Block β)} {size : Nat}
    (hsize : ∀ b ∈ blocks, b.cells.size = size) (total : Nat) :
    blocks.foldl (fun total b => total + b.cells.size) total = total + blocks.length * size := by
  induction blocks generalizing total with
  | nil => simp
  | cons b blocks ih =>
      rw [List.foldl_cons, ih fun c hc => hsize c (List.mem_cons_of_mem b hc),
        hsize b List.mem_cons_self, List.length_cons]
      ring

/-- **The memory of a store** is that of the records it has room for. -/
theorem Sound.memory_eq (h : s.Sound) : s.memory = s.capacity * s.recordSize := by
  have hsize : ∀ b ∈ s.blocks.toList, b.cells.size = s.blockRoom * s.recordSize := fun b hb =>
    (h.shaped b (Array.mem_toList_iff.mp hb)).cells
  rw [memory, ← Array.foldl_toList, foldl_size_eq hsize, Array.length_toList, Nat.zero_add,
    ← Nat.mul_assoc, h.tiled]

/-- A record that could be written has the size of a record. -/
theorem Sound.eq_of_write (h : s.Sound) (hi : i < s.capacity) {cells : List β}
    (hwrite : s.write i cells = .ok s') :
    cells.length = s.recordSize ∧ s' = s.setRecord i cells := by
  have hcells : cells.length = s.recordSize := by
    obtain ⟨b, -, hrest⟩ := bind_eq_ok_iff.mp hwrite
    obtain ⟨start, -, hput⟩ := bind_eq_ok_iff.mp hrest
    by_contra hne
    rw [if_neg hne] at hput
    cases hput
  rw [h.write_eq hi hcells] at hwrite
  cases hwrite
  exact ⟨hcells, rfl⟩

/-- Copying a record over another one or over itself writes its contents. -/
theorem Sound.copy_eq_setRecord (h : s.Sound) (hi : i < s.capacity) (hj : j < s.capacity) :
    s.copy i j = .ok (s.setRecord j (s.contents i)) := by
  by_cases hne : j = i
  · subst hne
    rw [Store.copy, if_pos rfl, h.setRecord_contents hj]
    rfl
  · exact h.copy_eq hi hj hne

/-- **What making room can lead to**, where memory stays within the machine
range: there is room already, the store grows, or the limit is exceeded. -/
theorem Sound.reserve_outcomes (h : s.Sound) (hbound : 2 ^ 31 * s.recordSize < sizeBound)
    (required : Nat) :
    (required ≤ s.capacity ∧ s.reserve required = .ok (.ok false, s)) ∨
      (∃ s', s.reserve required = .ok (.ok true, s') ∧ s.Extends s' ∧ s.capacity < required ∧
        required ≤ s'.capacity) ∨
      (s.reserve required = .ok (.error (.capacityExceeded required s.limit), s) ∧
        s.capacity < required ∧ s.limit < required) := by
  by_cases hcap : required ≤ s.capacity
  · exact Or.inl ⟨hcap, reserve_of_le hcap⟩
  have hgt : s.capacity < required := by omega
  by_cases hlimit : s.limit < required
  · exact Or.inr (Or.inr ⟨reserve_of_limit_lt hgt hlimit, hgt, hlimit⟩)
  have hle : required ≤ s.limit := by omega
  have hfits := lt_of_le_of_lt (Nat.mul_le_mul_right s.recordSize (h.blockFor_le hle)) hbound
  obtain ⟨grown, henlarge, hext, hroom⟩ := h.enlarge_eq hgt hle hfits
  obtain ⟨hreserve, hext'⟩ := hext.reserve_eq hgt hle henlarge
  exact Or.inr (Or.inl ⟨_, hreserve, hext', hgt, hroom⟩)

/-- Records of the array are those that the store has or would have. -/
structure Holds (s : Store β) (recordSize : Nat) (records : RecordIndex → List β) : Prop where
  sound : s.Sound
  recordSize : s.recordSize = recordSize
  padded : s.padded = records

namespace Holds

/-- A record reads as it is in the array. -/
theorem record_eq (h : s.Holds recordSize records) (hi : i < s.capacity) :
    s.record i = .ok (records i) := by
  rw [h.sound.record_eq hi, ← padded_of_lt hi, h.padded]

/-- A record that is rewritten is rewritten in the array. -/
theorem setRecord (h : s.Holds recordSize records) (hi : i < s.capacity) {cells : List β}
    (hcells : cells.length = recordSize) :
    (s.setRecord i cells).Holds recordSize (Function.update records i cells) where
  sound := h.sound.setRecord i cells
  recordSize := h.recordSize
  padded := by
    rw [h.sound.padded_setRecord hi (hcells.trans h.recordSize.symm), h.padded]

/-- Growth is nothing to the array. -/
theorem of_extends (h : s.Holds recordSize records) (hext : s.Extends s') :
    s'.Holds recordSize records where
  sound := hext.sound
  recordSize := hext.recordSize.trans h.recordSize
  padded := hext.padded_eq.trans h.padded

/-- A request for room is nothing to the array. -/
theorem reserve (h : s.Holds recordSize records) {required : Nat}
    {outcome : Except PoolError Bool} (hreserve : s.reserve required = .ok (outcome, s')) :
    s'.Holds recordSize records := by
  rcases h.sound.reserve_cases required with ⟨grew, t, heq, hext, -⟩ | ⟨heq, -⟩ | ⟨heq, -⟩
  · rw [heq] at hreserve
    cases hreserve
    exact h.of_extends hext
  · rw [heq] at hreserve
    cases hreserve
    exact h
  · rw [heq] at hreserve
    cases hreserve

/-- A run does to the store what it does to the array. -/
theorem runs {operations : List (Operation β)} (h : s.Holds recordSize (replay recordSize []))
    (hruns : s.Runs operations s') : s'.Holds recordSize (replay recordSize operations) := by
  induction hruns with
  | start => exact h
  | reserve _ hreserve ih =>
      rw [replay_concat]
      exact ih.reserve hreserve
  | write _ hi hwrite ih =>
      obtain ⟨hcells, rfl⟩ := ih.sound.eq_of_write hi hwrite
      rw [replay_concat]
      exact ih.setRecord hi (hcells.trans ih.recordSize)
  | copy _ hi hj hcopy ih =>
      rw [ih.sound.copy_eq_setRecord hi hj] at hcopy
      cases hcopy
      rw [replay_concat, Operation.act, ← ih.padded, padded_of_lt hi, ih.padded]
      exact ih.setRecord hj ((ih.sound.length_contents hi).trans ih.recordSize)

/-- Rewriting a record makes it read so and leaves the others alone. -/
theorem record_setRecord (h : s.Holds recordSize records) (hi : i < s.capacity) {cells : List β}
    (hcells : cells.length = recordSize) (hj : j < s.capacity) :
    (s.setRecord i cells).record j = .ok (if j = i then cells else records j) := by
  have h' := h.setRecord hi hcells
  rw [h'.record_eq (show j < (s.setRecord i cells).capacity from hj), Function.update_apply]

/-- **A store that holds an array acts as it.** -/
theorem actsAs (h : s.Holds recordSize records) (hpos : 0 < recordSize)
    (hbound : 2 ^ 31 * recordSize < sizeBound) : s.ActsAs recordSize records where
  address_inside := by
    intro i hi
    obtain ⟨b, hb, hshape⟩ := h.sound.exists_block hi
    exact ⟨b, s.blockRoom, hb, hshape.capacity_eq (h.recordSize ▸ hpos),
      (h.sound.address_spec hi).2.1⟩
  address_injective := by
    intro i hi j hj heq
    rw [(h.sound.address_spec hi).2.2, (h.sound.address_spec hj).2.2, heq]
  record_eq := fun i hi => h.record_eq hi
  memory_eq := by rw [h.sound.memory_eq, h.recordSize]
  write := by
    intro i hi cells hcells
    refine ⟨_, h.sound.write_eq hi (hcells.trans h.recordSize.symm), rfl, ?_, fun j hj hne => ?_⟩
    · rw [h.record_setRecord hi hcells hi, if_pos rfl]
    · rw [h.record_setRecord hi hcells hj, if_neg hne, h.record_eq hj]
  copy := by
    intro i hi j hj
    have hcells := (h.sound.length_contents hi).trans h.recordSize
    refine ⟨_, h.sound.copy_eq_setRecord hi hj, rfl, ?_, fun k hk hne => ?_⟩
    · rw [h.record_setRecord hj hcells hj, if_pos rfl, h.sound.record_eq hi]
    · rw [h.record_setRecord hj hcells hk, if_neg hne, h.record_eq hk]
  reserve := by
    intro required
    rcases h.sound.reserve_outcomes (h.recordSize ▸ hbound) required with
      ⟨hle, heq⟩ | ⟨s', heq, hext, hgt, hroom⟩ | ⟨heq, hgt, hlimit⟩
    · refine ⟨_, _, heq, Nat.le_refl _, fun _ _ => rfl, iff_of_false (by rintro ⟨⟩) (lt_irrefl _),
        fun _ _ => hle, ?_⟩
      rintro refusal ⟨⟩
    · have hread : ∀ i < s.capacity, s'.record i = s.record i := fun i hi => by
        rw [(h.of_extends hext).record_eq (lt_of_lt_of_le hi hext.capacity_le), h.record_eq hi]
      refine ⟨_, _, heq, hext.capacity_le, hread, iff_of_true rfl (by omega), fun _ _ => hroom, ?_⟩
      rintro refusal ⟨⟩
    · refine ⟨_, _, heq, Nat.le_refl _, fun _ _ => rfl, iff_of_false (by rintro ⟨⟩) (lt_irrefl _),
        ?_, fun _ _ => ⟨rfl, hgt, hlimit⟩⟩
      rintro grew ⟨⟩

end Holds

/-! ## Every run -/

/-- **A store is an array of records.**  The store of a valid plan can be made,
and after every run it acts as the array that the operations leave. -/
theorem acts_as_replayed {plan : StorePlan} (hvalid : plan.validate = .ok ())
    (hrange : plan.InRange) (hpos : 0 < recordSize) (hbound : 2 ^ 31 * recordSize < sizeBound) :
    ∃ s₀ : Store β, make recordSize plan = .ok s₀ ∧ ∀ operations s,
      s₀.Runs operations s → s.ActsAs recordSize (replay recordSize operations) := by
  obtain ⟨s₀, hmake, hsound, hsize, -⟩ := make_eq (β := β) hvalid hrange hbound
  have hholds : s₀.Holds recordSize (replay recordSize []) :=
    ⟨hsound, hsize, padded_of_make hvalid hrange hmake⟩
  exact ⟨s₀, hmake, fun operations s hruns => (hholds.runs hruns).actsAs hpos hbound⟩

/-- A store with blocks of two records of two cells. -/
def pairStore (cells : List (Array UInt8)) (growths : Nat) : Store UInt8 :=
  ⟨(cells.map fun cells => ⟨cells, 2⟩).toArray, 2, some 2, 1, 1, 2 * cells.length, indexLimit,
    growths⟩

/-- A store of two blocks acts as an array after a record is copied into the
other block and a third block is appended. -/
theorem copied_across_blocks :
    (StorePlan.blocks 3 2).validate = .ok () ∧ (StorePlan.blocks 3 2).InRange ∧ 0 < 2 ∧
      2 ^ 31 * 2 < sizeBound ∧ ∃ s₀ s : Store UInt8, make 2 (.blocks 3 2) = .ok s₀ ∧
        s₀.Runs [.write 1 [9, 8], .copy 1 2, .reserve 5] s ∧ s.memory = 12 ∧
        s.record 1 = .ok [9, 8] ∧ s.record 2 = .ok [9, 8] ∧ s.record 5 = .ok [0, 0] := by
  have hvalid : (StorePlan.blocks 3 2).validate = .ok () := rfl
  have hrange : (StorePlan.blocks 3 2).InRange := by
    rintro size ⟨⟩
    decide
  have hbound : 2 ^ 31 * 2 < sizeBound := by decide
  obtain ⟨s₀, hmake, hall⟩ := acts_as_replayed (β := UInt8) hvalid hrange Nat.two_pos hbound
  have hmake' : make 2 (.blocks 3 2) = .ok (pairStore [#[0, 0, 0, 0], #[0, 0, 0, 0]] 0) := rfl
  have hwrite : (pairStore [#[0, 0, 0, 0], #[0, 0, 0, 0]] 0).write 1 [9, 8] =
      .ok (pairStore [#[0, 0, 9, 8], #[0, 0, 0, 0]] 0) := rfl
  have hcopy : (pairStore [#[0, 0, 9, 8], #[0, 0, 0, 0]] 0).copy 1 2 =
      .ok (pairStore [#[0, 0, 9, 8], #[9, 8, 0, 0]] 0) := rfl
  have hreserve : (pairStore [#[0, 0, 9, 8], #[9, 8, 0, 0]] 0).reserve 5 =
      .ok (.ok true, pairStore [#[0, 0, 9, 8], #[9, 8, 0, 0], #[0, 0, 0, 0]] 1) := rfl
  rw [hmake'] at hmake
  cases hmake
  have hruns := ((Runs.start.write (by decide) hwrite).copy (by decide) (by decide) hcopy).reserve
    hreserve
  have hacts := hall _ _ hruns
  exact ⟨hvalid, hrange, Nat.two_pos, hbound, _, _, hmake', hruns, hacts.memory_eq,
    hacts.record_eq 1 (by decide), hacts.record_eq 2 (by decide), hacts.record_eq 5 (by decide)⟩

end Store

end RecordPool
