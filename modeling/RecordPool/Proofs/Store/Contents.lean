/-
# The contents of a store

A sound store is an array of records: every index below the capacity has an
address inside some block, and distinct indices have distinct addresses.
`Store.contents` reads that array, and `contents_setRecord` says that writing
a record changes it at one index only.
-/
import RecordPool.Proofs.Store.Plan
import RecordPool.Proofs.Window
import RecordPool.Store.Basic

namespace RecordPool

variable {β F : Type} [Memory β F]

/-! ## Blocks -/

/-- The block has room for exactly `records` records of `size` cells. -/
structure Block.Shaped (b : Block β) (records size : Nat) : Prop where
  recordSize : b.recordSize = size
  cells : b.cells.size = records * size
  bound : records * size < sizeBound

namespace Block

variable {b : Block β} {records size slot : Nat}

/-- The cells of a record lie inside its block. -/
theorem Shaped.slot_le (h : b.Shaped records size) (hslot : slot < records) :
    slot * size + size ≤ b.cells.size := by
  rw [h.cells, ← Nat.succ_mul]
  exact Nat.mul_le_mul_right size hslot

/-- A slot inside a block has a place. -/
theorem Shaped.place_eq (h : b.Shaped records size) (hslot : slot < records) :
    b.place slot = .ok (slot * size) := by
  have hle := h.slot_le hslot
  have hbound : b.cells.size < sizeBound := h.cells ▸ h.bound
  rw [place, h.recordSize, mulSize_eq_ok (by omega), ok_bind, addSize_eq_ok (by omega), ok_bind,
    if_pos hle]
  rfl

/-- The cells of a record are a window of its block. -/
theorem recordFrom_eq_window (b : Block β) (start : Nat) :
    b.recordFrom start = window b.cells.toList start b.recordSize := by
  rw [recordFrom, Array.toList_extract, List.extract_eq_take_drop, window,
    Nat.add_sub_cancel_left]

/-- A slot inside a block holds a window. -/
theorem Shaped.record_eq (h : b.Shaped records size) (hslot : slot < records) :
    b.record slot = .ok (window b.cells.toList (slot * size) size) := by
  rw [record, h.place_eq hslot, ok_bind, recordFrom_eq_window, h.recordSize]
  rfl

/-- Writing keeps the shape of a block. -/
theorem Shaped.put (h : b.Shaped records size) (start : Nat) (values : List β) :
    (b.put start values).Shaped records size :=
  ⟨h.recordSize, by rw [Block.put, size_overwrite, h.cells], h.bound⟩

/-- Writing values that fit pastes them. -/
theorem toList_cells_put {start : Nat} {values : List β}
    (h : start + values.length ≤ b.cells.size) :
    (b.put start values).cells.toList = paste b.cells.toList start values :=
  toList_overwrite b.cells start values h

/-- Of two lists of one length written at one place the second one counts. -/
theorem put_put {start : Nat} {values values' : List β}
    (h : start + values.length ≤ b.cells.size) (hlength : values.length = values'.length) :
    (b.put start values).put start values' = b.put start values' := by
  have h' : start + values'.length ≤ (b.put start values).cells.size := by
    rw [Block.put, size_overwrite]
    omega
  have hcells : ((b.put start values).put start values').cells.toList =
      (b.put start values').cells.toList := by
    rw [toList_cells_put h', toList_cells_put h, toList_cells_put (by omega),
      paste_paste (by rw [Array.length_toList]; exact h) hlength]
  exact congrArg (fun cells => (⟨cells, b.recordSize⟩ : Block β)) (Array.toList_inj.mp hcells)

/-- Writing what is there changes nothing. -/
theorem put_window {start count : Nat} (h : start + count ≤ b.cells.size) :
    b.put start (window b.cells.toList start count) = b := by
  have hfit : start + count ≤ b.cells.toList.length := by
    rw [Array.length_toList]
    exact h
  have hlength := length_window hfit
  have hcells : (b.put start (window b.cells.toList start count)).cells.toList =
      b.cells.toList := by
    rw [toList_cells_put (by omega), paste_window hfit]
  exact congrArg (fun cells => (⟨cells, b.recordSize⟩ : Block β)) (Array.toList_inj.mp hcells)

/-- A blank block has its shape. -/
theorem make_eq_ok (h : records * size < sizeBound) :
    ∃ b : Block β, make records size = .ok b ∧ b.Shaped records size ∧
      b.cells.toList = List.replicate (records * size) Memory.blank := by
  refine ⟨⟨Array.replicate (records * size) Memory.blank, size⟩, ?_, ?_, ?_⟩
  · rw [make, mulSize_eq_ok h, ok_bind]
    rfl
  · exact ⟨rfl, Array.size_replicate, h⟩
  · exact Array.toList_replicate

/-- Enlarging a block appends blank cells. -/
theorem Shaped.resize_eq (h : b.Shaped records size) {more : Nat} (hle : records ≤ more)
    (hbound : more * size < sizeBound) :
    ∃ b' : Block β, b.resize more = .ok b' ∧ b'.Shaped more size ∧
      b'.cells.toList =
        b.cells.toList ++ List.replicate (more * size - records * size) Memory.blank := by
  have hmul : records * size ≤ more * size := Nat.mul_le_mul_right size hle
  have hextract : b.cells.extract 0 (more * size) = b.cells :=
    Array.extract_eq_self_of_le (by rw [h.cells]; exact hmul)
  refine ⟨{ b with cells := b.cells.extract 0 (more * size) ++
    Array.replicate (more * size - b.cells.size) Memory.blank }, ?_, ⟨h.recordSize, ?_, hbound⟩, ?_⟩
  · rw [resize, h.recordSize, mulSize_eq_ok hbound, ok_bind]
    rfl
  · rw [hextract, Array.size_append, Array.size_replicate, h.cells]
    omega
  · rw [hextract, Array.toList_append, Array.toList_replicate, h.cells]

end Block

/-! ## Stores -/

namespace Store

/-- The number of records in each block. -/
def blockRoom (s : Store β) : Nat :=
  s.blockSize.getD s.capacity

/-- The blocks of a store are equal, hold exactly its capacity, and stay
within the machine range; its shift and mask divide by their size. -/
structure Sound (s : Store β) : Prop where
  shaped : ∀ b ∈ s.blocks, b.Shaped s.blockRoom s.recordSize
  tiled : s.blocks.size * s.blockRoom = s.capacity
  single : s.blockSize = none → s.blocks.size = 1
  divides : ∀ size, s.blockSize = some size → size ∣ 2 ^ 31
  splits : ∀ size, s.blockSize = some size → StorePlan.Splits s.shift s.mask size
  capacity_le : s.capacity ≤ 2 ^ 31
  limit_le : s.limit ≤ indexLimit

/-- The cells of each record below the capacity. -/
def contents (s : Store β) (index : RecordIndex) : List β :=
  if index < s.capacity then
    match s.record index with
    | .ok cells => cells
    | .error _ => []
  else
    []

/-- The store with `cells` for the record `index`. -/
def setRecord (s : Store β) (index : RecordIndex) (cells : List β) : Store β :=
  s.put (s.address index).1 ((s.address index).2 * s.recordSize) cells

variable {s : Store β} {i j : Nat}

/-- A single array has its records one after the other. -/
theorem address_of_single (hmode : s.blockSize = none) (i : Nat) : s.address i = (0, i) := by
  rw [address, hmode]

/-- Among blocks the address of a record is its index divided by their size. -/
theorem Sound.address_eq (h : s.Sound) {size : Nat} (hmode : s.blockSize = some size) (i : Nat) :
    s.address i = (i / size, i % size) := by
  have hsplits := h.splits size hmode
  rw [address, hmode]
  dsimp only
  rw [hsplits.shiftRight_eq, hsplits.and_eq]

/-- The address of a record determines its index and lies inside the store. -/
theorem Sound.address_spec (h : s.Sound) (hi : i < s.capacity) :
    (s.address i).1 < s.blocks.size ∧ (s.address i).2 < s.blockRoom ∧
      i = (s.address i).1 * s.blockRoom + (s.address i).2 := by
  have htiled := h.tiled
  unfold blockRoom at *
  cases hmode : s.blockSize with
  | none =>
      have hone := h.single hmode
      rw [address_of_single hmode]
      show 0 < s.blocks.size ∧ i < s.capacity ∧ i = 0 * s.capacity + i
      omega
  | some size =>
      simp only [h.address_eq hmode, hmode, Option.getD_some] at htiled ⊢
      have hpos : 0 < size := by
        rcases Nat.eq_zero_or_pos size with rfl | hpos
        · rw [Nat.mul_zero] at htiled
          omega
        · exact hpos
      refine ⟨?_, Nat.mod_lt i hpos, ?_⟩
      · rw [Nat.div_lt_iff_lt_mul hpos, htiled]
        exact hi
      · rw [Nat.mul_comm]
        exact (Nat.div_add_mod i size).symm

/-- The block of a record is there and has its shape. -/
theorem Sound.exists_block (h : s.Sound) (hi : i < s.capacity) :
    ∃ b, s.blocks[(s.address i).1]? = some b ∧ b.Shaped s.blockRoom s.recordSize := by
  have hlt := (h.address_spec hi).1
  exact ⟨s.blocks[(s.address i).1], Array.getElem?_eq_getElem hlt,
    h.shaped _ (Array.getElem_mem hlt)⟩

/-- A record is a window of its block. -/
theorem Sound.record_eq_window (h : s.Sound) (hi : i < s.capacity) {b : Block β}
    (hb : s.blocks[(s.address i).1]? = some b) :
    s.record i = .ok (window b.cells.toList ((s.address i).2 * s.recordSize) s.recordSize) := by
  have hshape : b.Shaped s.blockRoom s.recordSize := h.shaped b (Array.mem_of_getElem? hb)
  have hslot := (h.address_spec hi).2.1
  show (do (← fetch s.blocks (s.address i).1).record (s.address i).2) = _
  rw [fetch_eq_ok hb, ok_bind, hshape.record_eq hslot]

/-- The contents of a record are a window of its block. -/
theorem Sound.contents_eq_window (h : s.Sound) (hi : i < s.capacity) {b : Block β}
    (hb : s.blocks[(s.address i).1]? = some b) :
    s.contents i = window b.cells.toList ((s.address i).2 * s.recordSize) s.recordSize := by
  rw [contents, if_pos hi, h.record_eq_window hi hb]

/-- Reading a record below the capacity gives its contents. -/
theorem Sound.record_eq (h : s.Sound) (hi : i < s.capacity) :
    s.record i = .ok (s.contents i) := by
  obtain ⟨b, hb, -⟩ := h.exists_block hi
  rw [h.record_eq_window hi hb, h.contents_eq_window hi hb]

/-- Every record has the size of the store's records. -/
theorem Sound.length_contents (h : s.Sound) (hi : i < s.capacity) :
    (s.contents i).length = s.recordSize := by
  obtain ⟨b, hb, hshape⟩ := h.exists_block hi
  rw [h.contents_eq_window hi hb]
  apply length_window
  rw [Array.length_toList]
  exact hshape.slot_le (h.address_spec hi).2.1

/-! ## Writing -/

/-- The record's block after the record was written. -/
theorem getElem?_blocks_setRecord (cells : List β) (k : Nat) :
    (s.setRecord i cells).blocks[k]? =
      if (s.address i).1 = k then
        s.blocks[k]?.map (·.put ((s.address i).2 * s.recordSize) cells)
      else s.blocks[k]? :=
  Array.getElem?_modify

@[simp] theorem recordSize_setRecord (s : Store β) (i : Nat) (cells : List β) :
    (s.setRecord i cells).recordSize = s.recordSize := rfl

@[simp] theorem address_setRecord (s : Store β) (i : Nat) (cells : List β) (j : Nat) :
    (s.setRecord i cells).address j = s.address j := rfl

/-- Writing a record keeps a store sound. -/
theorem Sound.setRecord (h : s.Sound) (i : Nat) (cells : List β) : (s.setRecord i cells).Sound where
  shaped := by
    intro b hb
    obtain ⟨k, hk⟩ := Array.mem_iff_getElem?.mp hb
    rw [getElem?_blocks_setRecord] at hk
    split at hk
    · obtain ⟨b₀, hb₀, rfl⟩ := Option.map_eq_some_iff.mp hk
      exact (h.shaped b₀ (Array.mem_of_getElem? hb₀)).put _ _
    · exact h.shaped b (Array.mem_of_getElem? hk)
  tiled := by
    show (s.blocks.modify _ _).size * s.blockRoom = s.capacity
    rw [Array.size_modify, h.tiled]
  single := by
    intro hmode
    show (s.blocks.modify _ _).size = 1
    rw [Array.size_modify, h.single hmode]
  divides := h.divides
  splits := h.splits
  capacity_le := h.capacity_le
  limit_le := h.limit_le

/-- Writing a whole record below the capacity succeeds. -/
theorem Sound.write_eq (h : s.Sound) (hi : i < s.capacity) {cells : List β}
    (hcells : cells.length = s.recordSize) :
    s.write i cells = .ok (s.setRecord i cells) := by
  obtain ⟨b, hb, hshape⟩ := h.exists_block hi
  have hslot := (h.address_spec hi).2.1
  show (do
    let start ← (← fetch s.blocks (s.address i).1).place (s.address i).2
    if cells.length = s.recordSize then pure (s.put (s.address i).1 start cells)
      else throw Fault.bounds : Checked (Store β)) = _
  rw [fetch_eq_ok hb, ok_bind, hshape.place_eq hslot, ok_bind, if_pos hcells]
  rfl

/-- Of two writings of one record the second one counts. -/
theorem Sound.setRecord_setRecord (h : s.Sound) (hi : i < s.capacity) {cells cells' : List β}
    (hcells : cells.length = s.recordSize) (hcells' : cells'.length = s.recordSize) :
    (s.setRecord i cells).setRecord i cells' = s.setRecord i cells' := by
  obtain ⟨b, hb, hshape⟩ := h.exists_block hi
  have hfit : (s.address i).2 * s.recordSize + cells.length ≤ b.cells.size := by
    rw [hcells]
    exact hshape.slot_le (h.address_spec hi).2.1
  have hblocks : ((s.setRecord i cells).setRecord i cells').blocks =
      (s.setRecord i cells').blocks := by
    apply Array.ext_getElem?
    intro k
    rw [getElem?_blocks_setRecord, getElem?_blocks_setRecord, getElem?_blocks_setRecord,
      address_setRecord, recordSize_setRecord]
    split
    · rename_i hk
      rw [← hk, hb, Option.map_some, Option.map_some, Option.map_some,
        Block.put_put hfit (hcells.trans hcells'.symm)]
    · rfl
  exact congrArg (fun blocks => { s with blocks }) hblocks

/-- Writing what a record holds changes nothing. -/
theorem Sound.setRecord_contents (h : s.Sound) (hi : i < s.capacity) :
    s.setRecord i (s.contents i) = s := by
  obtain ⟨b, hb, hshape⟩ := h.exists_block hi
  have hblocks : (s.setRecord i (s.contents i)).blocks = s.blocks := by
    apply Array.ext_getElem?
    intro k
    rw [getElem?_blocks_setRecord]
    split
    · rename_i hk
      rw [← hk, hb, Option.map_some, h.contents_eq_window hi hb,
        Block.put_window (hshape.slot_le (h.address_spec hi).2.1)]
    · rfl
  exact congrArg (fun blocks => { s with blocks }) hblocks

/-- Two records of one block occupy slots apart from each other. -/
theorem Sound.slots_apart (h : s.Sound) (hi : i < s.capacity) (hj : j < s.capacity) (hne : j ≠ i)
    (hblock : (s.address i).1 = (s.address j).1) :
    (s.address j).2 * s.recordSize + s.recordSize ≤ (s.address i).2 * s.recordSize ∨
      (s.address i).2 * s.recordSize + s.recordSize ≤ (s.address j).2 * s.recordSize := by
  have hi' := (h.address_spec hi).2.2
  have hj' := (h.address_spec hj).2.2
  have hslots : (s.address j).2 ≠ (s.address i).2 := by
    intro heq
    rw [hblock, ← heq, ← hj'] at hi'
    exact hne hi'.symm
  rw [← Nat.succ_mul, ← Nat.succ_mul]
  rcases Nat.lt_or_gt_of_ne hslots with hlt | hgt
  · exact Or.inl (Nat.mul_le_mul_right _ hlt)
  · exact Or.inr (Nat.mul_le_mul_right _ hgt)

/-- **Writing changes one record.**  The others, in the same block or in
another one, are left alone. -/
theorem Sound.contents_setRecord (h : s.Sound) (hi : i < s.capacity) {cells : List β}
    (hcells : cells.length = s.recordSize) :
    (s.setRecord i cells).contents = Function.update s.contents i cells := by
  have h' : (s.setRecord i cells).Sound := h.setRecord i cells
  funext (j : Nat)
  by_cases hj : j < s.capacity
  · obtain ⟨b, hb, hshape⟩ := h.exists_block hj
    have hslot : (s.address i).2 * s.recordSize + cells.length ≤ (s.blockRoom) * s.recordSize := by
      rw [hcells, ← Nat.succ_mul]
      exact Nat.mul_le_mul_right _ (h.address_spec hi).2.1
    have hfit : (s.address i).2 * s.recordSize + cells.length ≤ b.cells.size := by
      rw [hshape.cells]
      exact hslot
    have hb' := getElem?_blocks_setRecord (s := s) (i := i) cells (s.address j).1
    rw [hb, Option.map_some] at hb'
    by_cases hblock : (s.address i).1 = (s.address j).1
    · -- in one block the two slots are the same or apart
      rw [if_pos hblock] at hb'
      rw [h'.contents_eq_window hj hb', recordSize_setRecord, address_setRecord,
        Block.toList_cells_put hfit]
      by_cases hji : j = i
      · subst hji
        have hread : window (paste b.cells.toList ((s.address j).2 * s.recordSize) cells)
            ((s.address j).2 * s.recordSize) cells.length = cells := by
          apply window_paste
          rw [Array.length_toList]
          exact hfit
        rw [hcells] at hread
        rw [Function.update_self, hread]
      · rw [Function.update_of_ne hji, h.contents_eq_window hj hb]
        apply window_paste_of_apart
        · rw [Array.length_toList]
          exact hfit
        · rw [hcells]
          exact h.slots_apart hi hj hji hblock
    · have hji : j ≠ i := fun heq => hblock (by rw [heq])
      rw [if_neg hblock] at hb'
      rw [Function.update_of_ne hji, h'.contents_eq_window hj hb', h.contents_eq_window hj hb]
      rfl
  · have hji : j ≠ i := by omega
    rw [Function.update_of_ne hji, contents, contents, if_neg hj]
    exact if_neg hj

/-- Copying one record over another writes the contents of the first, whether
or not the two share a block. -/
theorem Sound.copy_eq (h : s.Sound) (hi : i < s.capacity) (hj : j < s.capacity) (hne : j ≠ i) :
    s.copy i j = .ok (s.setRecord j (s.contents i)) := by
  obtain ⟨b, hb, hshape⟩ := h.exists_block hi
  obtain ⟨c, hc, hshape'⟩ := h.exists_block hj
  have hsource := hshape.slot_le (h.address_spec hi).2.1
  have htarget := hshape'.slot_le (h.address_spec hj).2.1
  have hbound : b.cells.size < sizeBound := hshape.cells ▸ hshape.bound
  have hbound' : c.cells.size < sizeBound := hshape'.cells ▸ hshape'.bound
  have hwindow : (b.cells.extract ((s.address i).2 * s.recordSize)
      (((s.address i).2 + 1) * s.recordSize)).toList = s.contents i := by
    rw [h.contents_eq_window hi hb, Array.toList_extract, List.extract_eq_take_drop, window,
      Nat.succ_mul, Nat.add_sub_cancel_left]
  rw [copy, if_neg hne.symm]
  dsimp only
  split
  · -- within one block the cells are moved, the record is never taken out
    rename_i hblock
    obtain rfl : b = c := by
      rw [hblock, hc] at hb
      exact (Option.some.inj hb).symm
    have hstop : ((s.address i).2 + 1) * s.recordSize =
        (s.address i).2 * s.recordSize + s.recordSize := Nat.succ_mul _ _
    rw [copyWithin, fetch_eq_ok hb, ok_bind, mulSize_eq_ok (by omega), ok_bind,
      mulSize_eq_ok (by omega), ok_bind, mulSize_eq_ok (by omega), ok_bind,
      if_pos ⟨by omega, htarget⟩, hwindow, hblock]
    rfl
  · rw [fetch_eq_ok hb, ok_bind, fetch_eq_ok hc, ok_bind,
      hshape'.place_eq (h.address_spec hj).2.1, ok_bind,
      hshape.record_eq (h.address_spec hi).2.1, ok_bind, ← h.contents_eq_window hi hb]
    rfl

end Store

end RecordPool
