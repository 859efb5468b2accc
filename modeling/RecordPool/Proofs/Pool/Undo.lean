/-
# Undoing writes

A listener hears of each notifying write the name of the attribute, the record
and the cells before, but not the element of an array.  Together with the
elements that were written, what one listener heard restores every earlier
content of the records; without them it does so exactly in layouts whose arrays
have a single element.
-/
import RecordPool.Proofs.Pool.RoundTrip

namespace RecordPool

variable {β F : Type} [Memory β F]

/-! ## What listeners hear -/

namespace Item

variable {kind : Kind} {p p' : Pool β} {i : Nat} {x : Item kind} {r : Reference}
  {v : kind.Value F} {cells : List β} {deliveries : List (Delivery β)}

/-- What the listeners are told of a write to the item. -/
def change (x : Item kind) (p : Pool β) (i : RecordIndex) : Change β :=
  ⟨((p.layout.columnAt? x.place.1).map (·.name)).getD "", i,
    window (p.contents i) x.asAttribute.offset kind.size⟩

/-- A notifying write also writes. -/
theorem put_of_set (hset : x.set p r v = .ok (deliveries, p')) : x.put p r v = .ok p' := by
  cases x with
  | value a =>
      obtain ⟨_, -, hrest⟩ := bind_eq_ok_iff.mp hset
      obtain ⟨_, hput, hpair⟩ := bind_eq_ok_iff.mp hrest
      cases hpair
      exact hput
  | element a k =>
      obtain ⟨_, -, hrest⟩ := bind_eq_ok_iff.mp hset
      obtain ⟨_, -, hrest⟩ := bind_eq_ok_iff.mp hrest
      obtain ⟨_, hput, hpair⟩ := bind_eq_ok_iff.mp hrest
      cases hpair
      exact hput

/-- Writing an item is an operation of the pool. -/
theorem does_of_put (hput : x.put p r v = .ok p') :
    ∃ i, p.require r = .ok i ∧ p.Does [.written i] p' := by
  cases x with
  | value a => exact Attribute.does_of_put hput
  | element a k => exact AttributeArray.does_of_put hput

/-- An encoded value is pasted over the item. -/
theorem put_eq_setRecord (h : p.Sound) (hi : p.IsLive i) (hl : p.layout.Tiled)
    (hx : x.Of p.layout) (hencode : kind.encode v = .ok cells) :
    x.put p (p.referenceTo i) v =
      .ok (p.setRecord i (paste (p.contents i) x.asAttribute.offset cells)) := by
  have hfit : x.asAttribute.offset + cells.length ≤ p.layout.size := by
    rw [Kind.length_of_encode hencode]
    exact within hl hx
  rw [put_eq hx, Attribute.put, h.require_referenceTo hi, ok_bind, hencode, ok_bind,
    h.patch_eq hi hfit]

/-- A notifying write tells every listener, and pastes the encoded value. -/
theorem set_eq_setRecord (h : p.Sound) (hi : p.IsLive i) (hl : p.layout.Tiled)
    (hx : x.Of p.layout) (hencode : kind.encode v = .ok cells) :
    x.set p (p.referenceTo i) v =
      .ok (p.listeners.map (⟨·, x.change p i⟩),
        p.setRecord i (paste (p.contents i) x.asAttribute.offset cells)) := by
  rw [set_eq hx, h.announce_eq hi x.place.1 (within hl hx), ok_bind,
    put_eq_setRecord h hi hl hx hencode]
  rfl

/-- **What a notifying write does**: every listener is told the same change, and
the encoded value is pasted over the item of a record in use. -/
theorem of_set (h : p.Sound) (hl : p.layout.Tiled) (hx : x.Of p.layout)
    (hset : x.set p r v = .ok (deliveries, p')) : ∃ i cells, p.IsLive i ∧ r = p.referenceTo i ∧
      cells.length = kind.size ∧ deliveries = p.listeners.map (⟨·, x.change p i⟩) ∧
      p' = p.setRecord i (paste (p.contents i) x.asAttribute.offset cells) := by
  have hput := put_of_set hset
  rw [put_eq hx] at hput
  obtain ⟨i, hrequire, hrest⟩ := bind_eq_ok_iff.mp hput
  obtain ⟨cells, hencode, -⟩ := bind_eq_ok_iff.mp hrest
  obtain ⟨hi, rfl⟩ := h.require_eq_ok_iff.mp hrequire
  rw [set_eq_setRecord h hi hl hx hencode] at hset
  cases hset
  exact ⟨i, cells, hi, rfl, Kind.length_of_encode hencode, rfl, rfl⟩

end Item

/-! ## Undoing changes -/

namespace Change

variable {kind : Kind} {p : Pool β} {i : Nat} {x : Item kind} {l : Layout}

/-- The first cell that a change overwrites, where the element of an array is
known. -/
def start (c : Change β) (l : Layout) (element : Option Nat) : Nat :=
  match l.column? c.name with
  | some column => column.offset + element.getD 0 * column.shape.kind.size
  | none => 0

/-- The contents of the records before a change. -/
def undo (c : Change β) (l : Layout) (element : Option Nat) (contents : Nat → List β) :
    Nat → List β :=
  Function.update contents c.index (paste (contents c.index) (c.start l element) c.previous)

/-- The contents of the records before some changes, the last of which is undone
first. -/
def undoAll (l : Layout) (changes : List (Change β × Option Nat)) (contents : Nat → List β) :
    Nat → List β :=
  changes.foldr (fun change contents => change.1.undo l change.2 contents) contents

/-- With its element a change tells where the item lies. -/
theorem start_change (hnamed : (p.layout.columns.map (·.name)).Nodup) (hx : x.Of p.layout) :
    (x.change p i).start p.layout x.place.2 = x.asAttribute.offset := by
  have hcolumn : ∃ name shape offset, p.layout.columnAt? x.place.1 = some ⟨name, shape, offset⟩ ∧
      offset + x.place.2.getD 0 * shape.kind.size = x.asAttribute.offset := by
    cases x with
    | value a =>
        obtain ⟨name, ha⟩ := hx
        exact ⟨_, _, _, ha, by simp [Item.place, Item.asAttribute]⟩
    | element a k =>
        obtain ⟨⟨name, ha⟩, -⟩ := hx
        exact ⟨_, _, _, ha, rfl⟩
  obtain ⟨name, shape, offset, hget, hoffset⟩ := hcolumn
  rw [start, Item.change, hget, Option.map_some, Option.getD_some,
    Layout.column?_eq hnamed hget]
  exact hoffset

/-- **Undoing a write** restores all records. -/
theorem undo_change (h : p.Sound) (hi : p.IsLive i) (hl : p.layout.Tiled)
    (hnamed : (p.layout.columns.map (·.name)).Nodup) (hx : x.Of p.layout) {cells : List β}
    (hcells : cells.length = kind.size) :
    (x.change p i).undo p.layout x.place.2
      (p.setRecord i (paste (p.contents i) x.asAttribute.offset cells)).contents = p.contents := by
  have hlength := h.length_contents hi
  have hfit : x.asAttribute.offset + kind.size ≤ (p.contents i).length := by
    rw [hlength]
    exact Item.within hl hx
  have hroom : x.asAttribute.offset + cells.length ≤ (p.contents i).length := by
    rw [hcells]
    exact hfit
  have hprevious : (x.change p i).previous = window (p.contents i) x.asAttribute.offset kind.size :=
    rfl
  rw [undo, start_change hnamed hx, hprevious, show (x.change p i).index = i from rfl,
    h.contents_setRecord hi (by rw [length_paste hroom, hlength]), Function.update_self,
    paste_paste hroom (by rw [length_window hfit, hcells]), paste_window hfit,
    Function.update_idem, Function.update_eq_self]

/-- What a record was before is told by what it is. -/
theorem undoAll_congr (changes : List (Change β × Option Nat)) {contents contents' : Nat → List β}
    (h : contents i = contents' i) : undoAll l changes contents i = undoAll l changes contents' i := by
  induction changes with
  | nil => exact h
  | cons change changes ih =>
      show change.1.undo l change.2 (undoAll l changes contents) i =
        change.1.undo l change.2 (undoAll l changes contents') i
      rw [undo, undo]
      by_cases hindex : i = change.1.index
      · subst hindex
        rw [Function.update_self, Function.update_self, ih]
      · rw [Function.update_of_ne hindex, Function.update_of_ne hindex, ih]

/-- The first element of an array starts where the array does. -/
theorem undoAll_of_first {changes : List (Change β × Option Nat)}
    (h : ∀ change ∈ changes, change.2.getD 0 = 0) (contents : Nat → List β) :
    undoAll l changes contents = undoAll l ((changes.map Prod.fst).map (·, none)) contents := by
  induction changes with
  | nil => rfl
  | cons change changes ih =>
      have hstart : change.1.start l change.2 = change.1.start l none := by
        rw [start, start, h change List.mem_cons_self]
        rfl
      show change.1.undo l change.2 (undoAll l changes contents) =
        change.1.undo l none (undoAll l ((changes.map Prod.fst).map (·, none)) contents)
      rw [undo, undo, hstart, ih fun c hc => h c (List.mem_cons_of_mem _ hc)]

end Change

/-! ## Runs of writes -/

namespace Pool

variable {p p' p'' q q' : Pool β} {l : Layout} {i j : Nat}
  {notes notes' : List (List (Delivery β) × Option Nat)}

/-- Notifying writes one after the other, with what the listeners were told of
each, and the element if it was one of an array. -/
inductive Sets (p : Pool β) : List (List (Delivery β) × Option Nat) → Pool β → Prop where
  | start : Sets p [] p
  | step {notes : List (List (Delivery β) × Option Nat)} {p' p'' : Pool β} {kind : Kind}
      {x : Item kind} {r : Reference} {v : kind.Value F} {deliveries : List (Delivery β)} :
      Sets p notes p' → x.Of p'.layout → x.set p' r v = .ok (deliveries, p'') →
      Sets p (notes ++ [(deliveries, x.place.2)]) p''

/-- What the listener `j` was told of some writes, each with the element that was
written. -/
def told (j : Nat) (notes : List (List (Delivery β) × Option Nat)) :
    List (Change β × Option Nat) :=
  notes.filterMap fun note => note.1[j]?.map fun delivery => (delivery.change, note.2)

/-- The pool is one over the layout, made and run. -/
def Over (p : Pool β) (l : Layout) : Prop :=
  ∃ id plan reset p₀ h, plan.InRange ∧ make id l plan reset = pure p₀ ∧ p₀.Runs h p

/-- A pool over a layout is sound and has it. -/
theorem Over.sound (h : p.Over l) : p.Sound ∧ p.layout = l := by
  obtain ⟨id, plan, reset, p₀, events, hrange, hmake, hruns⟩ := h
  have hnew := recorded_of_make hrange hmake
  exact ⟨(hnew.runs hruns).sound, (hnew.kept_of_runs hruns).2.trans (layout_of_make hmake)⟩

/-- Writes change nothing of a pool but the contents of its records. -/
theorem Sets.frame (hsets : p.Sets notes p') (h : p.Sound) (hl : p.layout.Tiled) :
    p'.Sound ∧ p'.layout = p.layout ∧ p'.listeners = p.listeners := by
  induction hsets with
  | start => exact ⟨h, rfl, rfl⟩
  | @step notes p' p'' kind x r v deliveries hsets hx hset ih =>
      obtain ⟨h', hlayout, hlisteners⟩ := ih
      rw [← hlayout] at hl
      obtain ⟨i, cells, -, -, -, -, rfl⟩ := Item.of_set h' hl hx hset
      exact ⟨h'.setRecord i _, hlayout, hlisteners⟩

/-- **What one listener heard restores the records**, where the elements that were
written are known. -/
theorem Sets.undoAll_eq (hsets : p.Sets notes p') (h : p.Sound) (hl : p.layout.Tiled)
    (hnamed : (p.layout.columns.map (·.name)).Nodup) (hj : j < p.listeners.length) :
    Change.undoAll p.layout (told j notes) p'.contents = p.contents := by
  induction hsets with
  | start => rfl
  | @step notes p' p'' kind x r v deliveries hsets hx hset ih =>
      obtain ⟨h', hlayout, hlisteners⟩ := hsets.frame h hl
      rw [← hlayout] at hl hnamed
      rw [← hlisteners] at hj
      obtain ⟨i, cells, hi, rfl, hcells, rfl, rfl⟩ := Item.of_set h' hl hx hset
      have htold : told j (notes ++ [(p'.listeners.map (⟨·, x.change p' i⟩), x.place.2)]) =
          told j notes ++ [(x.change p' i, x.place.2)] := by
        rw [told, List.filterMap_append]
        simp [told, List.getElem?_eq_getElem hj]
      rw [htold, Change.undoAll, List.foldr_append, List.foldr_cons, List.foldr_nil]
      dsimp only
      rw [← hlayout, Change.undo_change h' hi hl hnamed hx hcells, hlayout]
      exact ih

/-- Two runs of which one listener each heard the same, with the same elements,
ended alike only if they started alike. -/
theorem Sets.start_eq (hp : p.Over l) (hq : q.Over l) (hl : l.Accepted) (hsets : p.Sets notes p')
    (hsets' : q.Sets notes' q') {j' : Nat} (hj : j < p.listeners.length)
    (hj' : j' < q.listeners.length) (htold : told j notes = told j' notes')
    (hend : p'.contents i = q'.contents i) : p.contents i = q.contents i := by
  obtain ⟨hsound, rfl⟩ := hp.sound
  obtain ⟨hsound', hlayout⟩ := hq.sound
  have hundo := hsets.undoAll_eq hsound hl.tiled hl.named.1 hj
  have hundo' := hsets'.undoAll_eq hsound' (hlayout ▸ hl.tiled) (hlayout ▸ hl.named.1) hj'
  rw [← hundo, ← hundo', ← htold, hlayout]
  exact Change.undoAll_congr _ hend

/-! ## Where the changes alone are enough -/

/-- In a layout without longer arrays only single values and first elements are
written. -/
theorem Sets.first (hsets : p.Sets notes p') (h : p.Sound) (hl : p.layout.Tiled)
    (hshort : ∀ c ∈ p.layout.columns, ∀ kind n, c.shape = .array kind n → n ≤ 1) :
    ∀ note ∈ notes, note.2.getD 0 = 0 := by
  induction hsets with
  | start => simp
  | @step notes p' p'' kind x r v deliveries hsets hx hset ih =>
      intro note hmem
      rcases List.mem_append.mp hmem with hmem | hmem
      · exact ih note hmem
      rw [List.mem_singleton.mp hmem]
      cases x with
      | value a => rfl
      | element a k =>
          obtain ⟨⟨name, ha⟩, hk⟩ := hx
          rw [(hsets.frame h hl).2.1] at ha
          have hle := hshort _ (List.mem_of_getElem? ha) kind a.length rfl
          show k = 0
          omega

/-- In every two runs over the layout of which one listener each heard the same
changes, a record that ended with the same cells started with the same ones. -/
def LogSuffices (β : Type) {F : Type} [Memory β F] (l : Layout) : Prop :=
  ∀ (p p' q q' : Pool β) (notes notes' : List (List (Delivery β) × Option Nat)) (j j' : Nat),
    p.Over l → q.Over l → p.Sets notes p' → q.Sets notes' q' → j < p.listeners.length →
    j' < q.listeners.length → (told j notes).map Prod.fst = (told j' notes').map Prod.fst →
    ∀ i, p'.contents i = q'.contents i → p.contents i = q.contents i

/-- Without longer arrays the changes alone restore the records. -/
theorem logSuffices_of_short (hl : l.Accepted)
    (hshort : ∀ c ∈ l.columns, ∀ kind n, c.shape = .array kind n → n ≤ 1) : LogSuffices β l := by
  intro p p' q q' notes notes' j j' hp hq hsets hsets' hj hj' htold i hend
  obtain ⟨hsound, rfl⟩ := hp.sound
  obtain ⟨hsound', hlayout⟩ := hq.sound
  have hfirst : ∀ (j : Nat) (notes : List (List (Delivery β) × Option Nat)),
      (∀ note ∈ notes, note.2.getD 0 = 0) → ∀ change ∈ told j notes, change.2.getD 0 = 0 := by
    intro j notes hnotes change hmem
    obtain ⟨note, hnote, hsome⟩ := List.mem_filterMap.mp hmem
    obtain ⟨delivery, -, rfl⟩ := Option.map_eq_some_iff.mp hsome
    exact hnotes note hnote
  have hundo := hsets.undoAll_eq hsound hl.tiled hl.named.1 hj
  have hundo' := hsets'.undoAll_eq hsound' (hlayout ▸ hl.tiled) (hlayout ▸ hl.named.1) hj'
  rw [Change.undoAll_of_first (hfirst j notes (hsets.first hsound hl.tiled hshort))] at hundo
  rw [Change.undoAll_of_first (hfirst j' notes'
    (hsets'.first hsound' (hlayout ▸ hl.tiled) (hlayout ▸ hshort)))] at hundo'
  rw [← hundo, ← hundo', htold, hlayout]
  exact Change.undoAll_congr _ hend

/-- Every accepted layout has a pool with a record in use and one listener. -/
theorem exists_over (hl : l.Accepted) :
    ∃ (p : Pool β) (i : Nat), p.Over l ∧ p.IsLive i ∧ p.listeners.length = 1 := by
  have hfit : 1 * l.size < sizeBound := by
    rw [Nat.one_mul]
    exact hl.named.2
  obtain ⟨block, hblock, -⟩ := Block.make_eq_ok (β := β) hfit
  have hstore : Store.make l.size (.single 1) =
      .ok (⟨#[block], l.size, none, 0, 0, 1, indexLimit, 0⟩ : Store β) := by
    show (Block.make 1 l.size >>= fun block => _) = _
    rw [hblock]
    rfl
  have hmake : make 0 l (.single 1) .keep =
      pure (⟨0, l, ⟨#[block], l.size, none, 0, 0, 1, indexLimit, 0⟩, .keep, 0, [], #[], #[], 0,
        []⟩ : Pool β) := by
    rw [make, hstore]
    rfl
  obtain ⟨i, p, hallocate, halloc⟩ :=
    (sound_of_make (StorePlan.inRange_single 1) hmake).1.allocate_eq (r := .unpointed 0) rfl
      fun _ => Or.inl Nat.one_pos
  refine ⟨p.listen "", i, ⟨0, .single 1, .keep, _, _, StorePlan.inRange_single 1, hmake,
    (Runs.start.step (.allocate hallocate)).step (.listen "")⟩, (halloc.live i).mpr (Or.inl rfl), ?_⟩
  rw [listen, halloc.listeners]
  rfl

/-- Pasting an encoded value over an item changes the record accordingly. -/
theorem Over.contents_put (hp : p.Over l) (hi : p.IsLive i) (hl : l.Tiled) {kind : Kind}
    {x : Item kind} (hx : x.Of l) {v : kind.Value F} {cells : List β}
    (hencode : kind.encode v = .ok cells) :
    (p.setRecord i (paste (p.contents i) x.asAttribute.offset cells)).contents i =
      paste (p.contents i) x.asAttribute.offset cells := by
  obtain ⟨h, rfl⟩ := hp.sound
  have hlength := h.length_contents hi
  have hroom : x.asAttribute.offset + cells.length ≤ (p.contents i).length := by
    rw [Kind.length_of_encode hencode, hlength]
    exact Item.within hl hx
  rw [h.contents_setRecord hi (by rw [length_paste hroom, hlength]), Function.update_self]

/-- Writing an item leads to a pool over the layout again. -/
theorem Over.exists_put (hp : p.Over l) (hi : p.IsLive i) (hl : l.Tiled) {kind : Kind}
    {x : Item kind} (hx : x.Of l) {v : kind.Value F} {cells : List β}
    (hencode : kind.encode v = .ok cells) :
    ∃ q : Pool β, q.Over l ∧ q.IsLive i ∧ q.listeners = p.listeners ∧
      q.contents i = paste (p.contents i) x.asAttribute.offset cells := by
  have hcontents := hp.contents_put hi hl hx hencode
  obtain ⟨h, rfl⟩ := hp.sound
  have hput := Item.put_eq_setRecord h hi hl hx hencode
  obtain ⟨_, -, hdoes⟩ := Item.does_of_put hput
  obtain ⟨id, plan, reset, p₀, events, hrange, hmake, hruns⟩ := hp
  exact ⟨_, ⟨id, plan, reset, p₀, _, hrange, hmake, hruns.step hdoes⟩, hi, rfl, hcontents⟩

/-- One write is a run, of which a single listener hears one change. -/
theorem Over.exists_sets (hp : p.Over l) (hi : p.IsLive i) (hl : l.Tiled) {kind : Kind}
    {x : Item kind} (hx : x.Of l) {v : kind.Value F} {cells : List β}
    (hencode : kind.encode v = .ok cells) (hlisteners : p.listeners.length = 1) :
    ∃ notes p', p.Sets notes p' ∧ (told 0 notes).map Prod.fst = [x.change p i] ∧
      p'.contents i = paste (p.contents i) x.asAttribute.offset cells := by
  have hend := hp.contents_put hi hl hx hencode
  obtain ⟨h, rfl⟩ := hp.sound
  obtain ⟨listener, hlistener⟩ := List.length_eq_one_iff.mp hlisteners
  refine ⟨_, _, .step .start hx (Item.set_eq_setRecord h hi hl hx hencode), ?_, hend⟩
  rw [hlistener]
  rfl

/-- Two items are written, and then a third one is while a single listener
hears of it. -/
theorem Over.exists_overwritten (hp : p.Over l) (hi : p.IsLive i) (hl : l.Tiled) {kind : Kind}
    {x y z : Item kind} (hx : x.Of l) (hy : y.Of l) (hz : z.Of l) {u v w : kind.Value F}
    {U V W : List β} (hU : kind.encode u = .ok U) (hV : kind.encode v = .ok V)
    (hW : kind.encode w = .ok W) (hlisteners : p.listeners.length = 1) :
    ∃ q notes q', q.Over l ∧ q.listeners.length = 1 ∧
      q.contents i = paste (paste (p.contents i) x.asAttribute.offset U) y.asAttribute.offset V ∧
      q.Sets notes q' ∧ (told 0 notes).map Prod.fst = [z.change q i] ∧
      q'.contents i = paste (q.contents i) z.asAttribute.offset W := by
  obtain ⟨p₁, hp₁, hi₁, hlisteners₁, hcontents₁⟩ := hp.exists_put hi hl hx hU
  obtain ⟨p₂, hp₂, hi₂, hlisteners₂, hcontents₂⟩ := hp₁.exists_put hi₁ hl hy hV
  have hone : p₂.listeners.length = 1 := by rw [hlisteners₂, hlisteners₁, hlisteners]
  obtain ⟨notes, p', hsets, htold, hend⟩ := hp₂.exists_sets hi₂ hl hz hW hone
  rw [hcontents₁] at hcontents₂
  exact ⟨p₂, notes, p', hp₂, hone, hcontents₂, hsets, htold, hend⟩

/-- Of two places one of which holds `V` and the other one `U`, the one with `V` is
overwritten with `U`: before, it held `V` whichever it was, and afterwards both
hold `U`. -/
theorem paste_either {cells U V : List β} {start start' n : Nat} (hU : U.length = n)
    (hV : V.length = n) (h : start + n ≤ start') (h' : start' + n ≤ cells.length) :
    window (paste (paste cells start V) start' U) start n = V ∧
      window (paste (paste cells start U) start' V) start n = U ∧
      window (paste (paste cells start U) start' V) start' n = V ∧
      paste (paste (paste cells start V) start' U) start U =
        paste (paste (paste cells start U) start' V) start' U := by
  have hroom : ∀ {W : List β}, W.length = n → (paste cells start W).length = cells.length :=
    fun hW => length_paste (by omega)
  have hleft : ∀ {W W' : List β}, W.length = n → W'.length = n →
      window (paste (paste cells start W) start' W') start n = W := by
    intro W W' hW hW'
    rw [window_paste_of_apart (by rw [hroom hW]; omega) (Or.inl h), ← hW,
      window_paste (by omega)]
  refine ⟨hleft hV hU, hleft hU hV, ?_, ?_⟩
  · conv_lhs => rw [← hV]
    exact window_paste (by rw [hroom hU]; omega)
  · calc paste (paste (paste cells start V) start' U) start U
        = paste (paste (paste cells start V) start U) start' U :=
          (paste_comm (by omega) (by rw [hroom hV]; omega)).symm
      _ = paste (paste cells start U) start' U := by rw [paste_paste (by omega) (by omega)]
      _ = paste (paste (paste cells start U) start' V) start' U :=
          (paste_paste (by rw [hroom hU]; omega) (by omega)).symm

/-- **Two elements are confused.**  One run overwrites the first element, which
held `v`, with the value `u` that the second one has; the other run overwrites
the second element, which held `v`, with the value `u` that the first one has. -/
theorem not_logSuffices_of_long [Nontrivial F] (hl : l.Accepted) {kind : Kind}
    {a : AttributeArray kind} (ha : a.Of l) (hlong : 1 < a.length) : ¬ LogSuffices β l := by
  intro hsuffices
  obtain ⟨p, i, hp, hi, hlisteners⟩ := exists_over (β := β) hl
  obtain ⟨u, v, hu, hv, hne⟩ := Kind.exists_ne (F := F) kind
  obtain ⟨U, hU, hreadU⟩ := Kind.exists_encode (β := β) hu
  obtain ⟨V, hV, hreadV⟩ := Kind.exists_encode (β := β) hv
  have hfirst : (Item.element a 0).Of l := ⟨ha, by omega⟩
  have hsecond : (Item.element a 1).Of l := ⟨ha, hlong⟩
  obtain ⟨q, notes, q', hq, hone, hstart, hsets, htold, hend⟩ :=
    hp.exists_overwritten hi hl.tiled hfirst hsecond hfirst hV hU hU hlisteners
  obtain ⟨r, notes', r', hr, hone', hstart', hsets', htold', hend'⟩ :=
    hp.exists_overwritten hi hl.tiled hfirst hsecond hsecond hU hV hU hlisteners
  -- the two elements lie behind each other in the record
  have hlengthU := Kind.length_of_encode hU
  have hlengthV := Kind.length_of_encode hV
  have happart : (a.element 0).offset + kind.size ≤ (a.element 1).offset := by
    rw [AttributeArray.offset_element, AttributeArray.offset_element, Nat.zero_mul, Nat.one_mul,
      Nat.add_zero]
  have hfit : (a.element 1).offset + kind.size ≤ (p.contents i).length := by
    obtain ⟨h, rfl⟩ := hp.sound
    rw [h.length_contents hi]
    exact Item.within hl.tiled hsecond
  obtain ⟨hfirstV, hfirstU, hsecondV, hboth⟩ := paste_either hlengthU hlengthV happart hfit
  have hsame : (told 0 notes).map Prod.fst = (told 0 notes').map Prod.fst := by
    rw [htold, htold', Item.change, Item.change, hstart, hstart', hq.sound.2, hr.sound.2]
    exact congrArg (fun cells => [Change.mk _ i cells]) (hfirstV.trans hsecondV.symm)
  have hfinal : q'.contents i = r'.contents i := by
    rw [hend, hend', hstart, hstart']
    exact hboth
  have heq := hsuffices q q' r r' notes notes' 0 0 hq hr hsets hsets' (by omega) (by omega)
    hsame i hfinal
  rw [hstart, hstart'] at heq
  have hcells : V = U := hfirstV.symm.trans
    ((congrArg (window · (a.element 0).offset kind.size) heq).trans hfirstU)
  exact hne (by rw [← hreadU, ← hreadV, hcells])

/-- **What the changes that a listener hears are good for.**  In every run of
notifying writes in a pool over an accepted layout, undoing the changes that one
listener heard, each at the element that was written, restores all records; two
runs of which one listener each heard the same changes at the same elements left
a record with the same cells only if it had the same ones before.  The changes
alone, without the elements, are enough for this exactly when no array of the
layout has more than one element. -/
theorem changes_undone_with_elements [Nontrivial F] (hl : l.Accepted) :
    (∀ (p p' : Pool β) (notes : List (List (Delivery β) × Option Nat)) (j : Nat), p.Over l →
      p.Sets notes p' → j < p.listeners.length →
      Change.undoAll l (told j notes) p'.contents = p.contents) ∧
    (∀ (p p' q q' : Pool β) (notes notes' : List (List (Delivery β) × Option Nat)) (j j' : Nat),
      p.Over l → q.Over l → p.Sets notes p' → q.Sets notes' q' → j < p.listeners.length →
      j' < q.listeners.length → told j notes = told j' notes' →
      ∀ i, p'.contents i = q'.contents i → p.contents i = q.contents i) ∧
    (LogSuffices β l ↔ ∀ c ∈ l.columns, ∀ kind n, c.shape = .array kind n → n ≤ 1) := by
  refine ⟨?_, ?_, ?_, logSuffices_of_short hl⟩
  · intro p p' notes j hp hsets hj
    obtain ⟨h, rfl⟩ := hp.sound
    exact hsets.undoAll_eq h hl.tiled hl.named.1 hj
  · intro p p' q q' notes notes' j j' hp hq hsets hsets' hj hj' htold i hend
    exact hsets.start_eq hp hq hl hsets' hj hj' htold hend
  · rintro hsuffices ⟨name, shape, offset⟩ hc kind n rfl
    by_contra hlong
    obtain ⟨slot, hslot⟩ := List.mem_iff_getElem?.mp hc
    have ha : (AttributeArray.mk slot offset n : AttributeArray kind).Of l := ⟨name, hslot⟩
    exact not_logSuffices_of_long hl ha (show 1 < n by omega) hsuffices

/-- The layout of two numbers. -/
def pairLayout : Layout :=
  ⟨9, [⟨"pair", .array .int 2, 0⟩], 8⟩

/-- The layout of two numbers is accepted. -/
theorem accepted_pairLayout : pairLayout.Accepted := by
  refine Or.inl ⟨9, [⟨"pair", .array .int 2, 0⟩], ?_⟩
  rw [Layout.ofColumns, show Layout.byOffset [⟨"pair", .array .int 2, 0⟩] = _ from
    List.mergeSort_singleton _]
  rfl

/-- The two numbers. -/
def pairOfInts : AttributeArray .int :=
  ⟨0, 0, 2⟩

/-- A pool with one record, of which the first `allocated` are in use. -/
def pairPool (cells : List UInt8) (allocated : Nat) (listeners : List Listener) : Pool UInt8 :=
  ⟨0, pairLayout, ⟨#[⟨cells.toArray, 8⟩], 8, none, 0, 0, 1, indexLimit, 0⟩, .keep, allocated,
    [], Array.replicate allocated true, Array.replicate allocated 0, 0, listeners⟩

/-- The two numbers are those of the layout. -/
theorem of_pairLayout {k : Nat} (hk : k < 2) : (Item.element pairOfInts k).Of pairLayout :=
  ⟨⟨"pair", rfl⟩, hk⟩

/-- A pool of two blank numbers with one listener. -/
theorem over_blankPair : (pairPool [0, 0, 0, 0, 0, 0, 0, 0] 1 ["journal"]).Over pairLayout := by
  have hmake : make 0 pairLayout (.single 1) .keep =
      pure (pairPool [0, 0, 0, 0, 0, 0, 0, 0] 0 []) := rfl
  have hcreate : (pairPool [0, 0, 0, 0, 0, 0, 0, 0] 0 []).allocate (.unpointed 0) =
      .ok (.ok 0, pairPool [0, 0, 0, 0, 0, 0, 0, 0] 1 [], ⟨0, some ⟨0, 0, 0⟩⟩) := rfl
  exact ⟨0, .single 1, .keep, _, _, StorePlan.inRange_single 1, hmake,
    (Runs.start.step (.allocate hcreate)).step (.listen "journal")⟩

/-- A pool of which the first number was quietly set to one. -/
theorem over_writtenPair : (pairPool [1, 0, 0, 0, 0, 0, 0, 0] 1 ["journal"]).Over pairLayout := by
  have hput : pairOfInts.put (pairPool [0, 0, 0, 0, 0, 0, 0, 0] 1 ["journal"])
      ⟨0, some ⟨0, 0, 0⟩⟩ 0 1 = .ok (pairPool [1, 0, 0, 0, 0, 0, 0, 0] 1 ["journal"]) := rfl
  obtain ⟨id, plan, reset, p₀, events, hrange, hmake, hruns⟩ := over_blankPair
  obtain ⟨_, -, hdoes⟩ := AttributeArray.does_of_put hput
  exact ⟨id, plan, reset, p₀, _, hrange, hmake, hruns.step hdoes⟩

/-- The first number is set from zero to one. -/
theorem sets_first : (pairPool [0, 0, 0, 0, 0, 0, 0, 0] 1 ["journal"]).Sets
    [([⟨"journal", ⟨"pair", 0, [0, 0, 0, 0]⟩⟩], some 0)]
    (pairPool [1, 0, 0, 0, 0, 0, 0, 0] 1 ["journal"]) := by
  have hset : (Item.element pairOfInts 0).set (pairPool [0, 0, 0, 0, 0, 0, 0, 0] 1 ["journal"])
      ⟨0, some ⟨0, 0, 0⟩⟩ (1 : Int32) =
      .ok ([⟨"journal", ⟨"pair", 0, [0, 0, 0, 0]⟩⟩],
        pairPool [1, 0, 0, 0, 0, 0, 0, 0] 1 ["journal"]) := rfl
  exact .step .start (of_pairLayout (by decide)) hset

/-- The second number is set from zero to zero. -/
theorem sets_second : (pairPool [1, 0, 0, 0, 0, 0, 0, 0] 1 ["journal"]).Sets
    [([⟨"journal", ⟨"pair", 0, [0, 0, 0, 0]⟩⟩], some 1)]
    (pairPool [1, 0, 0, 0, 0, 0, 0, 0] 1 ["journal"]) := by
  have hset : (Item.element pairOfInts 1).set (pairPool [1, 0, 0, 0, 0, 0, 0, 0] 1 ["journal"])
      ⟨0, some ⟨0, 0, 0⟩⟩ (0 : Int32) =
      .ok ([⟨"journal", ⟨"pair", 0, [0, 0, 0, 0]⟩⟩],
        pairPool [1, 0, 0, 0, 0, 0, 0, 0] 1 ["journal"]) := rfl
  exact .step .start (of_pairLayout (by decide)) hset

/-- Setting the first of two numbers is undone from the change that the journal
heard and the number of the element; the changes alone are not enough here. -/
theorem first_of_pair_undone :
    Change.undoAll pairLayout [(⟨"pair", 0, [0, 0, 0, 0]⟩, some 0)]
        (pairPool [1, 0, 0, 0, 0, 0, 0, 0] 1 ["journal"]).contents =
      (pairPool [0, 0, 0, 0, 0, 0, 0, 0] 1 ["journal"]).contents ∧
      ¬ LogSuffices UInt8 pairLayout := by
  have : Nontrivial Double := ⟨⟨0⟩, ⟨1⟩, by decide⟩
  obtain ⟨hundo, -, hsuffices⟩ := changes_undone_with_elements (β := UInt8) accepted_pairLayout
  refine ⟨hundo _ _ _ 0 over_blankPair sets_first Nat.one_pos, fun h => ?_⟩
  have hle := hsuffices.mp h _ List.mem_cons_self .int 2 rfl
  omega

/-- **The changes alone do not tell what was before.**  Setting the first of two
numbers from zero to one, and setting the second one from zero to zero where the
first is one: the journal hears the same change, the pools end with the same
cells, and they started with different ones. -/
theorem same_changes_from_different_pairs : ∃ (p p' q q' : Pool UInt8)
    (notes notes' : List (List (Delivery UInt8) × Option Nat)),
    p.Over pairLayout ∧ q.Over pairLayout ∧ p.Sets notes p' ∧ q.Sets notes' q' ∧
      p.listeners = ["journal"] ∧ q.listeners = ["journal"] ∧
      (told 0 notes).map Prod.fst = (told 0 notes').map Prod.fst ∧
      p'.IsLive 0 ∧ p'.allocated = 1 ∧ q'.IsLive 0 ∧ q'.allocated = 1 ∧
      p'.contents 0 = q'.contents 0 ∧ p.contents 0 ≠ q.contents 0 := by
  refine ⟨_, _, _, _, _, _, over_blankPair, over_writtenPair, sets_first, sets_second, rfl, rfl,
    rfl, rfl, rfl, rfl, rfl, rfl, ?_⟩
  decide

end Pool

end RecordPool
