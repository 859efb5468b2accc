/-
# Reading back what was written

In every pool over an accepted layout a storable value that was written to an
item of a record is read back through every valid reference to the record, and
every other item of every record in use keeps its value.
-/
import RecordPool.Proofs.Pool.Items
import RecordPool.Proofs.Pool.Records

namespace RecordPool

variable {β F : Type} [Memory β F]

namespace Pool

variable {p p' : Pool β} {l : Layout} {i j : Nat} {kind kind' : Kind}

/-! ## One record -/

/-- Writing an item of a record in use succeeds, quietly or not. -/
theorem Sound.exists_put (h : p.Sound) (hi : p.IsLive i) (hl : p.layout.Tiled) {x : Item kind}
    (hx : x.Of p.layout) {v : kind.Value F} (hv : kind.Storable v) :
    ∃ p' cells deliveries, x.put p (p.referenceTo i) v = .ok p' ∧
      x.set p (p.referenceTo i) v = .ok (deliveries, p') ∧ p.Rewrites i cells p' ∧
      x.asAttribute.Writes v (p.contents i) cells := by
  have hfit := Item.within hl hx
  obtain ⟨p', cells, hput, hrewrites, hwrites⟩ := Attribute.put_eq h hi hfit hv
  rw [← Item.put_eq hx] at hput
  obtain ⟨deliveries, hset⟩ := Item.exists_set h hi hx hfit hput
  exact ⟨p', cells, deliveries, hput, hset, hrewrites, hwrites⟩

/-- Reading an item of a record in use gives the value in its cells. -/
theorem Sound.item_get_eq (h : p.Sound) (hi : p.IsLive i) (hl : p.layout.Tiled) {x : Item kind}
    (hx : x.Of p.layout) :
    x.get p (p.referenceTo i) = .ok (x.asAttribute.read (p.contents i)) := by
  rw [Item.get_eq hx, Attribute.get_eq h hi (Item.within hl hx)]

/-- An item at another place of the record, or of another record, keeps its
value. -/
theorem Rewrites.read_of_ne {x : Item kind} {y : Item kind'} {v : kind.Value F} {cells : List β}
    (hrewrites : p.Rewrites i cells p') (hwrites : x.asAttribute.Writes v (p.contents i) cells)
    (hl : l.Tiled) (hx : x.Of l) (hy : y.Of l) (hne : y.place ≠ x.place ∨ j ≠ i) :
    y.asAttribute.read (p'.contents j) = y.asAttribute.read (p.contents j) := by
  by_cases hji : j = i
  · subst hji
    have hplace := hne.resolve_right fun hne => hne rfl
    rw [hrewrites.contents_self, hwrites.read_of_apart (Item.apart hl hx hy hplace)]
  · rw [hrewrites.contents_of_ne hji]

/-! ## Every pool -/

/-- **Attributes keep to their cells.**  In every pool over an accepted layout,
through every valid reference: a storable value that is written to an item,
quietly or not, is read back through every reference to the record; every other
item of every record in use reads as before; and writing or reading a whole
array is writing or reading its elements one by one, whatever else the list of
values holds. -/
theorem items_read_back {l : Layout} (hl : l.Accepted) {id : PoolId} {plan : StorePlan}
    {reset : Reset β} {p₀ p : Pool β} {h : History} (hrange : plan.InRange)
    (hmake : make id l plan reset = pure p₀) (hruns : p₀.Runs h p) {r : Reference}
    (hr : p.check r = pure ()) :
    (∀ (kind : Kind) (x : Item kind) (v : kind.Value F), x.Of l → kind.Storable v →
      ∃ p' deliveries, x.put p r v = .ok p' ∧ x.set p r v = .ok (deliveries, p') ∧
        (∀ r', p.check r' = pure () → r'.index? = r.index? → x.get p' r' = .ok v) ∧
        ∀ (kind' : Kind) (y : Item kind') (r' : Reference), y.Of l → p.check r' = pure () →
          y.place ≠ x.place ∨ r'.index? ≠ r.index? →
            ∃ w, y.get p r' = .ok w ∧ y.get p' r' = .ok w) ∧
      ∀ (kind : Kind) (a : AttributeArray kind), a.Of l →
        (∀ values, a.length ≤ values.length → a.putAll p r values = a.putEach p r values ∧
          ((∀ v ∈ values.take a.length, kind.Storable v) → ∃ p', a.putAll p r values = .ok p')) ∧
        ∀ out, a.length ≤ out.length → ∃ values, a.getEach p r = .ok values ∧
          values.length = a.length ∧ a.getAll p r out = .ok (values ++ out.drop a.length) := by
  have hnew := recorded_of_make hrange hmake
  have hsound := (hnew.runs hruns).sound
  have hlayout : p.layout = l := by
    rw [(hnew.kept_of_runs hruns).2, (sound_of_make hrange hmake).2]
  subst hlayout
  have htiled := hl.tiled
  obtain ⟨i, hi, rfl⟩ := hsound.check_eq_pure_iff.mp hr
  refine ⟨?_, ?_⟩
  · intro kind x v hx hv
    obtain ⟨p', cells, deliveries, hput, hset, hrewrites, hwrites⟩ :=
      hsound.exists_put hi htiled hx hv
    have htiled' : p'.layout.Tiled := hrewrites.layout ▸ htiled
    refine ⟨p', deliveries, hput, hset, ?_, ?_⟩
    · rintro r' hr' hindex
      obtain ⟨j, hj, rfl⟩ := hsound.check_eq_pure_iff.mp hr'
      obtain rfl : j = i := Option.some.inj hindex
      rw [← hrewrites.referenceTo, hrewrites.sound.item_get_eq (hrewrites.isLive_iff.mpr hj) htiled'
        (hrewrites.layout ▸ hx), hrewrites.contents_self, hwrites.read]
    · rintro kind' y r' hy hr' hne
      obtain ⟨j, hj, rfl⟩ := hsound.check_eq_pure_iff.mp hr'
      refine ⟨_, hsound.item_get_eq hj htiled hy, ?_⟩
      rw [← hrewrites.referenceTo, hrewrites.sound.item_get_eq (hrewrites.isLive_iff.mpr hj) htiled'
        (hrewrites.layout ▸ hy), hrewrites.read_of_ne hwrites htiled hx hy]
      exact hne.imp_right fun hne heq => hne (congrArg some heq)
  · intro kind a ha
    have hfit := AttributeArray.within htiled ha
    refine ⟨fun values hlength => ⟨?_, ?_⟩, fun out hlength => ?_⟩
    · exact AttributeArray.putAll_eq_putEach hsound hi hfit hlength
    · exact AttributeArray.exists_putAll hsound hi hfit hlength
    · exact ⟨_, AttributeArray.getEach_eq hsound hi hfit, AttributeArray.length_values a _,
        AttributeArray.getAll_eq hsound hi hfit hlength⟩

/-- The columns of records of a count and two weights, the weights declared
first. -/
def shelfColumns : List Column :=
  [⟨"weights", .array .double 2, 4⟩, ⟨"count", .scalar .int, 0⟩]

/-- The layout of a count and two weights. -/
def shelfLayout : Layout :=
  ⟨7, shelfColumns, 20⟩

/-- The weights of a record. -/
def shelfWeights : AttributeArray .double :=
  ⟨0, 4, 2⟩

/-- A pool of blank records, each in a block of its own. -/
def shelfPool (records : Nat) : Pool UInt8 :=
  ⟨0, shelfLayout, ⟨Array.replicate records ⟨Array.replicate 20 0, 20⟩, 20, some 1, 0, 0,
    records, indexLimit, records⟩, .keep, records, [], Array.replicate records true,
    Array.replicate records 0, 0, []⟩

/-- In the second of two records a weight that is not a number is read back with
its payload, while the other weight and the weights of the first record, which
lies in another block, read as before. -/
theorem nan_weight_read_back : ∃ p' : Pool UInt8,
    shelfWeights.put (shelfPool 2) ⟨0, some ⟨1, 0, 0⟩⟩ 1 ⟨0x7ff8000000000001⟩ = .ok p' ∧
      shelfWeights.get p' ⟨0, some ⟨1, 0, 0⟩⟩ 1 = .ok ⟨0x7ff8000000000001⟩ ∧
      (∃ w, shelfWeights.get (shelfPool 2) ⟨0, some ⟨1, 0, 0⟩⟩ 0 = .ok w ∧
        shelfWeights.get p' ⟨0, some ⟨1, 0, 0⟩⟩ 0 = .ok w) ∧
      ∃ w, shelfWeights.get (shelfPool 2) ⟨0, some ⟨0, 0, 0⟩⟩ 1 = .ok w ∧
        shelfWeights.get p' ⟨0, some ⟨0, 0, 0⟩⟩ 1 = .ok w := by
  have hsorted : Layout.byOffset shelfColumns = shelfColumns.reverse := by
    simp [Layout.byOffset, shelfColumns, List.mergeSort, List.MergeSort.Internal.splitInTwo]
  have haccepted : shelfLayout.Accepted := by
    refine Or.inl ⟨7, shelfColumns, ?_⟩
    rw [Layout.ofColumns, hsorted]
    rfl
  have hrange : (StorePlan.blocks 0 1).InRange := by
    rintro size ⟨⟩
    decide
  have hmake : make 0 shelfLayout (.blocks 0 1) .keep = pure (shelfPool 0) := rfl
  have hfirst : (shelfPool 0).allocate (.unpointed 0) =
      .ok (.ok 0, shelfPool 1, ⟨0, some ⟨0, 0, 0⟩⟩) := rfl
  have hsecond : (shelfPool 1).allocate (.unpointed 0) =
      .ok (.ok 1, shelfPool 2, ⟨0, some ⟨1, 0, 0⟩⟩) := rfl
  have hruns : (shelfPool 0).Runs [.created 0, .created 1] (shelfPool 2) :=
    (Runs.start.step (.allocate hfirst)).step (.allocate hsecond)
  have hzero : (shelfPool 2).check ⟨0, some ⟨0, 0, 0⟩⟩ = pure () := rfl
  have hone : (shelfPool 2).check ⟨0, some ⟨1, 0, 0⟩⟩ = pure () := rfl
  obtain ⟨weights, hbind, hweight⟩ := Item.exists_bind_fieldArray
    (show (shelfPool 2).layout = shelfLayout from rfl)
    (show shelfLayout.fieldArray? .double "weights" = some ⟨7, 0, 4, 2⟩ from rfl)
  obtain rfl : shelfWeights = weights := Except.ok.inj hbind
  obtain ⟨p', -, hput, -, hself, hothers⟩ :=
    (items_read_back haccepted hrange hmake hruns hone).1 .double (.element shelfWeights 1)
      ⟨0x7ff8000000000001⟩ (hweight 1 (by decide)) trivial
  exact ⟨p', hput, hself _ hone rfl,
    hothers .double (.element shelfWeights 0) _ (hweight 0 (by decide)) hone (Or.inl (by decide)),
    hothers .double (.element shelfWeights 1) _ (hweight 1 (by decide)) hzero
      (Or.inr (by decide))⟩

end Pool

end RecordPool
