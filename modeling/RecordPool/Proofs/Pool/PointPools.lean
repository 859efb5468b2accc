/-
# Points in pools

A pool of points is run by adding points, overwriting them and taking them
back.  What it holds after a run is told by the run alone: for each record the
position that was last given to it, unless the record was taken back since.
Listing the pool gives exactly these points, by ascending index.
-/
import RecordPool.PointPool
import RecordPool.Proofs.Coordinates
import RecordPool.Proofs.Layout.Drafts
import RecordPool.Proofs.Pool.Attributes
import RecordPool.Proofs.Pool.Limit
import RecordPool.Proofs.Pool.Records
import RecordPool.Proofs.Pool.Walking

namespace RecordPool

variable {β F : Type} [Memory β F]

/-! ## Changes -/

/-- What an operation changes about the points of a pool. -/
inductive PointChange (F : Type) where
  /-- A point was added. -/
  | added (index : RecordIndex) (position : List F)
  /-- A point was overwritten. -/
  | filled (index : RecordIndex) (position : List F)
  /-- A point was taken back. -/
  | removed (index : RecordIndex)

namespace PointChange

/-- The positions after a change. -/
def apply (positions : RecordIndex → Option (List F)) :
    PointChange F → RecordIndex → Option (List F)
  | added index position | filled index position =>
      Function.update positions index (some position)
  | removed index => Function.update positions index none

/-- The position last given to each record that was not taken back since. -/
def latest (changes : List (PointChange F)) : RecordIndex → Option (List F) :=
  changes.foldl apply fun _ => none

theorem latest_concat (changes : List (PointChange F)) (change : PointChange F) :
    latest (changes ++ [change]) = change.apply (latest changes) := by
  unfold latest
  rw [List.foldl_append]
  rfl

end PointChange

/-- All coordinates of a source. -/
def positionOf {P : Type} [HasCoordinates P F] (source : P) : Checked (List F) :=
  (List.range (HasCoordinates.dimension source)).mapM (HasCoordinates.coordinate source)

omit [Memory β F] in
/-- A list of numbers is its own position. -/
theorem positionOf_list [Arithmetic F] (point : List F) : positionOf point = .ok point := by
  show (List.range point.length).mapM (fetchAt point) = .ok point
  rw [mapM_eq_ok fun d hd => fetchAt_eq_getD (List.mem_range.mp hd), map_getD_range]

namespace PointPool

/-- An operation of a point pool, with what it changes.  Points come from any
source of coordinates, through any reference that the pool accepts. -/
inductive Does : PointPool β → PointChange F → PointPool β → Prop where
  | add {points points' : PointPool β} {P : Type} [HasCoordinates P F] {source : P}
      {position : List F} {r r' : Reference} {i : RecordIndex} :
      positionOf source = .ok position → points.add r source = .ok (i, points', r') →
      Does points (.added i position) points'
  | fill {points points' : PointPool β} {P : Type} [HasCoordinates P F] {source : P}
      {position : List F} {r : Reference} {i : RecordIndex} :
      positionOf source = .ok position → points.pool.require r = .ok i →
      points.fill r source = .ok points' → Does points (.filled i position) points'
  | delete {points points' : PointPool β} {r : Reference} {i : RecordIndex} :
      points.pool.require r = .ok i → points.delete r = .ok points' →
      Does points (.removed i) points'

/-- A run of operations, with what they change. -/
inductive Runs (points : PointPool β) : List (PointChange F) → PointPool β → Prop where
  | start : Runs points [] points
  | step {changes : List (PointChange F)} {change : PointChange F} {points' points'' : PointPool β} :
      Runs points changes points' → Does points' change points'' →
      Runs points (changes ++ [change]) points''

/-! ## What a pool holds -/

/-- The pool holds points of one dimension, in the given positions, and no
others. -/
structure Holds (points : PointPool β) (dimension : Nat)
    (positions : RecordIndex → Option (List F)) : Prop where
  sound : points.pool.Sound
  dimension_eq : points.dimension = dimension
  length : points.position.length = dimension
  within : points.position.Within points.pool.layout.size
  follows : ∃ initial, initial ≤ indexLimit ∧ points.pool.Follows (.single initial)
  holds : ∀ i x, positions i = some x ↔
    points.pool.IsLive i ∧ points.position.values (points.pool.contents i) = x

variable {points points' : PointPool β} {p' : Pool β} {dimension i : Nat} {cells : List β}
  {positions : RecordIndex → Option (List F)} {position : List F} {r r' : Reference}

/-- A point is held in its position. -/
theorem Holds.of_isLive (h : points.Holds dimension positions) (hi : points.pool.IsLive i) :
    positions i = some (points.position.values (points.pool.contents i)) :=
  (h.holds i _).mpr ⟨hi, rfl⟩

/-- A position held is that of a record in use and has as many coordinates as
the pool has dimensions. -/
theorem Holds.length_of_some (h : points.Holds dimension positions) {x : List F}
    (hposition : positions i = some x) : points.pool.IsLive i ∧ x.length = dimension := by
  obtain ⟨hi, rfl⟩ := (h.holds i x).mp hposition
  rw [AttributeArray.length_values, h.length]
  exact ⟨hi, rfl⟩

/-- The slots handed out are record indices. -/
theorem Holds.allocated_le (h : points.Holds dimension positions) :
    points.pool.allocated ≤ indexLimit := by
  obtain ⟨initial, -, hfollows⟩ := h.follows
  exact hfollows.allocated_le.trans hfollows.store.capacity_le

/-! ## One operation -/

/-- The pool after a record is written holds the new position there. -/
theorem Holds.rewritten (h : points.Holds dimension positions) (hi : points.pool.IsLive i)
    (hrewrites : points.pool.Rewrites i cells p')
    (hfollows : ∀ plan, points.pool.Follows plan → p'.Follows plan) :
    Holds { points with pool := p' } dimension
      (Function.update positions i (some (points.position.values cells))) where
  sound := hrewrites.sound
  dimension_eq := h.dimension_eq
  length := h.length
  within := by
    show points.position.Within p'.layout.size
    rw [hrewrites.layout]
    exact h.within
  follows := by
    obtain ⟨initial, hle, hbefore⟩ := h.follows
    exact ⟨initial, hle, hfollows _ hbefore⟩
  holds := by
    intro j x
    show _ ↔ p'.IsLive j ∧ points.position.values (p'.contents j) = x
    rw [hrewrites.isLive_iff]
    by_cases hj : j = i
    · subst hj
      rw [Function.update_self, hrewrites.contents_self, Option.some.injEq]
      exact ⟨fun hx => ⟨hi, hx⟩, fun hx => hx.2⟩
    · rw [Function.update_of_ne hj, hrewrites.contents_of_ne hj]
      exact h.holds j x

/-- The pool after a slot is handed out holds whatever the slot held. -/
theorem Holds.allocated (h : points.Holds dimension positions)
    (halloc : points.pool.Allocates i p')
    (hfollows : ∀ plan, plan.validate = .ok () → plan.InRange → points.pool.Follows plan →
      p'.Follows plan) :
    Holds { points with pool := p' } dimension
      (Function.update positions i (some (points.position.values (p'.contents i)))) where
  sound := halloc.sound
  dimension_eq := h.dimension_eq
  length := h.length
  within := by
    show points.position.Within p'.layout.size
    rw [halloc.layout]
    exact h.within
  follows := by
    obtain ⟨initial, hle, hbefore⟩ := h.follows
    exact ⟨initial, hle, hfollows _ (StorePlan.validate_single hle)
      (StorePlan.inRange_single initial) hbefore⟩
  holds := by
    intro j x
    show _ ↔ p'.IsLive j ∧ points.position.values (p'.contents j) = x
    rw [halloc.live]
    by_cases hj : j = i
    · subst hj
      rw [Function.update_self, Option.some.injEq]
      exact ⟨fun hx => ⟨Or.inl rfl, hx⟩, fun hx => hx.2⟩
    · rw [Function.update_of_ne hj, h.holds, or_iff_right hj]
      constructor
      · rintro ⟨hlive, hx⟩
        exact ⟨hlive, by rw [halloc.kept j hlive, hx]⟩
      · rintro ⟨hlive, hx⟩
        exact ⟨hlive, by rw [← halloc.kept j hlive, hx]⟩

/-- The pool after a record is taken back holds nothing there. -/
theorem Holds.deleted (h : points.Holds dimension positions) (hdel : points.pool.Deletes i p')
    (hfollows : ∀ plan, points.pool.Follows plan → p'.Follows plan) :
    Holds { points with pool := p' } dimension (Function.update positions i none) where
  sound := hdel.sound
  dimension_eq := h.dimension_eq
  length := h.length
  within := by
    show points.position.Within p'.layout.size
    rw [hdel.layout]
    exact h.within
  follows := by
    obtain ⟨initial, hle, hbefore⟩ := h.follows
    exact ⟨initial, hle, hfollows _ hbefore⟩
  holds := by
    intro j x
    show _ ↔ p'.IsLive j ∧ points.position.values (p'.contents j) = x
    rw [hdel.live]
    by_cases hj : j = i
    · subst hj
      simp
    · rw [Function.update_of_ne hj, hdel.kept j hj, h.holds]
      simp [hj]

/-- Writing an array element by element, from values that are read one at a
time, pastes the values read. -/
theorem foldlM_put_eq {p : Pool β} (h : p.Sound) (hi : p.IsLive i) {a : AttributeArray .double}
    (hfit : a.Within p.layout.size) {read : Nat → Checked F}
    (hread : (List.range a.length).mapM read = .ok position) :
    (List.range a.length).foldlM (fun pool d => do
        let x ← read d
        a.put pool (p.referenceTo i) d x) p =
      .ok (p.setRecord i (paste (p.contents i) a.offset (Kind.forms .double position))) := by
  have hrecord := h.length_contents hi
  have hlength : position.length = a.length := by
    rw [length_of_mapM_eq_ok hread, List.length_range]
  -- after `d` elements the first `d` of the values read are pasted
  obtain ⟨p', hfold, rfl⟩ : ∃ p', (List.range a.length).foldlM (fun pool d => do
      let x ← read d
      a.put pool (p.referenceTo i) d x) p = .ok p' ∧ p' = p.setRecord i
        (paste (p.contents i) a.offset (Kind.forms .double (position.take a.length))) := by
    apply foldlM_range_ok fun d pool => pool = p.setRecord i
      (paste (p.contents i) a.offset (Kind.forms .double (position.take d)))
    · show p = p.setRecord i (paste (p.contents i) a.offset [])
      rw [paste_nil, h.setRecord_contents hi]
    · rintro d hd _ rfl
      obtain ⟨x, hx, hcoordinate⟩ := getElem?_of_mapM_range_eq_ok hread hd
      have hx' : Kind.double.Storable x := trivial
      have hdouble : (Kind.form .double x : List β).length = 8 := Kind.length_form hx'
      have hforms : (Kind.forms .double (position.take d) : List β).length = 8 * d := by
        rw [Kind.length_forms_double, List.length_take]
        omega
      have helement : a.offset + d * 8 + 8 ≤ p.layout.size := hfit.element hd
      have hpaste : (paste (p.contents i) a.offset
          (Kind.forms .double (position.take d))).length = p.layout.size := by
        rw [length_paste (by omega), hrecord]
      have hput := Attribute.put_setRecord h hi hpaste (hfit.element hd) hx'
      have hnext : (a.element d).offset =
          a.offset + (Kind.forms .double (position.take d) : List β).length := by
        rw [AttributeArray.offset_element, hforms, Nat.mul_comm]
        rfl
      have hmore : position.take (d + 1) = position.take d ++ [x] := by
        rw [List.take_add_one, hx, Option.toList_some]
      rw [hnext, paste_append (by omega), ← Kind.forms_concat, ← hmore] at hput
      exact ⟨_, by rw [hcoordinate, ok_bind, AttributeArray.put_eq_element hd, hput], rfl⟩
  rw [hfold, List.take_of_length_le (le_of_eq hlength)]

/-- Overwriting a point pastes its coordinates into its record. -/
theorem fill_eq_setRecord (h : points.pool.Sound) (hi : points.pool.IsLive i)
    (hlength : points.position.length = points.dimension)
    (hfit : points.position.Within points.pool.layout.size) {P : Type} [HasCoordinates P F]
    {source : P} (hsource : HasCoordinates.dimension source = points.dimension)
    (hposition : positionOf source = .ok position) :
    points.fill (points.pool.referenceTo i) source =
      .ok { points with pool := points.pool.setRecord i (paste (points.pool.contents i)
        points.position.offset (Kind.forms .double position)) } := by
  rw [positionOf, hsource, ← hlength] at hposition
  have hfold := foldlM_put_eq h hi hfit hposition
  rw [hlength] at hfold
  rw [fill, hsource, beq_self_eq_true, demand_true, ok_bind, hfold]
  rfl

/-- **Overwriting a point** gives it the position of the source. -/
theorem Holds.fill_eq (h : points.Holds dimension positions) (hi : points.pool.IsLive i)
    {P : Type} [HasCoordinates P F] {source : P}
    (hsource : HasCoordinates.dimension source = dimension)
    (hposition : positionOf source = .ok position) :
    ∃ points', points.fill (points.pool.referenceTo i) source = .ok points' ∧
      points'.Holds dimension (Function.update positions i (some position)) := by
  have hlength : position.length = points.position.length := by
    rw [length_of_mapM_eq_ok hposition, List.length_range, hsource, h.length]
  have hrecord := h.sound.length_contents hi
  have hroom : points.position.offset + (Kind.forms .double position : List β).length ≤
      (points.pool.contents i).length := by
    rw [Kind.length_forms_double, hlength, hrecord, Nat.mul_comm]
    exact h.within
  have hvalues : points.position.values (paste (points.pool.contents i) points.position.offset
      (Kind.forms .double position)) = position :=
    AttributeArray.values_of_shows (shows_paste hroom) hlength
      fun x _ => (trivial : Kind.double.Storable x)
  have hholds := h.rewritten hi (h.sound.rewrites_setRecord hi
    ((length_paste hroom).trans hrecord)) fun plan hplan => hplan.setRecord i _
  rw [hvalues] at hholds
  exact ⟨_, fill_eq_setRecord h.sound hi (h.length.trans h.dimension_eq.symm) h.within
    (hsource.trans h.dimension_eq.symm) hposition, hholds⟩

/-- A point is added by creating its record and overwriting that. -/
theorem Holds.add_of_allocates (h : points.Holds dimension positions)
    (halloc : points.pool.Allocates i p')
    (hfollows : ∀ plan, plan.validate = .ok () → plan.InRange → points.pool.Follows plan →
      p'.Follows plan)
    {P : Type} [HasCoordinates P F] {source : P}
    (hsource : HasCoordinates.dimension source = dimension)
    (hposition : positionOf source = .ok position) :
    ∃ points', ({ points with pool := p' } : PointPool β).fill (points.pool.referenceTo i) source =
        .ok points' ∧
      points'.Holds dimension (Function.update positions i (some position)) := by
  obtain ⟨points', hfill, hholds⟩ := (h.allocated halloc hfollows).fill_eq
    ((halloc.live i).mpr (Or.inl rfl)) hsource hposition
  rw [halloc.referenceTo] at hfill
  rw [Function.update_idem] at hholds
  exact ⟨points', hfill, hholds⟩

/-- A source that fills a point has the dimension of the pool. -/
theorem dimension_of_fill {P : Type} [HasCoordinates P F] {source : P}
    (hfill : points.fill r source = .ok points') :
    HasCoordinates.dimension source = points.dimension := by
  obtain ⟨_, hdemand, -⟩ := bind_eq_ok_iff.mp hfill
  simpa using eq_true_of_demand hdemand

/-- **Every operation** changes the positions held as it says. -/
theorem Holds.does (h : points.Holds dimension positions) {change : PointChange F}
    (hdoes : points.Does change points') :
    points'.Holds dimension (change.apply positions) := by
  cases hdoes with
  | add hposition hadd =>
      obtain ⟨⟨index, p', r₁⟩, hcreate, hrest⟩ := bind_eq_ok_iff.mp hadd
      obtain ⟨points₁, hfill, hput⟩ := bind_eq_ok_iff.mp hrest
      cases hput
      have hallocate := Pool.allocate_eq_of_create hcreate
      obtain ⟨halloc, rfl⟩ := h.sound.allocates_of_allocate hallocate
      have hfollows : ∀ plan, plan.validate = .ok () → plan.InRange →
          points.pool.Follows plan → p'.Follows plan :=
        fun plan hvalid hrange hplan => (hplan.allocate hvalid hrange hallocate).1
      have hsource := (dimension_of_fill hfill).trans h.dimension_eq
      obtain ⟨points₂, hfill', hholds⟩ :=
        h.add_of_allocates halloc hfollows hsource hposition
      obtain rfl := Except.ok.inj (hfill.symm.trans hfill')
      exact hholds
  | fill hposition hrequire hfill =>
      obtain ⟨hi, rfl⟩ := h.sound.require_eq_ok_iff.mp hrequire
      have hsource := (dimension_of_fill hfill).trans h.dimension_eq
      obtain ⟨points₁, hfill', hholds⟩ := h.fill_eq hi hsource hposition
      obtain rfl := Except.ok.inj (hfill.symm.trans hfill')
      exact hholds
  | delete hrequire hdelete =>
      obtain ⟨hi, rfl⟩ := h.sound.require_eq_ok_iff.mp hrequire
      obtain ⟨p', hremove, hput⟩ := bind_eq_ok_iff.mp hdelete
      cases hput
      obtain ⟨p₁, heq, hdel⟩ := h.sound.delete_eq hi
      obtain rfl := Except.ok.inj (hremove.symm.trans heq)
      exact h.deleted hdel fun plan hplan => hplan.delete hremove

/-- **Every run** leaves the positions last given to the points that were not
taken back since. -/
theorem Holds.runs (h : points.Holds dimension fun _ => none) {changes : List (PointChange F)}
    (hruns : points.Runs changes points') :
    points'.Holds dimension (PointChange.latest changes) := by
  induction hruns with
  | start => exact h
  | step _ hdoes ih =>
      rw [PointChange.latest_concat]
      exact ih.does hdoes

/-! ## New pools -/

/-- The layout of points: their coordinates and nothing else. -/
def pointLayout (dimension : Nat) : Layout :=
  ⟨0, [⟨"position", .array .double dimension, 0⟩], 8 * dimension⟩

/-- The point pool over the records of a pool. -/
def ofPool (dimension : Nat) (pool : Pool β) : PointPool β :=
  ⟨dimension, pool, ⟨0, 0, dimension⟩⟩

/-- Points within the machine range can be laid out: making a pool of them is
making the pool of their records. -/
theorem make_eq_ofPool (id : PoolId) (initial : Nat) (hpos : 0 < dimension)
    (hsize : 8 * dimension < sizeBound) :
    (PointPool.make id dimension initial : ExceptT TreeError Checked (PointPool β)) =
      (Pool.make id (pointLayout dimension) (.single initial) .keep).adapt .pool >>= fun pool =>
        pure (ofPool dimension pool) := by
  obtain ⟨hfield, htight⟩ := (Draft.tight_start 0).fieldArray_eq .double "position" (by simp) hpos
    (by simpa [Kind.size] using hsize)
  have hlayout : ((Draft.start 0).appended "position" (.array .double dimension)).finish =
      pure (pointLayout dimension) := by
    simpa [pointLayout, Shape.size, Kind.size] using htight.finish_eq (by simp)
  rw [PointPool.make, if_neg (by omega), show Draft.internal = Draft.start 0 from rfl]
  simp only [hfield, lift_ok, pure_bind, hlayout, adapt_pure]
  -- the pool has the layout of the field, so that it is bound to it
  cases hmake : Pool.make id (pointLayout dimension) (.single initial) (.keep : Reset β) with
  | error fault => rfl
  | ok outcome =>
      cases outcome with
      | error refusal => rfl
      | ok p =>
          have hlayoutId : p.layout.id = 0 := by
            rw [Pool.layout_of_make hmake]
            rfl
          show (pure p >>= _ : ExceptT TreeError Checked (PointPool β)) = pure p >>= _
          rw [pure_bind, pure_bind]
          simp [AttributeArray.bind_eq, hlayoutId, ofPool]

/-- A new pool of points is a new pool of their records. -/
theorem make_of_pool {id : PoolId} {initial : Nat} (hpos : 0 < dimension)
    (hdim : dimension < 2 ^ 28) {p : Pool β}
    (hmake : Pool.make id (pointLayout dimension) (.single initial) .keep = pure p) :
    PointPool.make id dimension initial = pure (ofPool dimension p) := by
  rw [make_eq_ofPool id initial hpos (by unfold sizeBound; omega), hmake, adapt_pure, pure_bind]

/-- A pool of points that was made is over a pool that was made for its
records. -/
theorem exists_pool_of_make {id : PoolId} {initial : Nat} (hpos : 0 < dimension)
    (hdim : dimension < 2 ^ 28) (hmake : PointPool.make id dimension initial = pure points) :
    ∃ p, Pool.make id (pointLayout dimension) (.single initial) .keep = pure p ∧
      points = ofPool dimension p := by
  rw [make_eq_ofPool id initial hpos (by unfold sizeBound; omega)] at hmake
  obtain ⟨p, hpool, hput⟩ := bind_eq_pure_iff.mp hmake
  cases hput
  exact ⟨p, eq_pure_of_adapt hpool, rfl⟩

/-- A new pool holds no points. -/
theorem make_eq (id : PoolId) {initial : Nat} (hpos : 0 < dimension) (hdim : dimension < 2 ^ 28)
    (hinitial : initial ≤ indexLimit) :
    ∃ points : PointPool β, PointPool.make id dimension initial = pure points ∧
      points.Holds (F := F) dimension fun _ => none := by
  have hvalid := StorePlan.validate_single hinitial
  have hrange := StorePlan.inRange_single initial
  have hbound : 2 ^ 31 * (pointLayout dimension).size < sizeBound := by
    show 2 ^ 31 * (8 * dimension) < sizeBound
    unfold sizeBound
    omega
  obtain ⟨p, hmake, hsound, -, hlayout, -, hallocated, -, -, -⟩ :=
    Pool.make_eq (β := β) hvalid hrange hbound id .keep
  refine ⟨_, make_of_pool hpos hdim hmake, ?_⟩
  exact {
    sound := hsound
    dimension_eq := rfl
    length := rfl
    within := by
      show _ ≤ p.layout.size
      rw [hlayout]
      show 0 + dimension * 8 ≤ 8 * dimension
      omega
    follows := ⟨initial, hinitial, (Pool.Reachable.make hmake).follows hvalid hrange⟩
    holds := by
      intro i x
      refine iff_of_false (by rintro ⟨⟩) fun hlive => ?_
      have hlt := hsound.lt_allocated hlive.1
      omega }

/-! ## Listing a pool -/

/-- The coordinates of a point are the values in its record. -/
theorem coordinates_eq_values (h : points.pool.Sound) (hi : points.pool.IsLive i)
    (hlength : points.position.length = points.dimension)
    (hfit : points.position.Within points.pool.layout.size) :
    points.coordinates (points.pool.referenceTo i) =
      .ok (points.position.values (points.pool.contents i) : List F) := by
  have hstep : ∀ d ∈ List.range points.dimension,
      points.coordinate (F := F) (points.pool.referenceTo i) d =
        .ok ((points.position.element d).read (points.pool.contents i)) := by
    intro d hd
    have hlt : d < points.position.length := by
      rw [hlength]
      exact List.mem_range.mp hd
    rw [coordinate, AttributeArray.get_eq_element hlt,
      Attribute.get_eq h hi (hfit.element hlt)]
  rw [coordinates, mapM_eq_ok hstep, AttributeArray.values, hlength]

/-- The coordinates of a point are its position. -/
theorem Holds.coordinates_eq (h : points.Holds dimension positions) {x : List F}
    (hx : positions i = some x) : points.coordinates (points.pool.referenceTo i) = .ok x := by
  obtain ⟨hi, rfl⟩ := (h.holds i x).mp hx
  exact coordinates_eq_values h.sound hi (h.length.trans h.dimension_eq.symm) h.within

/-- A live point with its index. -/
def pointAt (points : PointPool β) (i : RecordIndex) : RecordIndex × List F :=
  (i, points.position.values (points.pool.contents i))

/-- The points still to come are those in the slots that the cursor has before
it, whatever the reference pointed at. -/
theorem Holds.rest_eq (h : points.Holds dimension positions) {count : Nat} {c : Cursor}
    {r : Reference} (hr : r.pool = points.pool.id)
    (hcount : (points.pool.liveFrom c.next).length ≤ count) :
    points.rest (F := F) count c r = .ok ((points.pool.liveFrom c.next).map points.pointAt) := by
  induction count generalizing c r with
  | zero =>
      rw [List.length_eq_zero_iff.mp (Nat.le_zero.mp hcount)]
      rfl
  | succ count ih =>
      rw [rest]
      rcases h.sound.advance_cases hr c with ⟨hnone, hadvance⟩ | ⟨i, hcons, hadvance⟩
      · rw [hadvance, hnone]
        rfl
      · have hmem : i ∈ points.pool.liveFrom c.next := by
          rw [hcons]
          exact List.mem_cons_self
        have hlive := (h.sound.mem_liveFrom_iff.mp hmem).2
        rw [hcons, List.length_cons] at hcount
        have hrest := ih (c := ⟨i + 1⟩) (r := points.pool.referenceTo i) rfl (by simpa using hcount)
        rw [hadvance, hcons, List.map_cons, ok_bind]
        dsimp only
        rw [h.coordinates_eq (h.of_isLive hlive), ok_bind, hrest]
        rfl

/-- **Listing a pool** gives the points it holds, by ascending index. -/
theorem Holds.exists_toList (h : points.Holds dimension positions) :
    ∃ live : List (RecordIndex × List F), points.toList = .ok live ∧
      live.Pairwise (fun a b => a.1 < b.1) ∧ (∀ i x, (i, x) ∈ live ↔ positions i = some x) ∧
      live.length ≤ points.pool.allocated := by
  refine ⟨(points.pool.liveFrom 0).map points.pointAt,
    h.rest_eq rfl (Pool.length_liveFrom_le points.pool 0), ?_, ?_, ?_⟩
  · rw [List.pairwise_map]
    exact Pool.pairwise_liveFrom points.pool 0
  · intro i x
    rw [List.mem_map, h.holds]
    constructor
    · rintro ⟨j, hj, heq⟩
      obtain ⟨rfl, rfl⟩ := Prod.mk.inj heq
      exact ⟨(h.sound.mem_liveFrom_iff.mp hj).2, rfl⟩
    · rintro ⟨hlive, rfl⟩
      exact ⟨i, h.sound.mem_liveFrom_iff.mpr ⟨Nat.zero_le i, hlive⟩, rfl⟩
  · rw [List.length_map]
    exact Pool.length_liveFrom_le points.pool 0

end PointPool

end RecordPool
