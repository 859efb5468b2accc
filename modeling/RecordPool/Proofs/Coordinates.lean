/-
# Coordinates and distances of points

Points that are lists of one length: copying, measuring and reading them never
fails, and the squared distance is a sum over the axes.  A point that fills
whatever it is copied into is a lawful source of coordinates.
-/
import RecordPool.PointPool
import RecordPool.Proofs.Outcome

namespace RecordPool

variable {F : Type} [Arithmetic F]

/-- A coordinate inside a point is read. -/
theorem fetchAt_eq_getD {point : List F} {d : Nat} (h : d < point.length) :
    fetchAt point d = .ok (point.getD d Arithmetic.zero) := by
  rw [List.getD_eq_getElem?_getD, List.getElem?_eq_getElem h, Option.getD_some]
  exact fetchAt_eq_ok (List.getElem?_eq_getElem h)

/-- A point is the list of its coordinates. -/
theorem map_getD_range (point : List F) :
    (List.range point.length).map (fun d => point.getD d Arithmetic.zero) = point := by
  apply List.ext_getElem?
  intro d
  rw [List.getElem?_map]
  by_cases hd : d < point.length
  · rw [List.getElem?_range hd, Option.map_some, List.getD_eq_getElem?_getD,
      List.getElem?_eq_getElem hd, Option.getD_some]
  · have hnone : point[d]? = none := List.getElem?_eq_none (by omega)
    have hnone' : (List.range point.length)[d]? = none := by
      apply List.getElem?_eq_none
      rw [List.length_range]
      omega
    rw [hnone, hnone', Option.map_none]

/-- A list is copied over the start of a list that is long enough. -/
theorem copyInto_eq {point out : List F} (h : point.length ≤ out.length) :
    HasCoordinates.copyInto point out = .ok (point ++ out.drop point.length) := by
  show fillFrom point.length (fetchAt point) out = _
  rw [fillFrom, Nat.min_eq_left h,
    mapM_eq_ok fun d hd => fetchAt_eq_getD (List.mem_range.mp hd), ok_bind, map_getD_range]
  rfl

/-- The squared distance between two points over some number of axes. -/
def distanceBetween (dimension : Nat) (x y : List F) : F :=
  Arithmetic.sum ((List.range dimension).map fun d =>
    Arithmetic.square (Arithmetic.sub (x.getD d Arithmetic.zero) (y.getD d Arithmetic.zero)))

/-- Measuring two points of one dimension. -/
theorem squaredDistance_eq {x y : List F} (h : x.length ≤ y.length) :
    squaredDistance x y = .ok (distanceBetween x.length x y) := by
  have hstep : ∀ d ∈ List.range x.length, (do
      let a ← fetchAt x d
      let b ← fetchAt y d
      pure (Arithmetic.square (Arithmetic.sub a b)) : Checked F) =
        .ok (Arithmetic.square
          (Arithmetic.sub (x.getD d Arithmetic.zero) (y.getD d Arithmetic.zero))) := by
    intro d hd
    have hlt := List.mem_range.mp hd
    rw [fetchAt_eq_getD hlt, ok_bind, fetchAt_eq_getD (by omega), ok_bind]
    rfl
  show (do
    let squares ← (List.range x.length).mapM fun d => do
      let a ← fetchAt x d
      let b ← fetchAt y d
      pure (Arithmetic.square (Arithmetic.sub a b))
    pure (Arithmetic.sum squares) : Checked F) = _
  rw [mapM_eq_ok hstep, ok_bind]
  rfl

/-! ## Lawful sources -/

section Sources

omit [Arithmetic F]

/-- Copying a point over a list with as many elements leaves nothing of what
the list held. -/
class LawfulCoordinates (P : Type) (F : outParam Type) [HasCoordinates P F] : Prop where
  /-- What the list held does not matter. -/
  copyInto_congr : ∀ (point : P) {out out' : List F},
    out.length = HasCoordinates.dimension point → out'.length = HasCoordinates.dimension point →
      HasCoordinates.copyInto point out = HasCoordinates.copyInto point out'
  /-- The list keeps its length. -/
  length_of_copyInto : ∀ (point : P) {out values : List F},
    out.length = HasCoordinates.dimension point →
      HasCoordinates.copyInto point out = .ok values → values.length = out.length

/-- A list of as many numbers is filled with the coordinates. -/
theorem fillFrom_eq {count : Nat} {coordinate : Nat → Checked F} {out : List F}
    (h : out.length = count) : fillFrom count coordinate out =
      (List.range count).mapM coordinate := by
  rw [fillFrom, h, Nat.min_self, List.drop_of_length_le (le_of_eq h)]
  simp

/-- A list of as many numbers keeps its length. -/
theorem length_of_fillFrom {count : Nat} {coordinate : Nat → Checked F} {out values : List F}
    (h : out.length = count) (hfill : fillFrom count coordinate out = .ok values) :
    values.length = out.length := by
  rw [fillFrom_eq h] at hfill
  rw [length_of_mapM_eq_ok hfill, List.length_range, h]

/-- Lists of numbers are lawful. -/
instance : LawfulCoordinates (List F) F where
  copyInto_congr := fun _ _ _ h h' => (fillFrom_eq h).trans (fillFrom_eq h').symm
  length_of_copyInto := fun _ _ _ h hcopy => length_of_fillFrom h hcopy

/-- Slices are lawful. -/
instance : LawfulCoordinates (Slice F) F where
  copyInto_congr := by
    intro point out out' h h'
    change out.length = point.coordinates.length at h
    change out'.length = point.coordinates.length at h'
    show splice out 0 point.coordinates = splice out' 0 point.coordinates
    rw [splice, splice, if_pos (by omega), if_pos (by omega), List.drop_of_length_le (by omega),
      List.drop_of_length_le (by omega)]
    rfl
  length_of_copyInto := fun _ _ _ _ hcopy => length_of_splice hcopy

/-- Points of a pool are lawful. -/
instance {β : Type} [Memory β F] : LawfulCoordinates (PointView β) F where
  copyInto_congr := fun _ _ _ h h' => (fillFrom_eq h).trans (fillFrom_eq h').symm
  length_of_copyInto := fun _ _ _ h hcopy => length_of_fillFrom h hcopy

end Sources

end RecordPool
