/-
# Twin frontiers

Frontiers over twin pools.  A new entry lies in memory that holds whatever was
there before, but filling an entry in writes each of its cells, and inheriting
copies all of them, so that nothing stale is left in an entry once it is queued.
-/
import RecordPool.Proofs.Pool.TwinQueues
import RecordPool.Proofs.Search.Frontier

namespace RecordPool

namespace Frontier

variable {β F : Type} [Memory β F]

/-! ## The same entries -/

/-- Both frontiers are over twin pools of entries. -/
inductive Twins (dimension : Nat) (m : Pairing) (stale : Set (Nat × Nat)) :
    Frontier β → Frontier β → Prop where
  | intro {p p' : Pool β} (layout : m.layout = entryLayout dimension)
      (pools : Pool.Twins m stale p p') :
      Twins dimension m stale (ofPool dimension p) (ofPool dimension p')

variable {dimension i j d : Nat} {m : Pairing} {stale stale' : Set (Nat × Nat)}
  {f f' : Frontier β}

namespace Twins

/-- A larger set of cells of the entries may be stale. -/
theorem mono (h : Twins dimension m stale f f')
    (hsub : ∀ i k, k < 17 + 9 * dimension → (i, k) ∈ stale → (i, k) ∈ stale') :
    Twins dimension m stale' f f' := by
  obtain ⟨layout, pools⟩ := h
  refine ⟨layout, pools.mono fun i k hk => hsub i k ?_⟩
  rwa [layout, size_entryLayout] at hk

/-- The pools of twins. -/
theorem pools (h : Twins dimension m stale f f') : Pool.Twins m stale f.pool f'.pool := by
  obtain ⟨-, pools⟩ := h
  exact pools

/-- Twins have one dimension. -/
theorem dimension_eq (h : Twins dimension m stale f f') :
    f.dimension = dimension ∧ f'.dimension = dimension := by
  obtain ⟨-, -⟩ := h
  exact ⟨rfl, rfl⟩

/-- New references may be pointed at entries. -/
theorem pool_newReference (h : Twins dimension m stale f f') (i : Nat) :
    f.pool.newReference.pool = (m.first i).pool ∧
      f'.pool.newReference.pool = (m.second i).pool := by
  rw [← h.pools.first, ← h.pools.second]
  exact ⟨rfl, rfl⟩

/-! ## Reading -/

section Reading

variable (h : Twins dimension m ∅ f f') (hi : i ∈ m.used)
include h hi

theorem nodeOf_eq : f'.nodeOf (m.second i) = f.nodeOf (m.first i) := by
  obtain ⟨-, pools⟩ := h
  rw [nodeOf, nodeOf]
  exact congrArg (· >>= _) (Attribute.get_twins _ pools hi)

theorem axisOf_eq : f'.axisOf (m.second i) = f.axisOf (m.first i) := by
  obtain ⟨-, pools⟩ := h
  rw [axisOf, axisOf]
  exact congrArg (· >>= _) (Attribute.get_twins _ pools hi)

theorem entryIsPoint_eq : f'.entryIsPoint (m.second i) = f.entryIsPoint (m.first i) := by
  obtain ⟨-, pools⟩ := h
  exact Attribute.get_twins _ pools hi

theorem sideOf_eq (d : Nat) : f'.sideOf (m.second i) d = f.sideOf (m.first i) d := by
  obtain ⟨-, pools⟩ := h
  exact AttributeArray.get_twins _ pools hi d

theorem gapOf_eq (d : Nat) : f'.gapOf (m.second i) d = f.gapOf (m.first i) d := by
  obtain ⟨-, pools⟩ := h
  exact AttributeArray.get_twins _ pools hi d

theorem distanceOf_eq : f'.distanceOf (m.second i) = f.distanceOf (m.first i) := by
  obtain ⟨-, pools⟩ := h
  exact Attribute.get_twins _ pools hi

end Reading

/-- Twins order their entries alike. -/
theorem order_agree [Arithmetic F] (h : Twins dimension m ∅ f f') :
    f.order.Agree m f'.order := by
  obtain ⟨-, pools⟩ := h
  intro i hi j hj
  rw [order, order, Comparator.byDouble, Comparator.byDouble]
  dsimp only [ofPool]
  rw [Attribute.get_twins _ pools hi, Attribute.get_twins _ pools hj]

/-! ## Writing -/

section Writing

variable (h : Twins dimension m stale f f') (hi : i ∈ m.used)
include h hi

/-- Making an entry of both a point or a box. -/
theorem setPoint (value : Bool) :
    Alike (Twins dimension m (stale \ stretch i 8 1))
      (f.setPoint (m.first i) value) (f'.setPoint (m.second i) value) := by
  obtain ⟨layout, pools⟩ := h
  exact (Attribute.put_twins (⟨2, 8⟩ : Attribute .boolean) pools hi value).bind fun q q' hq =>
    alike_pure ⟨layout, hq⟩

/-- Setting the node and its axis in both. -/
theorem setNode (node : RecordIndex) (axis : Nat) :
    Alike (Twins dimension m ((stale \ stretch i 0 4) \ stretch i 4 4))
      (f.setNode (m.first i) node axis) (f'.setNode (m.second i) node axis) := by
  obtain ⟨layout, pools⟩ := h
  exact (Attribute.put_twins (⟨0, 0⟩ : Attribute .index) pools hi (some node)).bind
    fun q q' hq => (Attribute.put_twins (⟨1, 4⟩ : Attribute .int) hq hi (Kind.narrow axis)).bind
      fun r r' hr => alike_pure ⟨layout, hr⟩

/-- Setting the side on one axis in both. -/
theorem setSide (d : Nat) (value : Int8) :
    Alike (Twins dimension m (stale \ stretch i (9 + d * 1) 1))
      (f.setSide (m.first i) d value) (f'.setSide (m.second i) d value) := by
  obtain ⟨layout, pools⟩ := h
  exact (AttributeArray.put_twins (⟨3, 9, dimension⟩ : AttributeArray .byte) pools hi d
    value).bind fun q q' hq => alike_pure ⟨layout, hq⟩

/-- Setting the gap on one axis in both. -/
theorem setGap (d : Nat) (value : F) :
    Alike (Twins dimension m (stale \ stretch i (9 + dimension + d * 8) 8))
      (f.setGap (m.first i) d value) (f'.setGap (m.second i) d value) := by
  obtain ⟨layout, pools⟩ := h
  exact (AttributeArray.put_twins (⟨4, 9 + dimension, dimension⟩ : AttributeArray .double) pools
    hi d value).bind fun q q' hq => alike_pure ⟨layout, hq⟩

/-- Setting the distance in both. -/
theorem setDistance (value : F) :
    Alike (Twins dimension m (stale \ stretch i (9 + 9 * dimension) 8))
      (f.setDistance (m.first i) value) (f'.setDistance (m.second i) value) := by
  obtain ⟨layout, pools⟩ := h
  exact (Attribute.put_twins (⟨5, 9 + 9 * dimension⟩ : Attribute .double) pools hi value).bind
    fun q q' hq => alike_pure ⟨layout, hq⟩

end Writing

/-- Where nothing was stale, nothing is after writing. -/
theorem alike_written {written : Set (Nat × Nat)} {x x' : Checked (Frontier β)}
    (h : Alike (Twins dimension m (∅ \ written)) x x') : Alike (Twins dimension m ∅) x x' :=
  h.mono fun _ _ htwins => htwins.mono fun _ _ _ hmem => hmem.1

/-! ## Whole entries -/

/-- What is stale of the entry `i` once it has its head and the sides and gaps
of the first `d` axes. -/
def unfilled (dimension i d : Nat) : Set (Nat × Nat) :=
  {c | c.1 = i ∧ (9 + d ≤ c.2 ∧ c.2 < 9 + dimension ∨ 9 + dimension + d * 8 ≤ c.2)}

/-- **Filling in** leaves nothing of an entry stale. -/
theorem fill [Arithmetic F] (h : Twins dimension m (cellsOf i) f f') (hi : i ∈ m.used)
    (node : RecordIndex) (axis : Nat) :
    Alike (Twins dimension m ∅) (f.fill (m.first i) node axis) (f'.fill (m.second i) node axis) := by
  rw [Frontier.fill, Frontier.fill]
  refine (h.setPoint hi false).bind fun g g' h₁ => ?_
  refine (h₁.setNode hi node axis).bind fun k k' h₂ => ?_
  rw [h₂.dimension_eq.1, h₂.dimension_eq.2]
  have hstart : Twins dimension m (unfilled dimension i 0) k k' := by
    refine h₂.mono fun j l _ hmem => ?_
    simp only [unfilled, stretch, cellsOf, Set.mem_sdiff, Set.mem_ofPred_eq] at hmem ⊢
    omega
  refine (alike_foldlM_range (fun d => Twins dimension m (unfilled dimension i d)) hstart
    fun d hd g g' hg => ?_).bind fun g g' h₃ => ?_
  · -- the side and the gap of one more axis are written
    refine (hg.setSide hi d 0).bind fun k k' hside => ?_
    refine (hside.setGap hi d Arithmetic.zero).mono fun l l' hgap => ?_
    refine hgap.mono fun j l _ hmem => ?_
    simp only [unfilled, stretch, Set.mem_sdiff, Set.mem_ofPred_eq] at hmem ⊢
    omega
  · refine (h₃.setDistance hi Arithmetic.zero).mono fun k k' h₄ => ?_
    refine h₄.mono fun j l hl hmem => ?_
    simp only [unfilled, stretch, Set.mem_sdiff, Set.mem_ofPred_eq] at hmem
    omega

/-- **Inheriting** leaves nothing of an entry stale. -/
theorem inherit (h : Twins dimension m (cellsOf j) f f') (hi : i ∈ m.used) (hj : j ∈ m.used)
    (hne : j ≠ i) (node : RecordIndex) (axis : Nat) :
    Alike (Twins dimension m ∅) (f.inherit (m.first j) node axis (m.first i))
      (f'.inherit (m.second j) node axis (m.second i)) := by
  obtain ⟨layout, pools⟩ := h
  rw [Frontier.inherit, Frontier.inherit]
  refine (pools.copy hi hj hne).bind fun q q' hq => ?_
  have hcopied : Twins dimension m ∅ (ofPool dimension q) (ofPool dimension q') := ⟨layout, hq⟩
  refine (hcopied.setPoint hj false).bind fun g g' hpoint => ?_
  refine (hpoint.setNode hj node axis).mono fun k k' hnode => ?_
  exact hnode.mono fun l c _ hmem => hmem.1.1.1

/-- The outcomes of creating an entry: the same slot, stale as yet. -/
inductive Created (dimension : Nat) (m : Pairing) :
    RecordIndex × Frontier β × Reference → RecordIndex × Frontier β × Reference → Prop where
  | intro {i : Nat} {g g' : Frontier β} (fresh : i ∉ m.used)
      (twins : Twins dimension (m.insert i) (cellsOf i) g g') :
      Created dimension m (i, g, m.first i) (i, g', m.second i)

/-- **Creating an entry** takes the same slot of both. -/
theorem create (h : Twins dimension m ∅ f f') :
    Alike (Created dimension m) (f.create f.pool.newReference)
      (f'.create f'.pool.newReference) := by
  obtain ⟨layout, pools⟩ := h
  rw [Frontier.create, Frontier.create]
  refine pools.create.bind fun x x' hcreated => ?_
  obtain ⟨hfresh, htwins⟩ := hcreated
  exact alike_pure ⟨hfresh, layout, htwins⟩

/-- **Removing an entry** leaves twins without it. -/
theorem delete (h : Twins dimension m ∅ f f') (hi : i ∈ m.used) :
    Alike (fun g g' => ∃ n, m.Drops i n ∧ Twins dimension n ∅ g g')
      (f.delete (m.first i)) (f'.delete (m.second i)) := by
  obtain ⟨layout, pools⟩ := h
  rw [Frontier.delete, Frontier.delete]
  refine (pools.delete hi).bind fun q q' hq => ?_
  obtain ⟨n, hdrops, htwins⟩ := hq
  exact alike_pure ⟨n, hdrops, hdrops.layout.trans layout, htwins⟩

end Twins

/-! ## Clearing and making -/

/-- Both frontiers are over pools of entries that are in step. -/
inductive Trails (dimension : Nat) (plan : StorePlan) : Frontier β → Frontier β → Prop where
  | intro {p p' : Pool β} (pools : Pool.Trails (entryLayout dimension) plan p p') :
      Trails dimension plan (ofPool dimension p) (ofPool dimension p')

variable {plan : StorePlan}

/-- Twins are in step. -/
theorem Twins.trails (h : Twins dimension m stale f f') : Trails dimension m.plan f f' := by
  obtain ⟨layout, pools⟩ := h
  exact ⟨layout ▸ pools.toTrails⟩

/-- **Cleared frontiers are twins**, whatever was done with them before. -/
theorem Trails.clear (h : Trails dimension plan f f') :
    ∃ m : Pairing, m.plan = plan ∧ Twins dimension m ∅ f.clear f'.clear := by
  obtain ⟨pools⟩ := h
  exact ⟨_, rfl, rfl, pools.clear⟩

/-- A frontier that has not grown is behind every other one. -/
theorem Trails.of_initial (h : Trails dimension plan f f) (h' : Trails dimension plan f' f')
    (hcap : f.pool.store.capacity = plan.initial) : Trails dimension plan f f' := by
  cases h with
  | intro pools =>
      cases h' with
      | intro pools' =>
          refine ⟨pools.sound, pools'.sound, pools.layout, pools'.layout, ?_⟩
          refine pools.store.of_initial pools'.store hcap ?_
          rw [pools.sound.recordSize, pools'.sound.recordSize, pools.layout, pools'.layout]

/-- A frontier that was made is over a pool that was made for its entries. -/
theorem exists_pool_of_make {id : PoolId} {capacity : Nat}
    (hmake : make id dimension capacity = pure f) :
    0 < dimension ∧ 17 + 9 * dimension < sizeBound ∧
      ∃ p, Pool.make id (entryLayout dimension) (.single capacity) .keep = pure p ∧
        f = ofPool dimension p := by
  have hpos : 0 < dimension := by
    by_contra hzero
    rw [make, if_pos (by omega)] at hmake
    cases hmake
  have hsize : 17 + 9 * dimension < sizeBound := by
    -- the last column was appended, so that the record ends within the range
    rw [make, if_neg (by omega)] at hmake
    obtain ⟨⟨_, d₁⟩, h₁, hmake⟩ := bind_eq_pure_iff.mp hmake
    obtain ⟨⟨_, d₂⟩, h₂, hmake⟩ := bind_eq_pure_iff.mp hmake
    obtain ⟨⟨_, d₃⟩, h₃, hmake⟩ := bind_eq_pure_iff.mp hmake
    obtain ⟨⟨_, d₄⟩, h₄, hmake⟩ := bind_eq_pure_iff.mp hmake
    obtain ⟨⟨_, d₅⟩, h₅, hmake⟩ := bind_eq_pure_iff.mp hmake
    obtain ⟨⟨_, d₆⟩, h₆, -⟩ := bind_eq_pure_iff.mp hmake
    obtain ⟨rfl, -⟩ := Draft.eq_of_field (eq_ok_of_lift h₁)
    obtain ⟨rfl, -⟩ := Draft.eq_of_field (eq_ok_of_lift h₂)
    obtain ⟨rfl, -⟩ := Draft.eq_of_field (eq_ok_of_lift h₃)
    obtain ⟨rfl, -⟩ := Draft.eq_of_fieldArray (eq_ok_of_lift h₄)
    obtain ⟨rfl, -⟩ := Draft.eq_of_fieldArray (eq_ok_of_lift h₅)
    obtain ⟨rfl, hbound⟩ := Draft.eq_of_field (eq_ok_of_lift h₆)
    exact size_entryLayout dimension ▸ hbound
  refine ⟨hpos, hsize, ?_⟩
  rw [make_eq_ofPool id hpos hsize] at hmake
  obtain ⟨p, hpool, hput⟩ := bind_eq_pure_iff.mp hmake
  cases hput
  exact ⟨p, eq_pure_of_adapt hpool, rfl⟩

/-- **New frontiers** of one dimension are twins, and making one succeeds with
any identity if it does with one. -/
theorem exists_twin_of_make {id : PoolId} {capacity : Nat} (hcapacity : capacity ≤ indexLimit)
    (hmake : make id dimension capacity = pure f) (id' : PoolId) :
    ∃ f' m, make id' dimension capacity = pure f' ∧ m.plan = .single capacity ∧
      Twins dimension m ∅ f f' := by
  obtain ⟨hpos, hsize, p, hpool, rfl⟩ := exists_pool_of_make hmake
  refine ⟨ofPool dimension { p with id := id' }, _, ?_, rfl, rfl,
    Pool.twins_of_make hcapacity hpool⟩
  rw [make_eq_ofPool id' hpos hsize, Pool.make_of_make hpool id', adapt_pure, pure_bind]

/-- A new frontier has the room that it was made with. -/
theorem capacity_of_make {id : PoolId} {capacity : Nat}
    (hmake : make id dimension capacity = pure f) : f.pool.store.capacity = capacity := by
  obtain ⟨-, -, p, hpool, rfl⟩ := exists_pool_of_make hmake
  exact Pool.capacity_of_make hpool

end Frontier

end RecordPool
