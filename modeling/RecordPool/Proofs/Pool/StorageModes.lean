/-
# Storage modes

Whether the records of a pool lie in one growing array or in blocks, and how
much room there is at first, does not show.  Two pools that are made alike but
for that give the same answer to every call, through whatever references and
with whatever reset, even one that leaves the cells of former records to be
seen: the same slots, cells, outcomes of checks, records in the same order, and
counts.  Only the capacity, the number of growths and the memory differ, and
the runs part at the earliest when one pool has reached its limit.
-/
import RecordPool.Proofs.Pool.Calls
import RecordPool.Proofs.Pool.Limit
import RecordPool.Proofs.Pool.Rehousing

namespace RecordPool

variable {β F : Type} [Memory β F]

/-! ## Denials -/

/-- Whether the fault is that a pool has reached its limit. -/
def Fault.atLimit : Fault → Bool
  | .broken (.refused (.capacityExceeded _ _)) => true
  | _ => false

/-- The fault says that a pool of the layout gives no slot away: it has reached
its limit, or its records are so large that its memory would leave the machine
range. -/
def Fault.IsDenial (l : Layout) (e : Fault) : Prop :=
  e.atLimit = true ∨ e = .arithmetic ∧ sizeBound ≤ 2 ^ 31 * l.size

namespace Pool

variable {l : Layout} {p p' : Pool β} {r : Reference}

/-- **Rehoused pools are companions.** -/
theorem companions_rehoused (l : Layout) : Companions (β := β) (Rehoused l) where
  tables := fun h => h.tables
  cells := fun h r => h.cells_eq r
  delete := fun h r => h.delete r
  clear := fun h => h.clear
  patch := fun h _ _ hrequire offset values =>
    h.patch (h.sound.require_eq_ok_iff.mp hrequire).1 offset values
  copy := fun h source target => h.copy source target
  listen := fun h listener => h.listen listener

/-- A pool that gives no slot away creates no record. -/
theorem Denies.create (h : p.Denies r) :
    ∃ e : Fault, p.create r = .error e ∧ e.IsDenial p.layout := by
  rcases h with ⟨requested, max, heq⟩ | ⟨heq, hlarge⟩
  · refine ⟨.broken (.refused (.capacityExceeded requested max)), ?_, Or.inl rfl⟩
    rw [Pool.create, heq]
    rfl
  · refine ⟨.arithmetic, ?_, Or.inr ⟨rfl, hlarge⟩⟩
    rw [Pool.create, heq]
    rfl

/-- Two pools that are rehoused after the same was handed out. -/
def Handed {γ : Type} (l : Layout) (x x' : γ × Pool β × Reference) : Prop :=
  x.1 = x'.1 ∧ Rehoused l x.2.1 x'.2.1 ∧ x.2.2 = x'.2.2

namespace Rehoused

/-- **Creating a record** takes the same slot of both. -/
theorem create (h : Rehoused l p p') (r : Reference) :
    AlikeUnless (Fault.IsDenial l) (Handed l) (p.create r) (p'.create r) := by
  by_cases hr : r.pool = p.id
  · rcases h.allocate hr with ⟨i, q, q', heq, heq', hrehoused⟩ | hdenies | hdenies
    · rw [Pool.create, Pool.create, heq, heq']
      exact Or.inl (alike_ok ⟨rfl, hrehoused, rfl⟩)
    · exact Or.inr (Or.inl (h.layout ▸ hdenies.create))
    · exact Or.inr (Or.inr (h.layout' ▸ hdenies.create))
  · have hr' : r.pool ≠ p'.id := by
      rw [h.frame]
      exact hr
    rw [Pool.create, Pool.create, allocate_of_foreign hr, allocate_of_foreign hr']
    exact Or.inl (alike_error _)

/-- Creating many records takes the same slots of both. -/
theorem createMany (h : Rehoused l p p') (r : Reference) (count : Nat) :
    AlikeUnless (Fault.IsDenial l) (Handed l) (p.createMany r count) (p'.createMany r count) := by
  induction count generalizing p p' r with
  | zero => exact Or.inl (alike_pure ⟨rfl, h, rfl⟩)
  | succ count ih =>
      rw [Pool.createMany, Pool.createMany]
      refine (h.create r).bind fun x x' hx => ?_
      obtain ⟨index, q, r₁⟩ := x
      obtain ⟨index', q', r₁'⟩ := x'
      obtain ⟨rfl, hq, rfl⟩ := hx
      refine (ih hq r₁).bind fun y y' hy => ?_
      obtain ⟨indices, q₂, r₂⟩ := y
      obtain ⟨indices', q₂', r₂'⟩ := y'
      obtain ⟨rfl, hq₂, rfl⟩ := hy
      exact Or.inl (alike_pure ⟨rfl, hq₂, rfl⟩)

end Rehoused

/-! ## Runs -/

/-- Whether the answer is that the pool has reached its limit. -/
def atLimit : Except Fault (Answer β F) → Bool
  | .ok (.slot (.error (.capacityExceeded _ _)) _) => true
  | .ok _ => false
  | .error e => e.atLimit

/-- The answer is that a pool of the layout gives no slot away. -/
def IsDenial (l : Layout) (a : Except Fault (Answer β F)) : Prop :=
  atLimit a = true ∨ a = .error .arithmetic ∧ sizeBound ≤ 2 ^ 31 * l.size

omit [Memory β F] in
/-- Only an answer about the limit or the machine range is a denial. -/
theorem not_isDenial {a : Except Fault (Answer β F)} (hlimit : atLimit a = false)
    (hmemory : 2 ^ 31 * l.size < sizeBound ∨ a ≠ .error .arithmetic) : ¬ IsDenial l a := by
  rintro (hat | ⟨heq, hlarge⟩)
  · rw [hlimit] at hat
    cases hat
  · exact hmemory.elim (fun hsmall => by omega) fun hne => hne heq

/-- What is heard of a call. -/
def heard (x : Checked (Answer β F × Pool β)) : Except Fault (Answer β F) :=
  x.map Prod.fst

/-- Pools that are rehoused after the same was answered. -/
def Answered (l : Layout) (x x' : Answer β F × Pool β) : Prop :=
  x.1 = x'.1 ∧ Rehoused l x.2 x'.2

/-- Both outcomes of a call are alike, or one of them is a denial. -/
def Agree (l : Layout) (x x' : Checked (Answer β F × Pool β)) : Prop :=
  Alike (Answered l) x x' ∨ IsDenial l (heard x) ∨ IsDenial l (heard x')

/-- Outcomes that a denial sets apart agree but for it. -/
theorem agree_of_alikeUnless {x x' : Checked (Answer β F × Pool β)}
    (h : AlikeUnless (Fault.IsDenial l) (Answered l) x x') : Agree l x x' := by
  have hdenial : ∀ e : Fault, e.IsDenial l → IsDenial l (.error e : Except Fault (Answer β F)) := by
    rintro e (hlimit | ⟨rfl, hlarge⟩)
    · exact Or.inl hlimit
    · exact Or.inr ⟨rfl, hlarge⟩
  rcases h with halike | ⟨e, rfl, he⟩ | ⟨e, rfl, he⟩
  · exact Or.inl halike
  · exact Or.inr (Or.inl (hdenial e he))
  · exact Or.inr (Or.inr (hdenial e he))

/-- A pool that gives no slot away says so. -/
theorem Denies.heard (h : p.Denies r) : IsDenial p.layout (heard (p.answer (F := F) (.allocate r))) := by
  rcases h with ⟨requested, max, heq⟩ | ⟨heq, hlarge⟩
  · rw [answer, heq]
    exact Or.inl rfl
  · rw [answer, heq]
    exact Or.inr ⟨rfl, hlarge⟩

/-- **Rehoused pools answer a call alike** and stay rehoused, unless one of them
gives no slot away. -/
theorem Rehoused.answer (h : Rehoused l p p') (call : Call F) :
    Agree l (p.answer call) (p'.answer call) := by
  cases call with
  | allocate r =>
      by_cases hr : r.pool = p.id
      · rcases h.allocate hr with ⟨i, q, q', heq, heq', hq⟩ | hdenies | hdenies
        · rw [Pool.answer, Pool.answer, heq, heq']
          exact Or.inl (alike_ok ⟨rfl, hq⟩)
        · exact Or.inr (Or.inl (h.layout ▸ hdenies.heard))
        · exact Or.inr (Or.inr (h.layout' ▸ hdenies.heard))
      · have hr' : r.pool ≠ p'.id := by
          rw [h.frame]
          exact hr
        rw [Pool.answer, Pool.answer, allocate_of_foreign hr, allocate_of_foreign hr']
        exact Or.inl (alike_error _)
  | create r =>
      refine agree_of_alikeUnless ((h.create r).bind fun x x' hx => ?_)
      obtain ⟨hindex, hq, hr⟩ := hx
      exact Or.inl (alike_pure ⟨by rw [hindex, hr], hq⟩)
  | createMany r count =>
      refine agree_of_alikeUnless ((h.createMany r count).bind fun x x' hx => ?_)
      obtain ⟨hindices, hq, hr⟩ := hx
      exact Or.inl (alike_pure ⟨by rw [hindices, hr], hq⟩)
  | set _ x r value =>
      refine Or.inl (((companions_rehoused l).set h h.announce_eq x r value).bind fun y y' hy => ?_)
      exact alike_pure ⟨by rw [hy.1], hy.2⟩
  | ask | delete | clear | copy | put | putAll | listen =>
      exact Or.inl ((companions_rehoused l).answer_plain h trivial)

/-- What is heard of the first call is the first answer. -/
theorem heard_mem_answers (call : Call F) (calls : List (Call F)) (p : Pool β) :
    heard (p.answer call) ∈ answers (call :: calls) p := by
  rw [answers]
  cases p.answer call with
  | ok x => exact List.mem_cons_self
  | error e => exact List.mem_cons_self

/-- **Rehoused pools answer all calls alike** as long as none gives no slot
away. -/
theorem Rehoused.answers_eq (h : Rehoused l p p') (calls : List (Call F))
    (hdenial : ∀ a ∈ answers calls p, ¬ IsDenial l a)
    (hdenial' : ∀ a ∈ answers calls p', ¬ IsDenial l a) :
    answers calls p = answers calls p' := by
  induction calls generalizing p p' with
  | nil => rfl
  | cons call calls ih =>
      have hagree := (h.answer call).resolve_right
        (not_or.mpr ⟨hdenial _ (heard_mem_answers call calls p),
          hdenial' _ (heard_mem_answers call calls p')⟩)
      rw [answers] at hdenial hdenial' ⊢
      rw [answers]
      revert hagree hdenial hdenial'
      cases p.answer call with
      | error e =>
          cases p'.answer call with
          | error e' =>
              rintro - - (rfl : e = e')
              rfl
          | ok x' => exact fun _ _ => False.elim
      | ok x =>
          cases p'.answer call with
          | error e' => exact fun _ _ => False.elim
          | ok x' =>
              rintro hdenial hdenial' ⟨hanswer, hq⟩
              have hrest := ih hq (fun a ha => hdenial a (List.mem_cons_of_mem _ ha))
                fun a ha => hdenial' a (List.mem_cons_of_mem _ ha)
              dsimp only
              rw [hanswer, hrest]

/-- **The arrangement of the memory does not show.**  Two pools of one layout,
each with a single array or with blocks of any size and with any room at first,
give the same answers to any calls, as long as neither reaches its limit.
Records that are so large that `2 ^ 31` of them leave the machine range must
also not have made either leave it. -/
theorem answers_eq_of_plans {plan plan' : StorePlan} {id : PoolId} {reset : Reset β}
    (hrange : plan.InRange) (hrange' : plan'.InRange)
    (hmake : make id l plan reset = pure p) (hmake' : make id l plan' reset = pure p')
    (calls : List (Call F))
    (hlimit : ∀ a ∈ answers calls p, atLimit a = false)
    (hlimit' : ∀ a ∈ answers calls p', atLimit a = false)
    (hmemory : 2 ^ 31 * l.size < sizeBound ∨
      Except.error .arithmetic ∉ answers calls p ∧ Except.error .arithmetic ∉ answers calls p') :
    answers calls p = answers calls p' := by
  refine (rehoused_of_make hrange hrange' hmake hmake').answers_eq calls ?_ ?_
  · exact fun a ha => not_isDenial (hlimit a ha)
      (hmemory.imp_right fun hnot heq => hnot.1 (heq ▸ ha))
  · exact fun a ha => not_isDenial (hlimit' a ha)
      (hmemory.imp_right fun hnot heq => hnot.2 (heq ▸ ha))

/-- The only value of a counter record. -/
def counterValue : Item .int :=
  .value ⟨0, 0⟩

/-- Slots are used again after a deletion and after the pool was cleared, and
what they held is read. -/
def reusingCalls : List (Call Double) :=
  [.create (.unpointed 0), .put .int counterValue ⟨0, some ⟨0, 0, 0⟩⟩ (7 : Int32),
    .create (.unpointed 0), .copy ⟨0, some ⟨0, 0, 0⟩⟩ ⟨0, some ⟨1, 0, 0⟩⟩,
    .delete ⟨0, some ⟨0, 0, 0⟩⟩, .create (.unpointed 0), .ask (.cells ⟨0, some ⟨0, 1, 0⟩⟩), .clear,
    .createMany (.unpointed 0) 3, .ask (.cells ⟨0, some ⟨1, 0, 1⟩⟩), .ask .counts]

/-- The cells that are read by some calls. -/
def cellsHeard (answers : List (Except Fault (Answer β F))) : List (List β) :=
  answers.filterMap fun
    | .ok (.cells cells) => some cells
    | _ => none

/-- An array that has no room at first and grows once, and blocks of one record
that are appended one by one, answer alike; the cells of two former records are
read from both. -/
theorem single_and_blocks_answer_alike : ∃ p p' : Pool UInt8,
    make 0 counterLayout (.single 0) .keep = pure p ∧
      make 0 counterLayout (.blocks 1 1) .keep = pure p' ∧
      p.store.capacity = 0 ∧ p'.store.capacity = 1 ∧
      (answers reusingCalls p).length = reusingCalls.length ∧
      cellsHeard (answers reusingCalls p) = [[7, 0, 0, 0], [7, 0, 0, 0]] ∧
      answers reusingCalls p = answers reusingCalls p' := by
  have hmake : make 0 counterLayout (.single 0) .keep =
      pure (⟨0, counterLayout, ⟨#[⟨#[], 4⟩], 4, none, 0, 0, 0, indexLimit, 0⟩, .keep, 0, [], #[],
        #[], 0, []⟩ : Pool UInt8) := rfl
  have hmake' : make 0 counterLayout (.blocks 1 1) .keep =
      pure (⟨0, counterLayout, ⟨#[⟨#[0, 0, 0, 0], 4⟩], 4, some 1, 0, 0, 1, indexLimit, 0⟩, .keep,
        0, [], #[], #[], 0, []⟩ : Pool UInt8) := rfl
  refine ⟨_, _, hmake, hmake', rfl, rfl, by decide +kernel, by decide +kernel, ?_⟩
  refine answers_eq_of_plans (StorePlan.inRange_single 0) ?_ hmake hmake' reusingCalls
    (by decide +kernel) (by decide +kernel) (Or.inl (by decide))
  rintro size ⟨⟩
  decide

end Pool

end RecordPool
