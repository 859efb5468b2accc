/-
# Telling listeners of changes

A notifying write tells every listener, in the order of their registration, the
name of the attribute, the record, and the cells that it then overwrites: those
of the value or of the one element, as they are before the write.  No other call
tells a listener anything.  Nor do listeners show in the records: a run leaves
the same pool, but for its listeners, whatever listeners there are and whether
its writes are notifying or silent.
-/
import RecordPool.Proofs.Pool.Calls
import RecordPool.Proofs.Pool.Undo

namespace RecordPool

variable {β F : Type} [Memory β F]

namespace Pool

/-! ## Pools with other listeners -/

/-- The pool with other listeners. -/
def withListeners (p : Pool β) (listeners : List Listener) : Pool β :=
  { p with listeners }

section Commuting

variable (p : Pool β) (listeners : List Listener) (r : Reference)

theorem delete_withListeners :
    (p.withListeners listeners).delete r = (do pure ((← p.delete r).withListeners listeners)) := by
  simp only [delete, resetRecord, bind_assoc, pure_bind]
  rfl

theorem patch_withListeners (i offset : Nat) (values : List β) :
    (p.withListeners listeners).patch i offset values =
      (do pure ((← p.patch i offset values).withListeners listeners)) := by
  simp only [patch, bind_assoc, pure_bind]
  rfl

theorem copy_withListeners (source target : Reference) :
    (p.withListeners listeners).copy source target =
      (do pure ((← p.copy source target).withListeners listeners)) := by
  simp only [copy, bind_assoc, pure_bind]
  rfl

/-- **Slots are handed out** without a look at the listeners. -/
theorem allocate_withListeners :
    (p.withListeners listeners).allocate r = (do
      let (outcome, q, s) ← p.allocate r
      pure (outcome, q.withListeners listeners, s)) := by
  obtain ⟨id, layout, store, reset, allocated, free, live, generations, epoch, _⟩ := p
  rw [allocate, allocate, bind_assoc]
  refine bind_congr fun _ => ?_
  cases free with
  | cons index free =>
      simp only [withListeners, occupy, resetRecord, bind_assoc, pure_bind]
  | nil =>
      simp only [withListeners, bind_assoc]
      refine bind_congr fun required => bind_congr fun reserved => ?_
      obtain ⟨_ | _, store'⟩ := reserved
      · rfl
      · simp only [addSlot, occupy, resetRecord, bind_assoc, pure_bind]

end Commuting

/-- The second pool is the first one with other listeners. -/
inductive Hushed : Pool β → Pool β → Prop where
  | intro (p : Pool β) (listeners : List Listener) : Hushed p (p.withListeners listeners)

variable {p p' : Pool β}

/-- Nothing but the listeners differs. -/
theorem Hushed.frame (h : Hushed p p') : p' = p.withListeners p'.listeners := by
  cases h
  rfl

/-- A pool is like itself with other listeners. -/
theorem alike_hushed (x : Checked (Pool β)) (listeners : List Listener) :
    Alike Hushed x (do pure ((← x).withListeners listeners)) := by
  cases x with
  | error e => exact alike_error e
  | ok q => exact alike_ok (.intro q listeners)

/-- **Pools that differ in their listeners are companions.** -/
theorem companions_hushed : Companions (β := β) Hushed where
  tables := by
    rintro p _ ⟨listeners⟩
    exact .intro _ _ _
  cells := by
    rintro p _ ⟨listeners⟩ r
    rfl
  delete := by
    rintro p _ ⟨listeners⟩ r
    rw [delete_withListeners]
    exact alike_hushed _ listeners
  clear := by
    rintro p _ ⟨listeners⟩
    exact .intro _ listeners
  patch := by
    rintro p _ ⟨listeners⟩ r i - offset values
    rw [patch_withListeners]
    exact alike_hushed _ listeners
  copy := by
    rintro p _ ⟨listeners⟩ source target
    rw [copy_withListeners]
    exact alike_hushed _ listeners
  listen := by
    rintro p _ ⟨listeners⟩ listener
    exact .intro _ (listeners ++ [listener])

/-- They hand out the same slots. -/
theorem Hushed.allocate (h : Hushed p p') (r : Reference) :
    Alike (Dealt Hushed) (p.allocate r) (p'.allocate r) := by
  obtain ⟨listeners⟩ := h
  rw [allocate_withListeners]
  cases p.allocate r with
  | error e => exact alike_error e
  | ok x => exact alike_ok ⟨rfl, .intro _ listeners, rfl⟩

end Pool

/-! ## Notifying and silent writes -/

/-- Writing an item notifyingly succeeds where writing it silently does, and
fails for the same reason. -/
theorem Item.set_cases {kind : Kind} {p : Pool β} {x : Item kind} (h : p.Sound)
    (hl : p.layout.Tiled) (hx : x.Of p.layout) (r : Reference) (v : kind.Value F) :
    (∃ e, x.set p r v = .error e ∧ x.put p r v = .error e) ∨
      ∃ deliveries q, x.set p r v = .ok (deliveries, q) ∧ x.put p r v = .ok q := by
  have hput := put_eq hx p r v
  rw [set_eq hx]
  cases hrequire : p.require r with
  | error e =>
      rw [Attribute.put, hrequire] at hput
      rw [Pool.announce, hput]
      refine Or.inl ⟨e, ?_, rfl⟩
      split
      · rfl
      · rw [hrequire]
        rfl
  | ok i =>
      obtain ⟨hi, rfl⟩ := h.require_eq_ok_iff.mp hrequire
      rw [h.announce_eq hi x.place.1 (within hl hx), ok_bind]
      cases x.put p (p.referenceTo i) v with
      | error e => exact Or.inl ⟨e, rfl, rfl⟩
      | ok q => exact Or.inr ⟨_, q, rfl, rfl⟩

namespace Pool

/-- Every listener is told what a write to the item `x` in the record of `r` is
about to overwrite: the cells `before` of the record `i`, in the column `c`, are
overwritten with `encoded` at the item only, and no other record changes. -/
structure Tells {kind : Kind} (p : Pool β) (x : Item kind) (r : Reference) (v : kind.Value F)
    (i : RecordIndex) (c : Column) (before encoded : List β) (p' : Pool β) : Prop where
  index : r.index? = some i
  column : p.layout.columnAt? x.place.1 = some c
  cells : p.cells r = .ok before
  encode : kind.encode v = .ok encoded
  length : encoded.length = kind.size
  fits : x.asAttribute.offset + kind.size ≤ before.length
  /-- The notifying write: each listener is told of the cells of the item. -/
  set : x.set p r v = .ok (p.listeners.map fun listener =>
    ⟨listener, ⟨c.name, i, window before x.asAttribute.offset kind.size⟩⟩, p')
  /-- The silent write does the same and tells nobody. -/
  put : x.put p r v = .ok p'
  /-- The cells that the listeners were told of hold the value before. -/
  get : x.get p r = .ok (kind.ofCells (window before x.asAttribute.offset kind.size))
  after : p'.cells r = .ok (paste before x.asAttribute.offset encoded)
  others : ∀ j ≠ i, p'.contents j = p.contents j

variable {p p' q : Pool β} {l : Layout} {calls : List (Call F)} {call : Call F} {a : Answer β F}

/-- **A notifying write** through a valid reference tells every listener exactly
what it overwrites. -/
theorem Over.tells (hp : p.Over l) (hl : l.Tiled) {kind : Kind} {x : Item kind} (hx : x.Of l)
    {r : Reference} (hr : p.check r = pure ()) {v : kind.Value F} (hv : kind.Storable v) :
    ∃ i c before encoded p', p.Tells x r v i c before encoded p' := by
  obtain ⟨h, rfl⟩ := hp.sound
  obtain ⟨i, hi, rfl⟩ := h.check_eq_pure_iff.mp hr
  obtain ⟨c, hc, -⟩ := Item.exists_column hx
  obtain ⟨encoded, hencode, -⟩ := Kind.exists_encode (β := β) hv
  have hcells := hp.contents_put hi hl hx hencode
  have hset := Item.set_eq_setRecord h hi hl hx hencode
  have hafter := (h.setRecord i (paste (p.contents i) x.asAttribute.offset encoded)).cells_eq hi
  rw [Item.change, hc] at hset
  rw [hcells] at hafter
  have hlength := h.length_contents hi
  have hfit : x.asAttribute.offset + kind.size ≤ (p.contents i).length := by
    rw [hlength]
    exact Item.within hl hx
  have hencoded := Kind.length_of_encode hencode
  refine ⟨i, c, p.contents i, encoded,
    p.setRecord i (paste (p.contents i) x.asAttribute.offset encoded), ?_⟩
  exact {
    index := rfl
    column := hc
    cells := h.cells_eq hi
    encode := hencode
    length := hencoded
    fits := hfit
    set := hset
    put := Item.put_eq_setRecord h hi hl hx hencode
    get := h.item_get_eq hi hl hx
    after := hafter
    others := by
      intro j hj
      rw [h.contents_setRecord hi (by rw [length_paste (by omega), hlength]),
        Function.update_of_ne hj] }

/-! ## Runs of calls -/

/-- What the listeners are told in an answer. -/
def Answer.deliveries : Answer β F → List (Delivery β)
  | .told deliveries => deliveries
  | _ => []

/-- The answer without what the listeners are told. -/
def Answer.hushed : Answer β F → Answer β F
  | .told _ => .done
  | answer => answer

/-- The call with a silent write in place of a notifying one. -/
def Call.quiet : Call F → Call F
  | .set kind x r v => .put kind x r v
  | call => call

/-- The call writes notifyingly to items of the layout only. -/
def Call.Of (l : Layout) : Call F → Prop
  | .set _ x _ _ => x.Of l
  | _ => True

/-- The answers to calls that are made in turn, and the pool that they leave,
unless a fault cuts them short. -/
def after : List (Call F) → Pool β → Checked (List (Answer β F) × Pool β)
  | [], p => pure ([], p)
  | call :: calls, p => do
      let (answer, p) ← p.answer call
      let (answers, p) ← after calls p
      pure (answer :: answers, p)

/-- Only a notifying write tells listeners of anything. -/
theorem told_of_answer {deliveries : List (Delivery β)}
    (hanswer : p.answer call = .ok (.told deliveries, q)) :
    ∃ kind x r v, call = .set kind x r v := by
  cases call with
  | set kind x r v => exact ⟨kind, x, r, v, rfl⟩
  | ask query =>
      obtain ⟨answer, hask, hput⟩ := bind_eq_ok_iff.mp hanswer
      cases hput
      cases query with
      | newReference => cases hask
      | release | pointAt | check | isLive | stamp | cells | get | getAll | advance | yield | walk
      | counts =>
          obtain ⟨_, -, hput⟩ := bind_eq_ok_iff.mp hask
          cases hput
  | clear | listen => cases hanswer
  | delete | copy | put | putAll | allocate | create | createMany =>
      obtain ⟨_, -, hput⟩ := bind_eq_ok_iff.mp hanswer
      cases hput

/-- An answer to any other call says nothing to listeners. -/
theorem silent_of_answer (hcall : ∀ kind x r v, call ≠ .set kind x r v)
    (hanswer : p.answer call = .ok (a, q)) : a.deliveries = [] ∧ a.hushed = a := by
  cases a with
  | told deliveries =>
      obtain ⟨kind, x, r, v, rfl⟩ := told_of_answer hanswer
      exact absurd rfl (hcall kind x r v)
  | done | reference | checked | flag | stamp | cells | value | values | advanced | yielded
  | records | counts | slot | slots => exact ⟨rfl, rfl⟩

/-- **Every call is a run** of operations. -/
theorem runs_of_answer (hanswer : p.answer call = .ok (a, q)) : ∃ events, p.Runs events q := by
  cases call with
  | ask query =>
      obtain ⟨_, -, hput⟩ := bind_eq_ok_iff.mp hanswer
      cases hput
      exact ⟨_, .start⟩
  | allocate r =>
      obtain ⟨⟨outcome, q, s⟩, hallocate, hput⟩ := bind_eq_ok_iff.mp hanswer
      cases hput
      cases outcome with
      | error refusal => exact ⟨_, (Does.refuse hallocate).runs⟩
      | ok i => exact ⟨_, (Does.allocate hallocate).runs⟩
  | create r =>
      obtain ⟨⟨i, q, s⟩, hcreate, hput⟩ := bind_eq_ok_iff.mp hanswer
      cases hput
      exact ⟨_, (Does.create hcreate).runs⟩
  | createMany r count =>
      obtain ⟨⟨indices, q, s⟩, hcreate, hput⟩ := bind_eq_ok_iff.mp hanswer
      cases hput
      exact ⟨_, .createMany hcreate⟩
  | delete r =>
      obtain ⟨q, hdelete, hput⟩ := bind_eq_ok_iff.mp hanswer
      cases hput
      obtain ⟨i, hrequire, -⟩ := bind_eq_ok_iff.mp hdelete
      exact ⟨_, (Does.delete hrequire hdelete).runs⟩
  | clear =>
      cases hanswer
      exact ⟨_, Does.clear.runs⟩
  | copy source target =>
      obtain ⟨q, hcopy, hput⟩ := bind_eq_ok_iff.mp hanswer
      cases hput
      obtain ⟨_, -, hrest⟩ := bind_eq_ok_iff.mp hcopy
      obtain ⟨i, hrequire, -⟩ := bind_eq_ok_iff.mp hrest
      exact ⟨_, (Does.copy hrequire hcopy).runs⟩
  | put kind x r v =>
      obtain ⟨q, hwrite, hput⟩ := bind_eq_ok_iff.mp hanswer
      cases hput
      obtain ⟨i, -, hdoes⟩ := Item.does_of_put hwrite
      exact ⟨_, hdoes.runs⟩
  | set kind x r v =>
      obtain ⟨⟨deliveries, q⟩, hwrite, hput⟩ := bind_eq_ok_iff.mp hanswer
      cases hput
      obtain ⟨i, -, hdoes⟩ := Item.does_of_put (Item.put_of_set hwrite)
      exact ⟨_, hdoes.runs⟩
  | putAll kind a r values =>
      obtain ⟨q, hwrite, hput⟩ := bind_eq_ok_iff.mp hanswer
      cases hput
      obtain ⟨i, -, hdoes⟩ := AttributeArray.does_of_putAll hwrite
      exact ⟨_, hdoes.runs⟩
  | listen listener =>
      cases hanswer
      exact ⟨_, (Does.listen listener).runs⟩

/-- A call leads to a pool over the layout again. -/
theorem Over.answer (hp : p.Over l) (hanswer : p.answer call = .ok (a, q)) : q.Over l := by
  obtain ⟨id, plan, reset, p₀, h, hrange, hmake, hruns⟩ := hp
  obtain ⟨events, hlater⟩ := runs_of_answer hanswer
  exact ⟨id, plan, reset, p₀, _, hrange, hmake, hruns.trans hlater⟩

/-- The answers are the same but for what listeners are told, and so are the
pools but for their listeners. -/
def SameButTold (y y' : Answer β F × Pool β) : Prop :=
  y'.1 = y.1.hushed ∧ Hushed y.2 y'.2

/-- **A call and its silent form** answer alike, whatever listeners there are. -/
theorem Over.answer_quiet (hp : p.Over l) (hl : l.Tiled) (hcall : call.Of l) (h : Hushed p p') :
    Alike SameButTold (p.answer call) (p'.answer call.quiet) := by
  by_cases hset : ∃ kind x r v, call = .set kind x r v
  · obtain ⟨kind, x, r, v, rfl⟩ := hset
    have hput := companions_hushed.put h x r v
    obtain ⟨hsound, rfl⟩ := hp.sound
    rw [Call.quiet, Pool.answer, Pool.answer]
    revert hput
    rcases Item.set_cases hsound hl hcall r v with
      ⟨e, hset, hwrite⟩ | ⟨deliveries, q, hset, hwrite⟩
    · rw [hset, hwrite]
      cases x.put p' r v with
      | error e' => exact fun heq => heq
      | ok q' => exact False.elim
    · rw [hset, hwrite]
      cases x.put p' r v with
      | error e' => exact False.elim
      | ok q' => exact fun hq => ⟨rfl, hq⟩
  · have hsilent : ∀ kind x r v, call ≠ .set kind x r v := by
      rintro kind x r v rfl
      exact hset ⟨kind, x, r, v, rfl⟩
    have hquiet : call.quiet = call := by
      cases call with
      | set kind x r v => exact absurd rfl (hsilent kind x r v)
      | ask | allocate | create | createMany | delete | clear | copy | put | putAll | listen => rfl
    rw [hquiet]
    refine (companions_hushed.answer_silent Hushed.allocate h hsilent).mono_of_ok ?_
    rintro ⟨a, q⟩ ⟨a', q'⟩ hanswer ⟨rfl, hq⟩
    exact ⟨(silent_of_answer hsilent hanswer).2.symm, hq⟩

/-- **Runs with notifying and with silent writes** answer alike and leave the same
pool, but for its listeners. -/
theorem Over.after_quiet (hp : p.Over l) (hl : l.Tiled) (hcalls : ∀ call ∈ calls, call.Of l)
    (h : Hushed p p') :
    Alike (fun y y' => y'.1 = y.1.map Answer.hushed ∧ Hushed y.2 y'.2) (after calls p)
      (after (calls.map Call.quiet) p') := by
  induction calls generalizing p p' with
  | nil => exact alike_pure ⟨rfl, h⟩
  | cons call calls ih =>
      rw [List.forall_mem_cons] at hcalls
      have hfirst : Alike (fun y y' => SameButTold y y' ∧ y.2.Over l) (p.answer call)
          (p'.answer call.quiet) :=
        (hp.answer_quiet hl hcalls.1 h).mono_of_ok fun y _ hanswer hy => ⟨hy, hp.answer hanswer⟩
      rw [List.map_cons, after, after]
      refine hfirst.bind fun y y' hy => ?_
      obtain ⟨⟨hanswer, hq⟩, hover⟩ := hy
      refine (ih hover hcalls.2 hq).bind fun z z' hz => ?_
      refine alike_pure ⟨?_, hz.2⟩
      rw [List.map_cons, ← hanswer, ← hz.1]

/-! ## Every pool -/

/-- **Notification is exact.**  In every pool over an accepted layout a notifying
write of a storable value to an item, through a valid reference, tells every
listener, in order, exactly what it overwrites; no other call tells anything;
and a run leaves the same pool, but for its listeners, and the same answers, but
for what listeners are told, as with other listeners and silent writes. -/
theorem notification_exact {l : Layout} (hl : l.Accepted) :
    (∀ (p : Pool β) (kind : Kind) (x : Item kind) (r : Reference) (v : kind.Value F), p.Over l →
      x.Of l → p.check r = pure () → kind.Storable v →
        ∃ i c before encoded p', p.Tells x r v i c before encoded p') ∧
    (∀ (p p' : Pool β) (call : Call F) (a : Answer β F), p.answer call = .ok (a, p') →
      (∀ kind x r v, call ≠ .set kind x r v) → a.deliveries = []) ∧
    ∀ (p : Pool β) (listeners : List Listener) (calls : List (Call F)), p.Over l →
      (∀ call ∈ calls, call.Of l) →
        Alike (fun y y' => y'.1 = y.1.map Answer.hushed ∧
            y'.2 = y.2.withListeners y'.2.listeners)
          (after calls p) (after (calls.map Call.quiet) (p.withListeners listeners)) := by
  refine ⟨?_, ?_, ?_⟩
  · intro p kind x r v hp hx hr hv
    exact hp.tells hl.tiled hx hr hv
  · intro p p' call a hanswer hcall
    exact (silent_of_answer hcall hanswer).1
  · intro p listeners calls hp hcalls
    refine (hp.after_quiet hl.tiled hcalls (.intro p listeners)).mono fun y y' hy => ?_
    exact ⟨hy.1, hy.2.frame⟩

/-- The second of two numbers is set, then the first one, and the record is taken
back. -/
def settingCalls : List (Call Double) :=
  [.set .int (.element pairOfInts 1) ⟨0, some ⟨0, 0, 0⟩⟩ (5 : Int32),
    .set .int (.element pairOfInts 0) ⟨0, some ⟨0, 0, 0⟩⟩ (7 : Int32),
    .delete ⟨0, some ⟨0, 0, 0⟩⟩]

/-- They set numbers of the layout. -/
theorem of_settingCalls : ∀ call ∈ settingCalls, call.Of pairLayout := by
  unfold settingCalls
  simp only [List.forall_mem_cons]
  exact ⟨of_pairLayout (by decide), of_pairLayout (by decide), trivial, List.forall_mem_nil _⟩

/-- In a pool of two numbers with one listener the second number is set, and the
listener hears of it; and the calls do the same if nobody listens. -/
theorem second_of_pair_told : pairLayout.Accepted ∧
    (∃ i c before encoded p', (pairPool [0, 0, 0, 0, 0, 0, 0, 0] 1 ["journal"]).Tells
      (.element pairOfInts 1) ⟨0, some ⟨0, 0, 0⟩⟩ (5 : Int32) i c before encoded p') ∧
    Alike (fun y y' => y'.1 = y.1.map Answer.hushed ∧ y'.2 = y.2.withListeners y'.2.listeners)
      (after settingCalls (pairPool [0, 0, 0, 0, 0, 0, 0, 0] 1 ["journal"]))
      (after (settingCalls.map Call.quiet)
        ((pairPool [0, 0, 0, 0, 0, 0, 0, 0] 1 ["journal"]).withListeners [])) := by
  obtain ⟨htells, -, hruns⟩ := notification_exact (β := UInt8) accepted_pairLayout
  refine ⟨accepted_pairLayout, ?_, ?_⟩
  · exact htells _ _ _ _ _ over_blankPair (of_pairLayout (by decide)) rfl trivial
  · exact hruns _ [] settingCalls over_blankPair of_settingCalls

end Pool

end RecordPool
