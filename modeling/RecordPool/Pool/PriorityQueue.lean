/-
# Priority queues of references

A binary heap in an array, ordered by a comparator that reads the records.
The comparator is asked each time, so that it sees the records as they are.
An element moves up while it is strictly less than its parent, and down to the
lesser child, the left one of equals, while that is strictly less.
-/
import RecordPool.Pool.Attribute
import RecordPool.Arithmetic

namespace RecordPool

/-! ## Comparators -/

/-- Orders the records of two references. -/
abbrev Comparator := Reference → Reference → Checked Ordering

namespace Comparator

variable {β F : Type} [Memory β F]

/-- Takes all records for equal and reads none. -/
def indifferent : Comparator :=
  fun _ _ => pure .eq

/-- Orders records by a number. -/
def byDouble [Arithmetic F] (a : Attribute .double) (p : Pool β) : Comparator :=
  fun x y => do
    let first ← a.get p x
    let second ← a.get p y
    pure (Arithmetic.compare first second)

/-- Orders records by an integer. -/
def byInt (a : Attribute .int) (p : Pool β) : Comparator :=
  fun x y => do
    let first ← a.get p x
    let second ← a.get p y
    pure (compare first.toInt second.toInt)

/-- Orders records by a number or an integer at the place that the attribute
`name` has in a layout, if it is such an attribute. -/
def named? [Arithmetic F] (l : Layout) (name : String) : Option (Pool β → Comparator) :=
  match l.field? .double name, l.field? .int name with
  | some field, _ => some (byDouble ⟨field.slot, field.offset⟩)
  | _, some field => some (byInt ⟨field.slot, field.offset⟩)
  | _, _ => none

/-- Orders the other way round. -/
def reversed (order : Comparator) : Comparator :=
  fun x y => do pure (← order x y).swap

end Comparator

/-! ## The heap -/

/-- Whether the element at `i` is strictly less than the one at `j`. -/
def precedes (order : Comparator) (heap : Array Reference) (i j : Nat) : Checked Bool := do
  pure ((← order (← fetch heap i) (← fetch heap j)) == .lt)

/-- Moves the element at `pos` up while it is strictly less than its parent. -/
def siftUp (order : Comparator) (heap : Array Reference) (pos : Nat) :
    Checked (Array Reference) := do
  if pos = 0 then
    pure heap
  else
    let parent := (pos - 1) / 2
    if ← precedes order heap pos parent then
      siftUp order (heap.swapIfInBounds pos parent) parent
    else
      pure heap
  termination_by pos
  decreasing_by omega

/-- Moves the element at `pos` down while its lesser child is strictly less. -/
def siftDown (order : Comparator) (heap : Array Reference) (pos : Nat) :
    Checked (Array Reference) := do
  let left := 2 * pos + 1
  if left < heap.size then
    let toRight ← if left + 1 < heap.size then precedes order heap (left + 1) left else pure false
    let child := if toRight then left + 1 else left
    if ← precedes order heap child pos then
      siftDown order (heap.swapIfInBounds pos child) child
    else
      pure heap
  else
    pure heap
  termination_by heap.size - pos
  decreasing_by
    rw [Array.size_swapIfInBounds]
    split <;> omega

/-- References in a heap, the least first. -/
structure PriorityQueue where
  /-- The elements; those at `2 i + 1` and `2 i + 2` are below the one at `i`. -/
  heap : Array Reference
  deriving Repr

namespace PriorityQueue

/-- The queue without elements. -/
def empty : PriorityQueue := ⟨#[]⟩

/-- The number of elements. -/
def size (q : PriorityQueue) : Nat :=
  q.heap.size

/-- Whether there is no element. -/
def isEmpty (q : PriorityQueue) : Bool :=
  q.heap.isEmpty

/-- Inserts the record of `r`.  The reference is in the heap before it is
compared, and a fault returns no queue: what the heap holds when a comparison
was cut short is not told. -/
def offer (order : Comparator) (q : PriorityQueue) (r : Reference) : Checked PriorityQueue := do
  pure ⟨← siftUp order (q.heap.push r) q.heap.size⟩

/-- Removes the least element and points `r` at it.  Without an element `r`
stays where it is.  The element is out of the heap before `r` is pointed at it,
and again a fault returns no queue. -/
def poll (order : Comparator) (q : PriorityQueue) (r : Reference) :
    Checked (Bool × PriorityQueue × Reference) := do
  match q.heap.back? with
  | none => pure (false, q, r)
  | some last =>
      let rest := q.heap.pop
      match rest[0]? with
      | none => pure (true, ⟨rest⟩, ← r.repoint last)
      | some top => do
          let r ← r.repoint top
          let heap ← siftDown order (rest.setIfInBounds 0 last) 0
          pure (true, ⟨heap⟩, r)

/-- Points `r` at the least element, which stays. -/
def peek (q : PriorityQueue) (r : Reference) : Checked (Bool × Reference) := do
  match q.heap[0]? with
  | none => pure (false, r)
  | some top => pure (true, ← r.repoint top)

/-- Polls until the queue is empty; the result lists the records. -/
def drain (order : Comparator) (q : PriorityQueue) (r : Reference) :
    Checked (List RecordIndex × PriorityQueue × Reference) :=
  go q.size [] q r
where
  /-- Polls at most `count` times. -/
  go : Nat → List RecordIndex → PriorityQueue → Reference →
      Checked (List RecordIndex × PriorityQueue × Reference)
    | 0, found, q, r => pure (found.reverse, q, r)
    | count + 1, found, q, r => do
        match ← q.poll order r with
        | (true, q, r) => go count ((← r.index) :: found) q r
        | (false, q, r) => pure (found.reverse, q, r)

end PriorityQueue

end RecordPool
