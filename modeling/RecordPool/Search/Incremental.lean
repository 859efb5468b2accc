/-
# Incremental nearest-neighbor search

The frontier holds boxes of subtrees that have not been opened and points that
have been measured, the nearest first.  Taking a box opens it into the boxes of
its children and the point of its node; taking a point yields it.  A box is at
most as far as any point in it, so that the points come out by distance.

A child differs from its parent only on the parent's axis.  In the left child,
if the query is above the parent's box or at or above the node, it lies at or
above the child's box, and the gap is the one to the node; the right child is
the mirror image, with the query below the node.  Otherwise the parent's gap
stands.

The references to a node, to the entry that was taken and to the entry of a child
are no part of the state of a search, since each is pointed at a record before it
is read.
-/
import RecordPool.KdTree.Build
import RecordPool.Search.Frontier

namespace RecordPool

/-- A point found by a search. -/
structure Neighbor (F : Type) where
  /-- The tree node. -/
  node : RecordIndex
  /-- The index of the point in its data. -/
  data : RecordIndex
  /-- The squared distance to the query. -/
  squaredDistance : F
  deriving Repr

/-- The distance to the query. -/
def Neighbor.distance (n : Neighbor Double) : Double :=
  n.squaredDistance.sqrt

/-- What a search counts. -/
structure Counters where
  /-- The boxes opened. -/
  expanded : Nat
  /-- The points yielded. -/
  yielded : Nat
  /-- The entries created. -/
  created : Nat
  /-- The greatest number of entries queued. -/
  peak : Nat
  /-- The number of entries the frontier had room for when it was last noted. -/
  capacity : Nat
  deriving DecidableEq, Repr

/-- The counters of a search that has not begun. -/
def Counters.zero : Counters := ⟨0, 0, 0, 0, 0⟩

/-- A search over one tree. -/
structure NeighborSearch (β F : Type) where
  /-- The tree. -/
  tree : KdTree β F
  /-- The point whose neighbors are sought. -/
  query : List F
  /-- The entries. -/
  frontier : Frontier β
  /-- The entries by distance. -/
  queue : PriorityQueue
  /-- The neighbor yielded last. -/
  neighbor : Option (Neighbor F)
  /-- The counters. -/
  counters : Counters

namespace NeighborSearch

variable {β F : Type} [Memory β F] [Arithmetic F]

/-- A search over a tree that has not begun.  Its entries are the records of a
new pool with the identity `id`. -/
def make (id : PoolId) (tree : KdTree β F) : ExceptT TreeError Checked (NeighborSearch β F) := do
  let frontier ← Frontier.make id tree.dimension Frontier.defaultCapacity
  pure {
    tree, frontier
    query := List.replicate tree.dimension Arithmetic.zero
    queue := .empty
    neighbor := none
    counters := .zero }

/-! ## Entries and the queue -/

/-- Queues an entry and notes the length of the queue. -/
def offer (s : NeighborSearch β F) (r : Reference) : Checked (NeighborSearch β F) := do
  let queue ← s.queue.offer s.frontier.order r
  pure { s with
    queue
    counters := { s.counters with peak := max s.counters.peak queue.size } }

/-- Counts one more entry. -/
def countCreated (s : NeighborSearch β F) : NeighborSearch β F :=
  { s with counters := { s.counters with created := s.counters.created + 1 } }

/-- Notes how many entries the frontier has room for. -/
def noteCapacity (s : NeighborSearch β F) : NeighborSearch β F :=
  { s with counters := { s.counters with capacity := s.frontier.pool.store.capacity } }

/-! ## Beginning a search -/

/-- Sets the side and the gap of the root's box on one axis.  The result adds
the square of the gap to `total`. -/
def boundAxis (tree : KdTree β F) (query : List F) (root : Reference)
    (state : Frontier β × F) (d : Nat) : Checked (Frontier β × F) := do
  let (frontier, total) := state
  let q ← fetchAt query d
  let below := Arithmetic.sub (← tree.lowerBound d) q
  if Arithmetic.lt Arithmetic.zero below then
    let square := Arithmetic.square below
    let frontier ← frontier.setSide root d (-1)
    pure (← frontier.setGap root d square, Arithmetic.add total square)
  else
    let above := Arithmetic.sub q (← tree.upperBound d)
    if Arithmetic.le Arithmetic.zero above then
      let square := Arithmetic.square above
      let frontier ← frontier.setSide root d 1
      pure (← frontier.setGap root d square, Arithmetic.add total square)
    else
      pure (frontier, total)

/-- Queues the box of the whole tree. -/
def enqueueRoot (s : NeighborSearch β F) (root : RecordIndex) : Checked (NeighborSearch β F) := do
  let (_, frontier, r) ← s.frontier.create s.frontier.pool.newReference
  let frontier ← frontier.fill r root 0
  let (frontier, total) ←
    (List.range s.tree.dimension).foldlM (boundAxis s.tree s.query r) (frontier, Arithmetic.zero)
  let frontier ← frontier.setDistance r total
  let s ← { s with frontier }.offer r
  pure s.countCreated.noteCapacity

/-- Starts a new search and drops the one before.  A query of another
dimension is refused and the search goes on as it was. -/
def search {P : Type} [HasCoordinates P F] (s : NeighborSearch β F) (query : P) :
    Checked (Except TreeError Unit × NeighborSearch β F) := do
  let found := HasCoordinates.dimension query
  if found ≠ s.tree.dimension then
    pure (.error (.dimensionMismatch s.tree.dimension found), s)
  else do
    let s := { s with
      queue := .empty
      frontier := s.frontier.clear
      neighbor := none
      counters := .zero
      query := ← HasCoordinates.copyInto query s.query }
    match s.tree.root with
    | none => pure (.ok (), s)
    | some root => pure (.ok (), ← s.enqueueRoot root)

/-! ## Opening boxes -/

/-- Gives a child's box the gap `difference` on the axis `d` in place of its
parent's.  Its side changes only if the query was `inherited` inside. -/
def tighten (frontier : Frontier β) (parent child : Reference) (d : Nat)
    (inherited side : Int8) (difference : F) : Checked (Frontier β) := do
  let frontier ← if inherited = 0 then frontier.setSide child d side else pure frontier
  let gap := Arithmetic.square difference
  let previous ← frontier.gapOf parent d
  let total := Arithmetic.add (Arithmetic.sub (← frontier.distanceOf child) previous) gap
  let frontier ← frontier.setGap child d gap
  frontier.setDistance child total

/-- Queues the box of a child.  It is tightened to `side` if the query lies on
that side of the parent's box, or if it `crosses` to that side of the node. -/
def openChild (s : NeighborSearch β F) (parent : Reference) (node : RecordIndex) (d : Nat)
    (side : Int8) (crosses : Bool) (difference : F) : Checked (NeighborSearch β F) := do
  let (_, frontier, child) ← s.frontier.create s.frontier.pool.newReference
  let frontier ← frontier.inherit child node ((d + 1) % s.tree.dimension) parent
  let inherited ← frontier.sideOf child d
  let frontier ←
    if inherited = side ∨ crosses then
      tighten frontier parent child d inherited side difference
    else
      pure frontier
  let s ← { s with frontier }.offer child
  pure s.countCreated

/-- Queues the box of a child, if there is one. -/
def openChild? (s : NeighborSearch β F) (parent : Reference) (node : Option RecordIndex)
    (d : Nat) (side : Int8) (crosses : Bool) (difference : F) :
    Checked (NeighborSearch β F) :=
  match node with
  | none => pure s
  | some node => s.openChild parent node d side crosses difference

/-- Opens a box into the boxes of its children and the point of its node. -/
def expand (s : NeighborSearch β F) (box : Reference) (index : RecordIndex) :
    Checked (NeighborSearch β F) := do
  let node ← s.tree.node index
  let s := { s with counters := { s.counters with expanded := s.counters.expanded + 1 } }
  let d ← s.frontier.axisOf box
  let difference := Arithmetic.sub (← s.tree.coordinate node d) (← fetchAt s.query d)
  let s ← s.openChild? box (← s.tree.left node) d 1
    (Arithmetic.le difference Arithmetic.zero) difference
  let s ← s.openChild? box (← s.tree.right node) d (-1)
    (Arithmetic.lt Arithmetic.zero difference) difference
  let exact ← s.tree.squaredDistanceTo node s.query
  let frontier ← s.frontier.setPoint box true
  let frontier ← frontier.setDistance box exact
  { s with frontier }.offer box

/-! ## Yielding points -/

/-- Yields the point of an entry and removes the entry. -/
def yieldPoint (s : NeighborSearch β F) (entry : Reference) (index : RecordIndex) :
    Checked (Neighbor F × NeighborSearch β F) := do
  let node ← s.tree.node index
  let neighbor : Neighbor F :=
    ⟨index, ← s.tree.dataIndex node, ← s.frontier.distanceOf entry⟩
  let s := { s with frontier := ← s.frontier.delete entry, neighbor := some neighbor }
  let s := { s with counters := { s.counters with yielded := s.counters.yielded + 1 } }
  pure (neighbor, s.noteCapacity)

/-- Takes entries, at most `fuel` of them, until one is a point. -/
def takeUntilPoint :
    (fuel : Nat) → NeighborSearch β F → Checked (Option (Neighbor F) × NeighborSearch β F)
  | 0, _ => throw .exhausted
  | fuel + 1, s => do
      match ← s.queue.poll s.frontier.order s.frontier.pool.newReference with
      | (false, _, _) => pure (none, { s with neighbor := none })
      | (true, queue, entry) => do
          let s := { s with queue }
          let index ← s.frontier.nodeOf entry
          if ← s.frontier.entryIsPoint entry then
            let (neighbor, s) ← s.yieldPoint entry index
            pure (some neighbor, s)
          else
            takeUntilPoint fuel (← s.expand entry index)

/-- The next nearest neighbor, or `none` once every point was yielded.  A node
is opened at most once, so that the nodes bound the entries to be taken. -/
def next (s : NeighborSearch β F) : Checked (Option (Neighbor F) × NeighborSearch β F) :=
  s.takeUntilPoint (s.tree.nodes.allocated + 1)

/-- Whether another neighbor is to come: a queued box holds a point. -/
def hasNext (s : NeighborSearch β F) : Bool :=
  !s.queue.isEmpty

/-- The next neighbors, at most `count` of them. -/
def take : (count : Nat) → NeighborSearch β F → Checked (List (Neighbor F) × NeighborSearch β F)
  | 0, s => pure ([], s)
  | count + 1, s => do
      match ← s.next with
      | (none, s) => pure ([], s)
      | (some neighbor, s) => do
          let (neighbors, s) ← take count s
          pure (neighbor :: neighbors, s)

/-- Searches for `query` and yields every neighbor; there is one for each
node. -/
def searchAll {P : Type} [HasCoordinates P F] (s : NeighborSearch β F) (query : P) :
    Checked (Except TreeError (List (Neighbor F)) × NeighborSearch β F) := do
  match ← s.search query with
  | (.error refusal, s) => pure (.error refusal, s)
  | (.ok (), s) => do
      let (neighbors, s) ← s.take (s.tree.nodes.allocated + 1)
      pure (.ok neighbors, s)

/-- The coordinate of the neighbor yielded last on one axis. -/
def position (s : NeighborSearch β F) (d : Nat) : Checked (Option F) := do
  match s.neighbor with
  | none => pure none
  | some neighbor => do
      let node ← s.tree.node neighbor.node
      pure (some (← s.tree.coordinate node d))

end NeighborSearch

end RecordPool
