import Vektordb.Hnsw.Graph
import Vektordb.Hnsw.Scratch
import Vektordb.Interaction.Discipline

/-!
Insertion and search as programs over the shared graph. One action is one atomic step of the
source: publishing a node, loading a snapshot of one adjacency list, one critical section of
`rewrite_links` or of the entry lock. Everything between two actions is local to the thread.
-/

namespace Vektordb

open Interaction

namespace Hnsw

inductive Action where
  /-- `nodes.set(id, Node::new(level))` -/
  | publish (id level : Nat)
  /-- `entry.load` -/
  | entry
  /-- Under the entry lock: store the first entry if there is none yet. -/
  | claimEntry (id level : Nat)
  /-- Under the entry lock: move the entry up if the node is higher. -/
  | raiseEntry (id level : Nat)
  /-- `nodes.len()` -/
  | len
  /-- Load the adjacency snapshot of `id` at `layer`. -/
  | links (id layer : Nat)
  | distance (base other : Nat)
  | select (candidates : List Neighbor) (m : Nat)
  /-- `rewrite_links(id, layer)` with the closure that appends the chosen neighbours. -/
  | linkOwn (id layer : Nat) (chosen : List Nat)
  /-- `rewrite_links(nb, layer)` with the closure that adds `id`. -/
  | linkBack (nb layer id max : Nat)

abbrev Answer : Action → Type
  | .publish _ _ => Unit
  | .entry => Nat
  | .claimEntry _ _ => Bool
  | .raiseEntry _ _ => Unit
  | .len => Nat
  | .links _ _ => List Nat
  | .distance _ _ => F32
  | .select _ _ => List Nat
  | .linkOwn _ _ _ => Unit
  | .linkBack _ _ _ _ => Unit

abbrev sig : Sig := ⟨Action, Answer⟩

def rewritten : Option Hnsw → Reply Hnsw Unit
  | some g => .ok g ()
  | none => .fault

def handle (d : Distances) : Handler sig Hnsw
  | _, g, .publish id level =>
      match g.nodes.set id (Node.new level) with
      | some nodes => .ok { g with nodes := nodes } ()
      | none => .fault
  | _, g, .entry => .ok g g.entry
  | _, g, .claimEntry id level =>
      if g.entry = ENTRY_NONE then .ok { g with entry := packEntry id level } true
      else .ok g false
  | _, g, .raiseEntry id level =>
      if (unpackEntry g.entry).2 < level then .ok { g with entry := packEntry id level } ()
      else .ok g ()
  | _, g, .len => .ok g g.len
  | _, g, .links id layer =>
      match (g.nodes.get id).bind fun node => node.links[layer]? with
      | some list => .ok g list
      | none => .fault
  | _, g, .distance base other => .ok g (d base other)
  | _, g, .select candidates m => .ok g (selectNeighbors d candidates m)
  | _, g, .linkOwn id layer chosen => rewritten (g.rewriteLinks id layer (ownLinks chosen))
  | _, g, .linkBack nb layer id max => rewritten (g.rewriteLinks nb layer (backLinks d nb id max))

variable {T : Sig} [Supports sig T]

def call (action : Action) : Prog T (Answer action) := Supports.call (S := sig) action

/-! ### Traversal -/

/-- The closure of `greedy_descend` over one adjacency snapshot. -/
def relax (dist : Nat → Prog T F32) : List Nat → Nat → F32 → Bool → Prog T (Nat × F32 × Bool)
  | [], entry, best, improved => pure (entry, best, improved)
  | next :: rest, entry, best, improved => do
      let d ← dist next
      if d.lt best then relax dist rest next d true
      else relax dist rest entry best improved

/-- Every round but the last lowers `best`, and there are at most `2 ^ 32` values of it. -/
def descendBound : Nat := 2 ^ 32 + 2

def greedyLoop (dist : Nat → Prog T F32) (layer : Nat) : Nat → Nat → F32 → Prog T (Nat × F32)
  | 0, _, _ => .spin
  | fuel + 1, entry, best => do
      let list ← call (.links entry layer)
      let (entry, best, improved) ← relax dist list entry best false
      if improved then greedyLoop dist layer fuel entry best
      else pure (entry, best)

def greedyDescend (dist : Nat → Prog T F32) (entry : Nat) (best : F32) (layer : Nat) :
    Prog T (Nat × F32) :=
  greedyLoop dist layer descendBound entry best

/-- `((level + 1)..=top).rev()` -/
def layersAbove (level top : Nat) : List Nat := (List.range' (level + 1) (top - level)).reverse

def descendLayers (dist : Nat → Prog T F32) : List Nat → Nat → F32 → Prog T (Nat × F32)
  | [], ep, epDist => pure (ep, epDist)
  | layer :: rest, ep, epDist => do
      let (ep, epDist) ← greedyDescend dist ep epDist layer
      descendLayers dist rest ep epDist

/-- The closure of `search_layer` over one adjacency snapshot. -/
def scanLinks (dist : Nat → Prog T F32) (ef : Nat) :
    List Nat → VisitedSet → Heap → Heap → Prog T (VisitedSet × Heap × Heap)
  | [], visited, candidates, results => pure (visited, candidates, results)
  | next :: rest, visited, candidates, results =>
      let (seen, visited) := visited.mark next
      if seen then scanLinks dist ef rest visited candidates results
      else do
        let d ← dist next
        if results.length < ef || d.lt (Heap.worst results) then
          scanLinks dist ef rest visited (Heap.push candidates ⟨next, d⟩)
            (Heap.pushBounded results ⟨next, d⟩ ef)
        else scanLinks dist ef rest visited candidates results

/-- Every round takes one candidate, and an id becomes a candidate at most once. -/
def searchBound : Nat := SegVec.CAPACITY + 1

def searchLoop (dist : Nat → Prog T F32) (ef layer : Nat) :
    Nat → VisitedSet → Heap → Heap → Prog T (VisitedSet × Heap)
  | 0, _, _, _ => .spin
  | fuel + 1, visited, candidates, results =>
      match candidates with
      | [] => pure (visited, results)
      | current :: open_ =>
          -- Stop once the closest open candidate is farther than the worst result.
          if (Heap.worst results).lt current.distance && decide (ef ≤ results.length) then
            pure (visited, results)
          else do
            let list ← call (.links current.id layer)
            let (visited, candidates, results) ← scanLinks dist ef list visited open_ results
            searchLoop dist ef layer fuel visited candidates results

/-- Alg. 2 SEARCH-LAYER: beam search with `ef` candidates on one layer. -/
def searchLayer (dist : Nat → Prog T F32) (visited : VisitedSet) (entry ef layer : Nat) :
    Prog T (VisitedSet × Heap) := do
  let n ← call .len
  let visited := ((visited.beginPass n).mark entry).2
  let d ← dist entry
  searchLoop dist ef layer searchBound visited [⟨entry, d⟩] [⟨entry, d⟩]

def searchWithOracle (dist : Nat → Prog T F32) (visited : VisitedSet) (k ef : Nat) :
    Prog T (List Neighbor) := do
  let packed ← call .entry
  if packed = ENTRY_NONE then pure []
  else do
    let (entryId, top) := unpackEntry packed
    let d ← dist entryId
    let (ep, _) ← descendLayers dist (layersAbove 0 top) entryId d
    let (_, results) ← searchLayer dist visited ep (max ef k) 0
    pure (results.take k)

/-! ### Insertion -/

def linkBackAll (id layer max : Nat) : List Nat → Prog T Unit
  | [] => pure ()
  | nb :: rest => do
      call (.linkBack nb layer id max)
      linkBackAll id layer max rest

/-- Connect the new node on one layer; the best candidate seeds the next lower one. -/
def connectLayer (config : HnswConfig) (id layer : Nat) (visited : VisitedSet) (ep : Nat) :
    Prog T (VisitedSet × Nat) := do
  let (visited, found) ← searchLayer (fun x => call (.distance id x)) visited ep
    config.efConstruction layer
  let ep := (found.head?.map Neighbor.id).getD ep
  let chosen ← call (.select (found.filter fun n => n.id ≠ id) config.m)
  call (.linkOwn id layer chosen)
  linkBackAll id layer (config.maxDegree layer) chosen
  pure (visited, ep)

def connectLayers (config : HnswConfig) (id : Nat) : Nat → VisitedSet → Nat → Prog T Unit
  | 0, visited, ep => do
      let _ ← connectLayer config id 0 visited ep
      pure ()
  | layer + 1, visited, ep => do
      let (visited, ep) ← connectLayer config id (layer + 1) visited ep
      connectLayers config id layer visited ep

/-- What `insert` does once there is an entry point. -/
def link (config : HnswConfig) (id level : Nat) (visited : VisitedSet) : Prog T Unit := do
  let packed ← call .entry
  let (entryId, top) := unpackEntry packed
  let d ← call (.distance id entryId)
  let (ep, _) ← descendLayers (fun x => call (.distance id x)) (layersAbove level top) entryId d
  connectLayers config id (min level top) visited ep
  -- Became the highest node: move the entry point.
  if top < level then call (.raiseEntry id level)
  else pure ()

/-- Alg. 1 INSERT. The vector for `id` must already be in the store; `visited` is what the
earlier passes of the thread left behind. -/
def insert (config : HnswConfig) (id level : Nat) (visited : VisitedSet) : Prog T Unit := do
  call (.publish id level)
  let packed ← call .entry
  if packed = ENTRY_NONE then do
    let claimed ← call (.claimEntry id level)
    if claimed then pure ()
    else link config id level visited
  else link config id level visited

end Hnsw

end Vektordb
