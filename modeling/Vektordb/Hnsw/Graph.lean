import Vektordb.Basic
import Vektordb.Codec.Doubling

/-!
The HNSW graph as it lies in memory: nodes in an append-only segmented array, one adjacency
list per layer of a node, and the entry point packed into one word. The closures that rewrite
an adjacency list are pure functions of the list and the distances between stored vectors.
-/

namespace Vektordb

inductive Metric where
  | l2
  | dot
  | cosine
  deriving DecidableEq, Repr

structure HnswConfig where
  /-- Max links per node on layers > 0. Layer 0 gets `2 * m`. -/
  m : Nat
  efConstruction : Nat
  metric : Metric
  deriving DecidableEq, Repr

/-! ### Segmented array -/

namespace SegVec

def BASE : Nat := 1024

def MAX_SEGMENTS : Nat := 40

def locate (index : Nat) : Nat × Nat := Doubling.locate BASE index

def CAPACITY : Nat := Doubling.start BASE MAX_SEGMENTS

theorem CAPACITY_eq : CAPACITY = 1024 * (2 ^ 40 - 1) := rfl

theorem segment_lt_iff (index : Nat) : (locate index).1 < MAX_SEGMENTS ↔ index < CAPACITY :=
  Doubling.segment_lt_iff (by decide) index MAX_SEGMENTS

end SegVec

/-- `locate` is injective, so the slots are kept by index. A slot outside the segments cannot
be written, and `len`, the publish counter, is one more than the last index written. -/
structure SegVec (α : Type) where
  slot : Nat → Option α
  len : Nat
  slot_lt : ∀ index value, slot index = some value → index < SegVec.CAPACITY ∧ index < len
  last : len = 0 ∨ (slot (len - 1)).isSome = true

namespace SegVec

variable {α : Type}

def new : SegVec α := ⟨fun _ => none, 0, by simp, .inl rfl⟩

def write (v : SegVec α) (index : Nat) (value : α) (inside : index < CAPACITY) : SegVec α where
  slot other := if other = index then some value else v.slot other
  len := max v.len (index + 1)
  slot_lt other held same := by
    by_cases here : other = index
    · subst here
      exact ⟨inside, by omega⟩
    · rw [if_neg here] at same
      have bounds := v.slot_lt other held same
      exact ⟨bounds.1, by omega⟩
  last := by
    right
    split
    · rfl
    · rename_i other
      have longer : max v.len (index + 1) = v.len := by omega
      rw [longer]
      exact v.last.resolve_left (by omega)

/-- Write a slot and bump the publish counter; an index past the last segment panics. -/
def set (v : SegVec α) (index : Nat) (value : α) : Option (SegVec α) :=
  if inside : (locate index).1 < MAX_SEGMENTS then
    some (v.write index value ((segment_lt_iff index).mp inside))
  else none

def get (v : SegVec α) (index : Nat) : Option α := v.slot index

def update (v : SegVec α) (index : Nat) (value : α) : SegVec α :=
  if inside : index < v.len ∧ index < CAPACITY then v.write index value inside.2 else v

theorem get_lt {v : SegVec α} {index : Nat} {value : α} (held : v.get index = some value) :
    index < CAPACITY := (v.slot_lt index value held).1

theorem get_lt_len {v : SegVec α} {index : Nat} {value : α} (held : v.get index = some value) :
    index < v.len := (v.slot_lt index value held).2

theorem set_some {v w : SegVec α} {index : Nat} {value : α} (done : v.set index value = some w) :
    index < CAPACITY ∧ w.len = max v.len (index + 1) ∧
      ∀ other, w.get other = if other = index then some value else v.get other := by
  unfold set at done
  split at done
  · rename_i inside
    cases done
    exact ⟨(segment_lt_iff index).mp inside, rfl, fun other => rfl⟩
  · cases done

theorem set_isSome {v : SegVec α} {index : Nat} (value : α) (inside : index < CAPACITY) :
    ∃ w, v.set index value = some w := by
  unfold set
  rw [dif_pos ((segment_lt_iff index).mpr inside)]
  exact ⟨_, rfl⟩

@[simp] theorem update_len (v : SegVec α) (index : Nat) (value : α) :
    (v.update index value).len = v.len := by
  unfold update
  split
  · show max v.len (index + 1) = v.len
    omega
  · rfl

theorem get_update {v : SegVec α} {index : Nat} {old : α} (held : v.get index = some old)
    (value : α) (other : Nat) :
    (v.update index value).get other = if other = index then some value else v.get other := by
  unfold update
  rw [dif_pos ⟨get_lt_len held, get_lt held⟩]
  rfl

theorem ext {v w : SegVec α} (slots : ∀ index, v.get index = w.get index) (lens : v.len = w.len) :
    v = w := by
  obtain ⟨slot, len, below, last⟩ := v
  obtain ⟨slot', len', below', last'⟩ := w
  have same : slot = slot' := funext slots
  subst same
  cases lens
  rfl

end SegVec

/-! ### Nodes -/

/-- Adjacency per layer, `0..=level`. A null pointer of the source is the empty list. -/
structure Node where
  links : List (List Nat)
  links_ne_nil : links ≠ []
  deriving DecidableEq

namespace Node

def new (level : Nat) : Node := ⟨List.replicate (level + 1) [], by simp⟩

def level (node : Node) : Nat := node.links.length - 1

@[simp] theorem level_new (level : Nat) : (new level).level = level := by
  simp only [Node.level, new, List.length_replicate, Nat.add_sub_cancel]

theorem links_length (node : Node) : node.links.length = node.level + 1 := by
  have positive := List.length_pos_iff.mpr node.links_ne_nil
  simp only [Node.level]
  omega

def store (node : Node) (layer : Nat) (list : List Nat) : Node :=
  ⟨node.links.set layer list, fun empty => node.links_ne_nil (by
    rw [← List.length_eq_zero_iff] at empty ⊢
    rwa [List.length_set] at empty)⟩

@[simp] theorem level_store (node : Node) (layer : Nat) (list : List Nat) :
    (node.store layer list).level = node.level := by
  simp only [Node.level, store, List.length_set]

end Node

/-! ### Entry pointer -/

def ENTRY_NONE : Nat := 2 ^ 64 - 1

/-- High 8 bits level, low 56 bits id. -/
def packEntry (id level : Nat) : Nat := (level * 2 ^ 56) % 2 ^ 64 ||| id

def unpackEntry (packed : Nat) : Nat × Nat := (packed % 2 ^ 56, packed / 2 ^ 56)

theorem packEntry_eq {id level : Nat} (smallId : id < 2 ^ 56) (smallLevel : level < 256) :
    packEntry id level = level * 2 ^ 56 + id := by
  have fits : level * 2 ^ 56 < 2 ^ 64 := by omega
  unfold packEntry
  rw [Nat.mod_eq_of_lt fits, Nat.mul_comm level, ← Nat.two_pow_add_eq_or_of_lt smallId]

theorem unpackEntry_packEntry {id level : Nat} (smallId : id < 2 ^ 56) (smallLevel : level < 256) :
    unpackEntry (packEntry id level) = (id, level) := by
  rw [packEntry_eq smallId smallLevel]
  unfold unpackEntry
  refine Prod.ext ?_ ?_ <;> simp only <;> omega

theorem packEntry_ne_none {id level : Nat} (smallId : id < 2 ^ 56) (smallLevel : level < 255) :
    packEntry id level ≠ ENTRY_NONE := by
  rw [packEntry_eq smallId (by omega)]
  unfold ENTRY_NONE
  omega

/-! ### The index -/

structure Hnsw where
  config : HnswConfig
  nodes : SegVec Node
  entry : Nat

abbrev Distances := Nat → Nat → F32

namespace Hnsw

def new (config : HnswConfig) : Result Hnsw :=
  if 2 ≤ config.m ∧ config.m ≤ 4096 then .ok ⟨config, SegVec.new, ENTRY_NONE⟩
  else .error (.invalidArgument "HNSW M must be in 2..=4096")

def len (g : Hnsw) : Nat := g.nodes.len

end Hnsw

def HnswConfig.maxDegree (config : HnswConfig) (layer : Nat) : Nat :=
  if layer = 0 then config.m * 2 else config.m

/-- The loop of Alg. 4 over the candidates, with the selected and the pruned ones so far. -/
def selectLoop (d : Distances) (m : Nat) :
    List Neighbor → List Neighbor → List Neighbor → List Neighbor × List Neighbor
  | [], selected, pruned => (selected, pruned)
  | cand :: rest, selected, pruned =>
      if m ≤ selected.length then (selected, pruned)
      else if selected.any fun s => (d cand.id s.id).lt cand.distance then
        selectLoop d m rest selected (pruned ++ [cand])
      else selectLoop d m rest (selected ++ [cand]) pruned

def selectNeighbors (d : Distances) (candidates : List Neighbor) (m : Nat) : List Nat :=
  let (selected, pruned) := selectLoop d m candidates [] []
  selected.map Neighbor.id ++ (pruned.map Neighbor.id).take (m - selected.length)

/-- The closure by which `insert` extends the new node's own list; `dedup` drops an element
that repeats the one before it. -/
def ownLinks (chosen cur : List Nat) : List Nat := (cur ++ chosen).destutter (· ≠ ·)

/-- The closure by which `insert` adds the new node to the list of a chosen neighbour. -/
def backLinks (d : Distances) (nb id max : Nat) (cur : List Nat) : List Nat :=
  if id ∈ cur then cur
  else
    let list := cur ++ [id]
    if list.length ≤ max then list
    else
      -- Alg. 1 lines 15-17: over-full, re-select among all current links.
      let cands := (list.map fun x => (⟨x, d nb x⟩ : Neighbor)).insertionSort (· ≤ ·)
      selectNeighbors d cands max

/-- Replace `id`'s adjacency at `layer`; `none` is an access to a slot that is not there. -/
def Hnsw.rewriteLinks (g : Hnsw) (id layer : Nat) (mutate : List Nat → List Nat) : Option Hnsw :=
  match g.nodes.get id with
  | none => none
  | some node =>
      match node.links[layer]? with
      | none => none
      | some cur => some { g with nodes := g.nodes.update id (node.store layer (mutate cur)) }

end Vektordb
