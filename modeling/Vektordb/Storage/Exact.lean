import Vektordb.Storage.Store
import Vektordb.Hnsw.Graph
import Vektordb.Order.Smallest

/-!
Brute-force exact k-NN. Every chunk of ids keeps a heap of its own, and the heaps are merged in
whatever tree the thread pool chooses; the result does not depend on it.
-/

namespace Vektordb

open Smallest

/-! ### Distances as numbers -/

namespace F32

theorem signed_le {x y : F32} (le : x.totalKey ≤ y.totalKey) : x.signed ≤ y.signed := by
  unfold totalKey at le
  unfold signed
  split_ifs at le ⊢ <;> omega

theorem signed_le_of_not_lt {x y : F32} (number : x.isNan = false) (other : y.isNan = false)
    (notLess : x.lt y = false) : y.signed ≤ x.signed := by
  unfold lt at notLess
  rw [number, other] at notLess
  exact not_lt.mp (of_decide_eq_false notLess)

theorem not_lt_of_signed {x y : F32} (le : y.signed ≤ x.signed) : x.lt y = false := by
  unfold lt
  rw [decide_eq_false (not_lt.mpr le), Bool.and_false]

end F32

/-- The distance as a number, for which both zeros are the same. -/
def Neighbor.amount (n : Neighbor) : Int := n.distance.signed

theorem Neighbor.amount_mono : Monotone Neighbor.amount := by
  intro near far le
  apply F32.signed_le
  have keys : near.key ≤ far.key := le
  rcases (Prod.Lex.le_iff).mp keys with less | ⟨same, _⟩
  · exact less.le
  · exact same.le

namespace Heap

theorem orderedInsert_append {init : Heap} {item worst : Neighbor} (closer : item < worst) :
    (init ++ [worst]).orderedInsert (· ≤ ·) item =
      init.orderedInsert (· ≤ ·) item ++ [worst] := by
  induction init with
  | nil =>
      rw [List.nil_append, List.orderedInsert_cons_of_le _ _ closer.le]
      rfl
  | cons head tail ih =>
      by_cases le : item ≤ head
      · rw [List.cons_append, List.orderedInsert_cons_of_le _ _ le,
          List.orderedInsert_cons_of_le _ _ le]
        rfl
      · rw [List.cons_append, List.orderedInsert_of_not_le _ _ le,
          List.orderedInsert_of_not_le _ _ le, ih, List.cons_append]

theorem orderedInsert_last {heap : Heap} {item : Neighbor} (sorted : heap.Pairwise (· ≤ ·))
    (farthest : ∀ n ∈ heap, n ≤ item) : heap.orderedInsert (· ≤ ·) item = heap ++ [item] := by
  apply List.Perm.eq_of_pairwise' (r := (· ≤ ·))
  · exact List.Pairwise.orderedInsert item heap sorted
  · apply List.pairwise_append.mpr
    refine ⟨sorted, List.pairwise_singleton _ _, ?_⟩
    intro n member other only
    rw [List.mem_singleton.mp only]
    exact farthest n member
  · exact (List.perm_orderedInsert _ item heap).trans
      (List.perm_append_singleton item heap).symm

theorem pushBounded_eq {heap : Heap} (sorted : heap.Pairwise (· ≤ ·)) (item : Neighbor) {k : Nat}
    (short : heap.length ≤ k) : pushBounded heap item k = smallest k (item :: heap) := by
  rw [smallest_cons, smallest_sorted sorted short]
  unfold pushBounded push
  by_cases room : heap.length < k
  · rw [if_pos room, List.take_of_length_le]
    rw [List.orderedInsert_length]
    omega
  · rw [if_neg room]
    rcases List.eq_nil_or_concat heap with rfl | ⟨init, worst, rfl⟩
    · obtain rfl : k = 0 := Nat.eq_zero_of_not_pos room
      rfl
    · rw [List.concat_eq_append] at sorted short room ⊢
      rw [List.getLast?_concat, List.dropLast_concat]
      rw [List.length_append, List.length_singleton] at short room
      dsimp only
      by_cases closer : item < worst
      · rw [if_pos closer, orderedInsert_append closer, List.take_left']
        rw [List.orderedInsert_length]
        omega
      · have farthest : ∀ n ∈ init ++ [worst], n ≤ item := by
          intro n member
          rcases List.mem_append.mp member with earlier | only
          · exact ((List.pairwise_append.mp sorted).2.2 n earlier worst
              (List.mem_singleton_self worst)).trans (not_lt.mp closer)
          · rw [List.mem_singleton.mp only]
            exact not_lt.mp closer
        rw [if_neg closer, orderedInsert_last sorted farthest, List.take_left']
        rw [List.length_append, List.length_singleton]
        omega

/-- A push into a bounded heap keeps what the heap is about, up to ties of any monotone key. -/
theorem retains_pushBounded {κ : Type} [LinearOrder κ] {key : Neighbor → κ} {items : List Neighbor}
    {heap : Heap} {k : Nat} (retains : Retains k key items heap) (monotone : Monotone key)
    (positive : 1 ≤ k) (item : Neighbor) :
    Retains k key (item :: items) (pushBounded heap item k) := by
  unfold pushBounded
  by_cases room : heap.length < k
  · rw [if_pos room]
    exact retains.insert item room
  · rw [if_neg room]
    rcases List.eq_nil_or_concat heap with empty | ⟨init, worst, whole⟩
    · rw [empty] at room
      exact absurd positive room
    · rw [List.concat_eq_append] at whole
      subst whole
      rw [List.getLast?_concat, List.dropLast_concat]
      dsimp only
      by_cases closer : item < worst
      · rw [if_pos closer]
        exact retains.replace monotone (not_lt.mp room) (monotone closer.le)
      · rw [if_neg closer]
        apply retains.skip (not_lt.mp room)
        intro n member
        apply monotone
        rcases List.mem_append.mp member with earlier | only
        · exact ((List.pairwise_append.mp retains.sorted).2.2 n earlier worst
            (List.mem_singleton_self worst)).trans (not_lt.mp closer)
        · rw [List.mem_singleton.mp only]
          exact not_lt.mp closer

theorem amount_le_of_worst {heap : Heap} {d : F32} (sorted : heap.Pairwise (· ≤ ·))
    (numbers : ∀ n ∈ heap, n.distance.isNan = false) (number : d.isNan = false)
    (far : d.lt heap.worst = false) : ∀ n ∈ heap, n.amount ≤ d.signed := by
  intro n member
  rcases List.eq_nil_or_concat heap with empty | ⟨init, last, whole⟩
  · rw [empty] at member
    cases member
  · rw [List.concat_eq_append] at whole
    subst whole
    have worst : Heap.worst (init ++ [last]) = last.distance := by
      unfold Heap.worst
      rw [List.getLast?_concat]
      rfl
    have final := numbers last (List.mem_append_right init (List.mem_singleton_self last))
    rw [worst] at far
    apply le_trans _ (F32.signed_le_of_not_lt number final far)
    rcases List.mem_append.mp member with earlier | only
    · exact Neighbor.amount_mono ((List.pairwise_append.mp sorted).2.2 n earlier last
        (List.mem_singleton_self last))
    · rw [List.mem_singleton.mp only]
      exact le_rfl

def pushAll (k : Nat) (heap : Heap) (items : List Neighbor) : Heap :=
  items.foldl (fun heap item => pushBounded heap item k) heap

theorem pushAll_eq {k : Nat} {heap : Heap} (sorted : heap.Pairwise (· ≤ ·))
    (short : heap.length ≤ k) (items : List Neighbor) :
    pushAll k heap items = smallest k (items ++ heap) := by
  induction items generalizing heap with
  | nil => exact (smallest_sorted sorted short).symm
  | cons item items ih =>
      have pushed := pushBounded_eq sorted item short
      have bound : (pushBounded heap item k).length ≤ k := by
        rw [pushed, length_smallest]
        exact Nat.min_le_left k _
      calc pushAll k (pushBounded heap item k) items
          = smallest k (items ++ pushBounded heap item k) :=
            ih (pushed ▸ sorted_smallest k _) bound
        _ = smallest k (items ++ item :: heap) := by rw [pushed, smallest_append]
        _ = smallest k (item :: items ++ heap) := smallest_perm k List.perm_middle

end Heap

namespace Exact

def CHUNK : Nat := 16384

/-- The ids of a chunk: `start..(start + chunk).min(n)`. -/
def chunkIds (n start : Nat) : List Nat := List.range' start (min (start + CHUNK) n - start)

/-- `(0..n).step_by(chunk)`, each start with its ids. -/
def chunks (n : Nat) : List (List Nat) :=
  (List.range ((n + CHUNK - 1) / CHUNK)).map fun i => chunkIds n (i * CHUNK)

variable (value : Nat → F32) (k : Nat)

def scored (ids : List Nat) : List Neighbor := ids.map fun id => ⟨id, value id⟩

def chunkHeap (ids : List Nat) : Heap := Heap.pushAll k [] (scored value ids)

/-- What the thread pool may make of some heaps: it splits them where it likes, starts any part
from an empty heap, and takes the items of a heap in any order. -/
inductive Reduced : List Heap → Heap → Prop
  | identity : Reduced [] []
  | single (heap : Heap) : Reduced [heap] heap
  | merge {left right : List Heap} {a b : Heap} (items : List Neighbor)
      (first : Reduced left a) (second : Reduced right b) (order : items.Perm b) :
      Reduced (left ++ right) (Heap.pushAll k a items)

/-- Exact k nearest neighbors among the first `n` rows, sorted ascending by distance. -/
def Search (n : Nat) (out : List Neighbor) : Prop :=
  Reduced k ((chunks n).map (chunkHeap value k)) out

def search (n : Nat) : List Neighbor :=
  ((chunks n).map (chunkHeap value k)).foldl (Heap.pushAll k) []

def nearest (ids : List Nat) : List Neighbor := smallest k (scored value ids)

theorem chunks_flatten (n : Nat) : (chunks n).flatten = List.range n := by
  have upTo : ∀ q, ((List.range q).map fun i => chunkIds n (i * CHUNK)).flatten =
      List.range (min (q * CHUNK) n) := by
    intro q
    induction q with
    | zero => rw [Nat.zero_mul, Nat.zero_min]; rfl
    | succ q ih =>
        rw [List.range_succ, List.map_append, List.flatten_append, ih, List.map_singleton,
          List.flatten_singleton, chunkIds, Nat.succ_mul]
        rcases Nat.le_total (q * CHUNK) n with inside | past
        · have total : min (q * CHUNK + CHUNK) n =
              q * CHUNK + (min (q * CHUNK + CHUNK) n - q * CHUNK) := by omega
          have joined := List.range'_append_1 (s := 0) (m := q * CHUNK)
            (n := min (q * CHUNK + CHUNK) n - q * CHUNK)
          rw [Nat.zero_add] at joined
          rw [Nat.min_eq_left inside, List.range_eq_range', List.range_eq_range', joined, ← total]
        · rw [Nat.min_eq_right past, Nat.min_eq_right (by omega), Nat.sub_eq_zero_of_le past]
          exact List.append_nil _
  unfold chunks
  rw [upTo, Nat.min_eq_right]
  unfold CHUNK
  omega

variable {value k}

theorem chunkHeap_eq (ids : List Nat) : chunkHeap value k ids = nearest value k ids := by
  unfold chunkHeap nearest
  rw [Heap.pushAll_eq List.Pairwise.nil (Nat.zero_le k), List.append_nil]

theorem pushAll_smallest (items part : List Neighbor) :
    Heap.pushAll k (smallest k part) items = smallest k (items ++ part) := by
  rw [Heap.pushAll_eq (sorted_smallest k part), smallest_append]
  rw [length_smallest]
  exact Nat.min_le_left k _

theorem nearest_perm (value : Nat → F32) {k : Nat} {ids : List Nat} (room : ids.length ≤ k) :
    (nearest value k ids).Perm (scored value ids) := by
  unfold nearest smallest
  rw [List.take_of_length_le]
  · exact List.perm_insertionSort _ _
  · rw [List.length_insertionSort, scored, List.length_map]
    exact room

theorem ids_scored (value : Nat → F32) (ids : List Nat) :
    (scored value ids).map Neighbor.id = ids := by
  unfold scored
  rw [List.map_map]
  exact List.map_id ids

/-- Merging the nearest of the parts gives the nearest of all, whatever the tree. -/
theorem Reduced.eq {parts : List (List Nat)} {heaps : List Heap} {out : Heap}
    (reduced : Reduced k heaps out) (each : heaps = parts.map (nearest value k)) :
    out = nearest value k parts.flatten := by
  induction reduced generalizing parts with
  | identity =>
      obtain rfl := List.map_eq_nil_iff.mp each.symm
      exact (smallest_sorted List.Pairwise.nil (Nat.zero_le k)).symm
  | single heap =>
      obtain ⟨part, rfl, rfl⟩ := List.map_eq_singleton_iff.mp each.symm
      rw [List.flatten_singleton]
  | @merge left right a b items first second order ihFirst ihSecond =>
      obtain ⟨leftParts, rightParts, rfl, rfl, rfl⟩ := List.map_eq_append_iff.mp each.symm
      have isFirst := ihFirst rfl
      have isSecond := ihSecond rfl
      rw [isFirst, nearest, pushAll_smallest, nearest, List.flatten_append]
      unfold scored at *
      rw [List.map_append]
      calc smallest k (items ++ (leftParts.flatten.map fun id => ⟨id, value id⟩))
          = smallest k ((leftParts.flatten.map fun id => ⟨id, value id⟩) ++ b) :=
            smallest_perm k (List.perm_append_comm.trans (order.append_left _))
        _ = _ := by rw [isSecond, nearest, smallest_append]; rfl

theorem Search.eq {n : Nat} {out : List Neighbor} (searched : Search value k n out) :
    out = nearest value k (List.range n) := by
  have each : (chunks n).map (chunkHeap value k) = (chunks n).map (nearest value k) :=
    List.map_congr_left fun ids _ => chunkHeap_eq ids
  rw [Reduced.eq searched each, chunks_flatten]

theorem search_spec (value : Nat → F32) (k n : Nat) : Search value k n (search value k n) := by
  have fold : ∀ heaps before out, Reduced k before out →
      Reduced k (before ++ heaps) (heaps.foldl (Heap.pushAll k) out) := by
    intro heaps
    induction heaps with
    | nil =>
        intro before out reduced
        rw [List.append_nil]
        exact reduced
    | cons heap heaps ih =>
        intro before out reduced
        rw [← List.singleton_append, ← List.append_assoc, List.foldl_append]
        exact ih _ _ (.merge heap reduced (.single heap) (List.Perm.refl heap))
  have all := fold ((chunks n).map (chunkHeap value k)) [] [] .identity
  rwa [List.nil_append] at all

def StoreSearch (kernel : Metric → Row → Row → F32) (metric : Metric) (store : VectorStore)
    (file : StoreFile) (query : Row) (k : Nat) (out : List Neighbor) : Prop :=
  Search (fun id => kernel metric query (store.getUnchecked file id)) k store.count out

/-- The parallel search returns what sorting all scored rows and cutting the list to `k` does. -/
theorem storeSearch_iff (kernel : Metric → Row → Row → F32) (metric : Metric) (store : VectorStore)
    (file : StoreFile) (query : Row) (k : Nat) (out : List Neighbor) :
    StoreSearch kernel metric store file query k out ↔
      out = (((List.range store.count).map fun id =>
        (⟨id, kernel metric query (store.getUnchecked file id)⟩ : Neighbor)).insertionSort
          (· ≤ ·)).take k := by
  constructor
  · intro searched
    exact searched.eq
  · intro naive
    have sequential := search_spec
      (fun id => kernel metric query (store.getUnchecked file id)) k store.count
    have same := sequential.eq
    rw [naive]
    change Search _ k store.count (nearest _ k (List.range store.count))
    rw [← same]
    exact sequential

end Exact

end Vektordb
