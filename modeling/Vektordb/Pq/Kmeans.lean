import Vektordb.Numeric.Grid
import Vektordb.Numeric.Lloyd
import Vektordb.Pq.Exact

/-!
K-means for one subspace in exact arithmetic, with the random draws as a parameter: seeding by
squared distances, then Lloyd iterations over flat arrays. An iteration never makes the codebook
worse as long as its 32-bit counters do not wrap.
-/

namespace Vektordb

open Checked Grid Pq Scalar

namespace Kmeans

variable {ρ : Type}

/-- A generator of random draws with its state. -/
structure Rng (ρ : Type) where
  /-- `gen_range(0..n)` -/
  index : Nat → ρ → Nat × ρ
  index_lt : ∀ n state, 0 < n → (index n state).1 < n
  /-- `gen_range(0.0..total)` -/
  target : ℚ → ρ → ℚ × ρ
  target_mem : ∀ total state, 0 < total →
    0 ≤ (target total state).1 ∧ (target total state).1 < total

abbrev Drawing (ρ : Type) := StateT ρ Option

def Rng.drawIndex (rng : Rng ρ) (n : Nat) : Drawing ρ Nat := fun state => some (rng.index n state)

def Rng.drawTarget (rng : Rng ρ) (total : ℚ) : Drawing ρ ℚ :=
  fun state => some (rng.target total state)

def lift {α : Type} (value : Option α) : Drawing ρ α := fun state => value.map (·, state)

theorem run_bind {α β : Type} {first : Drawing ρ α} {state after : ρ} {value : α}
    (ran : first.run state = some (value, after)) (next : α → Drawing ρ β) :
    (first >>= next).run state = (next value).run after := by
  rw [StateT.run_bind, ran]
  rfl

theorem lift_bind {α β : Type} (value : α) (next : α → Drawing ρ β) (state : ρ) :
    (lift (some value) >>= next).run state = (next value).run state := rfl

theorem drawIndex_bind {β : Type} (rng : Rng ρ) (n : Nat) (next : Nat → Drawing ρ β) (state : ρ) :
    (rng.drawIndex n >>= next).run state =
      (next (rng.index n state).1).run (rng.index n state).2 := rfl

/-- `row(i)` -/
def pointRow (points : List ℚ) (d i : Nat) : Option (List ℚ) := slice points (i * d) d

/-! ### Seeding -/

/-- The first point at which the weights have used up the target; `chosen` if there is none. -/
def choose (chosen : Nat) : Nat → ℚ → List ℚ → Nat
  | _, _, [] => chosen
  | i, target, w :: weights =>
      if target - w ≤ 0 then i else choose chosen (i + 1) (target - w) weights

def pick (rng : Rng ρ) (n : Nat) (d2 : List ℚ) : Drawing ρ Nat :=
  let total := d2.sum
  if total ≤ 0 then rng.drawIndex n
  else do
    let target ← rng.drawTarget total
    return choose (n - 1) 0 target d2

/-- The centroids so far and each point's squared distance to the nearest of them. -/
structure Seeded where
  centroids : List ℚ
  d2 : List ℚ

/-- A point's squared distance to the nearest centroid, once there is one more. -/
def closer (points : List ℚ) (d : Nat) (newC : List ℚ) (nearest : ℚ) (i : Nat) : Option ℚ := do
  let dd ← l2Squared (← pointRow points d i) newC
  return if dd < nearest then dd else nearest

def seedOne (rng : Rng ρ) (points : List ℚ) (n d : Nat) (seeded : Seeded) : Drawing ρ Seeded := do
  let newC ← lift (pointRow points d (← pick rng n seeded.d2))
  let d2 ← lift (seeded.d2.zipIdx.mapM fun pair => closer points d newC pair.1 pair.2)
  return ⟨seeded.centroids ++ newC, d2⟩

def seed (rng : Rng ρ) (points : List ℚ) (n d : Nat) : Drawing ρ (List ℚ) := do
  let first ← rng.drawIndex n
  let firstRow ← lift (pointRow points d first)
  let d2 ← lift ((List.range n).mapM fun i => do l2Squared (← pointRow points d i) firstRow)
  let seeded ← strides 1 1 K (fun seeded _ => seedOne rng points n d seeded) ⟨firstRow, d2⟩
  return seeded.centroids

/-! ### Lloyd iterations -/

def assign (points centroids : List ℚ) (n d : Nat) : Option (List Nat) :=
  (List.range n).mapM fun i => do
    Codebook.nearestAmong Codebook.kernelTop (fun x y => decide (x < y)) ⊤
      (fun k => slice centroids (k * d) d) (← pointRow points d i)

structure Tally where
  sums : List ℚ
  counts : List Nat

/-- `sums[k * d + j] += points[i * d + j]` -/
def addEntry (points : List ℚ) (d k i : Nat) (sums : List ℚ) (j : Nat) : Option (List ℚ) := do
  write sums (k * d + j) ((← sums[k * d + j]?) + (← points[i * d + j]?))

/-- A point is counted in its cluster; the counter is a `u32`. -/
def tallyPoint (points : List ℚ) (d : Nat) (assigned : List Nat) (tally : Tally) (i : Nat) :
    Option Tally := do
  let k ← assigned[i]?
  let count ← tally.counts[k]?
  let counts ← write tally.counts k ((count + 1) % 2 ^ 32)
  let sums ← strides 1 0 d (addEntry points d k i) tally.sums
  return ⟨sums, counts⟩

def tally (points : List ℚ) (n d : Nat) (assigned : List Nat) : Option Tally :=
  strides 1 0 n (tallyPoint points d assigned) ⟨List.replicate (K * d) 0, List.replicate K 0⟩

/-- `centroids[k * d + j] = sums[k * d + j] / count` -/
def meanEntry (sums : List ℚ) (d k count : Nat) (centroids : List ℚ) (j : Nat) :
    Option (List ℚ) := do
  write centroids (k * d + j) ((← sums[k * d + j]?) / (count : ℚ))

/-- A centroid moves to the mean; an empty cluster is respawned on a random point. -/
def recentreOne (rng : Rng ρ) (points : List ℚ) (n d : Nat) (tally : Tally) (centroids : List ℚ)
    (k : Nat) : Drawing ρ (List ℚ) := do
  let count ← lift tally.counts[k]?
  if count = 0 then
    let p ← lift (pointRow points d (← rng.drawIndex n))
    lift (copyInto centroids (k * d) p)
  else
    lift (strides 1 0 d (meanEntry tally.sums d k count) centroids)

def recentre (rng : Rng ρ) (points : List ℚ) (n d : Nat) (tally : Tally) (centroids : List ℚ) :
    Drawing ρ (List ℚ) :=
  strides 1 0 K (recentreOne rng points n d tally) centroids

def lloyd (rng : Rng ρ) (points : List ℚ) (n d : Nat) (centroids : List ℚ) :
    Drawing ρ (List ℚ) := do
  let assigned ← lift (assign points centroids n d)
  let tally ← lift (tally points n d assigned)
  recentre rng points n d tally centroids

/-- `K * d` centroids for `n` rows of `d` numbers. -/
def kmeans (rng : Rng ρ) (points : List ℚ) (n d iters : Nat) : Drawing ρ (List ℚ) := do
  let centroids ← seed rng points n d
  strides 1 0 iters (fun centroids _ => lloyd rng points n d centroids) centroids

def error (points centroids : List ℚ) (n d : Nat) : ℚ :=
  ∑ i ∈ Finset.range n, (Finset.range K).inf' ⟨0, by decide⟩ fun k =>
    distance (row d points i) (row d centroids k)

/-! ### One iteration -/

section Iteration

variable {points centroids : List ℚ} {n d : Nat}

theorem pointRow_eq (sized : points.length = n * d) {i : Nat} (below : i < n) :
    pointRow points d i = some (row d points i) := slice_inside (sized ▸ row_le below)

theorem row_length {cells : List ℚ} {rows k : Nat} (sized : cells.length = rows * d)
    (inside : k < rows) : (row d cells k).length = d := slice_length (sized ▸ row_le inside)

theorem distance_rows (sized : points.length = n * d) (held : centroids.length = K * d) {i k : Nat}
    (below : i < n) (inside : k < K) : distance (row d points i) (row d centroids k) =
      ∑ j ∈ Finset.range d, (cell d points i j - cell d centroids k j) *
        (cell d points i j - cell d centroids k j) := by
  have lengths := (row_length sized below).trans (row_length held inside).symm
  unfold distance
  rw [total_eq_sum _ lengths 0, row_length sized below]
  apply Finset.sum_congr rfl
  intro j member
  rw [getD_row points i (Finset.mem_range.mp member),
    getD_row centroids k (Finset.mem_range.mp member)]

theorem assign_eq (sized : points.length = n * d) (held : centroids.length = K * d) :
    ∃ nearest : Nat → Nat, assign points centroids n d = some ((List.range n).map nearest) ∧
      ∀ i, i < n → Argmin.First (fun k => distance (row d points i) (row d centroids k)) K
        (nearest i) := by
  refine ⟨fun i => (Argmin.scan (fun x y => decide (x < y)) (⊤ : WithTop ℚ)
    (fun k => WithTop.some (distance (row d points i) (row d centroids k))) K).1, ?_, ?_⟩
  · apply mapM_some
    intro i member
    have below := List.mem_range.mp member
    rw [pointRow_eq sized below, Option.bind_eq_bind, Option.bind_some]
    apply Codebook.nearestAmong_eq
    intro k inside
    rw [slice_inside (held ▸ row_le inside)]
    exact Codebook.kernelTop_computes _ _
      ((row_length sized below).trans (row_length held inside).symm)
  · intro i below
    have ⟨first, _⟩ := Argmin.scan_first (β := WithTop ℚ) (by decide : 0 < K) fun k _ =>
      WithTop.coe_lt_top (distance (row d points i) (row d centroids k))
    exact ⟨first.lt, fun k inside => WithTop.coe_le_coe.mp (first.least k inside),
      fun k before => WithTop.coe_lt_coe.mp (first.earliest k before)⟩

def members (nearest : Nat → Nat) (n k : Nat) : Finset Nat :=
  (Finset.range n).filter fun i => nearest i = k

theorem members_succ (nearest : Nat → Nat) (i k : Nat) : members nearest (i + 1) k =
    if nearest i = k then insert i (members nearest i k) else members nearest i k := by
  unfold members
  rw [Finset.range_add_one, Finset.filter_insert]

theorem not_mem_members (nearest : Nat → Nat) (i k : Nat) : i ∉ members nearest i k :=
  fun member => lt_irrefl i (Finset.mem_range.mp (Finset.mem_filter.mp member).1)

/-- The tally of the first `i` points. -/
structure Tallied (points : List ℚ) (d : Nat) (nearest : Nat → Nat) (i : Nat) (tally : Tally) :
    Prop where
  sums_length : tally.sums.length = K * d
  counts_length : tally.counts.length = K
  count : ∀ k, tally.counts.getD k 0 = (members nearest i k).card % 2 ^ 32
  sum : ∀ k j, j < d → cell d tally.sums k j = ∑ i ∈ members nearest i k, cell d points i j

theorem tallyPoint_eq (sized : points.length = n * d) {nearest : Nat → Nat}
    (assigned : ∀ i, i < n → nearest i < K) {i : Nat} {tally : Tally}
    (tallied : Tallied points d nearest i tally) (below : i < n) : ∃ next,
      tallyPoint points d ((List.range n).map nearest) tally i = some next ∧
        Tallied points d nearest (i + 1) next := by
  have inside := assigned i below
  have found : ((List.range n).map nearest)[i]? = some (nearest i) := by
    rw [List.getElem?_map, List.getElem?_range below]
    rfl
  have counter : nearest i < tally.counts.length := tallied.counts_length ▸ inside
  have counted : tally.counts[nearest i]? = some (tally.counts.getD (nearest i) 0) := by
    rw [List.getElem?_eq_getElem counter, List.getD_eq_getElem tally.counts 0 counter]
  have ⟨counts, wrote, countsLength, entries⟩ :=
    write_getD counter ((tally.counts.getD (nearest i) 0 + 1) % 2 ^ 32)
  have ⟨sums, filled, sumsLength, cells⟩ := fill_row tallied.sums_length inside
    (addEntry points d (nearest i) i) (fun j => cell d tally.sums (nearest i) j + cell d points i j) (by
      intro state j jBelow length same
      unfold addEntry
      rw [get_cell length inside jBelow, get_cell sized below jBelow, same]
      rfl)
  refine ⟨⟨sums, counts⟩, ?_, sumsLength, countsLength.trans tallied.counts_length, ?_, ?_⟩
  · unfold tallyPoint
    simp only [found, counted, wrote, filled, Option.bind_eq_bind, Option.bind_some]
    rfl
  · intro k
    rw [members_succ, entries]
    by_cases here : k = nearest i
    · rw [here, if_pos rfl, if_pos rfl, tallied.count, Finset.card_insert_of_notMem
        (not_mem_members nearest i _), Nat.mod_add_mod]
    · rw [if_neg here, if_neg (Ne.symm here), tallied.count]
  · intro k j jBelow
    rw [members_succ, cells k j jBelow]
    by_cases here : k = nearest i
    · rw [here, if_pos rfl, if_pos rfl, Finset.sum_insert (not_mem_members nearest i _), add_comm,
        tallied.sum _ _ jBelow]
    · rw [if_neg here, if_neg (Ne.symm here), tallied.sum _ _ jBelow]

theorem tally_eq (sized : points.length = n * d) {nearest : Nat → Nat}
    (assigned : ∀ i, i < n → nearest i < K) : ∃ result,
      tally points n d ((List.range n).map nearest) = some result ∧
        Tallied points d nearest n result := by
  have empty : Tallied points d nearest 0 ⟨List.replicate (K * d) 0, List.replicate K 0⟩ := {
    sums_length := List.length_replicate
    counts_length := List.length_replicate
    count := fun k => getD_zeros K k
    sum := fun k j _ => getD_zeros (K * d) (k * d + j) }
  have ⟨result, ran, tallied⟩ := strides_rule (Tallied points d nearest)
    (tallyPoint points d ((List.range n).map nearest)) n (by decide : 0 < 1)
    (fun _ _ kept below => tallyPoint_eq sized assigned kept below) empty
  rw [strideEnd_one (Nat.zero_le n)] at tallied
  exact ⟨result, ran, tallied⟩

/-- The first `k` centroids have moved. -/
structure Recentred (rng : Rng ρ) (points : List ℚ) (n d : Nat) (tally : Tally) (k : Nat)
    (centroids : List ℚ) : Prop where
  length : centroids.length = K * d
  mean : ∀ k', k' < k → tally.counts.getD k' 0 ≠ 0 → ∀ j, j < d →
    cell d centroids k' j = cell d tally.sums k' j / (tally.counts.getD k' 0 : ℚ)
  respawned : ∀ k', k' < k → tally.counts.getD k' 0 = 0 → ∃ state, ∀ j, j < d →
    cell d centroids k' j = cell d points (rng.index n state).1 j

theorem recentreOne_eq (rng : Rng ρ) (sized : points.length = n * d) (positive : 0 < n)
    {nearest : Nat → Nat} {tally : Tally} (tallied : Tallied points d nearest n tally) {k : Nat}
    (inside : k < K) (moved : Recentred rng points n d tally k centroids) (state : ρ) :
    ∃ next after, (recentreOne rng points n d tally centroids k).run state = some (next, after) ∧
      Recentred rng points n d tally (k + 1) next := by
  have counter : k < tally.counts.length := tallied.counts_length ▸ inside
  have counted : tally.counts[k]? = some (tally.counts.getD k 0) := by
    rw [List.getElem?_eq_getElem counter, List.getD_eq_getElem tally.counts 0 counter]
  by_cases empty : tally.counts.getD k 0 = 0
  · have ⟨next, copied, length, cells⟩ := copyInto_cell moved.length inside
      (row_length sized (rng.index_lt n state positive))
    refine ⟨next, (rng.index n state).2, ?_, length, ?_, ?_⟩
    · unfold recentreOne
      rw [counted, lift_bind, if_pos empty, drawIndex_bind,
        pointRow_eq sized (rng.index_lt n state positive), lift_bind, copied]
      rfl
    · intro k' before counts j below
      rcases Nat.lt_succ_iff_lt_or_eq.mp before with earlier | here
      · rw [cells k' j below, if_neg (Nat.ne_of_lt earlier)]
        exact moved.mean k' earlier counts j below
      · rw [here] at counts
        exact absurd empty counts
    · intro k' before counts
      rcases Nat.lt_succ_iff_lt_or_eq.mp before with earlier | here
      · have ⟨drawn, same⟩ := moved.respawned k' earlier counts
        refine ⟨drawn, fun j below => ?_⟩
        rw [cells k' j below, if_neg (Nat.ne_of_lt earlier)]
        exact same j below
      · refine ⟨state, fun j below => ?_⟩
        rw [cells k' j below, if_pos here, getD_row _ _ below]
  · have ⟨next, filled, length, cells⟩ := fill_row moved.length inside
      (meanEntry tally.sums d k (tally.counts.getD k 0))
      (fun j => cell d tally.sums k j / (tally.counts.getD k 0 : ℚ)) (by
        intro written j below _ _
        unfold meanEntry
        rw [get_cell tallied.sums_length inside below]
        rfl)
    refine ⟨next, state, ?_, length, ?_, ?_⟩
    · unfold recentreOne
      rw [counted, lift_bind, if_neg empty, filled]
      rfl
    · intro k' before counts j below
      rcases Nat.lt_succ_iff_lt_or_eq.mp before with earlier | here
      · rw [cells k' j below, if_neg (Nat.ne_of_lt earlier)]
        exact moved.mean k' earlier counts j below
      · rw [cells k' j below, if_pos here, here]
    · intro k' before counts
      rcases Nat.lt_succ_iff_lt_or_eq.mp before with earlier | here
      · have ⟨drawn, same⟩ := moved.respawned k' earlier counts
        refine ⟨drawn, fun j below => ?_⟩
        rw [cells k' j below, if_neg (Nat.ne_of_lt earlier)]
        exact same j below
      · rw [here] at counts
        exact absurd counts empty

theorem lloyd_eq (rng : Rng ρ) (sized : points.length = n * d) (positive : 0 < n)
    (held : centroids.length = K * d) (state : ρ) : ∃ nearest tally next after,
      (lloyd rng points n d centroids).run state = some (next, after) ∧
      assign points centroids n d = some ((List.range n).map nearest) ∧
      (∀ i, i < n → Argmin.First (fun k => distance (row d points i) (row d centroids k)) K
        (nearest i)) ∧
      Tallied points d nearest n tally ∧ Recentred rng points n d tally K next := by
  have ⟨nearest, assigned, first⟩ := assign_eq sized held
  have ⟨result, counted, tallied⟩ := tally_eq sized fun i below => (first i below).lt
  have ⟨next, after, ran, moved⟩ := strides_log_rule
    (fun k centroids (_ : ρ) => Recentred rng points n d result k centroids)
    (recentreOne rng points n d result) K (by decide : 0 < 1)
    (fun k centroids state moved below => recentreOne_eq rng sized positive tallied below moved state)
    state (⟨held, fun k' before => absurd before (Nat.not_lt_zero k'),
      fun k' before => absurd before (Nat.not_lt_zero k')⟩ :
        Recentred rng points n d result 0 centroids)
  refine ⟨nearest, result, next, after, ?_, assigned, first, tallied, moved⟩
  unfold lloyd
  rw [assigned, lift_bind, counted, lift_bind]
  exact ran

def clusterSize (points centroids : List ℚ) (n d k : Nat) : Nat :=
  ((assign points centroids n d).getD []).count k

theorem count_assigned (nearest : Nat → Nat) (n k : Nat) :
    ((List.range n).map nearest).count k = (members nearest n k).card := by
  induction n with
  | zero => rfl
  | succ n ih =>
      rw [List.range_succ, List.map_append, List.count_append, ih, members_succ, List.map_cons,
        List.map_nil, List.count_singleton]
      by_cases here : nearest n = k
      · rw [if_pos (beq_iff_eq.mpr here), if_pos here, Finset.card_insert_of_notMem
          (not_mem_members nearest n k)]
      · rw [if_neg (mt beq_iff_eq.mp here), if_neg here, Nat.add_zero]

/-- As long as no counter wraps, an iteration does not make the error larger. -/
theorem lloyd_error (rng : Rng ρ) (sized : points.length = n * d) (positive : 0 < n)
    (held : centroids.length = K * d) (state : ρ)
    (small : ∀ k, k < K → clusterSize points centroids n d k < 2 ^ 32) : ∃ next after,
      (lloyd rng points n d centroids).run state = some (next, after) ∧ next.length = K * d ∧
        error points next n d ≤ error points centroids n d := by
  have ⟨nearest, tally, next, after, ran, assigned, first, tallied, moved⟩ :=
    lloyd_eq rng sized positive held state
  refine ⟨next, after, ran, moved.length, ?_⟩
  apply Lloyd.sum_nearest_le
  · intro i member
    exact Finset.mem_range.mpr (first i (Finset.mem_range.mp member)).lt
  · intro i member k kMember
    exact (first i (Finset.mem_range.mp member)).least k (Finset.mem_range.mp kMember)
  · intro k member
    have inside := Finset.mem_range.mp member
    change ∑ i ∈ members nearest n k, _ ≤ ∑ i ∈ members nearest n k, _
    rcases (members nearest n k).eq_empty_or_nonempty with empty | occupied
    · rw [empty, Finset.sum_empty, Finset.sum_empty]
    · have size : tally.counts.getD k 0 = (members nearest n k).card := by
        have fits := small k inside
        unfold clusterSize at fits
        rw [assigned, Option.getD_some, count_assigned] at fits
        rw [tallied.count, Nat.mod_eq_of_lt fits]
      have occupiedSize := Finset.card_pos.mpr occupied
      have mean (j : Nat) (below : j < d) : cell d next k j =
          (∑ i ∈ members nearest n k, cell d points i j) / ((members nearest n k).card : ℚ) := by
        rw [moved.mean k inside (by omega) j below, tallied.sum k j below, size]
      have members_lt {i : Nat} (i_mem : i ∈ members nearest n k) : i < n :=
        Finset.mem_range.mp (Finset.mem_filter.mp i_mem).1
      rw [Finset.sum_congr rfl fun i i_mem => distance_rows sized moved.length (members_lt i_mem)
          inside, Finset.sum_congr rfl fun i i_mem => distance_rows sized held (members_lt i_mem)
          inside, Finset.sum_comm, Finset.sum_comm (s := members nearest n k)]
      apply Finset.sum_le_sum
      intro j j_mem
      rw [mean j (Finset.mem_range.mp j_mem)]
      exact Lloyd.sum_sq_mean_le _ (fun i => cell d points i j) _ occupied

/-! ### Whole runs -/

theorem choose_lt {n chosen i : Nat} {target : ℚ} {weights : List ℚ} (fallback : chosen < n)
    (inside : i + weights.length ≤ n) : choose chosen i target weights < n := by
  induction weights generalizing i target with
  | nil => exact fallback
  | cons w weights ih =>
      rw [List.length_cons] at inside
      unfold choose
      split
      · omega
      · exact ih (by omega)

theorem pick_lt (rng : Rng ρ) (positive : 0 < n) {d2 : List ℚ} (length : d2.length = n)
    (state : ρ) : ∃ picked after, (pick rng n d2).run state = some (picked, after) ∧ picked < n := by
  by_cases none : d2.sum ≤ 0
  · refine ⟨(rng.index n state).1, (rng.index n state).2, ?_, rng.index_lt n state positive⟩
    unfold pick
    rw [if_pos none]
    rfl
  · refine ⟨choose (n - 1) 0 (rng.target d2.sum state).1 d2, (rng.target d2.sum state).2, ?_,
      choose_lt (Nat.sub_lt positive (by decide)) (by omega)⟩
    unfold pick
    rw [if_neg none]
    rfl

/-- After `i` seeds there are `i` centroids. -/
def SeededTo (n d i : Nat) (seeded : Seeded) : Prop :=
  seeded.centroids.length = i * d ∧ seeded.d2.length = n

theorem seedOne_eq (rng : Rng ρ) (sized : points.length = n * d) (positive : 0 < n) {i : Nat}
    {seeded : Seeded} (kept : SeededTo n d i seeded) (state : ρ) : ∃ next after,
      (seedOne rng points n d seeded).run state = some (next, after) ∧
        SeededTo n d (i + 1) next := by
  have ⟨picked, after, drawn, below⟩ := pick_lt rng positive kept.2 state
  have ⟨d2, measured, d2Length⟩ : ∃ d2, seeded.d2.zipIdx.mapM (fun pair =>
      closer points d (row d points picked) pair.1 pair.2) = some d2 ∧ d2.length = n := by
    refine ⟨_, mapM_some (fun pair =>
      if distance (row d points pair.2) (row d points picked) < pair.1
        then distance (row d points pair.2) (row d points picked) else pair.1) ?_, ?_⟩
    · intro pair member
      have pairBelow : pair.2 < n := kept.2 ▸ (List.mem_zipIdx' member).1
      unfold closer
      rw [pointRow_eq sized pairBelow, Option.bind_eq_bind, Option.bind_some,
        l2Squared_eq ((row_length sized pairBelow).trans (row_length sized below).symm)]
      rfl
    · rw [List.length_map, List.length_zipIdx, kept.2]
  refine ⟨⟨seeded.centroids ++ row d points picked, d2⟩, after, ?_, ?_, d2Length⟩
  · unfold seedOne
    rw [run_bind drawn, pointRow_eq sized below, lift_bind, measured]
    rfl
  · rw [List.length_append, kept.1, row_length sized below, Nat.succ_mul]

theorem seed_length (rng : Rng ρ) (sized : points.length = n * d) (positive : 0 < n) (state : ρ) :
    ∃ centroids after, (seed rng points n d).run state = some (centroids, after) ∧
      centroids.length = K * d := by
  have below := rng.index_lt n state positive
  have measured : ((List.range n).mapM fun i => do
      l2Squared (← pointRow points d i) (row d points (rng.index n state).1)) =
        some ((List.range n).map fun i =>
          distance (row d points i) (row d points (rng.index n state).1)) := by
    apply mapM_some
    intro i member
    rw [pointRow_eq sized (List.mem_range.mp member), Option.bind_eq_bind, Option.bind_some]
    exact l2Squared_eq ((row_length sized (List.mem_range.mp member)).trans
      (row_length sized below).symm)
  have ⟨last, after, ran, kept⟩ := strides_log_rule
    (fun i seeded (_ : ρ) => SeededTo n d i seeded) (fun seeded _ => seedOne rng points n d seeded)
    K (by decide : 0 < 1) (fun i seeded state kept _ => seedOne_eq rng sized positive kept state)
    (rng.index n state).2 (⟨by rw [row_length sized below, Nat.one_mul],
      by rw [List.length_map, List.length_range]⟩ : SeededTo n d 1
        ⟨row d points (rng.index n state).1, (List.range n).map fun i =>
          distance (row d points i) (row d points (rng.index n state).1)⟩)
  refine ⟨last.centroids, after, ?_, ?_⟩
  · unfold seed
    rw [drawIndex_bind, pointRow_eq sized below, lift_bind, measured, lift_bind, run_bind ran]
    rfl
  · rw [strideEnd_one (by decide)] at kept
    exact kept.1

theorem kmeans_length (rng : Rng ρ) (sized : points.length = n * d) (positive : 0 < n)
    (iters : Nat) (state : ρ) : ∃ centroids after,
      (kmeans rng points n d iters).run state = some (centroids, after) ∧
        centroids.length = K * d := by
  have ⟨seeds, seedState, seeded, length⟩ := seed_length rng sized positive state
  have ⟨last, after, ran, kept⟩ : ∃ last after,
      (strides 1 0 iters (fun centroids _ => lloyd rng points n d centroids) seeds).run seedState =
        some (last, after) ∧ last.length = K * d := by
    apply strides_log_rule (fun _ (centroids : List ℚ) (_ : ρ) => centroids.length = K * d) _ iters
      (by decide) _ seedState length
    intro i centroids state held below
    have ⟨_, _, next, after, ran, _, _, _, moved⟩ := lloyd_eq rng sized positive held state
    exact ⟨next, after, ran, moved.length⟩
  refine ⟨last, after, ?_, kept⟩
  unfold kmeans
  rw [run_bind seeded]
  exact ran

end Iteration

/-! ### Wrapped counters -/

section Wrapped

def crowd (n d : Nat) : List ℚ := List.replicate ((n - 1) * d) 1 ++ List.replicate d 0

def ones (d : Nat) : List ℚ := List.replicate (K * d) 1

def lastDraw : Rng Unit where
  index n state := (n - 1, state)
  index_lt n _ positive := Nat.sub_lt positive (by decide)
  target _ state := (0, state)
  target_mem _ _ positive := ⟨le_refl 0, positive⟩

variable {n d : Nat}

theorem crowd_length (positive : 0 < n) : (crowd n d).length = n * d := by
  unfold crowd
  rw [List.length_append, List.length_replicate, List.length_replicate, ← Nat.succ_mul]
  congr 1
  omega

theorem crowd_cell {i j : Nat} (inside : i < n) (below : j < d) :
    cell d (crowd n d) i j = if i < n - 1 then 1 else 0 := by
  unfold cell crowd
  by_cases early : i < n - 1
  · have place := place_lt early below
    rw [if_pos early, List.getD_append _ _ _ _ (by rwa [List.length_replicate]),
      List.getD_replicate _ place]
  · have last : i = n - 1 := by omega
    rw [if_neg early, last, List.getD_append_right _ _ _ _
      (by rw [List.length_replicate]; omega)]
    exact getD_zeros _ _

theorem ones_length : (ones d).length = K * d := List.length_replicate

theorem ones_cell {k j : Nat} (inside : k < K) (below : j < d) : cell d (ones d) k j = 1 :=
  List.getD_replicate _ (place_lt inside below)

theorem sum_const_range (d : Nat) (value : ℚ) : ∑ _j ∈ Finset.range d, value = d * value := by
  rw [Finset.sum_const, Finset.card_range, nsmul_eq_mul]

theorem crowd_distance (positive : 0 < n) {i k : Nat} (inside : i < n) (kInside : k < K) :
    distance (row d (crowd n d) i) (row d (ones d) k) = if i < n - 1 then 0 else (d : ℚ) := by
  rw [distance_rows (crowd_length positive) ones_length inside kInside]
  rw [Finset.sum_congr rfl fun j member => by
    rw [crowd_cell inside (Finset.mem_range.mp member), ones_cell kInside
      (Finset.mem_range.mp member)]]
  rw [sum_const_range]
  split_ifs <;> ring

theorem error_before (positive : 0 < n) : error (crowd n d) (ones d) n d ≤ d := by
  calc error (crowd n d) (ones d) n d
      ≤ ∑ i ∈ Finset.range n, if i < n - 1 then 0 else (d : ℚ) := by
        apply Finset.sum_le_sum
        intro i member
        rw [← crowd_distance positive (Finset.mem_range.mp member) (by decide : 0 < K)]
        exact Finset.inf'_le _ (Finset.mem_range.mpr (by decide))
    _ = d := by
        have size : n = n - 1 + 1 := by omega
        rw [size, Finset.sum_range_succ, Nat.add_sub_cancel, if_neg (lt_irrefl _),
          Finset.sum_congr rfl fun i member => if_pos (Finset.mem_range.mp member),
          Finset.sum_const_zero, zero_add]

theorem crowd_nearest (positive : 0 < n) {nearest : Nat → Nat} {i : Nat} (inside : i < n)
    (first : Argmin.First (fun k => distance (row d (crowd n d) i) (row d (ones d) k)) K
      (nearest i)) : nearest i = 0 := by
  by_contra later
  have less := first.earliest 0 (by omega)
  rw [crowd_distance positive inside first.lt,
    crowd_distance positive inside (by decide : 0 < K)] at less
  exact lt_irrefl _ less

theorem members_all {nearest : Nat → Nat} (alone : ∀ i, i < n → nearest i = 0) (k : Nat) :
    members nearest n k = if k = 0 then Finset.range n else ∅ := by
  unfold members
  by_cases here : k = 0
  · rw [if_pos here, here]
    exact Finset.filter_true_of_mem fun i member => alone i (Finset.mem_range.mp member)
  · rw [if_neg here]
    apply Finset.filter_eq_empty_iff.mpr
    intro i member
    rw [alone i (Finset.mem_range.mp member)]
    exact Ne.symm here

theorem crowd_sum {j : Nat} (below : j < d) :
    ∑ i ∈ Finset.range n, cell d (crowd n d) i j = ((n - 1 : Nat) : ℚ) := by
  rw [Finset.sum_congr rfl fun i member => crowd_cell (Finset.mem_range.mp member) below]
  rw [Finset.sum_ite, Finset.sum_const_zero, add_zero, Finset.sum_const, nsmul_eq_mul, mul_one]
  congr 1
  have front : (Finset.range n).filter (fun i => i < n - 1) = Finset.range (n - 1) := by
    ext i
    rw [Finset.mem_filter, Finset.mem_range, Finset.mem_range]
    omega
  rw [front, Finset.card_range]

/-- Once there are `2 ^ 32` points, the counter of their cluster has wrapped, and every centroid
ends up far from them. -/
theorem crowd_lost (many : 2 ^ 32 ≤ n) {next : List ℚ} {nearest : Nat → Nat} {tally : Tally}
    (alone : ∀ i, i < n → nearest i = 0) (tallied : Tallied (crowd n d) d nearest n tally)
    (moved : Recentred lastDraw (crowd n d) n d tally K next) {k j : Nat} (inside : k < K)
    (below : j < d) : 1 ≤ (1 - cell d next k j) * (1 - cell d next k j) := by
  by_cases empty : tally.counts.getD k 0 = 0
  · have ⟨state, same⟩ := moved.respawned k inside empty
    rw [same j below]
    change 1 ≤ (1 - cell d (crowd n d) (n - 1) j) * (1 - cell d (crowd n d) (n - 1) j)
    rw [crowd_cell (by omega) below, if_neg (lt_irrefl _), sub_zero, mul_one]
  · have whole : k = 0 := by
      by_contra later
      rw [tallied.count, members_all alone, if_neg later] at empty
      exact empty rfl
    have count : tally.counts.getD k 0 = n % 2 ^ 32 := by
      rw [tallied.count, members_all alone, if_pos whole, Finset.card_range]
    rw [moved.mean k inside empty j below, tallied.sum k j below, members_all alone, if_pos whole,
      crowd_sum below]
    have positive : (0 : ℚ) < (tally.counts.getD k 0 : ℚ) :=
      Nat.cast_pos.mpr (Nat.pos_of_ne_zero empty)
    have double : (2 : ℚ) ≤ ((n - 1 : Nat) : ℚ) / (tally.counts.getD k 0 : ℚ) := by
      rw [le_div_iff₀ positive]
      exact_mod_cast (show 2 * tally.counts.getD k 0 ≤ n - 1 by omega)
    nlinarith

theorem lloyd_worse (many : 2 ^ 32 ≤ n) (wide : 0 < d) : ∃ next after,
    (lloyd lastDraw (crowd n d) n d (ones d)).run () = some (next, after) ∧
      error (crowd n d) (ones d) n d < error (crowd n d) next n d := by
  have positive : 0 < n := by omega
  have ⟨nearest, tally, next, after, ran, _, first, tallied, moved⟩ :=
    lloyd_eq lastDraw (crowd_length positive) positive (ones_length (d := d)) ()
  have alone (i : Nat) (inside : i < n) : nearest i = 0 :=
    crowd_nearest positive inside (first i inside)
  have far (i k : Nat) (early : i < n - 1) (inside : k < K) :
      (d : ℚ) ≤ distance (row d (crowd n d) i) (row d next k) := by
    rw [distance_rows (crowd_length positive) moved.length (by omega) inside]
    calc (d : ℚ) = ∑ _j ∈ Finset.range d, (1 : ℚ) := by rw [sum_const_range, mul_one]
      _ ≤ _ := by
          apply Finset.sum_le_sum
          intro j member
          have below := Finset.mem_range.mp member
          rw [crowd_cell (by omega) below, if_pos early]
          exact crowd_lost many alone tallied moved inside below
  refine ⟨next, after, ran, lt_of_le_of_lt (error_before positive) ?_⟩
  calc (d : ℚ) < ((n - 1 : Nat) : ℚ) * d := by
        have pair : (2 : ℚ) ≤ ((n - 1 : Nat) : ℚ) := by
          exact_mod_cast (show 2 ≤ n - 1 by omega)
        have width : (0 : ℚ) < d := Nat.cast_pos.mpr wide
        nlinarith
    _ = ∑ _i ∈ Finset.range (n - 1), (d : ℚ) := (sum_const_range (n - 1) d).symm
    _ ≤ ∑ i ∈ Finset.range (n - 1), (Finset.range K).inf' ⟨0, by decide⟩ fun k =>
          distance (row d (crowd n d) i) (row d next k) := by
        apply Finset.sum_le_sum
        intro i member
        apply Finset.le_inf'
        intro k inside
        exact far i k (Finset.mem_range.mp member) (Finset.mem_range.mp inside)
    _ ≤ error (crowd n d) next n d := by
        apply Finset.sum_le_sum_of_subset_of_nonneg
        · exact Finset.range_subset_range.mpr (Nat.sub_le n 1)
        · intro i _ _
          apply Finset.le_inf'
          intro k _
          exact distance_nonneg _ _

end Wrapped

def NeverWorse (n d : Nat) : Prop :=
  ∀ (ρ : Type) (rng : Rng ρ) (points centroids : List ℚ) (state : ρ), points.length = n * d →
    centroids.length = 256 * d → ∃ next after,
      (lloyd rng points n d centroids).run state = some (next, after) ∧
        error points next n d ≤ error points centroids n d

theorem not_neverWorse {n d : Nat} (many : 2 ^ 32 ≤ n) (wide : 0 < d) : ¬ NeverWorse n d := by
  intro never
  have ⟨next, after, ran, worse⟩ := lloyd_worse many wide
  have ⟨next', after', ran', better⟩ := never Unit lastDraw (crowd n d) (ones d) ()
    (crowd_length (by omega)) ones_length
  rw [ran] at ran'
  cases ran'
  exact absurd worse (not_lt.mpr better)

theorem neverWorse_wrapped : ¬ NeverWorse (2 ^ 32) 1 :=
  not_neverWorse (le_refl (2 ^ 32)) (by decide)

/-- An iteration never makes the error larger exactly when there are fewer points than a counter
can count; for given points it is enough that no cluster has that many. The number of values
returned is right in any case. -/
theorem lloyd_never_worse (n d : Nat) (positive : 0 < n) (wide : 0 < d) :
    (NeverWorse n d ↔ n < 2 ^ 32) ∧
    (∀ (ρ : Type) (rng : Rng ρ) (points centroids : List ℚ) (state : ρ), points.length = n * d →
      centroids.length = 256 * d → (∀ k, k < 256 → clusterSize points centroids n d k < 2 ^ 32) →
      ∃ next after, (lloyd rng points n d centroids).run state = some (next, after) ∧
        next.length = 256 * d ∧ error points next n d ≤ error points centroids n d) ∧
    ∀ (ρ : Type) (rng : Rng ρ) (points : List ℚ) (iters : Nat) (state : ρ), points.length = n * d →
      ∃ centroids after, (kmeans rng points n d iters).run state = some (centroids, after) ∧
        centroids.length = 256 * d := by
  refine ⟨⟨?_, ?_⟩, ?_, ?_⟩
  · intro never
    by_contra many
    exact not_neverWorse (Nat.le_of_not_lt many) wide never
  · intro few ρ rng points centroids state sized held
    have small (k : Nat) (_ : k < K) : clusterSize points centroids n d k < 2 ^ 32 := by
      have ⟨nearest, assigned, _⟩ := assign_eq sized held
      unfold clusterSize
      rw [assigned, Option.getD_some]
      have most := List.count_le_length (a := k) (l := (List.range n).map nearest)
      rw [List.length_map, List.length_range] at most
      omega
    have ⟨next, after, ran, _, better⟩ := lloyd_error rng sized positive held state small
    exact ⟨next, after, ran, better⟩
  · intro ρ rng points centroids state sized held small
    exact lloyd_error rng sized positive held state small
  · intro ρ rng points iters state sized
    exact kmeans_length rng sized positive iters state

theorem lloyd_never_worse_some :
    (NeverWorse 300 2 ↔ 300 < 2 ^ 32) ∧
    (∀ (ρ : Type) (rng : Rng ρ) (points centroids : List ℚ) (state : ρ), points.length = 300 * 2 →
      centroids.length = 256 * 2 → (∀ k, k < 256 → clusterSize points centroids 300 2 k < 2 ^ 32) →
      ∃ next after, (lloyd rng points 300 2 centroids).run state = some (next, after) ∧
        next.length = 256 * 2 ∧ error points next 300 2 ≤ error points centroids 300 2) ∧
    ∀ (ρ : Type) (rng : Rng ρ) (points : List ℚ) (iters : Nat) (state : ρ),
      points.length = 300 * 2 → ∃ centroids after,
        (kmeans rng points 300 2 iters).run state = some (centroids, after) ∧
          centroids.length = 256 * 2 :=
  lloyd_never_worse 300 2 (by decide) (by decide)

end Kmeans

end Vektordb
