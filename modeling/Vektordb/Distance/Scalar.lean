import Mathlib

/-!
The portable distance kernels, over any components. `none` is the assertion on the lengths.
-/

namespace Vektordb

namespace Scalar

variable {α : Type}

/-- The loop over both vectors in step. -/
def accumulate {σ : Type} (step : σ → α → α → σ) (init : σ) (a b : List α) : σ :=
  (a.zip b).foldl (fun acc pair => step acc pair.1 pair.2) init

def asserted {β : Type} (a b : List α) (value : β) : Option β :=
  if a.length = b.length then some value else none

section Kernels

variable [Zero α] [One α] [Add α] [Sub α] [Mul α] [Div α] [DecidableEq α]

def l2Squared (a b : List α) : Option α :=
  asserted a b (accumulate (fun acc x y =>
    let d := x - y
    acc + d * d) 0 a b)

def dot (a b : List α) : Option α :=
  asserted a b (accumulate (fun acc x y => acc + x * y) 0 a b)

/-- The sums `ab`, `aa` and `bb` of `cosine`. -/
def cosineSums (a b : List α) : Option (α × α × α) :=
  asserted a b (accumulate (fun (ab, aa, bb) x y => (ab + x * y, aa + x * x, bb + y * y))
    (0, 0, 0) a b)

/-- `1 - cos(a, b)` from the three sums; without a norm the distance is 1. -/
def cosineOf (sqrt : α → α) (sums : α × α × α) : α :=
  let denom := sqrt (sums.2.1 * sums.2.2)
  if denom = 0 then 1 else 1 - sums.1 / denom

def cosine (sqrt : α → α) (a b : List α) : Option α := (cosineSums a b).map (cosineOf sqrt)

end Kernels

/-! ### The sums -/

theorem asserted_same {β : Type} {a b : List α} (same : a.length = b.length) (value : β) :
    asserted a b value = some value := if_pos same

def total {β : Type} [AddCommMonoid β] (term : α → α → β) (a b : List α) : β :=
  ((a.zip b).map fun pair => term pair.1 pair.2).sum

section Total

variable {β : Type} [AddCommMonoid β] (term : α → α → β)

theorem accumulate_add (init : β) (a b : List α) :
    accumulate (fun acc x y => acc + term x y) init a b = init + total term a b := by
  unfold accumulate total
  induction a.zip b generalizing init with
  | nil => rw [List.foldl_nil, List.map_nil, List.sum_nil, add_zero]
  | cons pair pairs ih => rw [List.foldl_cons, ih, List.map_cons, List.sum_cons, add_assoc]

theorem total_append {a b c d : List α} (same : a.length = b.length) :
    total term (a ++ c) (b ++ d) = total term a b + total term c d := by
  unfold total
  rw [List.zip_append same, List.map_append, List.sum_append]

theorem total_eq_sum {a b : List α} (same : a.length = b.length) (default : α) :
    total term a b =
      ∑ i ∈ Finset.range a.length, term (a.getD i default) (b.getD i default) := by
  induction a generalizing b with
  | nil => rfl
  | cons x a ih =>
      cases b with
      | nil => cases same
      | cons y b =>
          have tails := ih (Nat.succ.inj same)
          rw [List.length_cons, Finset.sum_range_succ']
          simp only [List.getD_cons_zero, List.getD_cons_succ]
          rw [← tails, add_comm]
          rfl

end Total

section Ring

variable [CommRing α] {a b : List α}

def distance (a b : List α) : α := total (fun x y => (x - y) * (x - y)) a b

theorem distance_cons (x y : α) (a b : List α) :
    distance (x :: a) (y :: b) = (x - y) * (x - y) + distance a b := List.sum_cons

theorem distance_self (a : List α) : distance a a = 0 := by
  induction a with
  | nil => rfl
  | cons x a ih => rw [distance_cons, ih, sub_self, mul_zero, add_zero]

theorem l2Squared_eq (same : a.length = b.length) : l2Squared a b = some (distance a b) := by
  unfold l2Squared distance
  rw [asserted_same same, accumulate_add, zero_add]

theorem dot_eq (same : a.length = b.length) : dot a b = some (total (fun x y => x * y) a b) := by
  unfold dot
  rw [asserted_same same, accumulate_add, zero_add]

theorem cosineSums_eq (same : a.length = b.length) :
    cosineSums a b = some (total (fun x y => (x * y, x * x, y * y)) a b) := by
  have added := accumulate_add (fun x y : α => (x * y, x * x, y * y)) (0, 0, 0) a b
  unfold cosineSums
  rw [asserted_same same]
  refine congrArg some (Eq.trans ?_ (added.trans (zero_add _)))
  rfl

end Ring

section Ordered

variable [Field α] [LinearOrder α] [IsStrictOrderedRing α]

theorem distance_nonneg (a b : List α) : 0 ≤ distance a b := by
  apply List.sum_nonneg
  intro term member
  have ⟨pair, _, equal⟩ := List.mem_map.mp member
  rw [← equal]
  exact mul_self_nonneg _

theorem eq_of_distance {a b : List α} (same : a.length = b.length) (zero : distance a b = 0) :
    a = b := by
  induction a generalizing b with
  | nil => exact (List.length_eq_zero_iff.mp same.symm).symm
  | cons x a ih =>
      cases b with
      | nil => cases same
      | cons y b =>
          rw [distance_cons] at zero
          have ⟨head, tail⟩ := (add_eq_zero_iff_of_nonneg (mul_self_nonneg (x - y))
            (distance_nonneg a b)).mp zero
          rw [sub_eq_zero.mp (mul_self_eq_zero.mp head), ih (Nat.succ.inj same) tail]

end Ordered

end Scalar

end Vektordb
