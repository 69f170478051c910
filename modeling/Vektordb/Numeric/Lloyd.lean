import Mathlib

/-!
One step of Lloyd's algorithm: points are assigned to their nearest centers, and a center moves to
the mean of its points. A center without points may move anywhere.
-/

namespace Lloyd

variable {ι κ δ α : Type} [Field α] [LinearOrder α] [IsStrictOrderedRing α]

/-- The mean is the least squares center of one coordinate. -/
theorem sum_sq_mean_le (cluster : Finset ι) (x : ι → α) (c : α) (occupied : cluster.Nonempty) :
    ∑ i ∈ cluster, (x i - (∑ i ∈ cluster, x i) / cluster.card) *
        (x i - (∑ i ∈ cluster, x i) / cluster.card) ≤
      ∑ i ∈ cluster, (x i - c) * (x i - c) := by
  have size : (cluster.card : α) ≠ 0 := Nat.cast_ne_zero.mpr (Finset.card_pos.mpr occupied).ne'
  generalize known : (∑ i ∈ cluster, x i) / (cluster.card : α) = mean
  have centered : ∑ i ∈ cluster, (x i - mean) = 0 := by
    rw [Finset.sum_sub_distrib, Finset.sum_const, nsmul_eq_mul, ← known, mul_div_cancel₀ _ size,
      sub_self]
  have split : ∑ i ∈ cluster, (x i - c) * (x i - c) =
      ∑ i ∈ cluster, (x i - mean) * (x i - mean) + cluster.card * ((mean - c) * (mean - c)) := by
    calc ∑ i ∈ cluster, (x i - c) * (x i - c)
        = ∑ i ∈ cluster, ((x i - mean) * (x i - mean) + 2 * (mean - c) * (x i - mean) +
            (mean - c) * (mean - c)) := Finset.sum_congr rfl fun i _ => by ring
      _ = ∑ i ∈ cluster, (x i - mean) * (x i - mean) +
            2 * (mean - c) * ∑ i ∈ cluster, (x i - mean) +
            cluster.card * ((mean - c) * (mean - c)) := by
          rw [Finset.sum_add_distrib, Finset.sum_add_distrib, ← Finset.mul_sum, Finset.sum_const,
            nsmul_eq_mul]
      _ = _ := by rw [centered, mul_zero, add_zero]
  rw [split]
  exact le_add_of_nonneg_right (mul_nonneg (Nat.cast_nonneg _) (mul_self_nonneg _))

variable [DecidableEq κ]

/-- When no occupied cluster gets worse, neither does the sum of the distances to the nearest
centers. -/
theorem sum_nearest_le {points : Finset ι} {centers : Finset κ} (occupied : centers.Nonempty)
    {before after : ι → κ → α} {assign : ι → κ} (assigned : ∀ i ∈ points, assign i ∈ centers)
    (nearest : ∀ i ∈ points, ∀ k ∈ centers, before i (assign i) ≤ before i k)
    (better : ∀ k ∈ centers, ∑ i ∈ points with assign i = k, after i k ≤
      ∑ i ∈ points with assign i = k, before i k) :
    ∑ i ∈ points, centers.inf' occupied (after i) ≤ ∑ i ∈ points, centers.inf' occupied (before i) := by
  have regroup (value : ι → κ → α) : ∑ i ∈ points, value i (assign i) =
      ∑ k ∈ centers, ∑ i ∈ points with assign i = k, value i k := by
    rw [← Finset.sum_fiberwise_of_maps_to assigned]
    apply Finset.sum_congr rfl
    intro k _
    apply Finset.sum_congr rfl
    intro i member
    rw [(Finset.mem_filter.mp member).2]
  calc ∑ i ∈ points, centers.inf' occupied (after i)
      ≤ ∑ i ∈ points, after i (assign i) :=
        Finset.sum_le_sum fun i member => Finset.inf'_le _ (assigned i member)
    _ = ∑ k ∈ centers, ∑ i ∈ points with assign i = k, after i k := regroup after
    _ ≤ ∑ k ∈ centers, ∑ i ∈ points with assign i = k, before i k := Finset.sum_le_sum better
    _ = ∑ i ∈ points, before i (assign i) := (regroup before).symm
    _ ≤ ∑ i ∈ points, centers.inf' occupied (before i) :=
        Finset.sum_le_sum fun i member => Finset.le_inf' _ _ (nearest i member)

end Lloyd
