import Vektordb.Db.History

/-!
The sample that product quantization is trained on: every `step`-th row of the store. The stride is
a quotient that is rounded down, so there are always enough rows, and too many of them unless the
cap divides the length of the store.
-/

namespace Vektordb

open Interaction LittleEndian

namespace Db

theorem stepBy_nodup (n step : Nat) : (stepBy n step).Nodup := List.nodup_range.filter _

theorem stepBy_succ (n step : Nat) :
    (stepBy (n + 1) step).length = (stepBy n step).length + if n % step = 0 then 1 else 0 := by
  unfold stepBy
  rw [List.range_succ, List.filter_append, List.length_append]
  congr 1
  by_cases whole : n % step = 0
  · simp only [List.filter_cons, whole, decide_true, if_true, List.filter_nil, List.length_singleton]
  · simp only [List.filter_cons, whole, decide_false, Bool.false_eq_true, if_false, List.filter_nil,
      List.length_nil]

theorem stepBy_length {step : Nat} (positive : 0 < step) (n : Nat) :
    n ≤ (stepBy n step).length * step ∧ (stepBy n step).length * step < n + step := by
  induction n with
  | zero =>
      change 0 ≤ 0 * step ∧ 0 * step < 0 + step
      omega
  | succ n ih =>
      obtain ⟨low, high⟩ := ih
      rw [stepBy_succ]
      generalize (stepBy n step).length = count at low high ⊢
      by_cases whole : n % step = 0
      · obtain ⟨quotient, rfl⟩ := Nat.dvd_of_mod_eq_zero whole
        rw [Nat.mul_comm step] at low high ⊢
        have least : quotient ≤ count := Nat.le_of_mul_le_mul_right low positive
        have most : count < quotient + 1 := by
          apply Nat.lt_of_mul_lt_mul_right (a := step)
          rw [Nat.add_mul, Nat.one_mul]
          exact high
        obtain rfl : quotient = count := by omega
        rw [if_pos (Nat.mul_mod_left quotient step), Nat.add_mul, Nat.one_mul]
        omega
      · simp only [if_neg whole, Nat.add_zero]
        have strict : n ≠ count * step := by
          intro same
          rw [same, Nat.mul_mod_left] at whole
          exact whole rfl
        omega

section Cap

variable {n maxSamples : Nat}

theorem sampleIds_least (cap : 0 < maxSamples) :
    min n maxSamples ≤ (sampleIds n maxSamples).length := by
  have positive : 0 < max (n / max maxSamples 1) 1 := Nat.one_pos.trans_le (Nat.le_max_right _ _)
  obtain ⟨least, -⟩ := stepBy_length positive n
  change n ≤ (sampleIds n maxSamples).length * _ at least
  generalize (sampleIds n maxSamples).length = count at least ⊢
  rw [Nat.max_eq_left (Nat.succ_le_of_lt cap)] at least
  by_cases short : n < maxSamples
  · rw [Nat.div_eq_of_lt short, Nat.max_eq_right (Nat.zero_le 1), Nat.mul_one] at least
    omega
  · have quotient : 1 ≤ n / maxSamples := Nat.div_pos (Nat.le_of_not_lt short) cap
    rw [Nat.max_eq_left quotient] at least
    have within : maxSamples * (n / maxSamples) ≤ n := Nat.mul_div_le n maxSamples
    have counted : maxSamples ≤ count :=
      Nat.le_of_mul_le_mul_right (within.trans least) quotient
    omega

/-- The cap is kept exactly if the store is not longer than it or a multiple of it. -/
theorem sampleIds_most (cap : 0 < maxSamples) :
    (sampleIds n maxSamples).length ≤ maxSamples ↔ n ≤ maxSamples ∨ maxSamples ∣ n := by
  have positive : 0 < max (n / max maxSamples 1) 1 := Nat.one_pos.trans_le (Nat.le_max_right _ _)
  obtain ⟨least, most⟩ := stepBy_length positive n
  change n ≤ (sampleIds n maxSamples).length * _ at least
  change (sampleIds n maxSamples).length * _ < _ at most
  generalize (sampleIds n maxSamples).length = count at least most ⊢
  rw [Nat.max_eq_left (Nat.succ_le_of_lt cap)] at least most
  by_cases short : n < maxSamples
  · rw [Nat.div_eq_of_lt short, Nat.max_eq_right (Nat.zero_le 1), Nat.mul_one] at most
    exact iff_of_true (by omega) (.inl short.le)
  · have quotient : 1 ≤ n / maxSamples := Nat.div_pos (Nat.le_of_not_lt short) cap
    rw [Nat.max_eq_left quotient] at least most
    have within : maxSamples * (n / maxSamples) ≤ n := Nat.mul_div_le n maxSamples
    constructor
    case mp =>
        intro kept
        right
        have covered : count * (n / maxSamples) ≤ maxSamples * (n / maxSamples) :=
          Nat.mul_le_mul_right _ kept
        exact ⟨n / maxSamples, by omega⟩
    case mpr =>
        intro bounded
        have whole : n = maxSamples * (n / maxSamples) := by
          rcases bounded with equal | divides
          · obtain rfl : n = maxSamples := by omega
            rw [Nat.div_self cap, Nat.mul_one]
          · exact (Nat.mul_div_cancel' divides).symm
        have fewer : count < maxSamples + 1 := by
          apply Nat.lt_of_mul_lt_mul_right (a := n / maxSamples)
          rw [Nat.add_mul, Nat.one_mul]
          omega
        omega

end Cap

/-! ### The samples -/

variable {env : Env} {w : World}

theorem row_length (w : World) (id : Nat) : (w.row id).length = w.store.dim :=
  Row.ofLeBytes_length _ _

theorem gather_run (env : Env) (agent : Nat) (w : World) (ids : List Nat) (samples : Row) :
    (gather ids samples).run (handle env) agent w = .done w (samples ++ ids.flatMap w.row) := by
  induction ids generalizing samples with
  | nil =>
      rw [List.flatMap_nil, List.append_nil]
      rfl
  | cons id rest ih =>
      rw [List.flatMap_cons, ← List.append_assoc]
      exact ih (samples ++ w.row id)

theorem flatMap_row_length (w : World) (ids : List Nat) :
    (ids.flatMap w.row).length = ids.length * w.store.dim := by
  induction ids with
  | nil => rw [List.flatMap_nil, List.length_nil, List.length_nil, Nat.zero_mul]
  | cons id rest ih =>
      rw [List.flatMap_cons, List.length_append, List.length_cons, row_length, ih,
        Nat.add_mul, Nat.one_mul, Nat.add_comm]

def tooFew (got : Nat) : Error :=
  .invalidArgument ("need at least 256 training vectors, got " ++ toString got)

theorem tooFew_ne_divisor (got dim : Nat) :
    tooFew got ≠ .invalidArgument ("PQ m must be a non-zero divisor of dimension " ++ toString dim) := by
  intro same
  injection same with same
  have heads := congrArg (fun text => text.toList.head?) same
  simp [String.toList_append] at heads

theorem train_flat (arith : Pq.Arithmetic) (samples : Row) (m iters : Nat) (seeds : Nat → Nat)
    (got : Nat) : ProductQuantizer.train arith samples 0 m iters seeds ≠ .error (tooFew got) := by
  unfold ProductQuantizer.train
  rw [dif_pos (.inl rfl)]
  intro same
  injection same with same
  exact tooFew_ne_divisor got 0 same.symm

theorem train_accepts (arith : Pq.Arithmetic) {samples : Row} {dim : Nat}
    (enough : Pq.K ≤ samples.length / dim) (m iters : Nat) (seeds : Nat → Nat) (got : Nat) :
    ProductQuantizer.train arith samples dim m iters seeds ≠ .error (tooFew got) := by
  unfold ProductQuantizer.train
  split
  · intro same
    injection same with same
    exact tooFew_ne_divisor got dim same.symm
  · split
    · intro same
      injection same with same
      injection same with same
      have heads := congrArg (fun text => text.toList.head?) same
      simp [String.toList_append] at heads
    · dsimp only
      rw [if_neg (Nat.not_lt.mpr enough)]
      nofun

/-- What `train_pq` is to take from a store. -/
structure WellSampled (env : Env) (w : World) (maxSamples : Nat) : Prop where
  distinct : (sampleIds w.store.count maxSamples).Nodup
  least : Pq.K ≤ (sampleIds w.store.count maxSamples).length
  accepted : ∀ agent, ∃ samples,
    (gather (sampleIds w.store.count maxSamples) []).run (handle env) agent w = .done w samples ∧
      samples.length = (sampleIds w.store.count maxSamples).length * w.store.dim ∧
      ∀ m iters seeds got,
        ProductQuantizer.train env.pq samples w.store.dim m iters seeds ≠ .error (tooFew got)
  most : (sampleIds w.store.count maxSamples).length ≤ maxSamples

theorem gather_accepted {ids : List Nat} (enough : Pq.K ≤ ids.length) (agent : Nat) :
    ∃ samples, (gather ids []).run (handle env) agent w = .done w samples ∧
      samples.length = ids.length * w.store.dim ∧ ∀ m iters seeds got,
        ProductQuantizer.train env.pq samples w.store.dim m iters seeds ≠ .error (tooFew got) := by
  have length := flatMap_row_length w ids
  refine ⟨ids.flatMap w.row, gather_run env agent w ids [], length, ?_⟩
  intro m iters seeds got
  by_cases flat : w.store.dim = 0
  · rw [flat]
    exact train_flat env.pq _ m iters seeds got
  · apply train_accepts
    rw [length, Nat.mul_div_cancel _ (Nat.pos_of_ne_zero flat)]
    exact enough

/-- The sample has distinct rows, and never too few of them; it exceeds the cap unless the store is
not longer than that, or a multiple of it. -/
theorem wellSampled_iff (env : Env) (w : World) {maxSamples : Nat} (stored : Pq.K ≤ w.store.count)
    (cap : Pq.K ≤ maxSamples) :
    WellSampled env w maxSamples ↔ w.store.count ≤ maxSamples ∨ maxSamples ∣ w.store.count := by
  have positive : 0 < maxSamples := (by decide : 0 < Pq.K).trans_le cap
  rw [← sampleIds_most positive]
  have least : Pq.K ≤ (sampleIds w.store.count maxSamples).length :=
    (Nat.le_min_of_le_of_le stored cap).trans (sampleIds_least positive)
  constructor
  case mp => exact WellSampled.most
  case mpr =>
      intro most
      exact ⟨stepBy_nodup _ _, least, gather_accepted least, most⟩

def plainRows (n : Nat) : World :=
  { World.start ⟨some plainFile, none, none, none⟩ with store := ⟨1, 64, n, 1⟩ }

theorem wellSampled_iff_double :
    WellSampled plain (plainRows 512) 256 ↔ 512 ≤ 256 ∨ 256 ∣ 512 :=
  wellSampled_iff plain (plainRows 512) (by decide) (by decide)

/-- All 511 rows are taken, where the cap is 256. -/
theorem sample_exceeds_cap :
    (sampleIds 511 256).length = 511 ∧ ¬ WellSampled plain (plainRows 511) 256 := by
  have all : (sampleIds 511 256).length = 511 := by decide +kernel
  refine ⟨all, ?_⟩
  intro sampled
  have most : (sampleIds 511 256).length ≤ 256 := sampled.most
  omega

end Db

end Vektordb
