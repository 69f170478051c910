import Mathlib

/-!
The scan for the first least value: a candidate replaces the best so far when it is strictly
less, and the best starts as a value that everything is below.
-/

namespace Argmin

variable {β : Type}

def scan (less : β → β → Bool) (top : β) (value : Nat → β) (count : Nat) : Nat × β :=
  (List.range count).foldl
    (fun best k => if less (value k) best.2 then (k, value k) else best) (0, top)

theorem scan_succ (less : β → β → Bool) (top : β) (value : Nat → β) (count : Nat) :
    scan less top value (count + 1) =
      if less (value count) (scan less top value count).2 then (count, value count)
      else scan less top value count := by
  unfold scan
  rw [List.range_succ, List.foldl_append]
  rfl

variable [LinearOrder β]

/-- `best` is the first index below `count` with the least value. -/
structure First (value : Nat → β) (count best : Nat) : Prop where
  lt : best < count
  least : ∀ k, k < count → value best ≤ value k
  earliest : ∀ k, k < best → value best < value k

theorem scan_first {top : β} {value : Nat → β} {count : Nat} (positive : 0 < count)
    (bounded : ∀ k, k < count → value k < top) :
    First value count (scan (fun x y => decide (x < y)) top value count).1 ∧
      (scan (fun x y => decide (x < y)) top value count).2 =
        value (scan (fun x y => decide (x < y)) top value count).1 := by
  induction count with
  | zero => exact absurd positive (lt_irrefl 0)
  | succ count ih =>
      rw [scan_succ]
      rcases Nat.eq_zero_or_pos count with empty | more
      · subst empty
        have started : scan (fun x y => decide (x < y)) top value 0 = (0, top) := rfl
        rw [started, if_pos (decide_eq_true (bounded 0 positive))]
        refine ⟨⟨positive, ?_, ?_⟩, rfl⟩
        · intro k below
          rw [Nat.lt_one_iff.mp below]
        · intro k below
          exact absurd below (Nat.not_lt_zero k)
      · have ⟨first, known⟩ := ih more fun k below => bounded k (Nat.lt_succ_of_lt below)
        rw [known]
        by_cases less : value count < value (scan (fun x y => decide (x < y)) top value count).1
        · rw [if_pos (decide_eq_true less)]
          have smaller (k : Nat) (below : k < count) : value count < value k :=
            lt_of_lt_of_le less (first.least k below)
          refine ⟨⟨Nat.lt_succ_self count, ?_, smaller⟩, rfl⟩
          intro k below
          rcases Nat.lt_succ_iff_lt_or_eq.mp below with before | here
          · exact le_of_lt (smaller k before)
          · rw [here]
        · rw [if_neg (by rwa [decide_eq_true_eq])]
          refine ⟨⟨Nat.lt_succ_of_lt first.lt, ?_, first.earliest⟩, known⟩
          intro k below
          rcases Nat.lt_succ_iff_lt_or_eq.mp below with before | here
          · exact first.least k before
          · rw [here]
            exact not_lt.mp less

end Argmin
