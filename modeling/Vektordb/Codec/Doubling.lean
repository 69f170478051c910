import Mathlib

/-!
Doubling segments: segment `k` holds `base * 2 ^ k` cells, so that the cells of all segments
before it number `base * (2 ^ k - 1)`. Every index lies in exactly one cell of one segment.
-/

namespace Doubling

def start (base segment : Nat) : Nat := base * (2 ^ segment - 1)

def size (base segment : Nat) : Nat := base * 2 ^ segment

/-- The segment of an index and the position within it. -/
def locate (base index : Nat) : Nat × Nat :=
  let segment := (index / base + 1).log2
  (segment, index - start base segment)

theorem start_succ (base segment : Nat) :
    start base (segment + 1) = start base segment + size base segment := by
  have positive : 0 < 2 ^ segment := Nat.two_pow_pos segment
  unfold start size
  rw [← Nat.mul_add, Nat.pow_succ]
  congr 1
  omega

theorem start_mono {base left right : Nat} (le : left ≤ right) :
    start base left ≤ start base right :=
  Nat.mul_le_mul_left base (Nat.sub_le_sub_right (Nat.pow_le_pow_right (by decide) le) 1)

theorem start_le_index (base index : Nat) :
    start base (locate base index).1 ≤ index := by
  have quotient : 2 ^ (index / base + 1).log2 ≤ index / base + 1 :=
    Nat.log2_self_le (Nat.succ_ne_zero _)
  calc start base (locate base index).1 ≤ base * (index / base) :=
        Nat.mul_le_mul_left base (Nat.sub_le_of_le_add quotient)
    _ ≤ index := Nat.mul_div_le index base

theorem index_lt_next {base : Nat} (positive : 0 < base) (index : Nat) :
    index < start base ((locate base index).1 + 1) := by
  have quotient : index / base + 1 < 2 ^ ((index / base + 1).log2 + 1) := Nat.lt_log2_self
  have above : base * (index / base + 1) ≤ start base ((locate base index).1 + 1) :=
    Nat.mul_le_mul_left base (Nat.le_sub_one_of_lt quotient)
  exact Nat.lt_of_lt_of_le (Nat.lt_mul_div_succ index positive) above

theorem start_add (base index : Nat) :
    start base (locate base index).1 + (locate base index).2 = index := by
  have below := start_le_index base index
  simp only [locate] at below ⊢
  omega

theorem position_lt {base : Nat} (positive : 0 < base) (index : Nat) :
    (locate base index).2 < size base (locate base index).1 := by
  have above := index_lt_next positive index
  rw [start_succ] at above
  have whole := start_add base index
  omega

theorem locate_injective (base : Nat) : Function.Injective (locate base) := by
  intro left right same
  rw [← start_add base left, ← start_add base right, same]

/-- The indexes of the first `count` segments are those below the start of the next one. -/
theorem segment_lt_iff {base : Nat} (positive : 0 < base) (index count : Nat) :
    (locate base index).1 < count ↔ index < start base count := by
  constructor
  · intro below
    exact Nat.lt_of_lt_of_le (index_lt_next positive index) (start_mono below)
  · intro below
    by_contra outside
    have reached : start base count ≤ start base (locate base index).1 :=
      start_mono (Nat.le_of_not_lt outside)
    have le := start_le_index base index
    omega

theorem segment_mono {base left right : Nat} (positive : 0 < base) (le : left ≤ right) :
    (locate base left).1 ≤ (locate base right).1 := by
  have above := (segment_lt_iff positive right ((locate base right).1 + 1)).mp (Nat.lt_succ_self _)
  have below := (segment_lt_iff positive left ((locate base right).1 + 1)).mpr (by omega)
  omega

theorem segment_succ_le {base : Nat} (positive : 0 < base) (index : Nat) :
    (locate base (index + 1)).1 ≤ (locate base index).1 + 1 := by
  have below := index_lt_next positive index
  have size : 0 < size base ((locate base index).1 + 1) := Nat.mul_pos positive (Nat.two_pow_pos _)
  have next := start_succ base ((locate base index).1 + 1)
  have reached : index + 1 < start base ((locate base index).1 + 1 + 1) := by
    rw [next]
    omega
  exact Nat.le_of_lt_succ ((segment_lt_iff positive (index + 1) _).mpr reached)

theorem locate_start_add {base segment position : Nat} (below : position < size base segment) :
    locate base (start base segment + position) = (segment, position) := by
  have positive : 0 < base := by
    rcases Nat.eq_zero_or_pos base with rfl | positive
    · simp only [size, Nat.zero_mul, Nat.not_lt_zero] at below
    · exact positive
  have power : 0 < 2 ^ segment := Nat.two_pow_pos segment
  have quotient : (start base segment + position) / base + 1 = 2 ^ segment + position / base := by
    unfold start
    rw [Nat.mul_add_div positive]
    omega
  have small : position / base < 2 ^ segment := Nat.div_lt_of_lt_mul below
  have log : ((start base segment + position) / base + 1).log2 = segment := by
    rw [quotient]
    generalize position / base = rest at small
    rw [Nat.log2_eq_iff (Nat.ne_of_gt (Nat.add_pos_left power rest)), Nat.pow_succ]
    omega
  unfold locate
  simp only [log, Nat.add_sub_cancel_left]

end Doubling
