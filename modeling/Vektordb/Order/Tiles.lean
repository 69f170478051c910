import Mathlib.Data.List.Range
import Mathlib.Data.List.Nodup

/-!
Blocks that cover a stretch of the numbers without overlapping. Put in the order of their first
numbers, they are the stretch itself, one block after the other.
-/

namespace Tiling

variable {ι α : Type} {base : ι → Nat} {block : ι → List α} {value : Nat → α} {blocks : List ι}
  {start stop : Nat}

def Inside (first : Nat) (block : List α) (x : Nat) : Prop := first ≤ x ∧ x < first + block.length

/-- Each number from `start` to `stop` is in one of the blocks, with its value, and in no other. -/
structure Tiles (base : ι → Nat) (block : ι → List α) (value : Nat → α) (blocks : List ι)
    (start stop : Nat) : Prop where
  covered : ∀ x, start ≤ x → x < stop → ∃ i ∈ blocks, Inside (base i) (block i) x
  within : ∀ i ∈ blocks, ∀ x, Inside (base i) (block i) x →
    start ≤ x ∧ x < stop ∧ (block i)[x - base i]? = some (value x)
  apart : ∀ i ∈ blocks, ∀ j ∈ blocks, ∀ x, Inside (base i) (block i) x →
    Inside (base j) (block j) x → i = j

theorem Tiles.first (tiles : Tiles base block value blocks start stop) {i : ι} (member : i ∈ blocks)
    (inside : Inside (base i) (block i) start) : base i = start := by
  have low := inside.1
  have high := inside.2
  have begins := (tiles.within i member (base i) ⟨le_rfl, by omega⟩).1
  omega

theorem Tiles.values (tiles : Tiles base block value blocks start stop) {i : ι} (member : i ∈ blocks) :
    (List.range' (base i) (block i).length).map value = block i := by
  apply List.ext_getElem?
  intro k
  rw [List.getElem?_map]
  by_cases inside : k < (block i).length
  · obtain ⟨-, -, at_⟩ := tiles.within i member (base i + k) ⟨by omega, by omega⟩
    rw [Nat.add_sub_cancel_left] at at_
    rw [List.getElem?_range' inside, at_, Nat.one_mul]
    rfl
  · rw [List.getElem?_eq_none (by rw [List.length_range']; omega), List.getElem?_eq_none (by omega)]
    rfl

theorem Tiles.rest [DecidableEq ι] (tiles : Tiles base block value blocks start stop)
    (distinct : blocks.Nodup) {i : ι} (member : i ∈ blocks)
    (inside : Inside (base i) (block i) start) :
    Tiles base block value (blocks.erase i) (start + (block i).length) stop := by
  have begins := tiles.first member inside
  constructor
  case covered =>
      intro x low high
      obtain ⟨j, among, there⟩ := tiles.covered x (by omega) high
      refine ⟨j, (distinct.mem_erase_iff).mpr ⟨?_, among⟩, there⟩
      rintro rfl
      have top := there.2
      omega
  case within =>
      intro j among x there
      obtain ⟨different, among⟩ := distinct.mem_erase_iff.mp among
      obtain ⟨low, high, at_⟩ := tiles.within j among x there
      refine ⟨?_, high, at_⟩
      by_contra below
      have here : Inside (base i) (block i) x := ⟨by omega, by omega⟩
      exact different (tiles.apart j among i member x there here)
  case apart =>
      intro j among k other
      exact tiles.apart j (List.mem_of_mem_erase among) k (List.mem_of_mem_erase other)

/-- The blocks in order make up the stretch, each at its place. -/
theorem Tiles.serial [DecidableEq ι] (tiles : Tiles base block value blocks start stop)
    (distinct : blocks.Nodup) :
    ∃ order : List ι, order.Perm blocks ∧
      (List.range' start (stop - start)).map value = order.flatMap block ∧
      ∀ front i rest, order = front ++ i :: rest → block i ≠ [] →
        base i = start + (front.flatMap block).length := by
  obtain ⟨n, length⟩ : ∃ n, n = blocks.length := ⟨_, rfl⟩
  induction n generalizing blocks start with
  | zero =>
      obtain rfl := List.eq_nil_of_length_eq_zero length.symm
      have empty : stop ≤ start := by
        by_contra some
        obtain ⟨i, among, -⟩ := tiles.covered start le_rfl (Nat.lt_of_not_le some)
        cases among
      refine ⟨[], List.Perm.refl _, ?_, ?_⟩
      · rw [Nat.sub_eq_zero_of_le empty]
        rfl
      · intro front i rest parts
        cases front <;> cases parts
  | succ n ih =>
      by_cases empty : stop ≤ start
      · have none : ∀ i ∈ blocks, block i = [] := by
          intro i member
          by_contra some
          have long := List.length_pos_of_ne_nil some
          obtain ⟨low, high, -⟩ := tiles.within i member (base i) ⟨le_rfl, by omega⟩
          omega
        refine ⟨blocks, List.Perm.refl _, ?_, ?_⟩
        · rw [Nat.sub_eq_zero_of_le empty]
          exact (List.flatMap_eq_nil_iff.mpr none).symm
        · intro front i rest parts some
          exact absurd (none i (parts ▸ List.mem_append_right _ (List.mem_cons_self ..))) some
      · obtain ⟨i, member, inside⟩ := tiles.covered start le_rfl (Nat.lt_of_not_le empty)
        have begins := tiles.first member inside
        have fits : start + (block i).length ≤ stop := by
          have high := inside.2
          obtain ⟨-, last, -⟩ := tiles.within i member (start + (block i).length - 1)
            ⟨by omega, by omega⟩
          omega
        have shorter : n = (blocks.erase i).length := by
          rw [List.length_erase_of_mem member]
          omega
        obtain ⟨order, perm, whole, placed⟩ := ih (tiles.rest distinct member inside)
          (distinct.erase i) shorter
        refine ⟨i :: order, ?_, ?_, ?_⟩
        · exact (perm.cons i).trans (List.perm_cons_erase member).symm
        · have split : stop - start = (block i).length + (stop - (start + (block i).length)) := by
            omega
          rw [split, ← List.range'_append_1, List.map_append, whole, ← begins, tiles.values member]
          rfl
        · intro front j rest parts some
          cases front with
          | nil =>
              cases parts
              exact begins
          | cons head tail =>
              cases parts
              rw [placed tail j rest rfl some, List.flatMap_cons, List.length_append]
              omega

end Tiling
