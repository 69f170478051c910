import Vektordb.Numeric.Checked

/-!
Rows of `d` numbers that lie one after the other in a flat list, and writes to them that stay
inside.
-/

namespace Grid

open Checked

variable {α : Type}

/-- `cells[at] = value` -/
def write (cells : List α) (position : Nat) (value : α) : Option (List α) :=
  if position < cells.length then some (cells.set position value) else none

/-- `cells[start..][..row.len()].copy_from_slice(row)` -/
def copyInto (cells : List α) (start : Nat) (row : List α) : Option (List α) :=
  if start + row.length ≤ cells.length then
    some (cells.take start ++ (row ++ cells.drop (start + row.length)))
  else none

theorem place_inj {d k j k' j' : Nat} (below : j < d) (below' : j' < d) :
    k * d + j = k' * d + j' ↔ k = k' ∧ j = j' := by
  constructor
  · intro same
    have rows : k = k' := by
      have left : (k * d + j) / d = k := by
        rw [Nat.mul_comm, Nat.mul_add_div (by omega), Nat.div_eq_of_lt below, Nat.add_zero]
      have right : (k' * d + j') / d = k' := by
        rw [Nat.mul_comm, Nat.mul_add_div (by omega), Nat.div_eq_of_lt below', Nat.add_zero]
      rw [← left, ← right, same]
    exact ⟨rows, by rw [rows] at same; omega⟩
  · rintro ⟨rfl, rfl⟩
    rfl

theorem place_lt {d rows k j : Nat} (inside : k < rows) (below : j < d) : k * d + j < rows * d := by
  calc k * d + j < k * d + d := by omega
    _ = (k + 1) * d := (Nat.succ_mul k d).symm
    _ ≤ rows * d := Nat.mul_le_mul_right d inside

theorem row_le {d rows k : Nat} (inside : k < rows) : k * d + d ≤ rows * d := by
  calc k * d + d = (k + 1) * d := (Nat.succ_mul k d).symm
    _ ≤ rows * d := Nat.mul_le_mul_right d inside

variable [Zero α]

theorem getD_zeros (count position : Nat) : (List.replicate count (0 : α)).getD position 0 = 0 := by
  rw [List.getD_eq_getElem?_getD, List.getElem?_replicate]
  split <;> rfl

def cell (d : Nat) (cells : List α) (k j : Nat) : α := cells.getD (k * d + j) 0

def row (d : Nat) (cells : List α) (k : Nat) : List α := (cells.drop (k * d)).take d

theorem getD_row {d : Nat} (cells : List α) (k : Nat) {j : Nat} (below : j < d) :
    (row d cells k).getD j 0 = cell d cells k j := by
  unfold row cell
  rw [List.getD_eq_getElem?_getD, List.getD_eq_getElem?_getD, List.getElem?_take_of_lt below,
    List.getElem?_drop]

theorem get_cell {d rows : Nat} {cells : List α} (sized : cells.length = rows * d) {k j : Nat}
    (inside : k < rows) (below : j < d) : cells[k * d + j]? = some (cell d cells k j) := by
  have within : k * d + j < cells.length := sized ▸ place_lt inside below
  unfold cell
  rw [List.getElem?_eq_getElem within, List.getD_eq_getElem cells 0 within]

theorem write_getD {cells : List α} {position : Nat} (inside : position < cells.length) (value : α) :
    ∃ after, write cells position value = some after ∧ after.length = cells.length ∧
      ∀ other, after.getD other 0 = if other = position then value else cells.getD other 0 := by
  refine ⟨_, if_pos inside, List.length_set, ?_⟩
  intro other
  rw [List.getD_eq_getElem?_getD, List.getElem?_set, List.getD_eq_getElem?_getD]
  by_cases here : other = position
  · rw [here, if_pos rfl, if_pos inside, if_pos rfl]
    rfl
  · rw [if_neg (Ne.symm here), if_neg here]

theorem write_cell {d rows : Nat} {cells : List α} (sized : cells.length = rows * d) {k j : Nat}
    (inside : k < rows) (below : j < d) (value : α) :
    ∃ after, write cells (k * d + j) value = some after ∧ after.length = rows * d ∧
      ∀ k' j', j' < d → cell d after k' j' = if k' = k ∧ j' = j then value else cell d cells k' j' := by
  have ⟨after, wrote, length, entries⟩ := write_getD (sized ▸ place_lt inside below) value
  refine ⟨after, wrote, length.trans sized, ?_⟩
  intro k' j' below'
  unfold cell
  rw [entries]
  by_cases here : k' = k ∧ j' = j
  · rw [if_pos here, if_pos ((place_inj below' below).mpr here)]
  · rw [if_neg here, if_neg fun same => here ((place_inj below' below).mp same)]

theorem fill_row {d rows : Nat} {cells : List α} (sized : cells.length = rows * d) {k : Nat}
    (inside : k < rows) (body : List α → Nat → Option (List α)) (value : Nat → α)
    (writes : ∀ state j, j < d → state.length = rows * d → cell d state k j = cell d cells k j →
      body state j = write state (k * d + j) (value j)) :
    ∃ after, strides 1 0 d body cells = some after ∧ after.length = rows * d ∧
      ∀ k' j', j' < d → cell d after k' j' = if k' = k then value j' else cell d cells k' j' := by
  have ⟨after, ran, length, filled⟩ := strides_rule
    (fun j state => state.length = rows * d ∧ ∀ k' j', j' < d →
      cell d state k' j' = if k' = k ∧ j' < j then value j' else cell d cells k' j')
    body d (by decide : 0 < 1) (by
      intro j state kept below
      have untouched : cell d state k j = cell d cells k j := by
        rw [kept.2 k j below, if_neg fun both => lt_irrefl j both.2]
      have ⟨next, wrote, length, entries⟩ := write_cell kept.1 inside below (value j)
      refine ⟨next, (writes state j below kept.1 untouched).trans wrote, length, ?_⟩
      intro k' j' below'
      rw [entries k' j' below', kept.2 k' j' below']
      by_cases same : k' = k
      · rcases Nat.lt_trichotomy j' j with before | here | later
        · rw [if_neg fun both => absurd both.2 (Nat.ne_of_lt before), if_pos ⟨same, before⟩,
            if_pos ⟨same, Nat.lt_succ_of_lt before⟩]
        · rw [if_pos ⟨same, here⟩, if_pos ⟨same, here ▸ Nat.lt_succ_self j'⟩, here]
        · rw [if_neg fun both => absurd both.2 (Nat.ne_of_gt later),
            if_neg fun both => absurd both.2 (Nat.not_lt_of_lt later),
            if_neg fun both => absurd both.2 (Nat.not_lt.mpr later)]
      · rw [if_neg fun both => same both.1, if_neg fun both => same both.1,
          if_neg fun both => same both.1])
    (⟨sized, fun k' j' _ => (if_neg fun both => Nat.not_lt_zero j' both.2).symm⟩ :
      cells.length = rows * d ∧ ∀ k' j', j' < d →
        cell d cells k' j' = if k' = k ∧ j' < 0 then value j' else cell d cells k' j')
  refine ⟨after, ran, length, ?_⟩
  intro k' j' below'
  rw [filled k' j' below', strideEnd_one (Nat.zero_le d)]
  by_cases same : k' = k
  · rw [if_pos ⟨same, below'⟩, if_pos same]
  · rw [if_neg fun both => same both.1, if_neg same]

theorem copyInto_cell {d rows : Nat} {cells : List α} (sized : cells.length = rows * d) {k : Nat}
    (inside : k < rows) {line : List α} (length : line.length = d) :
    ∃ after, copyInto cells (k * d) line = some after ∧ after.length = rows * d ∧
      ∀ k' j', j' < d →
        cell d after k' j' = if k' = k then line.getD j' 0 else cell d cells k' j' := by
  have fits : k * d + line.length ≤ cells.length := by
    rw [length, sized]
    exact row_le inside
  refine ⟨_, if_pos fits, ?_, ?_⟩
  · rw [List.length_append, List.length_append, List.length_take, List.length_drop]
    omega
  · intro k' j' below'
    have front : (cells.take (k * d)).length = k * d := by
      rw [List.length_take]
      omega
    unfold cell
    rw [List.getD_eq_getElem?_getD, List.getD_eq_getElem?_getD, List.getD_eq_getElem?_getD]
    rcases Nat.lt_trichotomy k' k with before | here | after
    · have early := place_lt before below'
      rw [List.getElem?_append_left (by omega), List.getElem?_take_of_lt early,
        if_neg (Nat.ne_of_lt before)]
    · rw [here, if_pos rfl, List.getElem?_append_right (by omega), front, Nat.add_sub_cancel_left,
        List.getElem?_append_left (by omega)]
    · have late : k * d + d ≤ k' * d := row_le after
      rw [if_neg (Nat.ne_of_gt after), List.getElem?_append_right (by omega), front,
        List.getElem?_append_right (by omega), List.getElem?_drop]
      congr 2
      omega

end Grid
