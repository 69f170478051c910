import Mathlib.Data.List.Basic

/-!
Windows of a list: the elements from one position on, up to a width. What a window shows depends
on the elements inside it only, and a list put together from pieces of one width shows each piece
at its own place.
-/

namespace LittleEndian

variable {α : Type}

/-- `values[start..start + width]` -/
def window (values : List α) (start width : Nat) : List α := (values.drop start).take width

theorem window_getElem? (values : List α) (start width x : Nat) :
    (window values start width)[x]? = if x < width then values[start + x]? else none := by
  unfold window
  rw [List.getElem?_take, List.getElem?_drop]

theorem window_congr {values others : List α} {start width : Nat}
    (same : ∀ x, start ≤ x → x < start + width → values[x]? = others[x]?) :
    window values start width = window others start width := by
  apply List.ext_getElem?
  intro x
  rw [window_getElem?, window_getElem?]
  by_cases inside : x < width
  · rw [if_pos inside, if_pos inside]
    exact same _ (Nat.le_add_right start x) (Nat.add_lt_add_left inside start)
  · rw [if_neg inside, if_neg inside]

/-- A list put together from windows of one width is known by them. -/
theorem eq_of_windows {values others : List α} {width n : Nat} (length : values.length = n * width)
    (length' : others.length = n * width)
    (same : ∀ k < n, window values (k * width) width = window others (k * width) width) :
    values = others := by
  apply List.ext_getElem?
  intro x
  by_cases inside : x < n * width
  · have positive : 0 < width := Nat.pos_of_mul_pos_left (Nat.zero_lt_of_lt inside)
    have here := congrArg (fun list => list[x % width]?)
      (same (x / width) (Nat.div_lt_of_lt_mul (by rwa [Nat.mul_comm])))
    rwa [window_getElem?, window_getElem?, if_pos (Nat.mod_lt x positive),
      if_pos (Nat.mod_lt x positive), Nat.mul_comm, Nat.div_add_mod] at here
  · rw [List.getElem?_eq_none (by omega), List.getElem?_eq_none (by omega)]

theorem flatMap_length {width n : Nat} {piece : Nat → List α}
    (widths : ∀ k, (piece k).length = width) : ((List.range n).flatMap piece).length = n * width := by
  induction n with
  | zero => rw [Nat.zero_mul]; rfl
  | succ n ih =>
      rw [List.range_succ, List.flatMap_append, List.length_append, ih, List.flatMap_singleton,
        widths, Nat.succ_mul]

theorem window_flatMap {width n k : Nat} {piece : Nat → List α}
    (widths : ∀ k, (piece k).length = width) (below : k < n) :
    window ((List.range n).flatMap piece) (k * width) width = piece k := by
  induction n with
  | zero => cases below
  | succ n ih =>
      have length := flatMap_length (n := n) widths
      rw [List.range_succ, List.flatMap_append, List.flatMap_singleton]
      unfold window at ih ⊢
      rcases Nat.lt_succ_iff_lt_or_eq.mp below with old | rfl
      · have room : k * width + width ≤ n * width := by
          rw [← Nat.succ_mul]
          exact Nat.mul_le_mul_right width old
        rw [List.drop_append_of_le_length (by omega), List.take_append_of_le_length, ih old]
        rw [List.length_drop]
        omega
      · rw [List.drop_left' length]
        exact List.take_of_length_le (Nat.le_of_eq (widths k))

end LittleEndian
