import Mathlib

/-!
The `k` smallest elements of a list, in order. They are kept when elements beyond them are left
out, so they can be collected part by part, in any order of the elements and of the parts.
-/

namespace Smallest

variable {α : Type} [LinearOrder α]

def smallest (k : Nat) (items : List α) : List α := (items.insertionSort (· ≤ ·)).take k

/-- The `k` least of a bounded list and one more item, worked out on the sorted list itself. -/
theorem take_orderedInsert_take (item : α) (sorted : List α) (k : Nat) :
    ((sorted.take k).orderedInsert (· ≤ ·) item).take k =
      (sorted.orderedInsert (· ≤ ·) item).take k := by
  induction sorted generalizing k with
  | nil => rw [List.take_nil]
  | cons head tail ih =>
      cases k with
      | zero => rfl
      | succ k =>
          rw [List.take_succ_cons]
          by_cases le : item ≤ head
          · rw [List.orderedInsert_cons_of_le _ _ le, List.orderedInsert_cons_of_le _ _ le,
              List.take_succ_cons, List.take_succ_cons]
            cases k with
            | zero => rfl
            | succ k => rw [List.take_succ_cons, List.take_succ_cons, List.take_take, Nat.min_eq_left
                (Nat.le_succ k)]
          · rw [List.orderedInsert_of_not_le _ _ le, List.orderedInsert_of_not_le _ _ le,
              List.take_succ_cons, List.take_succ_cons, ih k]

theorem smallest_cons (k : Nat) (item : α) (items : List α) :
    smallest k (item :: items) = ((smallest k items).orderedInsert (· ≤ ·) item).take k :=
  (take_orderedInsert_take item _ k).symm

theorem sorted_smallest (k : Nat) (items : List α) : (smallest k items).Pairwise (· ≤ ·) :=
  (List.pairwise_insertionSort (· ≤ ·) items).sublist (List.take_sublist k _)

theorem length_smallest (k : Nat) (items : List α) :
    (smallest k items).length = min k items.length := by
  unfold smallest
  rw [List.length_take, List.length_insertionSort]

theorem smallest_perm (k : Nat) {items others : List α} (perm : items.Perm others) :
    smallest k items = smallest k others := by
  have sorted : items.insertionSort (· ≤ ·) = others.insertionSort (· ≤ ·) := by
    apply List.Perm.eq_of_pairwise' (r := (· ≤ ·))
    · exact List.pairwise_insertionSort _ items
    · exact List.pairwise_insertionSort _ others
    · exact (List.perm_insertionSort _ items).trans
        (perm.trans (List.perm_insertionSort _ others).symm)
  unfold smallest
  rw [sorted]

theorem smallest_sorted {k : Nat} {items : List α} (sorted : items.Pairwise (· ≤ ·))
    (short : items.length ≤ k) : smallest k items = items := by
  unfold smallest
  rw [List.Pairwise.insertionSort_eq sorted, List.take_of_length_le short]

theorem take_smallest (j k : Nat) (items : List α) :
    (smallest k items).take j = smallest (min j k) items := List.take_take

theorem smallest_append (k : Nat) (items part : List α) :
    smallest k (items ++ smallest k part) = smallest k (items ++ part) := by
  induction items with
  | nil =>
      apply smallest_sorted (sorted_smallest k part)
      rw [length_smallest]
      exact Nat.min_le_left k _
  | cons item items ih =>
      rw [List.cons_append, List.cons_append, smallest_cons, smallest_cons, ih]

/-! ### Up to ties -/

variable {κ : Type} [LinearOrder κ]

/-- `k` of the items are kept in order, and by `key` none of the others is smaller. -/
structure Retains (k : Nat) (key : α → κ) (items kept : List α) : Prop where
  sorted : kept.Pairwise (· ≤ ·)
  length : kept.length = min k items.length
  others : ∃ left, (kept ++ left).Perm items ∧ ∀ a ∈ kept, ∀ b ∈ left, key a ≤ key b

namespace Retains

variable {k : Nat} {key : α → κ} {items kept : List α} {item : α}

theorem single (positive : 1 ≤ k) (key : α → κ) (item : α) : Retains k key [item] [item] where
  sorted := List.pairwise_singleton _ item
  length := (Nat.min_eq_right positive).symm
  others := ⟨[], List.Perm.refl _, nofun⟩

theorem subset (retains : Retains k key items kept) {a : α} (member : a ∈ kept) : a ∈ items := by
  have ⟨left, parts, _⟩ := retains.others
  exact parts.subset (List.mem_append_left left member)

theorem perm (retains : Retains k key items kept) (room : items.length ≤ k) : kept.Perm items := by
  have ⟨left, parts, _⟩ := retains.others
  have none : left = [] := by
    apply List.eq_nil_of_length_eq_zero
    have count := parts.length_eq
    have length := retains.length
    rw [List.length_append] at count
    omega
  rwa [none, List.append_nil] at parts

theorem insert (retains : Retains k key items kept) (item : α) (room : kept.length < k) :
    Retains k key (item :: items) (kept.orderedInsert (· ≤ ·) item) where
  sorted := retains.sorted.orderedInsert item kept
  length := by
    have length := retains.length
    rw [List.orderedInsert_length, List.length_cons]
    omega
  others := by
    have length := retains.length
    have whole := retains.perm (by omega)
    refine ⟨[], ?_, nofun⟩
    rw [List.append_nil]
    exact (List.perm_orderedInsert _ item kept).trans (whole.cons item)

theorem replace {worst : α} (retains : Retains k key items (kept ++ [worst])) (monotone : Monotone key)
    (full : k ≤ (kept ++ [worst]).length) (closer : key item ≤ key worst) :
    Retains k key (item :: items) (kept.orderedInsert (· ≤ ·) item) where
  sorted := (retains.sorted.sublist (List.sublist_append_left kept [worst])).orderedInsert item kept
  length := by
    have length := retains.length
    rw [List.length_append, List.length_singleton] at length full
    rw [List.orderedInsert_length, List.length_cons]
    omega
  others := by
    have ⟨left, parts, bound⟩ := retains.others
    refine ⟨worst :: left, ?_, ?_⟩
    · apply ((List.perm_orderedInsert _ item kept).append_right (worst :: left)).trans
      rw [List.cons_append]
      rw [List.append_assoc] at parts
      exact parts.cons item
    · have last : worst ∈ kept ++ [worst] := List.mem_append_right kept (List.mem_singleton_self worst)
      intro a member b other
      have below : key a ≤ key worst := by
        rcases (List.mem_orderedInsert _).mp member with same | old
        · rw [same]
          exact closer
        · exact monotone ((List.pairwise_append.mp retains.sorted).2.2 a old worst
            (List.mem_singleton_self worst))
      rcases List.mem_cons.mp other with same | old
      · rw [same]
        exact below
      · exact below.trans (bound worst last b old)

theorem skip (retains : Retains k key items kept) (full : k ≤ kept.length)
    (far : ∀ a ∈ kept, key a ≤ key item) : Retains k key (item :: items) kept where
  sorted := retains.sorted
  length := by
    have length := retains.length
    rw [List.length_cons]
    omega
  others := by
    have ⟨left, parts, bound⟩ := retains.others
    refine ⟨item :: left, List.perm_middle.trans (parts.cons item), ?_⟩
    intro a member b other
    rcases List.mem_cons.mp other with same | old
    · rw [same]
      exact far a member
    · exact bound a member b old

theorem leftOut (retains : Retains k key items kept) {a b : α} (member : a ∈ kept) (offered : b ∈ items)
    (out : b ∉ kept) : key a ≤ key b := by
  have ⟨left, parts, bound⟩ := retains.others
  exact bound a member b ((List.mem_append.mp (parts.symm.subset offered)).resolve_left out)

theorem keys (retains : Retains k key items kept) (monotone : Monotone key) :
    kept.map key = smallest k (items.map key) := by
  have ⟨left, parts, bound⟩ := retains.others
  have sorted : (kept.map key).Pairwise (· ≤ ·) :=
    List.pairwise_map.mpr (retains.sorted.imp fun le => monotone le)
  have rest := List.pairwise_insertionSort (· ≤ ·) (left.map key)
  have whole : (kept.map key ++ (left.map key).insertionSort (· ≤ ·)).Pairwise (· ≤ ·) := by
    apply List.pairwise_append.mpr
    refine ⟨sorted, rest, ?_⟩
    intro x member y other
    have ⟨a, kept_, sameA⟩ := List.mem_map.mp member
    have ⟨b, left_, sameB⟩ := List.mem_map.mp ((List.mem_insertionSort _).mp other)
    rw [← sameA, ← sameB]
    exact bound a kept_ b left_
  have perm : (items.map key).Perm (kept.map key ++ (left.map key).insertionSort (· ≤ ·)) := by
    apply (parts.map key).symm.trans
    rw [List.map_append]
    exact (List.perm_insertionSort _ _).symm.append_left _
  have length := retains.length
  have count := parts.length_eq
  rw [List.length_append] at count
  rw [smallest_perm k perm]
  unfold smallest
  rw [List.Pairwise.insertionSort_eq whole]
  rcases Nat.le_total k items.length with full | short
  · rw [List.take_left' (by rw [List.length_map]; omega)]
  · have none : left = [] := List.eq_nil_of_length_eq_zero (by omega)
    rw [none, List.map_nil, List.insertionSort_nil, List.append_nil, List.take_of_length_le
      (by rw [List.length_map]; omega)]

end Retains

end Smallest
