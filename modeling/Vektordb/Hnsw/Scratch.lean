import Vektordb.Basic

/-!
The reusable visited set of graph traversals: one stamp per node and a generation counter
that is bumped by every pass. The stamps of earlier passes stay in place, so the invariant
that no stamp runs ahead of the counter is part of the type.
-/

namespace Vektordb

structure VisitedSet where
  stamps : List Nat
  generation : Nat
  stamps_le : ∀ stamp ∈ stamps, stamp ≤ generation
  generation_lt : generation < 2 ^ 32

namespace VisitedSet

def new : VisitedSet := ⟨[], 0, by simp, by decide⟩

/-- `Vec::resize` with zeros, for a length that does not shrink. -/
def grow (stamps : List Nat) (n : Nat) : List Nat :=
  stamps ++ List.replicate (n - stamps.length) 0

theorem grow_le {stamps : List Nat} {n bound : Nat} (below : ∀ stamp ∈ stamps, stamp ≤ bound) :
    ∀ stamp ∈ grow stamps n, stamp ≤ bound := by
  intro stamp member
  rcases List.mem_append.mp member with old | added
  · exact below stamp old
  · rw [List.eq_of_mem_replicate added]
    exact Nat.zero_le bound

/-- Start a new traversal over a graph of `n` nodes. -/
def beginPass (v : VisitedSet) (n : Nat) : VisitedSet :=
  if wraps : v.generation + 1 = 2 ^ 32 then
    -- `wrapping_add` came round to 0: forget every stamp once.
    ⟨List.replicate (grow v.stamps n).length 0, 1, by
      intro stamp member
      rw [List.eq_of_mem_replicate member]
      decide, by decide⟩
  else
    ⟨grow v.stamps n, v.generation + 1,
      grow_le fun stamp member => Nat.le_succ_of_le (v.stamps_le stamp member), by
        have bound := v.generation_lt
        omega⟩

/-- The stamps, grown on demand so that `id` has one. -/
def roomFor (stamps : List Nat) (id : Nat) : List Nat :=
  if stamps.length ≤ id then grow stamps (id + 1) else stamps

theorem roomFor_le {stamps : List Nat} {id bound : Nat}
    (below : ∀ stamp ∈ stamps, stamp ≤ bound) : ∀ stamp ∈ roomFor stamps id, stamp ≤ bound := by
  unfold roomFor
  split
  · exact grow_le below
  · exact below

theorem lt_length_roomFor (stamps : List Nat) (id : Nat) : id < (roomFor stamps id).length := by
  unfold roomFor grow
  split
  · rw [List.length_append, List.length_replicate]
    omega
  · omega

/-- Mark `id`; the flag tells whether it was already marked in this pass. -/
def mark (v : VisitedSet) (id : Nat) : Bool × VisitedSet :=
  if (roomFor v.stamps id)[id]? = some v.generation then
    (true, ⟨roomFor v.stamps id, v.generation, roomFor_le v.stamps_le, v.generation_lt⟩)
  else
    (false, ⟨(roomFor v.stamps id).set id v.generation, v.generation, by
      intro stamp member
      rcases List.mem_or_eq_of_mem_set member with old | new
      · exact roomFor_le v.stamps_le stamp old
      · exact new.le, v.generation_lt⟩)

/-! ### The set that the stamps stand for -/

def marked (v : VisitedSet) (id : Nat) : Prop := v.stamps[id]? = some v.generation

instance (v : VisitedSet) (id : Nat) : Decidable (v.marked id) :=
  inferInstanceAs (Decidable (_ = _))

def Active (v : VisitedSet) : Prop := 0 < v.generation

theorem getElem?_grow (stamps : List Nat) (n id : Nat) :
    (grow stamps n)[id]? = if id < stamps.length then stamps[id]?
      else if id < n then some 0 else none := by
  unfold grow
  by_cases old : id < stamps.length
  · rw [if_pos old, List.getElem?_append_left old]
  · rw [if_neg old, List.getElem?_append_right (by omega), List.getElem?_replicate]
    by_cases added : id < n
    · rw [if_pos added, if_pos (by omega)]
    · rw [if_neg added, if_neg (by omega)]

theorem beginPass_active (v : VisitedSet) (n : Nat) : (v.beginPass n).Active := by
  unfold beginPass Active
  split
  · exact Nat.one_pos
  · exact Nat.succ_pos v.generation

theorem beginPass_marked (v : VisitedSet) (n id : Nat) : ¬ (v.beginPass n).marked id := by
  unfold beginPass marked
  split
  · simp only [List.getElem?_replicate]
    split <;> simp
  · intro stamped
    have bound : v.generation + 1 ≤ v.generation :=
      grow_le v.stamps_le _ (List.mem_of_getElem? stamped)
    omega

theorem getElem?_roomFor {v : VisitedSet} (active : v.Active) (id other : Nat) :
    (roomFor v.stamps id)[other]? = some v.generation ↔ v.marked other := by
  have zero : (0 : Nat) ≠ v.generation := active.ne
  unfold roomFor marked
  split
  · rw [getElem?_grow]
    split
    · exact Iff.rfl
    · rename_i outside
      rw [List.getElem?_eq_none (l := v.stamps) (by omega)]
      split <;> simp [zero]
  · exact Iff.rfl

theorem mark_active {v : VisitedSet} (active : v.Active) (id : Nat) : (v.mark id).2.Active := by
  unfold mark
  split <;> exact active

theorem mark_fst {v : VisitedSet} (active : v.Active) (id : Nat) :
    (v.mark id).1 = decide (v.marked id) := by
  unfold mark
  split
  · rename_i already
    exact (decide_eq_true ((getElem?_roomFor active id id).mp already)).symm
  · rename_i fresh
    exact (decide_eq_false fun marked => fresh ((getElem?_roomFor active id id).mpr marked)).symm

theorem mark_marked {v : VisitedSet} (active : v.Active) (id other : Nat) :
    (v.mark id).2.marked other ↔ other = id ∨ v.marked other := by
  have grown := getElem?_roomFor active id
  by_cases same : other = id
  · subst same
    simp only [true_or, iff_true]
    unfold mark marked
    split
    · assumption
    · exact List.getElem?_set_self (lt_length_roomFor v.stamps other)
  · simp only [same, false_or]
    rw [← grown other]
    unfold mark marked
    split
    · exact Iff.rfl
    · exact iff_of_eq (congrArg (· = _) (List.getElem?_set_ne (Ne.symm same)))

/-- Two visited sets that the rest of a pass cannot tell apart. -/
structure Same (v w : VisitedSet) : Prop where
  left : v.Active
  right : w.Active
  marks : ∀ id, v.marked id ↔ w.marked id

theorem Same.beginPass (v w : VisitedSet) (n : Nat) : Same (v.beginPass n) (w.beginPass n) :=
  ⟨beginPass_active v n, beginPass_active w n, fun id =>
    iff_of_false (beginPass_marked v n id) (beginPass_marked w n id)⟩

theorem Same.mark {v w : VisitedSet} (same : Same v w) (id : Nat) :
    (v.mark id).1 = (w.mark id).1 ∧ Same (v.mark id).2 (w.mark id).2 := by
  refine ⟨?_, mark_active same.left id, mark_active same.right id, fun other => ?_⟩
  · rw [mark_fst same.left, mark_fst same.right]
    exact decide_eq_decide.mpr (same.marks id)
  · rw [mark_marked same.left, mark_marked same.right, same.marks other]

end VisitedSet

end Vektordb
