import Vektordb.Hnsw.Lists

/-!
Neighbour selection: a first part in which no candidate is closer to an earlier one than to the
base point, and after it the closest of the candidates that were rejected.
-/

namespace Vektordb

namespace Selection

def Dominates (d : Distances) (s cand : Neighbor) : Prop :=
  (d cand.id s.id).lt cand.distance = true

/-- What the loop holds after the candidates `examined`. -/
structure Chosen (d : Distances) (examined selected pruned : List Neighbor) : Prop where
  sublist : selected.Sublist examined
  head : selected.head? = examined.head?
  apart : selected.Pairwise fun earlier later => ¬ Dominates d earlier later
  rest : pruned = examined.filter fun n => decide (n ∉ selected)
  rejected : ∀ before cand after, examined = before ++ cand :: after → cand ∉ selected →
    ∃ s ∈ selected, s ∈ before ∧ Dominates d s cand

theorem Chosen.empty (d : Distances) : Chosen d [] [] [] where
  sublist := List.Sublist.refl []
  head := rfl
  apart := List.Pairwise.nil
  rest := rfl
  rejected before cand after split := absurd split.symm (by simp)

theorem split_concat {examined before after : List Neighbor} {last cand : Neighbor}
    (split : examined ++ [last] = before ++ cand :: after) :
    (before = examined ∧ cand = last) ∨ ∃ front, examined = before ++ cand :: front := by
  rcases List.eq_nil_or_concat after with empty | ⟨front, end_, whole⟩
  · rw [empty] at split
    have ⟨same, lasts⟩ := List.append_inj' split rfl
    exact .inl ⟨same.symm, (List.cons.inj lasts).1.symm⟩
  · rw [whole, List.concat_eq_append, ← List.cons_append, ← List.append_assoc] at split
    exact .inr ⟨front, (List.append_inj' split rfl).1⟩

theorem Chosen.prune {d : Distances} {examined selected pruned : List Neighbor} {cand s : Neighbor}
    (chosen : Chosen d examined selected pruned) (fresh : cand ∉ examined) (kept : s ∈ selected)
    (dominates : Dominates d s cand) :
    Chosen d (examined ++ [cand]) selected (pruned ++ [cand]) where
  sublist := chosen.sublist.trans (List.sublist_append_left examined [cand])
  head := by
    cases examined with
    | nil => exact absurd (chosen.sublist.subset kept) (List.not_mem_nil)
    | cons first examined => exact chosen.head
  apart := chosen.apart
  rest := by
    have out : cand ∉ selected := fun member => fresh (chosen.sublist.subset member)
    rw [List.filter_append, ← chosen.rest, List.filter_singleton, decide_eq_true out, cond_true]
  rejected before other after split out := by
    rcases split_concat split with ⟨whole, here⟩ | ⟨front, earlier⟩
    · rw [here, whole]
      exact ⟨s, kept, chosen.sublist.subset kept, dominates⟩
    · exact chosen.rejected before other front earlier out

theorem Chosen.select {d : Distances} {examined selected pruned : List Neighbor} {cand : Neighbor}
    (chosen : Chosen d examined selected pruned) (fresh : cand ∉ examined)
    (clear : ∀ s ∈ selected, ¬ Dominates d s cand) :
    Chosen d (examined ++ [cand]) (selected ++ [cand]) pruned where
  sublist := chosen.sublist.append (List.Sublist.refl [cand])
  head := by
    have heads := chosen.head
    cases selected with
    | nil =>
        cases examined with
        | nil => rfl
        | cons first examined => cases heads
    | cons first selected =>
        cases examined with
        | nil => cases heads
        | cons other examined => exact heads
  apart := by
    rw [List.pairwise_append]
    refine ⟨chosen.apart, List.pairwise_singleton _ _, ?_⟩
    intro s member other single
    rw [List.mem_singleton.mp single]
    exact clear s member
  rest := by
    have own : cand ∈ selected ++ [cand] := List.mem_append_right _ (List.mem_singleton_self cand)
    rw [List.filter_append, List.filter_singleton, decide_eq_false (not_not.mpr own), cond_false,
      List.append_nil, chosen.rest]
    apply List.filter_congr
    intro n member
    have other : n ≠ cand := fun same => fresh (same ▸ member)
    rw [decide_eq_decide, List.mem_append, List.mem_singleton, or_iff_left other]
  rejected before other after split out := by
    rcases split_concat split with ⟨whole, here⟩ | ⟨front, earlier⟩
    · exact absurd (List.mem_append_right selected (here ▸ List.mem_singleton_self other)) out
    · have ⟨s, member, placed, dominates⟩ := chosen.rejected before other front earlier
        fun member => out (List.mem_append_left _ member)
      exact ⟨s, List.mem_append_left _ member, placed, dominates⟩

theorem Chosen.length {d : Distances} {examined selected pruned : List Neighbor}
    (chosen : Chosen d examined selected pruned) (distinct : examined.Nodup) :
    selected.length + pruned.length = examined.length := by
  have same : selected.Perm (examined.filter fun n => decide (n ∈ selected)) := by
    apply (List.perm_ext_iff_of_nodup (distinct.sublist chosen.sublist) (distinct.filter _)).mpr
    intro n
    rw [List.mem_filter, decide_eq_true_iff]
    exact ⟨fun member => ⟨chosen.sublist.subset member, member⟩, And.right⟩
  have others : (examined.filter fun n => decide (n ∉ selected)) =
      examined.filter fun n => !decide (n ∈ selected) :=
    List.filter_congr fun n _ => decide_not
  rw [chosen.rest, others, same.length_eq]
  exact (List.length_eq_length_filter_add _).symm

/-- The loop ends with all candidates examined, or with as many selected as were asked for. -/
theorem selectLoop_chosen (d : Distances) (m : Nat) (candidates : List Neighbor)
    {examined selected pruned : List Neighbor} (distinct : (examined ++ candidates).Nodup)
    (chosen : Chosen d examined selected pruned) (bounded : selected.length ≤ m) :
    ∃ front left, examined ++ candidates = front ++ left ∧
      Chosen d front (selectLoop d m candidates selected pruned).1
        (selectLoop d m candidates selected pruned).2 ∧
      (selectLoop d m candidates selected pruned).1.length ≤ m ∧
      (left = [] ∨ (selectLoop d m candidates selected pruned).1.length = m) := by
  induction candidates generalizing examined selected pruned with
  | nil => exact ⟨examined, [], rfl, chosen, bounded, .inl rfl⟩
  | cons cand rest ih =>
      have fresh : cand ∉ examined := by
        intro member
        exact (List.nodup_append.mp distinct).2.2 cand member cand List.mem_cons_self rfl
      rw [← List.singleton_append, ← List.append_assoc] at distinct
      unfold selectLoop
      by_cases full : m ≤ selected.length
      · rw [if_pos full]
        exact ⟨examined, cand :: rest, rfl, chosen, bounded, .inr (Nat.le_antisymm bounded full)⟩
      · rw [if_neg full]
        by_cases dominated : (selected.any fun s => (d cand.id s.id).lt cand.distance) = true
        · obtain ⟨s, kept, dominates⟩ := List.any_eq_true.mp dominated
          obtain ⟨front, left, split, ended, short, done⟩ :=
            ih distinct (chosen.prune fresh kept dominates) bounded
          rw [if_pos dominated]
          exact ⟨front, left, by rw [← split, List.append_assoc]; rfl, ended, short, done⟩
        · have clear (s : Neighbor) (kept : s ∈ selected) : ¬ Dominates d s cand :=
            fun dominates => dominated (List.any_eq_true.mpr ⟨s, kept, dominates⟩)
          obtain ⟨front, left, split, ended, short, done⟩ :=
            ih distinct (chosen.select fresh clear) (by
              rw [List.length_append, List.length_singleton]
              omega)
          rw [if_neg dominated]
          exact ⟨front, left, by rw [← split, List.append_assoc]; rfl, ended, short, done⟩

/-- What a selection of `m` candidates consists of: a first part, and the closest of the rejected
candidates after it. -/
structure Selects (d : Distances) (candidates : List Neighbor) (m : Nat)
    (first topUp : List Neighbor) : Prop where
  sublist : first.Sublist candidates
  head : first.head? = candidates.head?
  closest : ∀ n ∈ first.head?, ∀ other ∈ candidates, other.distance.lt n.distance = false
  apart : first.Pairwise fun earlier later => ¬ Dominates d earlier later
  toppedUp : topUp = (candidates.filter fun n => decide (n ∉ first)).take (m - first.length)
  ascending : topUp.Pairwise fun near far => far.distance.lt near.distance = false
  nearest : ∀ n ∈ topUp, ∀ other ∈ candidates, other ∉ first → other ∉ topUp →
    other.distance.lt n.distance = false
  rejected : ∀ before cand after, candidates = before ++ cand :: after → cand ∉ first →
    (first.filter fun n => decide (n ∈ before)).length < m →
    ∃ s ∈ first, s ∈ before ∧ Dominates d s cand

theorem lt_self (x : F32) : x.lt x = false := by
  unfold F32.lt
  rw [decide_eq_false (lt_irrefl x.signed), Bool.and_false]

theorem take_nearest {list : List Neighbor} {k : Nat} {n other : Neighbor}
    (sorted : list.Pairwise fun near far => far.distance.lt near.distance = false)
    (taken : n ∈ list.take k) (member : other ∈ list) (left : other ∉ list.take k) :
    other.distance.lt n.distance = false := by
  rw [← List.take_append_drop k list] at sorted member
  have behind : other ∈ list.drop k := (List.mem_append.mp member).resolve_left left
  exact (List.pairwise_append.mp sorted).2.2 n taken other behind

theorem selects {d : Distances} {candidates front left first pruned : List Neighbor} {m : Nat}
    (sorted : candidates.Pairwise fun near far => far.distance.lt near.distance = false)
    (positive : 1 ≤ m) (split : candidates = front ++ left) (chosen : Chosen d front first pruned)
    (done : left = [] ∨ first.length = m) :
    Selects d candidates m first (pruned.take (m - first.length)) := by
  have within : first.Sublist candidates :=
    split ▸ chosen.sublist.trans (List.sublist_append_left front left)
  have heads : first.head? = candidates.head? := by
    rcases done with none | full
    · rw [split, none, List.append_nil]
      exact chosen.head
    · cases front with
      | nil =>
          rw [List.sublist_nil.mp chosen.sublist] at full
          exact absurd full (by simp only [List.length_nil]; omega)
      | cons head front =>
          rw [split]
          exact chosen.head
  have topUp : pruned.take (m - first.length) =
      (candidates.filter fun n => decide (n ∉ first)).take (m - first.length) := by
    rcases done with none | full
    · rw [split, none, List.append_nil, chosen.rest]
    · rw [full, Nat.sub_self, List.take_zero, List.take_zero]
  have rest : (candidates.filter fun n => decide (n ∉ first)).Pairwise
      fun near far => far.distance.lt near.distance = false :=
    sorted.sublist List.filter_sublist
  constructor
  · exact within
  · exact heads
  · intro n holds other member
    rw [heads] at holds
    cases candidates with
    | nil => cases member
    | cons head candidates =>
        cases holds
        rcases List.mem_cons.mp member with same | later
        · rw [same]
          exact lt_self n.distance
        · exact (List.pairwise_cons.mp sorted).1 other later
  · exact chosen.apart
  · exact topUp
  · rw [topUp]
    exact rest.sublist (List.take_sublist _ _)
  · intro n taken other member out leftOut
    rw [topUp] at taken leftOut
    exact take_nearest rest taken (List.mem_filter.mpr ⟨member, decide_eq_true out⟩) leftOut
  · intro before cand after at_ out few
    rcases done with none | full
    · rw [none, List.append_nil] at split
      exact chosen.rejected before cand after (split ▸ at_) out
    · rw [split] at at_
      rcases List.append_eq_append_iff.mp at_ with ⟨more, whole, -⟩ | ⟨more, whole, behind⟩
      · -- The candidate was not examined, so the first part lies before it and is full.
        exfalso
        have all : (first.filter fun n => decide (n ∈ before)) = first := by
          apply List.filter_eq_self.mpr
          intro n member
          rw [whole]
          exact decide_eq_true (List.mem_append_left more (chosen.sublist.subset member))
        rw [all] at few
        omega
      · cases more with
        | nil =>
            exfalso
            rw [List.append_nil] at whole
            have all : (first.filter fun n => decide (n ∈ before)) = first := by
              apply List.filter_eq_self.mpr
              intro n member
              rw [← whole]
              exact decide_eq_true (chosen.sublist.subset member)
            rw [all] at few
            omega
        | cons here more =>
            have ⟨same, _⟩ := List.cons.inj behind
            rw [← same] at whole
            exact chosen.rejected before cand more whole out

/-- Among candidates sorted by their distance to the base point, the selection takes as many as it
can, the first part of which starts with the closest one and is spread out, and a candidate that
it rejects before it is full is closer to one selected earlier than to the base point. -/
theorem selectNeighbors_selects (d : Distances) (candidates : List Neighbor) (m : Nat)
    (distinct : (candidates.map Neighbor.id).Nodup)
    (sorted : candidates.Pairwise fun near far => far.distance.lt near.distance = false)
    (positive : 1 ≤ m) :
    (selectNeighbors d candidates m).length = min m candidates.length ∧
      (selectNeighbors d candidates m).Nodup ∧
      (∀ x ∈ selectNeighbors d candidates m, x ∈ candidates.map Neighbor.id) ∧
      ∃ first topUp, selectNeighbors d candidates m = (first ++ topUp).map Neighbor.id ∧
        Selects d candidates m first topUp := by
  have different : ([] ++ candidates).Nodup := List.Nodup.of_map Neighbor.id distinct
  have ⟨front, left, split, chosen, short, done⟩ := selectLoop_chosen d m candidates different
    (Chosen.empty d) (Nat.zero_le m)
  rw [List.nil_append] at split
  have parts : selectNeighbors d candidates m = ((selectLoop d m candidates [] []).1 ++
      (selectLoop d m candidates [] []).2.take
        (m - (selectLoop d m candidates [] []).1.length)).map Neighbor.id := by
    unfold selectNeighbors
    rw [List.map_append, List.map_take]
  have count : (selectLoop d m candidates [] []).1.length +
      (selectLoop d m candidates [] []).2.length = front.length := by
    exact chosen.length (different.sublist
      (split ▸ List.sublist_append_left front left))
  constructor
  · have whole := congrArg List.length split
    rw [List.length_append] at whole
    rw [parts, List.length_map, List.length_append, List.length_take]
    rcases done with none | full
    · rw [none, List.length_nil] at whole
      omega
    · omega
  constructor
  · exact selectNeighbors_nodup distinct
  constructor
  · intro x member
    exact (selectNeighbors_subperm d candidates m).subset member
  · exact ⟨_, _, parts, selects sorted positive split chosen done⟩

def aroundDistances : Distances := fun a b =>
  let position (id : Nat) : Int := [3, 5, -4, 9].getD id 0
  F32.ofNat (position a - position b).natAbs

def aroundCandidates : List Neighbor :=
  [⟨0, F32.ofNat 3⟩, ⟨2, F32.ofNat 4⟩, ⟨1, F32.ofNat 5⟩, ⟨3, F32.ofNat 9⟩]

theorem selectNeighbors_selects_around :
    selectNeighbors aroundDistances aroundCandidates 3 = [0, 2, 1] ∧
      (selectNeighbors aroundDistances aroundCandidates 3).length =
        min 3 aroundCandidates.length ∧
      ∃ first topUp, selectNeighbors aroundDistances aroundCandidates 3 =
          (first ++ topUp).map Neighbor.id ∧
        Selects aroundDistances aroundCandidates 3 first topUp := by
  have distinct : (aroundCandidates.map Neighbor.id).Nodup := by decide
  have sorted : aroundCandidates.Pairwise fun near far =>
      far.distance.lt near.distance = false := by decide
  have ⟨count, _, _, parts⟩ := selectNeighbors_selects aroundDistances aroundCandidates 3 distinct
    sorted (by decide)
  exact ⟨by decide, count, parts⟩

end Selection

end Vektordb
