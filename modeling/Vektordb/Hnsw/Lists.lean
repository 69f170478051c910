import Vektordb.Hnsw.Graph

/-!
What the list operations of the graph keep: neighbour selection picks distinct candidates, at
most as many as asked for, and the two closures that rewrite an adjacency list add no other
id than the ones they are given.
-/

namespace Vektordb

/-! ### Neighbour selection -/

/-- The selected and the pruned candidates are all different ones of those offered. -/
theorem selectLoop_subperm (d : Distances) (m : Nat) (candidates selected pruned : List Neighbor) :
    List.Subperm ((selectLoop d m candidates selected pruned).1 ++
      (selectLoop d m candidates selected pruned).2) (selected ++ pruned ++ candidates) := by
  induction candidates generalizing selected pruned with
  | nil => simp only [selectLoop, List.append_nil]; exact List.Subperm.refl _
  | cons cand rest ih =>
      unfold selectLoop
      split
      · exact (List.sublist_append_left _ _).subperm
      · split
        · refine (ih selected (pruned ++ [cand])).trans (List.Perm.subperm ?_)
          simp only [List.append_assoc, List.singleton_append]
          exact List.Perm.refl _
        · refine (ih (selected ++ [cand]) pruned).trans (List.Perm.subperm ?_)
          simp only [List.append_assoc, List.singleton_append]
          exact List.Perm.append_left selected List.perm_middle.symm

theorem selectLoop_length (d : Distances) (m : Nat) (candidates selected pruned : List Neighbor)
    (bounded : selected.length ≤ m) :
    (selectLoop d m candidates selected pruned).1.length ≤ m := by
  induction candidates generalizing selected pruned with
  | nil => exact bounded
  | cons cand rest ih =>
      unfold selectLoop
      split
      · exact bounded
      · split
        · exact ih selected _ bounded
        · refine ih (selected ++ [cand]) pruned ?_
          rw [List.length_append, List.length_singleton]
          omega

theorem selectNeighbors_subperm (d : Distances) (candidates : List Neighbor) (m : Nat) :
    List.Subperm (selectNeighbors d candidates m) (candidates.map Neighbor.id) := by
  obtain ⟨kept, reordered, within⟩ := selectLoop_subperm d m candidates [] []
  have whole : List.Subperm (((selectLoop d m candidates [] []).1 ++
      (selectLoop d m candidates [] []).2).map Neighbor.id) (candidates.map Neighbor.id) :=
    ⟨kept.map Neighbor.id, reordered.map Neighbor.id, within.map Neighbor.id⟩
  rw [List.map_append] at whole
  refine List.Subperm.trans (List.Sublist.subperm ?_) whole
  exact List.Sublist.append_left (List.take_sublist _ _) _

theorem mem_selectNeighbors {d : Distances} {candidates : List Neighbor} {m x : Nat}
    (member : x ∈ selectNeighbors d candidates m) : ∃ n ∈ candidates, n.id = x :=
  List.mem_map.mp ((selectNeighbors_subperm d candidates m).subset member)

theorem selectNeighbors_nodup {d : Distances} {candidates : List Neighbor} {m : Nat}
    (distinct : (candidates.map Neighbor.id).Nodup) : (selectNeighbors d candidates m).Nodup := by
  obtain ⟨kept, reordered, within⟩ := selectNeighbors_subperm d candidates m
  exact reordered.nodup_iff.mp (distinct.sublist within)

theorem selectNeighbors_length (d : Distances) (candidates : List Neighbor) (m : Nat) :
    (selectNeighbors d candidates m).length ≤ m := by
  have bounded := selectLoop_length d m candidates [] [] (Nat.zero_le m)
  unfold selectNeighbors
  dsimp only
  rw [List.length_append, List.length_map, List.length_take]
  omega

/-- Selection reads the distances between candidates only. -/
theorem selectLoop_congr {d d' : Distances} {near : Nat → Prop}
    (agree : ∀ a b, near a → near b → d a b = d' a b) (m : Nat)
    (candidates selected pruned : List Neighbor) (inside : ∀ n ∈ candidates, near n.id)
    (chosen : ∀ n ∈ selected, near n.id) :
    selectLoop d m candidates selected pruned = selectLoop d' m candidates selected pruned := by
  induction candidates generalizing selected pruned with
  | nil => rfl
  | cons cand rest ih =>
      have here := inside cand (List.mem_cons_self ..)
      have later : ∀ n ∈ rest, near n.id := fun n member =>
        inside n (List.mem_cons_of_mem cand member)
      have sameTest : (selected.any fun s => (d cand.id s.id).lt cand.distance) =
          selected.any fun s => (d' cand.id s.id).lt cand.distance := by
        rw [Bool.eq_iff_iff, List.any_eq_true, List.any_eq_true]
        refine exists_congr fun s => and_congr_right fun member => ?_
        rw [agree cand.id s.id here (chosen s member)]
      unfold selectLoop
      rw [sameTest, ih selected _ later chosen, ih (selected ++ [cand]) pruned later ?_]
      intro n member
      rcases List.mem_append.mp member with old | new
      · exact chosen n old
      · rw [List.mem_singleton.mp new]
        exact here

theorem selectNeighbors_congr {d d' : Distances} {near : Nat → Prop}
    (agree : ∀ a b, near a → near b → d a b = d' a b) (candidates : List Neighbor) (m : Nat)
    (inside : ∀ n ∈ candidates, near n.id) :
    selectNeighbors d candidates m = selectNeighbors d' candidates m := by
  unfold selectNeighbors
  rw [selectLoop_congr agree m candidates [] [] inside (by simp)]

/-! ### The closures of `rewrite_links` -/

theorem mem_ownLinks {chosen cur : List Nat} {x : Nat} (member : x ∈ ownLinks chosen cur) :
    x ∈ cur ∨ x ∈ chosen :=
  List.mem_append.mp ((List.destutter_sublist (· ≠ ·) (cur ++ chosen)).subset member)

theorem mem_sorted {d : Distances} {nb : Nat} {list : List Nat} {n : Neighbor} :
    n ∈ (list.map fun x => (⟨x, d nb x⟩ : Neighbor)).insertionSort (· ≤ ·) ↔
      n.id ∈ list ∧ n.distance = d nb n.id := by
  rw [List.mem_insertionSort, List.mem_map]
  constructor
  · rintro ⟨x, member, rfl⟩
    exact ⟨member, rfl⟩
  · rintro ⟨member, same⟩
    refine ⟨n.id, member, ?_⟩
    rw [← same]

theorem sorted_nodup {d : Distances} {nb : Nat} {list : List Nat} (distinct : list.Nodup) :
    (((list.map fun x => (⟨x, d nb x⟩ : Neighbor)).insertionSort (· ≤ ·)).map
      Neighbor.id).Nodup := by
  have reordered := (List.perm_insertionSort (· ≤ ·)
    (list.map fun x => (⟨x, d nb x⟩ : Neighbor))).map Neighbor.id
  rw [reordered.nodup_iff, List.map_map]
  have same : list.map (Neighbor.id ∘ fun x => ⟨x, d nb x⟩) = list := List.map_id list
  rwa [same]

theorem mem_backLinks {d : Distances} {nb id max x : Nat} {cur : List Nat}
    (member : x ∈ backLinks d nb id max cur) : x ∈ cur ∨ x = id := by
  unfold backLinks at member
  split at member
  · exact .inl member
  · have pushed : x ∈ cur ++ [id] := by
      dsimp only at member
      split at member
      · exact member
      · obtain ⟨n, offered, rfl⟩ := mem_selectNeighbors member
        exact (mem_sorted.mp offered).1
    exact (List.mem_append.mp pushed).imp_right List.mem_singleton.mp

theorem backLinks_nodup {d : Distances} {nb id max : Nat} {cur : List Nat}
    (distinct : cur.Nodup) : (backLinks d nb id max cur).Nodup := by
  unfold backLinks
  split
  · exact distinct
  · rename_i absent
    have pushed : (cur ++ [id]).Nodup :=
      List.nodup_append.mpr ⟨distinct, List.nodup_singleton id, fun x member y single same =>
        absent (by rw [← List.mem_singleton.mp single, ← same]; exact member)⟩
    dsimp only
    split
    · exact pushed
    · exact selectNeighbors_nodup (sorted_nodup pushed)

theorem backLinks_length {d : Distances} {nb id max : Nat} {cur : List Nat}
    (bounded : cur.length ≤ max) : (backLinks d nb id max cur).length ≤ max := by
  unfold backLinks
  split
  · exact bounded
  · dsimp only
    split
    · assumption
    · exact selectNeighbors_length d _ max

theorem backLinks_congr {d d' : Distances} {near : Nat → Prop} {nb id : Nat} (max : Nat)
    {cur : List Nat} (agree : ∀ a b, near a → near b → d a b = d' a b) (base : near nb) (new : near id)
    (inside : ∀ x ∈ cur, near x) : backLinks d nb id max cur = backLinks d' nb id max cur := by
  have pushed : ∀ x ∈ cur ++ [id], near x := by
    intro x member
    rcases List.mem_append.mp member with old | added
    · exact inside x old
    · rw [List.mem_singleton.mp added]
      exact new
  have sameCandidates : ((cur ++ [id]).map fun x => (⟨x, d nb x⟩ : Neighbor)) =
      (cur ++ [id]).map fun x => ⟨x, d' nb x⟩ :=
    List.map_congr_left fun x member => by rw [agree nb x base (pushed x member)]
  unfold backLinks
  dsimp only
  rw [sameCandidates, selectNeighbors_congr agree _ max fun n member =>
    pushed n.id (mem_sorted.mp member).1]

/-! ### Rewriting a list of the graph -/

theorem Hnsw.rewriteLinks_some {g after : Hnsw} {id layer : Nat} {mutate : List Nat → List Nat}
    (done : g.rewriteLinks id layer mutate = some after) :
    ∃ node cur, g.nodes.get id = some node ∧ node.links[layer]? = some cur ∧
      after.config = g.config ∧ after.entry = g.entry ∧ after.len = g.len ∧
      ∀ other, after.nodes.get other =
        if other = id then some (node.store layer (mutate cur)) else g.nodes.get other := by
  unfold rewriteLinks at done
  cases held : g.nodes.get id with
  | none => rw [held] at done; cases done
  | some node =>
      simp only [held] at done
      cases present : node.links[layer]? with
      | none => rw [present] at done; cases done
      | some cur =>
          rw [present] at done
          cases done
          exact ⟨node, cur, rfl, present, rfl, rfl, SegVec.update_len _ _ _,
            SegVec.get_update held _⟩

theorem Hnsw.rewriteLinks_isSome {g : Hnsw} {id layer : Nat} {node : Node}
    (mutate : List Nat → List Nat) (held : g.nodes.get id = some node)
    (present : layer ≤ node.level) : ∃ after, g.rewriteLinks id layer mutate = some after := by
  have inside : layer < node.links.length := by
    rw [node.links_length]
    omega
  unfold rewriteLinks
  simp only [held, List.getElem?_eq_getElem inside]
  exact ⟨_, rfl⟩

theorem Node.getElem?_store (node : Node) (layer other : Nat) (list : List Nat) :
    (node.store layer list).links[other]? =
      if other = layer then node.links[layer]?.map fun _ => list else node.links[other]? := by
  unfold store
  by_cases same : other = layer
  · subst same
    rw [if_pos rfl, List.getElem?_set]
    simp only [if_true]
    by_cases inside : other < node.links.length
    · rw [if_pos inside, List.getElem?_eq_getElem inside]
      rfl
    · rw [if_neg inside, List.getElem?_eq_none (by omega)]
      rfl
  · rw [if_neg same, List.getElem?_set_ne (Ne.symm same)]

end Vektordb
