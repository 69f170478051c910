import Vektordb.Interaction.Assertion
import Vektordb.Hnsw.Traversal

/-!
What a beam search returns beside distinct ids: its hits are in order, there are no more of them
than asked for, and each has a distance that the oracle gave to it.
-/

namespace Vektordb

open Interaction

namespace Hnsw

variable {T : Sig} [Supports sig T] {σ : Type}

/-- An oracle whose answers are exact in a sense that the other agents cannot invalidate. -/
structure Scores (h : Handler T σ) (d : Discipline T σ) (agent : Nat) (dist : Nat → Prog T F32)
    (known : Nat → σ → Nat → Prop) (exact : σ → Neighbor → Prop) : Prop where
  walk : Walkable h d agent dist known
  stable : ∀ {s t n}, d.rely agent s t → d.inv t → exact s n → exact t n
  scored : ∀ s layer x, d.inv s → known layer s x →
    Secure h d agent (fun t value => d.rely agent s t ∧ exact t ⟨x, value⟩) (dist x) s

theorem Walkable.loosen {h : Handler T σ} {d : Discipline T σ} {agent : Nat}
    {dist : Nat → Prog T F32} {known : Nat → σ → Nat → Prop}
    (walk : Walkable h d agent dist known) : Walkable h d.loose agent dist known where
  stable := walk.stable
  lower := walk.lower
  len s kept := (walk.len s kept).loosen
  links s layer x kept here := (walk.links s layer x kept here).loosen
  dist s layer x kept here := (walk.dist s layer x kept here).loosen
  bounded := .inl trivial

variable {h : Handler T σ} {d : Discipline T σ} {agent : Nat} {dist : Nat → Prog T F32}
  {known : Nat → σ → Nat → Prop} {exact : σ → Neighbor → Prop}

theorem Scores.loosen (scores : Scores h d agent dist known exact) :
    Scores h d.loose agent dist known exact where
  walk := scores.walk.loosen
  stable := scores.stable
  scored s layer x kept here := (scores.scored s layer x kept here).loosen

/-! ### Heaps -/

theorem sorted_push {heap : Heap} (sorted : heap.Pairwise (· ≤ ·)) (item : Neighbor) :
    (Heap.push heap item).Pairwise (· ≤ ·) := sorted.orderedInsert item heap

theorem sorted_pushBounded {heap : Heap} (sorted : heap.Pairwise (· ≤ ·)) (item : Neighbor)
    (k : Nat) : (Heap.pushBounded heap item k).Pairwise (· ≤ ·) := by
  unfold Heap.pushBounded
  split
  · exact sorted_push sorted item
  · split
    · split
      · exact sorted_push (sorted.sublist (List.dropLast_sublist heap)) item
      · exact sorted
    · exact sorted

/-- What the heaps of a pass hold: exact distances, the results in order. -/
structure Ranked (known : Nat → Prop) (exact : Neighbor → Prop) (candidates results : Heap) :
    Prop where
  candidate : ∀ n ∈ candidates, known n.id ∧ exact n
  result : ∀ n ∈ results, exact n
  sorted : results.Pairwise (· ≤ ·)

theorem Ranked.imp {known known' : Nat → Prop} {exact exact' : Neighbor → Prop}
    {candidates results : Heap} (ranked : Ranked known exact candidates results)
    (knows : ∀ x, known x → known' x) (keeps : ∀ n, exact n → exact' n) :
    Ranked known' exact' candidates results :=
  ⟨fun n member => ⟨knows _ (ranked.candidate n member).1, keeps n (ranked.candidate n member).2⟩,
    fun n member => keeps n (ranked.result n member), ranked.sorted⟩

theorem Ranked.push {known : Nat → Prop} {exact : Neighbor → Prop} {candidates results : Heap}
    (ranked : Ranked known exact candidates results) (next : Neighbor) (here : known next.id)
    (isExact : exact next) (ef : Nat) :
    Ranked known exact (Heap.push candidates next) (Heap.pushBounded results next ef) := by
  refine ⟨?_, ?_, sorted_pushBounded ranked.sorted next ef⟩
  · intro n member
    rcases Heap.mem_push.mp member with rfl | old
    · exact ⟨here, isExact⟩
    · exact ranked.candidate n old
  · intro n member
    rcases Heap.mem_pushBounded member with rfl | old
    · exact isExact
    · exact ranked.result n old

/-! ### The beam search -/

theorem scanLinks_scored (scores : Scores h d agent dist known exact) {layer : Nat} {s : σ}
    (ef : Nat) (list : List Nat) (visited : VisitedSet) (candidates results : Heap)
    (kept : d.inv s) (listed : ∀ y ∈ list, known layer s y)
    (ranked : Ranked (known layer s) (exact s) candidates results) :
    Secure h d agent (fun t result => d.rely agent s t ∧
        Ranked (known layer t) (exact t) result.2.1 result.2.2)
      (scanLinks dist ef list visited candidates results) s := by
  have walk := scores.walk
  induction list generalizing s visited candidates results with
  | nil =>
      apply Secure.ret
      intro t moved keptThere
      exact ⟨moved, ranked.imp (fun x => walk.stable moved keptThere)
        fun n => scores.stable moved keptThere⟩
  | cons next rest ih =>
      have restListed : ∀ y ∈ rest, known layer s y := fun y member =>
        listed y (List.mem_cons_of_mem next member)
      have here : known layer s next := listed next (List.mem_cons_self ..)
      unfold scanLinks
      dsimp only
      split
      · exact ih _ candidates results kept restListed ranked
      · apply Secure.bind kept (scores.scored s layer next kept here)
        rintro t value keptThere ⟨moved, isExact⟩
        have rankedThere := ranked.imp (fun x => walk.stable moved keptThere)
          fun n => scores.stable moved keptThere
        have restThere : ∀ y ∈ rest, known layer t y := fun y member =>
          walk.stable moved keptThere (restListed y member)
        split
        · apply (ih _ _ _ keptThere restThere (rankedThere.push ⟨next, value⟩
            (walk.stable moved keptThere here) isExact ef)).mono
          rintro u result - ⟨later, kept⟩
          exact ⟨d.rely_trans moved later, kept⟩
        · apply (ih _ candidates results keptThere restThere rankedThere).mono
          rintro u result - ⟨later, kept⟩
          exact ⟨d.rely_trans moved later, kept⟩

theorem searchLoop_scored (scores : Scores h d agent dist known exact) (mayStop : d.mayStop)
    {layer : Nat} {s : σ} (ef fuel : Nat) (visited : VisitedSet) (candidates results : Heap)
    (kept : d.inv s) (ranked : Ranked (known layer s) (exact s) candidates results) :
    Secure h d agent (fun t result => (∀ n ∈ result.2, exact t n) ∧ result.2.Pairwise (· ≤ ·))
      (searchLoop dist ef layer fuel visited candidates results) s := by
  have walk := scores.walk
  induction fuel generalizing s visited candidates results with
  | zero => exact mayStop
  | succ fuel ih =>
      have finished : Secure h d agent
          (fun t result => (∀ n ∈ result.2, exact t n) ∧ result.2.Pairwise (· ≤ ·))
          (.ret (visited, results)) s := by
        apply Secure.ret
        intro t moved keptThere
        exact ⟨fun n member => scores.stable moved keptThere (ranked.result n member), ranked.sorted⟩
      cases candidates with
      | nil => exact finished
      | cons current others =>
          unfold searchLoop
          dsimp only
          split
          · exact finished
          · obtain ⟨here, -⟩ := ranked.candidate current (List.mem_cons_self ..)
            apply Secure.bind kept (walk.links s layer current.id kept here)
            rintro t list keptThere ⟨moved, listed⟩
            have there := ranked.imp (fun x => walk.stable moved keptThere)
              fun n => scores.stable moved keptThere
            have popped : Ranked (known layer t) (exact t) others results :=
              ⟨fun n member => there.candidate n (List.mem_cons_of_mem current member),
                there.result, there.sorted⟩
            apply Secure.bind keptThere
              (scanLinks_scored scores ef list visited others results keptThere listed popped)
            rintro u ⟨visited', candidates', results'⟩ keptLater ⟨-, later⟩
            exact ih visited' candidates' results' keptLater later

theorem searchLayer_scored (scores : Scores h d agent dist known exact) (mayStop : d.mayStop)
    (layer : Nat) {s : σ} (visited : VisitedSet) (entry ef : Nat) (kept : d.inv s)
    (start : known layer s entry) :
    Secure h d agent (fun t result => (∀ n ∈ result.2, exact t n) ∧ result.2.Pairwise (· ≤ ·))
      (searchLayer dist visited entry ef layer) s := by
  have walk := scores.walk
  apply Secure.bind kept (walk.len s kept)
  intro t n keptThere moved
  have startThere := walk.stable moved keptThere start
  apply Secure.bind keptThere (scores.scored t layer entry keptThere startThere)
  rintro u value keptLater ⟨later, isExact⟩
  have startLater := walk.stable later keptLater startThere
  apply searchLoop_scored scores mayStop ef searchBound _ _ _ keptLater
  refine ⟨?_, ?_, List.pairwise_singleton _ _⟩
  · intro n member
    rw [List.mem_singleton.mp member]
    exact ⟨startLater, isExact⟩
  · intro n member
    rw [List.mem_singleton.mp member]
    exact isExact

/-! ### Searches -/

/-- What a search returns. -/
structure Hits (exact : Neighbor → Prop) (k : Nat) (hits : List Neighbor) : Prop where
  few : hits.length ≤ k
  distinct : (hits.map Neighbor.id).Nodup
  sorted : hits.Pairwise (· ≤ ·)
  exact : ∀ n ∈ hits, exact n

/-- A search that runs among other agents, from an entry point that may be read. -/
theorem searchWithOracle_hits (scores : Scores h d agent dist known exact)
    (visited : VisitedSet) (k ef : Nat) {s : σ} (kept : d.inv s)
    (load : Secure h d agent (fun t packed => d.rely agent s t ∧ (packed ≠ ENTRY_NONE →
      known (unpackEntry packed).2 t (unpackEntry packed).1)) (call .entry) s) :
    Secure h d agent (fun t hits => d.rely agent s t ∧ Hits (exact t) k hits)
      (searchWithOracle dist visited k ef) s := by
  have walk := scores.walk
  apply Secure.bind kept load
  rintro t packed keptThere ⟨moved, named⟩
  split
  · apply Secure.ret
    intro u later _
    exact ⟨d.rely_trans moved later, Nat.zero_le k, List.nodup_nil, List.Pairwise.nil, nofun⟩
  · rename_i some
    have start := named some
    have ground := walk.lower (Nat.zero_le _) start
    apply Secure.bind keptThere (walk.dist t 0 _ keptThere ground)
    intro u value keptDist toDist
    apply Secure.bind keptDist (descend_secure walk 0 (unpackEntry packed).2 _ value keptDist
      (walk.stable toDist keptDist start))
    rintro v result keptEp ⟨toEp, found⟩
    rw [Nat.zero_min] at found
    have searched := (searchLayer_secure walk 0 visited result.1 (max ef k) keptEp found).both
      (searchLayer_scored scores.loosen trivial 0 visited result.1 (max ef k) keptEp found)
    apply Secure.bind keptEp searched
    rintro w ⟨visited', results⟩ _ ⟨⟨toEnd, -, distinct⟩, isExact, sorted⟩
    apply Secure.ret
    intro x last keptLast
    have whole := d.rely_trans (d.rely_trans moved toDist) (d.rely_trans toEp toEnd)
    have front := List.take_sublist k results
    refine ⟨d.rely_trans whole last, List.length_take_le k results,
      distinct.sublist (front.map Neighbor.id), sorted.sublist front, ?_⟩
    exact fun n member => scores.stable last keptLast (isExact n (List.mem_of_mem_take member))

end Hnsw

end Vektordb
