import Vektordb.Hnsw.Program

/-!
What the traversals of the graph keep, over an arbitrary shared state. `Walkable` collects
what a discipline has to grant: which ids may be read on which layer, that every list read
there names such ids again, and that reading changes nothing. The beam search then returns
such ids, without repetition, and no loop uses up its bound.
-/

namespace Vektordb

open Interaction

/-- The ids that a pass has not marked yet, among those the segments have room for. -/
noncomputable def VisitedSet.unmarked (v : VisitedSet) : Nat :=
  ((Finset.range SegVec.CAPACITY).filter fun id => ¬ v.marked id).card

namespace VisitedSet

theorem unmarked_le (v : VisitedSet) : v.unmarked ≤ SegVec.CAPACITY := by
  calc v.unmarked ≤ (Finset.range SegVec.CAPACITY).card := Finset.card_filter_le _ _
    _ = SegVec.CAPACITY := Finset.card_range _

theorem unmarked_mark_le {v : VisitedSet} (active : v.Active) (id : Nat) :
    (v.mark id).2.unmarked ≤ v.unmarked := by
  refine Finset.card_le_card fun other member => ?_
  simp only [Finset.mem_filter, mark_marked active, not_or] at member ⊢
  exact ⟨member.1, member.2.2⟩

theorem unmarked_mark_lt {v : VisitedSet} (active : v.Active) {id : Nat}
    (fresh : ¬ v.marked id) (inside : id < SegVec.CAPACITY) :
    (v.mark id).2.unmarked < v.unmarked := by
  refine Finset.card_lt_card (Finset.ssubset_iff_subset_ne.mpr ⟨fun other member => ?_, ?_⟩)
  · simp only [Finset.mem_filter, mark_marked active, not_or] at member ⊢
    exact ⟨member.1, member.2.2⟩
  · intro same
    have before : id ∈ (Finset.range SegVec.CAPACITY).filter fun id => ¬ v.marked id :=
      Finset.mem_filter.mpr ⟨Finset.mem_range.mpr inside, fresh⟩
    rw [← same, Finset.mem_filter, mark_marked active] at before
    exact before.2 (.inl rfl)

end VisitedSet

namespace Hnsw

variable {T : Sig} [Supports sig T] {σ : Type}

/-- What a discipline grants to the traversals of one agent: `known layer s x` says that the
list of `x` on `layer` may be read in state `s`. -/
structure Walkable (h : Handler T σ) (d : Discipline T σ) (agent : Nat)
    (dist : Nat → Prog T F32) (known : Nat → σ → Nat → Prop) : Prop where
  stable : ∀ {layer s t x}, d.rely agent s t → d.inv t → known layer s x → known layer t x
  lower : ∀ {low high s x}, low ≤ high → known high s x → known low s x
  len : ∀ s, d.inv s → Secure h d agent (fun t _ => d.rely agent s t) (call .len) s
  links : ∀ s layer x, d.inv s → known layer s x →
    Secure h d agent (fun t list => d.rely agent s t ∧ ∀ y ∈ list, known layer t y)
      (call (.links x layer)) s
  dist : ∀ s layer x, d.inv s → known layer s x →
    Secure h d agent (fun t _ => d.rely agent s t) (dist x) s
  bounded : d.mayStop ∨ ∀ layer s x, known layer s x → x < SegVec.CAPACITY

variable {h : Handler T σ} {d : Discipline T σ} {agent : Nat} {dist : Nat → Prog T F32}
  {known : Nat → σ → Nat → Prop}

/-! ### Greedy descent -/

theorem relax_secure (walk : Walkable h d agent dist known) {layer : Nat} {s : σ}
    (list : List Nat) (entry : Nat) (best : F32) (improved : Bool) (kept : d.inv s)
    (listed : ∀ y ∈ list, known layer s y) (start : known layer s entry) :
    Secure h d agent (fun t result => d.rely agent s t ∧ known layer t result.1 ∧
        (result = (entry, best, improved) ∨
          result.2.1.signed < best.signed ∧ result.2.2 = true))
      (relax dist list entry best improved) s := by
  induction list generalizing s entry best improved with
  | nil =>
      refine Secure.ret fun t moved keptThere => ?_
      exact ⟨moved, walk.stable moved keptThere start, .inl rfl⟩
  | cons next rest ih =>
      refine Secure.bind kept (walk.dist s layer next kept (listed next (List.mem_cons_self ..)))
        fun t value keptThere moved => ?_
      have listedThere : ∀ y ∈ next :: rest, known layer t y := fun y member =>
        walk.stable moved keptThere (listed y member)
      have restThere : ∀ y ∈ rest, known layer t y := fun y member =>
        listedThere y (List.mem_cons_of_mem next member)
      split
      · rename_i closer
        refine (ih next value true keptThere restThere
          (listedThere next (List.mem_cons_self ..))).mono fun u result _ ⟨later, found, change⟩ => ?_
        refine ⟨d.rely_trans moved later, found, .inr ?_⟩
        have lowered := F32.lt_signed closer
        rcases change with unchanged | ⟨lower, flagged⟩
        · rw [unchanged]
          exact ⟨lowered, rfl⟩
        · exact ⟨lower.trans lowered, flagged⟩
      · refine (ih entry best improved keptThere restThere
          (walk.stable moved keptThere start)).mono fun u result _ ⟨later, found, change⟩ => ?_
        exact ⟨d.rely_trans moved later, found, change⟩

theorem greedyLoop_secure (walk : Walkable h d agent dist known) {layer : Nat} {s : σ}
    (fuel entry : Nat) (best : F32) (kept : d.inv s) (start : known layer s entry)
    (enough : (best.signed + 2 ^ 31).toNat < fuel) :
    Secure h d agent (fun t result => d.rely agent s t ∧ known layer t result.1)
      (greedyLoop dist layer fuel entry best) s := by
  induction fuel generalizing s entry best with
  | zero => omega
  | succ fuel ih =>
      refine Secure.bind kept (walk.links s layer entry kept start)
        fun t list keptThere ⟨moved, listed⟩ => ?_
      refine Secure.bind keptThere (relax_secure walk list entry best false keptThere listed
        (walk.stable moved keptThere start)) fun u result keptLater ⟨later, found, change⟩ => ?_
      obtain ⟨entry', best', improved⟩ := result
      dsimp only at found change ⊢
      split
      · rename_i again
        have lowered : best'.signed < best.signed := by
          rcases change with unchanged | ⟨lower, -⟩
          · simp only [Prod.mk.injEq] at unchanged
            rw [unchanged.2.2] at again
            cases again
          · exact lower
        have bound := best'.signed_bound
        refine (ih entry' best' keptLater found (by omega)).mono
          fun v result _ ⟨last, there⟩ => ?_
        exact ⟨d.rely_trans (d.rely_trans moved later) last, there⟩
      · refine Secure.ret fun v last keptLast => ?_
        exact ⟨d.rely_trans (d.rely_trans moved later) last, walk.stable last keptLast found⟩

theorem greedyDescend_secure (walk : Walkable h d agent dist known) {layer : Nat} {s : σ}
    (entry : Nat) (best : F32) (kept : d.inv s) (start : known layer s entry) :
    Secure h d agent (fun t result => d.rely agent s t ∧ known layer t result.1)
      (greedyDescend dist entry best layer) s := by
  refine greedyLoop_secure walk descendBound entry best kept start ?_
  have bound := best.signed_bound
  unfold descendBound
  omega

theorem descendLayers_secure (walk : Walkable h d agent dist known) {low : Nat} {s : σ}
    (layers : List Nat) (high ep : Nat) (epDist : F32) (kept : d.inv s)
    (descending : layers.Pairwise (· ≥ ·)) (above : ∀ layer ∈ layers, low ≤ layer)
    (below : ∀ layer ∈ layers, layer ≤ high) (le : low ≤ high) (start : known high s ep) :
    Secure h d agent (fun t result => d.rely agent s t ∧ known low t result.1)
      (descendLayers dist layers ep epDist) s := by
  induction layers generalizing s high ep epDist with
  | nil =>
      refine Secure.ret fun t moved keptThere => ?_
      exact ⟨moved, walk.lower le (walk.stable moved keptThere start)⟩
  | cons layer rest ih =>
      have here : known layer s ep := walk.lower (below layer (List.mem_cons_self ..)) start
      refine Secure.bind kept (greedyDescend_secure walk ep epDist kept here)
        fun t result keptThere ⟨moved, found⟩ => ?_
      obtain ⟨ep', epDist'⟩ := result
      refine (ih layer ep' epDist' keptThere (List.Pairwise.of_cons descending)
        (fun l member => above l (List.mem_cons_of_mem layer member))
        (fun l member => List.rel_of_pairwise_cons descending member)
        (above layer (List.mem_cons_self ..)) found).mono fun u result _ ⟨later, there⟩ => ?_
      exact ⟨d.rely_trans moved later, there⟩

theorem layersAbove_pairwise (level top : Nat) : (layersAbove level top).Pairwise (· ≥ ·) := by
  unfold layersAbove
  rw [List.pairwise_reverse]
  exact List.pairwise_le_range'

theorem mem_layersAbove {level top layer : Nat} :
    layer ∈ layersAbove level top ↔ level < layer ∧ layer ≤ top := by
  unfold layersAbove
  rw [List.mem_reverse, List.mem_range'_1]
  omega

theorem descend_secure (walk : Walkable h d agent dist known) {s : σ} (level top ep : Nat)
    (epDist : F32) (kept : d.inv s) (start : known top s ep) :
    Secure h d agent (fun t result => d.rely agent s t ∧ known (min level top) t result.1)
      (descendLayers dist (layersAbove level top) ep epDist) s := by
  refine descendLayers_secure walk _ top ep epDist kept (layersAbove_pairwise level top)
    (fun layer member => ?_) (fun layer member => (mem_layersAbove.mp member).2)
    (Nat.min_le_right level top) start
  have bounds := mem_layersAbove.mp member
  omega

/-! ### Beam search -/

/-- What a pass keeps: all that it holds is marked, known and, in the results, distinct. -/
structure Beam (known : Nat → Prop) (visited : VisitedSet) (candidates results : Heap) :
    Prop where
  active : visited.Active
  candidate_known : ∀ n ∈ candidates, known n.id
  result_known : ∀ n ∈ results, known n.id
  result_marked : ∀ n ∈ results, visited.marked n.id
  distinct : (results.map Neighbor.id).Nodup

theorem Beam.imp {known known' : Nat → Prop} {visited : VisitedSet} {candidates results : Heap}
    (beam : Beam known visited candidates results) (weaker : ∀ x, known x → known' x) :
    Beam known' visited candidates results :=
  ⟨beam.active, fun n member => weaker _ (beam.candidate_known n member),
    fun n member => weaker _ (beam.result_known n member), beam.result_marked, beam.distinct⟩

theorem Beam.mark {known : Nat → Prop} {visited : VisitedSet} {candidates results : Heap}
    (beam : Beam known visited candidates results) (id : Nat) :
    Beam known (visited.mark id).2 candidates results :=
  ⟨VisitedSet.mark_active beam.active id, beam.candidate_known, beam.result_known,
    fun n member => (VisitedSet.mark_marked beam.active id n.id).mpr
      (.inr (beam.result_marked n member)), beam.distinct⟩

theorem Beam.push {known : Nat → Prop} {visited : VisitedSet} {candidates results : Heap}
    (beam : Beam known visited candidates results) (next : Neighbor) (here : known next.id)
    (fresh : ¬ visited.marked next.id) (ef : Nat) :
    Beam known (visited.mark next.id).2 (Heap.push candidates next)
      (Heap.pushBounded results next ef) where
  active := VisitedSet.mark_active beam.active next.id
  candidate_known n member := by
    rcases Heap.mem_push.mp member with rfl | old
    · exact here
    · exact beam.candidate_known n old
  result_known n member := by
    rcases Heap.mem_pushBounded member with rfl | old
    · exact here
    · exact beam.result_known n old
  result_marked n member := by
    rw [VisitedSet.mark_marked beam.active]
    rcases Heap.mem_pushBounded member with rfl | old
    · exact .inl rfl
    · exact .inr (beam.result_marked n old)
  distinct := Heap.nodup_pushBounded beam.distinct fun n member same =>
    fresh (same ▸ beam.result_marked n member)

theorem scanLinks_secure (walk : Walkable h d agent dist known) {layer : Nat} {s : σ} (ef : Nat)
    (list : List Nat) (visited : VisitedSet) (candidates results : Heap) (kept : d.inv s)
    (listed : ∀ y ∈ list, known layer s y)
    (beam : Beam (known layer s) visited candidates results) :
    Secure h d agent (fun t result => d.rely agent s t ∧
        Beam (known layer t) result.1 result.2.1 result.2.2 ∧
        (d.mayStop ∨ result.1.unmarked + result.2.1.length ≤
          visited.unmarked + candidates.length))
      (scanLinks dist ef list visited candidates results) s := by
  induction list generalizing s visited candidates results with
  | nil =>
      refine Secure.ret fun t moved keptThere => ?_
      exact ⟨moved, beam.imp fun x => walk.stable moved keptThere, .inr le_rfl⟩
  | cons next rest ih =>
      have restListed : ∀ y ∈ rest, known layer s y := fun y member =>
        listed y (List.mem_cons_of_mem next member)
      have here : known layer s next := listed next (List.mem_cons_self ..)
      have shrinks := VisitedSet.unmarked_mark_le beam.active next
      unfold scanLinks
      dsimp only
      split
      · refine (ih _ candidates results kept restListed (beam.mark next)).mono
          fun t result _ ⟨moved, kept, measure⟩ => ⟨moved, kept, measure.imp id fun le => ?_⟩
        omega
      · rename_i unseen
        have fresh : ¬ visited.marked next := by
          rw [VisitedSet.mark_fst beam.active] at unseen
          simpa using unseen
        refine Secure.bind kept (walk.dist s layer next kept here)
          fun t value keptThere moved => ?_
        have beamThere := beam.imp fun x => walk.stable moved keptThere
        have restThere : ∀ y ∈ rest, known layer t y := fun y member =>
          walk.stable moved keptThere (restListed y member)
        split
        · refine (ih _ _ _ keptThere restThere (beamThere.push ⟨next, value⟩
            (walk.stable moved keptThere here) fresh ef)).mono
            fun u result _ ⟨later, kept, measure⟩ => ⟨d.rely_trans moved later, kept, ?_⟩
          rcases walk.bounded with stops | below
          · exact .inl stops
          · refine measure.imp id fun le => ?_
            have uses := VisitedSet.unmarked_mark_lt beam.active fresh (below layer s next here)
            rw [Heap.length_push] at le
            dsimp only at le
            omega
        · refine (ih _ candidates results keptThere restThere (beamThere.mark next)).mono
            fun u result _ ⟨later, kept, measure⟩ =>
              ⟨d.rely_trans moved later, kept, measure.imp id fun le => ?_⟩
          omega

theorem searchLoop_secure (walk : Walkable h d agent dist known) {layer : Nat} {s : σ} (ef : Nat)
    (fuel : Nat) (visited : VisitedSet) (candidates results : Heap) (kept : d.inv s)
    (beam : Beam (known layer s) visited candidates results)
    (enough : d.mayStop ∨ visited.unmarked + candidates.length < fuel) :
    Secure h d agent (fun t result => d.rely agent s t ∧
        (∀ n ∈ result.2, known layer t n.id) ∧ (result.2.map Neighbor.id).Nodup)
      (searchLoop dist ef layer fuel visited candidates results) s := by
  induction fuel generalizing s visited candidates results with
  | zero => exact enough.resolve_right (Nat.not_lt_zero _)
  | succ fuel ih =>
      have finished : Secure h d agent (fun t result => d.rely agent s t ∧
          (∀ n ∈ result.2, known layer t n.id) ∧ (result.2.map Neighbor.id).Nodup)
          (.ret (visited, results)) s := by
        refine Secure.ret fun t moved keptThere => ⟨moved, fun n member => ?_, beam.distinct⟩
        exact walk.stable moved keptThere (beam.result_known n member)
      cases candidates with
      | nil => exact finished
      | cons current others =>
          unfold searchLoop
          dsimp only
          split
          · exact finished
          · refine Secure.bind kept (walk.links s layer current.id kept
              (beam.candidate_known current (List.mem_cons_self ..)))
              fun t list keptThere ⟨moved, listed⟩ => ?_
            have popped : Beam (known layer t) visited others results :=
              { beam.imp fun x => walk.stable moved keptThere with
                candidate_known := fun n member => walk.stable moved keptThere
                  (beam.candidate_known n (List.mem_cons_of_mem current member)) }
            refine Secure.bind keptThere
              (scanLinks_secure walk ef list visited others results keptThere listed popped)
              fun u result keptLater ⟨later, beamLater, measure⟩ => ?_
            obtain ⟨visited', candidates', results'⟩ := result
            refine (ih visited' candidates' results' keptLater beamLater ?_).mono
              fun v result _ ⟨last, there⟩ =>
                ⟨d.rely_trans (d.rely_trans moved later) last, there⟩
            rcases measure with stops | le
            · exact .inl stops
            · refine enough.imp id fun before => ?_
              rw [List.length_cons] at before
              dsimp only at le
              omega

/-- The beam search returns distinct ids that are known on its layer. -/
theorem searchLayer_secure (walk : Walkable h d agent dist known) (layer : Nat) {s : σ}
    (visited : VisitedSet) (entry ef : Nat) (kept : d.inv s) (start : known layer s entry) :
    Secure h d agent (fun t result => d.rely agent s t ∧
        (∀ n ∈ result.2, known layer t n.id) ∧ (result.2.map Neighbor.id).Nodup)
      (searchLayer dist visited entry ef layer) s := by
  refine Secure.bind kept (walk.len s kept) fun t n keptThere moved => ?_
  have startThere := walk.stable moved keptThere start
  refine Secure.bind keptThere (walk.dist t layer entry keptThere startThere)
    fun u value keptLater later => ?_
  have startLater := walk.stable later keptLater startThere
  have active := VisitedSet.beginPass_active visited n
  refine (searchLoop_secure walk ef searchBound _ _ _ keptLater ⟨?_, ?_, ?_, ?_, ?_⟩ ?_).mono
    fun v result _ ⟨last, there⟩ => ⟨d.rely_trans (d.rely_trans moved later) last, there⟩
  · exact VisitedSet.mark_active active entry
  · intro n member
    rw [List.mem_singleton.mp member]
    exact startLater
  · intro n member
    rw [List.mem_singleton.mp member]
    exact startLater
  · intro n member
    rw [List.mem_singleton.mp member]
    exact (VisitedSet.mark_marked active entry entry).mpr (.inl rfl)
  · exact List.nodup_singleton _
  · refine walk.bounded.imp id fun below => ?_
    have uses := VisitedSet.unmarked_mark_lt active (VisitedSet.beginPass_marked visited n entry)
      (below layer s entry start)
    have total := ((visited.beginPass n)).unmarked_le
    simp only [List.length_cons, List.length_nil, searchBound]
    omega

end Hnsw

end Vektordb
