import Vektordb.Hnsw.LayerSafety

/-!
Where a search can be led. `Stands` collects the nodes that the descent and the layer searches may
stand on, and a trail to one of them gives an oracle under which the greedy descent follows it:
each node of the trail is closer than the ones before.
-/

namespace Vektordb

open Interaction

namespace Hnsw

def listAt (g : Hnsw) (layer id : Nat) : Option (List Nat) :=
  (g.nodes.get id).bind fun node => node.links[layer]?

theorem listAt_isSome {g : Hnsw} {layer id : Nat} :
    (g.listAt layer id).isSome = true ↔ g.HasLayer layer id := by
  constructor
  · intro some
    obtain ⟨list, present⟩ := Option.isSome_iff_exists.mp some
    obtain ⟨node, held, at_⟩ := Option.bind_eq_some_iff.mp present
    have below : layer < node.links.length := (List.getElem?_eq_some_iff.mp at_).1
    have length := node.links_length
    exact ⟨node, held, by omega⟩
  · rintro ⟨node, held, le⟩
    have length := node.links_length
    unfold listAt
    rw [held, Option.bind_some, List.getElem?_eq_getElem (by omega)]
    rfl

theorem run_links (d : Distances) (agent : Nat) (g : Hnsw) (layer id : Nat) {α : Type}
    (f : List Nat → Prog sig α) :
    (call (.links id layer) >>= f).run (handle d) agent g =
      match g.listAt layer id with
      | some list => (f list).run (handle d) agent g
      | none => .faulted := by
  change Prog.run (handle d) agent (.act (.links id layer : Action) f) g = _
  unfold listAt
  cases present : (g.nodes.get id).bind fun node => node.links[layer]? with
  | none => simp only [Prog.run, handle, present]
  | some list => simp only [Prog.run, handle, present]

/-- From the entry point along links and down the layers. -/
inductive Stands (g : Hnsw) : Nat → Nat → Prop
  | entry (some : g.entry ≠ ENTRY_NONE) : Stands g (unpackEntry g.entry).2 (unpackEntry g.entry).1
  | along {layer x y : Nat} {list : List Nat} (from_ : Stands g layer x)
      (present : g.listAt layer x = some list) (member : y ∈ list) : Stands g layer y
  | down {layer x : Nat} (from_ : Stands g (layer + 1) x) : Stands g layer x

theorem Stands.some {g : Hnsw} {layer x : Nat} (stands : Stands g layer x) :
    g.entry ≠ ENTRY_NONE := by
  induction stands with
  | entry some => exact some
  | along _ _ _ ih => exact ih
  | down _ ih => exact ih

/-- The way to a node, counted from its end: `node r` is reached with `r` links still to go, the
next of them on `layer (r - 1)`. -/
structure Trail (g : Hnsw) (low target n : Nat) (node layer : Nat → Nat) : Prop where
  start : node n = (unpackEntry g.entry).1
  finish : node 0 = target
  links : ∀ r < n, ∃ list, g.listAt (layer r) (node (r + 1)) = some list ∧ node r ∈ list
  low_le : ∀ r < n, low ≤ layer r
  le_top : ∀ r < n, layer r ≤ (unpackEntry g.entry).2
  falls : ∀ r s, r ≤ s → s < n → layer r ≤ layer s
  low_le_top : low ≤ (unpackEntry g.entry).2
  stands : ∀ r ≤ n, ∃ l, Stands g l (node r)

theorem Stands.trail {g : Hnsw} {low target : Nat} (stands : Stands g low target) :
    ∃ n node layer, Trail g low target n node layer := by
  induction stands with
  | entry some =>
      refine ⟨0, fun _ => (unpackEntry g.entry).1, fun _ => 0, rfl, rfl, ?_, ?_, ?_, ?_, le_rfl,
        fun _ _ => ⟨_, .entry some⟩⟩
      · intro r below
        exact absurd below (Nat.not_lt_zero r)
      · intro r below
        exact absurd below (Nat.not_lt_zero r)
      · intro r below
        exact absurd below (Nat.not_lt_zero r)
      · intro r s _ below
        exact absurd below (Nat.not_lt_zero s)
  | @along low x target list from_ present member ih =>
      obtain ⟨n, node, layer, trail⟩ := ih
      refine ⟨n + 1, fun r => r.casesOn target node, fun r => r.casesOn low layer, trail.start, rfl,
        ?_, ?_, ?_, ?_, trail.low_le_top, ?_⟩
      · intro r below
        cases r with
        | zero => exact ⟨list, by rw [← trail.finish] at present; exact present, member⟩
        | succ r => exact trail.links r (Nat.lt_of_succ_lt_succ below)
      · intro r below
        cases r with
        | zero => exact le_rfl
        | succ r => exact trail.low_le r (Nat.lt_of_succ_lt_succ below)
      · intro r below
        cases r with
        | zero => exact trail.low_le_top
        | succ r => exact trail.le_top r (Nat.lt_of_succ_lt_succ below)
      · intro r s le below
        cases s with
        | zero =>
            obtain rfl := Nat.le_zero.mp le
            exact le_rfl
        | succ s =>
            cases r with
            | zero => exact trail.low_le s (Nat.lt_of_succ_lt_succ below)
            | succ r => exact trail.falls r s (Nat.le_of_succ_le_succ le) (Nat.lt_of_succ_lt_succ below)
      · intro r le
        cases r with
        | zero => exact ⟨low, from_.along present member⟩
        | succ r => exact trail.stands r (Nat.le_of_succ_le_succ le)
  | down _ ih =>
      obtain ⟨n, node, layer, trail⟩ := ih
      exact ⟨n, node, layer, { trail with
        low_le := fun r below => Nat.le_of_succ_le (trail.low_le r below)
        low_le_top := Nat.le_of_succ_le trail.low_le_top }⟩

/-! ### The greedy walk under an oracle that ranks the nodes -/

def Ranks (oracle : Nat → F32) (rank : Nat → Nat) : Prop :=
  ∀ x y, (oracle x).lt (oracle y) = decide (rank x < rank y)

variable {oracle : Nat → F32} {rank : Nat → Nat}

theorem relax_ranked (ranks : Ranks oracle rank) (list : List Nat) (entry : Nat) (improved : Bool) :
    ∃ found flag, relax (T := sig) (fun x => .ret (oracle x)) list entry (oracle entry) improved =
        .ret (found, oracle found, flag) ∧
      rank found ≤ rank entry ∧ (∀ y ∈ list, rank found ≤ rank y) ∧
      (flag = false → found = entry ∧ improved = false) := by
  induction list generalizing entry improved with
  | nil =>
      refine ⟨entry, improved, rfl, le_rfl, ?_, fun unflagged => ⟨rfl, unflagged⟩⟩
      intro y member
      cases member
  | cons next rest ih =>
      have unfolded : relax (T := sig) (fun x => .ret (oracle x)) (next :: rest) entry (oracle entry)
          improved = if rank next < rank entry then
            relax (fun x => .ret (oracle x)) rest next (oracle next) true
          else relax (fun x => .ret (oracle x)) rest entry (oracle entry) improved := by
        simp only [relax, Prog.ret_bind, ranks next entry, decide_eq_true_eq]
      rw [unfolded]
      by_cases closer : rank next < rank entry
      · rw [if_pos closer]
        obtain ⟨found, flag, done, le, least, same⟩ := ih next true
        refine ⟨found, flag, done, by omega, ?_, ?_⟩
        · intro y member
          rcases List.mem_cons.mp member with rfl | later
          · exact le
          · exact least y later
        · intro unflagged
          cases (same unflagged).2
      · rw [if_neg closer]
        obtain ⟨found, flag, done, le, least, same⟩ := ih entry improved
        refine ⟨found, flag, done, le, ?_, same⟩
        intro y member
        rcases List.mem_cons.mp member with rfl | later
        · omega
        · exact least y later

theorem greedyLoop_ranked (ranks : Ranks oracle rank) {d : Distances} {agent layer : Nat}
    {g after : Hnsw} {fuel entry found : Nat} {best : F32}
    (done : (greedyLoop (fun x => .ret (oracle x)) layer fuel entry (oracle entry)).run
      (handle d) agent g = .done after (found, best)) :
    after = g ∧ best = oracle found ∧ rank found ≤ rank entry ∧
      ∃ list, g.listAt layer found = some list ∧ ∀ y ∈ list, rank found ≤ rank y := by
  induction fuel generalizing entry with
  | zero => cases done
  | succ fuel ih =>
      unfold greedyLoop at done
      rw [run_links] at done
      cases present : g.listAt layer entry with
      | none =>
          rw [present] at done
          cases done
      | some list =>
          rw [present] at done
          dsimp only at done
          obtain ⟨next, flag, relaxed, le, least, same⟩ := relax_ranked ranks list entry false
          rw [relaxed, Prog.ret_bind] at done
          dsimp only at done
          cases flag with
          | true =>
              rw [if_pos rfl] at done
              obtain ⟨unchanged, value, lower, listed⟩ := ih done
              exact ⟨unchanged, value, lower.trans le, listed⟩
          | false =>
              obtain ⟨rfl, -⟩ := same rfl
              rw [if_neg (by decide)] at done
              simp only [Prog.pure_eq, Prog.run_ret, Outcome.done.injEq, Prod.mk.injEq] at done
              obtain ⟨rfl, rfl, rfl⟩ := done
              exact ⟨rfl, rfl, le_rfl, list, present, least⟩

theorem layersAbove_succ {low top : Nat} (le : low ≤ top) :
    layersAbove low (top + 1) = (top + 1) :: layersAbove low top := by
  unfold layersAbove
  rw [Nat.succ_sub le, List.range'_concat, List.reverse_append, Nat.one_mul,
    show low + 1 + (top - low) = top + 1 by omega]
  rfl

theorem layersAbove_self (top : Nat) : layersAbove top top = [] := by
  unfold layersAbove
  rw [Nat.sub_self]
  rfl

theorem search_inv {d : Distances} {agent : Nat} {g after : Hnsw} {visited : VisitedSet} {k ef : Nat}
    {result : List Neighbor} (some : g.entry ≠ ENTRY_NONE)
    (ran : (searchWithOracle (fun x => .ret (oracle x)) visited k ef).run (handle d) agent g =
      .done after result) :
    ∃ middle found best visited' results,
      (descendLayers (T := sig) (fun x => .ret (oracle x)) (layersAbove 0 (unpackEntry g.entry).2)
        (unpackEntry g.entry).1 (oracle (unpackEntry g.entry).1)).run (handle d) agent g =
        .done middle (found, best) ∧
      (searchLayer (T := sig) (fun x => .ret (oracle x)) visited found (max ef k) 0).run (handle d)
        agent middle = .done after (visited', results) ∧
      result = results.take k := by
  obtain ⟨first, packed, loaded, ran⟩ := Prog.run_bind_inv ran
  cases loaded
  rw [if_neg some] at ran
  obtain ⟨second, d', scored, ran⟩ := Prog.run_bind_inv ran
  cases scored
  obtain ⟨middle, ⟨found, best⟩, descended, ran⟩ := Prog.run_bind_inv ran
  obtain ⟨last, ⟨visited', results⟩, searched, ran⟩ := Prog.run_bind_inv ran
  simp only [Prog.pure_eq, Prog.run_ret, Outcome.done.injEq] at ran
  obtain ⟨rfl, rfl⟩ := ran
  exact ⟨middle, found, best, visited', results, descended, searched, rfl⟩

/-- The ranks that a trail gives: the nodes of the trail are `node (rank x)`, and everything that
comes later on it ranks lower. -/
structure Trail.Ranked {g : Hnsw} {low target n : Nat} {node layer : Nat → Nat}
    (_ : Trail g low target n node layer) (rank : Nat → Nat) : Prop where
  le : ∀ r ≤ n, rank (node r) ≤ r
  node : ∀ x, rank x ≤ n → node (rank x) = x

/-- A guided descent that finishes follows the trail: below a layer it stands on a node from which
the trail goes on below that layer too, and it has read the target's list on every layer above
which the trail lies. -/
theorem descend_guided {g after : Hnsw} {low target n : Nat} {node layer : Nat → Nat}
    {trail : Trail g low target n node layer} (ranked : trail.Ranked rank)
    (ranks : Ranks oracle rank) {d : Distances} {agent bottom top entry found : Nat} {best : F32}
    (le : bottom ≤ top) (onTrail : rank entry ≤ n)
    (here : rank entry = 0 ∨ layer (rank entry - 1) ≤ top)
    (done : (descendLayers (fun x => .ret (oracle x)) (layersAbove bottom top) entry
      (oracle entry)).run (handle d) agent g = .done after (found, best)) :
    after = g ∧ best = oracle found ∧ rank found ≤ rank entry ∧
      (rank found = 0 ∨ layer (rank found - 1) ≤ bottom) ∧
      ∀ l, bottom < l → l ≤ top → (∀ r < n, l ≤ layer r) → g.HasLayer l target := by
  induction top, le using Nat.le_induction generalizing entry with
  | base =>
      rw [layersAbove_self] at done
      cases done
      refine ⟨rfl, rfl, le_rfl, here, ?_⟩
      intro l above below
      omega
  | succ top le ih =>
      rw [layersAbove_succ le] at done
      unfold descendLayers greedyDescend at done
      obtain ⟨middle, ⟨next, value⟩, walked, done⟩ := Prog.run_bind_inv done
      dsimp only at done
      obtain ⟨rfl, rfl, lower, list, present, least⟩ := greedyLoop_ranked ranks walked
      have onward : rank next = 0 ∨ layer (rank next - 1) ≤ top := by
        by_contra stuck
        obtain ⟨notEnd, above⟩ := not_or.mp stuck
        have atMost : layer (rank next - 1) ≤ top + 1 := by
          rcases here with ended | below
          · omega
          · exact (trail.falls _ _ (by omega) (by omega)).trans below
        have sameLayer : layer (rank next - 1) = top + 1 := by omega
        obtain ⟨links, listed, member⟩ := trail.links (rank next - 1) (by omega)
        rw [sameLayer, Nat.sub_add_cancel (by omega), ranked.node next (by omega),
          present] at listed
        cases listed
        have closer := least _ member
        have bound := ranked.le (rank next - 1) (by omega)
        omega
      obtain ⟨unchanged, same, further, below, read⟩ := ih (by omega) onward done
      refine ⟨unchanged, same, further.trans lower, below, ?_⟩
      intro l above within high
      rcases Nat.eq_or_lt_of_le within with rfl | less
      · have ended : rank next = 0 := by
          rcases onward with ended | stays
          · exact ended
          · by_contra some
            have bound := high (rank next - 1) (by omega)
            omega
        have atTarget : next = target := by
          rw [← ranked.node next (by omega), ended, trail.finish]
        rw [← atTarget]
        exact listAt_isSome.mp (by rw [present]; rfl)
      · exact read l above (Nat.le_of_lt_succ less) high

theorem lt_ofNat {a b : Nat} (smallA : a ≤ 0x7F800000) (smallB : b ≤ 0x7F800000) :
    (F32.ofNat a).lt (F32.ofNat b) = decide (a < b) := by
  have bits : ∀ {c}, c ≤ 0x7F800000 → (F32.ofNat c).bits.toNat = c := by
    intro c small
    simp only [F32.ofNat, UInt32.toNat_ofNat']
    omega
  simp only [F32.lt, F32.isNan, F32.signed, F32.negative, F32.magnitude, bits smallA, bits smallB]
  rw [Nat.mod_eq_of_lt (by omega), Nat.mod_eq_of_lt (by omega),
    decide_eq_false (by omega : ¬ 2 ^ 31 ≤ a), decide_eq_false (by omega : ¬ 2 ^ 31 ≤ b),
    decide_eq_false (by omega : ¬ 0x7F800000 < a), decide_eq_false (by omega : ¬ 0x7F800000 < b)]
  simp only [Bool.not_false, Bool.true_and, Bool.false_eq_true, if_false, Nat.cast_lt]

noncomputable def toGo (n : Nat) (node : Nat → Nat) (x : Nat) : Nat :=
  open Classical in if onTrail : ∃ r, r ≤ n ∧ node r = x then Nat.find onTrail else n + 1

theorem toGo_node {n r : Nat} (node : Nat → Nat) (le : r ≤ n) : toGo n node (node r) ≤ r := by
  classical
  have onTrail : ∃ s, s ≤ n ∧ node s = node r := ⟨r, le, rfl⟩
  unfold toGo
  rw [dif_pos onTrail]
  exact Nat.find_min' onTrail ⟨le, rfl⟩

theorem node_toGo {n x : Nat} {node : Nat → Nat} (le : toGo n node x ≤ n) :
    node (toGo n node x) = x := by
  classical
  by_cases onTrail : ∃ r, r ≤ n ∧ node r = x
  · unfold toGo
    rw [dif_pos onTrail]
    exact (Nat.find_spec onTrail).2
  · unfold toGo at le
    rw [dif_neg onTrail] at le
    omega

theorem toGo_le (n : Nat) (node : Nat → Nat) (x : Nat) : toGo n node x ≤ n + 1 := by
  classical
  by_cases onTrail : ∃ r, r ≤ n ∧ node r = x
  · obtain ⟨r, le, rfl⟩ := onTrail
    exact (toGo_node node le).trans (by omega)
  · unfold toGo
    rw [dif_neg onTrail]

noncomputable def score (n : Nat) (node : Nat → Nat) (x : Nat) : Nat :=
  ((Finset.range (toGo n node x)).image node).card

theorem score_lt {n x y : Nat} {node : Nat → Nat} (closer : toGo n node x < toGo n node y) :
    score n node x < score n node y := by
  have onTrail : toGo n node x ≤ n := by
    have bound := toGo_le n node y
    omega
  apply Finset.card_lt_card
  rw [Finset.ssubset_iff_of_subset (Finset.image_subset_image (Finset.range_mono closer.le))]
  refine ⟨x, Finset.mem_image.mpr ⟨toGo n node x, Finset.mem_range.mpr closer,
    node_toGo onTrail⟩, ?_⟩
  intro member
  obtain ⟨r, before, here⟩ := Finset.mem_image.mp member
  have least := Finset.mem_range.mp before
  have bound := toGo_node node (by omega : r ≤ n)
  rw [here] at bound
  omega

/-- A trail through few enough nodes can be forced on the greedy descent: there are as many finite
distances as nodes on it. -/
theorem Trail.guide {g : Hnsw} {low target n count : Nat} {node layer : Nat → Nat}
    (trail : Trail g low target n node layer) (inside : ∀ r ≤ n, node r < count)
    (few : count ≤ 0x7F800000) :
    ∃ oracle rank, trail.Ranked rank ∧ Ranks oracle rank ∧ rank target = 0 := by
  have bounded : ∀ x, score n node x ≤ count := by
    intro x
    have le := toGo_le n node x
    have within : (Finset.range (toGo n node x)).image node ⊆ Finset.range count := by
      intro y member
      obtain ⟨r, before, rfl⟩ := Finset.mem_image.mp member
      have below := Finset.mem_range.mp before
      exact Finset.mem_range.mpr (inside r (by omega))
    exact (Finset.card_le_card within).trans_eq (Finset.card_range count)
  refine ⟨fun x => F32.ofNat (score n node x), toGo n node, ⟨fun r le => toGo_node node le,
    fun x le => node_toGo le⟩, ?_, ?_⟩
  · intro x y
    rw [lt_ofNat ((bounded x).trans few) ((bounded y).trans few)]
    by_cases closer : toGo n node x < toGo n node y
    · rw [decide_eq_true closer, decide_eq_true (score_lt closer)]
    · have reverse : score n node y ≤ score n node x := by
        rcases Nat.eq_or_lt_of_le (Nat.le_of_not_lt closer) with same | further
        · unfold score
          rw [same]
        · exact (score_lt further).le
      rw [decide_eq_false closer, decide_eq_false (by omega)]
  · have bound := toGo_node node (Nat.zero_le n)
    rw [trail.finish] at bound
    omega

end Hnsw

end Vektordb
