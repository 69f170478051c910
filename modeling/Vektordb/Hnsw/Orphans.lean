import Vektordb.Hnsw.Census
import Vektordb.Hnsw.Beam
import Vektordb.Hnsw.Built

/-!
Orphans, the nodes without incoming links on layer 0. A search starts layer 0 where its descent
ends, so an orphan is out of reach exactly if the upper layers do not lead to it.
-/

namespace Vektordb

open Interaction Smallest

namespace Hnsw

namespace Census

/-! ### The count on an index at rest -/

theorem countLinks_get {y k : Nat} (list : List Nat) {indeg : List Nat}
    (start : indeg[y]? = some (k % 2 ^ 32)) :
    (countLinks indeg list)[y]? = some ((k + list.count y) % 2 ^ 32) := by
  induction list generalizing indeg k with
  | nil => exact start
  | cons nb rest ih =>
      have unfolded : countLinks indeg (nb :: rest) =
          countLinks (indeg.modify nb fun count => (count + 1) % 2 ^ 32) rest := rfl
      rw [unfolded, List.count_cons]
      by_cases here : nb = y
      · have raised : (indeg.modify nb fun count => (count + 1) % 2 ^ 32)[y]? =
            some ((k + 1) % 2 ^ 32) := by
          rw [List.getElem?_modify, Option.map_eq_map, start, Option.map_some, if_pos here,
            Nat.mod_add_mod]
        rw [ih raised, if_pos (beq_iff_eq.mpr here), Nat.add_assoc, Nat.add_comm 1]
      · have same : (indeg.modify nb fun count => (count + 1) % 2 ^ 32)[y]? =
            some (k % 2 ^ 32) := by
          rw [List.getElem?_modify, Option.map_eq_map, start, Option.map_some, if_neg here]
        rw [ih same, if_neg (beq_iff_eq.not.mpr here), Nat.add_zero]

/-- The links to a node from the nodes in a range, on layer 0. -/
def inLinks (g : Hnsw) (y from_ left : Nat) : Nat :=
  ((List.range' from_ left).map fun x => ((g.listAt 0 x).getD []).count y).sum

theorem countFrom_run (d : Distances) {g : Hnsw} (agent : Nat) {n left : Nat} (from_ : Nat)
    (indeg : List Nat) (scans : List Scan)
    (lists : ∀ x < n, ∃ list, g.listAt 0 x = some list ∧ ∀ y ∈ list, y < n)
    (total : from_ + left = n) :
    ∃ scans' result, (countFrom n left from_ indeg).run (handle d) agent ⟨g, scans⟩ =
        .done ⟨g, scans'⟩ result ∧
      ∀ y k, indeg[y]? = some (k % 2 ^ 32) →
        result[y]? = some ((k + inLinks g y from_ left) % 2 ^ 32) := by
  induction left generalizing from_ indeg scans with
  | zero => exact ⟨scans, indeg, rfl, fun y k start => start⟩
  | succ left ih =>
      obtain ⟨list, present, room⟩ := lists from_ (by omega)
      have done : handle d agent ⟨g, scans⟩ (.tally n from_) =
          .ok ((⟨g, scans⟩ : Census).scan agent n (from_ + 1)) list := by
        simp only [handle, present]
        rw [if_pos room]
      obtain ⟨scans', result, ran, counted⟩ := ih (from_ + 1) (countLinks indeg list)
        ((⟨g, scans⟩ : Census).scan agent n (from_ + 1)).scans (by omega)
      refine ⟨scans', result, (Prog.run_act_ok done _).trans ran, ?_⟩
      intro y k start
      have split : inLinks g y from_ (left + 1) = list.count y + inLinks g y (from_ + 1) left := by
        unfold inLinks
        rw [List.range'_succ, List.map_cons, List.sum_cons, present]
        rfl
      rw [counted y _ (countLinks_get list start), split, Nat.add_assoc]

end Census

/-- No link of layer 0 leads to the node, and it is not the entry point. -/
def Orphan (g : Hnsw) (x : Nat) : Prop :=
  x ≠ (unpackEntry g.entry).1 ∧ ∀ i list, g.listAt 0 i = some list → x ∉ list

theorem inLinks_lt {g : Hnsw} (layered : Layered g) (bounded : Bounded g) {x : Nat}
    (inside : x < g.len) : Census.inLinks g x 0 g.len < g.len := by
  have once : ∀ y, ((g.listAt 0 y).getD []).count x ≤ 1 := by
    intro y
    cases present : g.listAt 0 y with
    | none => exact Nat.zero_le 1
    | some list =>
        obtain ⟨node, held, at_⟩ := Option.bind_eq_some_iff.mp present
        exact List.nodup_iff_count_le_one.mp (bounded y node 0 list held at_).1 x
  have own : ((g.listAt 0 x).getD []).count x < 1 := by
    cases present : g.listAt 0 x with
    | none => exact Nat.one_pos
    | some list =>
        obtain ⟨node, held, at_⟩ := Option.bind_eq_some_iff.mp present
        rw [Option.getD_some, Nat.lt_one_iff, List.count_eq_zero]
        exact fun member => (layered.links x node 0 list x held at_ member).1 rfl
  have member : x ∈ List.range' 0 g.len := List.mem_range'_1.mpr ⟨Nat.zero_le x, by omega⟩
  calc Census.inLinks g x 0 g.len
      < ((List.range' 0 g.len).map fun _ => 1).sum :=
        List.sum_lt_sum _ _ (fun y _ => once y) ⟨x, member, own⟩
    _ = g.len := by
        rw [List.map_const', List.sum_replicate, List.length_range', smul_eq_mul, Nat.mul_one]

theorem zeroIndegreeNodes_run {d : Distances} {g : Hnsw} (layered : Layered g)
    (dense : ∀ x, (g.nodes.get x).isSome = true ↔ x < g.len) (agent : Nat) :
    ∃ scans nodes, Census.zeroIndegreeNodes.run (Census.handle d) agent ⟨g, []⟩ =
      .done ⟨g, scans⟩ nodes ∧ ∀ x, x ∈ nodes ↔ x < g.len ∧ x ≠ (unpackEntry g.entry).1 ∧
        Census.inLinks g x 0 g.len % 2 ^ 32 = 0 := by
  have lists : ∀ x < g.len, ∃ list, g.listAt 0 x = some list ∧ ∀ y ∈ list, y < g.len := by
    intro x below
    obtain ⟨node, held⟩ := Option.isSome_iff_exists.mp ((dense x).mpr below)
    obtain ⟨list, present⟩ := HasLayer.listAt ⟨node, held, Nat.zero_le _⟩
    refine ⟨list, present, ?_⟩
    intro y linked
    obtain ⟨other, heldOther, at_⟩ := Option.bind_eq_some_iff.mp present
    obtain ⟨target, there, -⟩ := (layered.links x other 0 list y heldOther at_ linked).2
    exact SegVec.get_lt_len there
  obtain ⟨scans, indeg, ran, counted⟩ := Census.countFrom_run d agent 0
    (List.replicate g.len 0) ((⟨g, []⟩ : Census).scan agent g.len 0).scans lists (Nat.zero_add _)
  refine ⟨scans, (List.range g.len).filter fun i =>
    indeg[i]? = some 0 ∧ i ≠ (unpackEntry g.entry).1, ?_, ?_⟩
  · unfold Census.zeroIndegreeNodes
    have measured : (Census.call .measure).run (Census.handle d) agent ⟨g, []⟩ =
        .done ⟨g, ((⟨g, []⟩ : Census).scan agent g.len 0).scans⟩ g.len := rfl
    rw [Prog.run_bind_done measured, Prog.run_bind_done ran]
    rfl
  · intro x
    rw [List.mem_filter, List.mem_range, decide_eq_true_eq]
    apply and_congr_right
    intro below
    have started : (List.replicate g.len 0)[x]? = some (0 % 2 ^ 32) :=
      List.getElem?_replicate_of_lt below
    rw [counted x 0 started, Nat.zero_add, Option.some.injEq]
    exact and_comm

/-- With counters that do not wrap, a counted node is an orphan. -/
theorem orphan_of_inLinks {g : Hnsw} (layered : Layered g) (bounded : Bounded g)
    (few : g.len ≤ 2 ^ 32) {x : Nat}
    (inside : x < g.len) (other : x ≠ (unpackEntry g.entry).1)
    (counted : Census.inLinks g x 0 g.len % 2 ^ 32 = 0) : Orphan g x := by
  refine ⟨other, ?_⟩
  intro i list present member
  have has := listAt_isSome.mp (Option.isSome_iff_exists.mpr ⟨list, present⟩)
  obtain ⟨node, held, -⟩ := has
  have below : i < g.len := SegVec.get_lt_len held
  have none : Census.inLinks g x 0 g.len = 0 := by
    rw [Nat.mod_eq_of_lt ((inLinks_lt layered bounded inside).trans_le few)] at counted
    exact counted
  unfold Census.inLinks at none
  rw [List.sum_eq_zero_iff] at none
  have zero := none _ (List.mem_map_of_mem (List.mem_range'_1.mpr ⟨Nat.zero_le i, by omega⟩))
  rw [present] at zero
  exact List.count_eq_zero.mp zero member

/-! ### Which orphans a search finds -/

def Found (d : Distances) (g : Hnsw) (x : Nat) : Prop :=
  ∃ (oracle : Nat → F32) (visited : VisitedSet) (k ef : Nat) (result : List Neighbor),
    (searchWithOracle (fun y => .ret (oracle y)) visited k ef).run (handle d) 0 g = .done g result ∧
      x ∈ result.map Neighbor.id

theorem Orphan.above {g : Hnsw} {x : Nat} (orphan : Orphan g x) (stands : Stands g 0 x) :
    Stands g 1 x := by
  have cases_ : ∀ layer, layer = 0 → Stands g layer x → Stands g 1 x := by
    intro layer ground here
    cases here with
    | entry some => exact absurd rfl orphan.1
    | along _ present member =>
        subst ground
        exact absurd member (orphan.2 _ _ present)
    | down above =>
        subst ground
        exact above
  exact cases_ 0 rfl stands

theorem reads_ret (d : Distances) (g : Hnsw) (oracle : Nat → F32) :
    Reads (handle d) 0 (fun x => (.ret (oracle x) : Prog sig F32)) g g oracle where
  entry := rfl
  len := rfl
  links layer x list present := by
    unfold listAt at present
    have done : handle d 0 g (.links x layer) = .ok g list := by simp only [handle, present]
    exact (Prog.run_act_ok done _).trans rfl
  dist _ _ := rfl

theorem descent_inv {d : Distances} {g : Hnsw} {oracle : Nat → F32} {ep : Nat}
    (ran : (descent (T := sig) fun x => .ret (oracle x)).run (handle d) 0 g = .done g (some ep)) :
    ∃ best, (descendLayers (T := sig) (fun x => .ret (oracle x))
      (layersAbove 0 (unpackEntry g.entry).2) (unpackEntry g.entry).1
      (oracle (unpackEntry g.entry).1)).run (handle d) 0 g = .done g (ep, best) := by
  obtain ⟨first, packed, loaded, ran⟩ := Prog.run_bind_inv ran
  cases loaded
  by_cases empty : g.entry = ENTRY_NONE
  · rw [if_pos empty] at ran
    cases ran
  · rw [if_neg empty] at ran
    obtain ⟨second, d', scored, ran⟩ := Prog.run_bind_inv ran
    cases scored
    obtain ⟨middle, ⟨found, best⟩, descended, ran⟩ := Prog.run_bind_inv ran
    cases ran
    exact ⟨best, descended⟩

/-- A node of the upper layers is where some descent ends, and the search from there returns it. -/
theorem Stands.found {d : Distances} {g : Hnsw} (navigable : Navigable g)
    (inside : ∀ layer x, Stands g layer x → x < g.len) (few : g.len ≤ 0x7F800000) {x : Nat}
    (stands : Stands g 1 x) : Found d g x := by
  classical
  obtain ⟨n, node, layer, trail⟩ := stands.trail
  have through : ∀ r ≤ n, node r < g.len := by
    intro r le
    obtain ⟨l, here⟩ := trail.stands r le
    exact inside l _ here
  obtain ⟨oracle, rank, ranked, ranks, -⟩ := trail.guide through few
  obtain ⟨landing, descended, absent, onGround⟩ := descent_reads (reads_ret d g oracle) navigable
  have entered : g.entry ≠ ENTRY_NONE := Stands.some stands
  cases landing with
  | none => exact absurd (absent.mp rfl) entered
  | some ep =>
      obtain ⟨best, layers⟩ := descent_inv descended
      have onTrail : rank (unpackEntry g.entry).1 ≤ n := by
        rw [← trail.start]
        exact ranked.le n le_rfl
      have here : rank (unpackEntry g.entry).1 = 0 ∨
          layer (rank (unpackEntry g.entry).1 - 1) ≤ (unpackEntry g.entry).2 := by
        rcases Nat.eq_zero_or_pos (rank (unpackEntry g.entry).1) with ended | ahead
        · exact .inl ended
        · exact .inr (trail.le_top _ (by omega))
      obtain ⟨-, -, lower, ended, -⟩ :=
        descend_guided ranked ranks (Nat.zero_le _) onTrail here layers
      have atEnd : rank ep = 0 := by
        rcases ended with zero | ground
        · exact zero
        · by_contra ahead
          have above := trail.low_le (rank ep - 1) (by omega)
          omega
      have landed : ep = x := by rw [← ranked.node ep (by omega), atEnd, trail.finish]
      subst landed
      let reach := (List.range g.len).filter fun y => Reaches g 0 ep y
      have onLayer : Stands g 0 ep := onGround ep rfl
      have all : ∀ y, y ∈ reach ↔ ∃ e ∈ Option.some ep, Reaches g 0 e y := by
        intro y
        simp only [reach, List.mem_filter, List.mem_range, decide_eq_true_eq, Option.mem_def,
          Option.some.injEq, exists_eq_left']
        exact ⟨fun both => both.2, fun reaches => ⟨inside 0 y (onLayer.reaches reaches), reaches⟩⟩
      have room : reach.length ≤ g.len :=
        (List.length_filter_le _ _).trans_eq List.length_range
      have ran := searchWithOracle_exact (reads_ret d g oracle) navigable descended VisitedSet.new
        (List.nodup_range.filter _) all (room.trans (Nat.le_max_right g.len g.len))
      refine ⟨oracle, VisitedSet.new, g.len, g.len, _, ran, ?_⟩
      have member : ep ∈ reach := (all ep).mpr ⟨ep, rfl, .refl⟩
      have kept := Exact.nearest_perm oracle room
      rw [(kept.map Neighbor.id).mem_iff, Exact.ids_scored]
      exact member

/-- Which of the counted nodes searches leave out: those that the upper layers do not lead to, as
long as no counter wraps. The converse needs as many finite distances as there are nodes. -/
theorem orphans_unreachable_iff {d : Distances} {config : HnswConfig} {ids : List Nat} {g : Hnsw}
    (built : Built d config ids g) (dense : ∀ x, x ∈ ids ↔ x < g.len) (agent : Nat) :
    ∃ scans nodes, Census.zeroIndegreeNodes.run (Census.handle d) agent ⟨g, []⟩ =
        .done ⟨g, scans⟩ nodes ∧
      ∀ x ∈ nodes, (g.len ≤ 2 ^ 32 → ¬ Stands g 1 x → ¬ Found d g x) ∧
        (g.len ≤ 0x7F800000 → ¬ Found d g x → ¬ Stands g 1 x) := by
  have contains := built.contains
  have published : ∀ x, (g.nodes.get x).isSome = true ↔ x < g.len := fun x =>
    (contains.nodes x).trans (dense x)
  obtain ⟨scans, nodes, ran, counted⟩ := zeroIndegreeNodes_run (d := d) contains.layered published
    agent
  have navigable := contains.layered.navigable
  have inside : ∀ layer x, Stands g layer x → x < g.len := by
    intro layer x stands
    obtain ⟨node, held, -⟩ := navigable layer x stands
    exact SegVec.get_lt_len held
  refine ⟨scans, nodes, ran, ?_⟩
  intro x member
  obtain ⟨below, other, zero⟩ := (counted x).mp member
  constructor
  · rintro few apart ⟨oracle, visited, k, ef, result, searched, returned⟩
    have orphan := orphan_of_inLinks contains.layered contains.bounded few below other zero
    obtain ⟨result', same, among⟩ := search_done navigable d oracle visited k ef
    rw [searched] at same
    cases same
    obtain ⟨n, here, rfl⟩ := List.mem_map.mp returned
    exact apart (orphan.above (among n here))
  · intro few unfound stands
    exact unfound (stands.found navigable inside few)

def squares : List Nat :=
  [0, 0x3F800000, 0x40800000, 0x41100000, 0x41800000, 0x41C80000, 0x42100000, 0x42440000,
    0x42800000, 0x42A20000]

def onLine (a b : Nat) : F32 :=
  let at_ := fun id => [5, 5, 1, 10, 7, 4].getD id 0
  F32.ofNat (squares.getD (at_ a - at_ b + (at_ b - at_ a)) 0)

def lineLevel (id : Nat) : Nat := if id % 3 = 0 ∧ id ≤ 3 then 1 else 0

theorem line_built : ∃ g, Built onLine ⟨2, 2, .l2⟩ (List.range 6).reverse g ∧ g.len = 6 ∧
    ∃ scans, Census.zeroIndegreeNodes.run (Census.handle onLine) 0 ⟨g, []⟩ =
      .done ⟨g, scans⟩ [3] ∧ Found onLine g 3 := by
  have small : ∀ id, lineLevel id < 255 := by
    intro id
    unfold lineLevel
    split
    · decide
    · decide
  have computed : (build onLine lineLevel ⟨2, 2, .l2⟩ 6).map (fun g =>
      (g.len, (Census.zeroIndegreeNodes.run (Census.handle onLine) 0 ⟨g, []⟩).answer,
        ((searchWithOracle (T := sig) (fun y => .ret (onLine 3 y)) VisitedSet.new 1 1).run
          (handle onLine) 0 g).answer)) =
      some (6, some [3], some [⟨3, F32.ofNat 0⟩]) := by decide +kernel
  obtain ⟨g, built, shown⟩ := Option.map_eq_some_iff.mp computed
  obtain ⟨length, rest⟩ := Prod.mk.inj shown
  obtain ⟨counted, returned⟩ := Prod.mk.inj rest
  have inOrder := build_built small built
  have contains := inOrder.contains
  have published : ∀ x, (g.nodes.get x).isSome = true ↔ x < g.len := by
    intro x
    rw [contains.nodes x, length, List.mem_reverse, List.mem_range]
  obtain ⟨scans, nodes, ran, -⟩ := zeroIndegreeNodes_run (d := onLine) contains.layered published 0
  obtain ⟨result, searched, -⟩ := search_done contains.layered.navigable onLine (onLine 3)
    VisitedSet.new 1 1
  rw [ran] at counted
  rw [searched] at returned
  cases counted
  cases returned
  exact ⟨g, inOrder, length, scans, ran, onLine 3, VisitedSet.new, 1, 1, _, searched, by decide⟩

/-- Node 3 is counted, and the query at its own place finds it with `ef = 1`. -/
theorem orphan_found : ¬ ∀ (d : Distances) (config : HnswConfig) (ids : List Nat) (g : Hnsw),
    Built d config ids g → ∀ scans nodes,
      Census.zeroIndegreeNodes.run (Census.handle d) 0 ⟨g, []⟩ = .done ⟨g, scans⟩ nodes →
        ∀ x ∈ nodes, ¬ Found d g x := by
  intro all
  obtain ⟨g, built, -, scans, ran, found⟩ := line_built
  exact all onLine _ _ g built scans [3] ran 3 (List.mem_singleton_self 3) found

theorem orphans_unreachable_iff_line : ∃ g scans nodes,
    Census.zeroIndegreeNodes.run (Census.handle onLine) 0 ⟨g, []⟩ = .done ⟨g, scans⟩ nodes ∧
      ∀ x ∈ nodes, (g.len ≤ 2 ^ 32 → ¬ Stands g 1 x → ¬ Found onLine g x) ∧
        (g.len ≤ 0x7F800000 → ¬ Found onLine g x → ¬ Stands g 1 x) := by
  obtain ⟨g, built, length, -⟩ := line_built
  have dense : ∀ x, x ∈ (List.range 6).reverse ↔ x < g.len := by
    intro x
    rw [length, List.mem_reverse, List.mem_range]
  exact ⟨g, orphans_unreachable_iff built dense 0⟩

end Hnsw

end Vektordb
