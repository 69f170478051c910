import Vektordb.Hnsw.Orphans

/-!
Searches with a record of the evaluated nodes: what a beam returns, over any graph whose links stay
in range and on their layers. The record has the last evaluated id first.
-/

namespace Vektordb

open Interaction Smallest

namespace Hnsw

/-- The links of a layer lead to nodes of that layer. A node may link to itself, and to another one
more than once. -/
def Respects (g : Hnsw) : Prop :=
  ∀ layer x list y, g.listAt layer x = some list → y ∈ list → g.HasLayer layer y

def Enters (g : Hnsw) : Prop :=
  g.entry ≠ ENTRY_NONE → g.HasLayer (unpackEntry g.entry).2 (unpackEntry g.entry).1

theorem Layered.respects {g : Hnsw} (layered : Layered g) : Respects g := by
  intro layer x list y present member
  have ⟨node, held, at_⟩ := Option.bind_eq_some_iff.mp present
  exact (layered.links x node layer list y held at_ member).2

theorem Layered.enters {g : Hnsw} (layered : Layered g) : Enters g :=
  fun some => (layered.entry_level some).layer le_rfl

theorem Respects.reaches {g : Hnsw} (respects : Respects g) {layer ep x : Nat}
    (here : g.HasLayer layer ep) (reaches : Reaches g layer ep x) : g.HasLayer layer x := by
  induction reaches with
  | refl => exact here
  | tail _ link _ =>
      have ⟨list, present, member⟩ := link
      exact respects layer _ list _ present member

theorem Respects.navigable {g : Hnsw} (respects : Respects g) (enters : Enters g) :
    Navigable g := by
  intro layer x stands
  induction stands with
  | entry some => exact enters some
  | along _ present member _ => exact respects _ _ _ _ present member
  | down _ above => exact above.lower (Nat.le_succ _)

/-- The index and the ids at which the oracle was asked. -/
structure Probe where
  graph : Hnsw
  evaluated : List Nat

namespace Probe

inductive Action where
  | index (action : Hnsw.Action)
  /-- `dist(id)` -/
  | evaluate (id : Nat)

abbrev Answer : Action → Type
  | .index action => Hnsw.Answer action
  | .evaluate _ => F32

abbrev sig : Sig := ⟨Action, Answer⟩

instance supportsIndex : Supports Hnsw.sig sig := ⟨fun action => .act (.index action) .ret⟩

def handle (d : Distances) (oracle : Nat → F32) : Handler sig Probe
  | agent, s, .index action =>
      match Hnsw.handle d agent s.graph action with
      | .ok graph answer => .ok { s with graph := graph } answer
      | .blocked => .blocked
      | .fault => .fault
  | _, s, .evaluate id => .ok { s with evaluated := id :: s.evaluated } (oracle id)

def dist (id : Nat) : Prog sig F32 := .act (.evaluate id) .ret

variable {d : Distances} {oracle : Nat → F32} {agent : Nat} {g : Hnsw}

theorem evaluates (d : Distances) (oracle : Nat → F32) (agent : Nat) (g : Hnsw) :
    Evaluates (handle d oracle) agent dist (fun log => ⟨g, log⟩) g oracle where
  entry _ := rfl
  len _ := rfl
  links log layer x list present := by
    unfold listAt at present
    have done : handle d oracle agent ⟨g, log⟩ (.index (.links x layer)) = .ok ⟨g, log⟩ list := by
      simp only [handle, Hnsw.handle, present]
    exact (Prog.run_act_ok done _).trans rfl
  dist _ _ _ := rfl

end Probe

theorem Respects.reach {g : Hnsw} (respects : Respects g) {layer ep : Nat}
    (here : g.HasLayer layer ep) :
    ∃ reach : List Nat, reach.Nodup ∧ ∀ x, x ∈ reach ↔ Reaches g layer ep x := by
  classical
  refine ⟨(List.range SegVec.CAPACITY).filter fun x => Reaches g layer ep x,
    List.nodup_range.filter _, ?_⟩
  intro x
  rw [List.mem_filter, List.mem_range, decide_eq_true_iff]
  exact ⟨And.right, fun reaches => ⟨(respects.reaches here reaches).lt_capacity, reaches⟩⟩

/-- What a search of one layer from `ep` returns, having evaluated the nodes `evaluated`: as many of
the nodes it reaches as the beam takes, and by their distances the smallest of the evaluated ones. -/
structure BeamOf (g : Hnsw) (layer ep ef : Nat) (oracle : Nat → F32) (evaluated : List Nat)
    (results : List Neighbor) : Prop where
  count : ∃ reach : List Nat, reach.Nodup ∧ (∀ x, x ∈ reach ↔ Reaches g layer ep x) ∧
    results.length = min ef reach.length
  distinct : (results.map Neighbor.id).Nodup
  own : ∀ n ∈ results, n.id ∈ evaluated ∧ n.distance = oracle n.id
  once : evaluated.Nodup
  reached : ∀ x ∈ evaluated, Reaches g layer ep x
  smallest : results.map Neighbor.amount =
    smallest ef (evaluated.map fun x => (oracle x).signed)
  leftOut : ∀ x ∈ evaluated, x ∉ results.map Neighbor.id → ∀ n ∈ results,
    (oracle x).lt n.distance = false

namespace Passed

variable {g : Hnsw} {layer ep ef : Nat} {oracle : Nat → F32} {seen : List Nat} {results : Heap}

theorem own (passed : Passed g layer ep ef oracle seen results) {n : Neighbor}
    (member : n ∈ results) : n.id ∈ seen ∧ n.distance = oracle n.id := by
  have ⟨x, there, same⟩ := List.mem_map.mp (passed.retains.subset member)
  rw [← same]
  exact ⟨there, rfl⟩

theorem distinctIds (passed : Passed g layer ep ef oracle seen results) :
    (results.map Neighbor.id).Nodup := by
  have ⟨left, parts, _⟩ := passed.retains.others
  have ids := parts.map Neighbor.id
  rw [Exact.ids_scored, List.map_append] at ids
  exact (ids.nodup_iff.mpr passed.distinct).of_append_left

theorem beamOf (passed : Passed g layer ep ef oracle seen results)
    (finite : ∃ reach : List Nat, reach.Nodup ∧ ∀ x, x ∈ reach ↔ Reaches g layer ep x) :
    BeamOf g layer ep ef oracle seen results where
  count := by
    have ⟨reach, distinct, all⟩ := finite
    exact ⟨reach, distinct, all, passed.count distinct all⟩
  distinct := passed.distinctIds
  own _ := passed.own
  once := passed.distinct
  reached := passed.reached
  smallest := by
    rw [passed.retains.keys Neighbor.amount_mono, Exact.scored, List.map_map]
    rfl
  leftOut := by
    intro x member out n kept
    apply F32.not_lt_of_signed
    have offered : (⟨x, oracle x⟩ : Neighbor) ∈ Exact.scored oracle seen :=
      List.mem_map.mpr ⟨x, member, rfl⟩
    exact passed.retains.leftOut kept offered fun there =>
      out (List.mem_map.mpr ⟨_, there, rfl⟩)

end Passed

/-- A beam search returns as many distinct nodes as it can, each with its own distance, and these
are the smallest ones that it has evaluated; a search of the index returns the first `k` of them by
distance and id. -/
theorem searchLayer_beamOf (d : Distances) (g : Hnsw) (respects : Respects g)
    (oracle : Nat → F32) (numbers : ∀ x, (oracle x).isNan = false) (agent : Nat)
    (visited : VisitedSet) :
    (∀ layer ep ef, g.HasLayer layer ep → 1 ≤ ef → ∃ visited' evaluated results,
      (searchLayer Probe.dist visited ep ef layer).run (Probe.handle d oracle) agent ⟨g, []⟩ =
        .done ⟨g, evaluated⟩ (visited', results) ∧
      BeamOf g layer ep ef oracle evaluated results) ∧
    (Enters g → ∀ k ef, 1 ≤ max ef k → ∃ landing descended evaluated found,
      (descent Probe.dist).run (Probe.handle d oracle) agent ⟨g, []⟩ =
        .done ⟨g, descended⟩ landing ∧
      (landing = none ↔ g.entry = ENTRY_NONE) ∧
      (searchWithOracle Probe.dist visited k ef).run (Probe.handle d oracle) agent ⟨g, []⟩ =
        .done ⟨g, evaluated⟩ found ∧
      found.Pairwise (· < ·) ∧ (found.map Neighbor.id).Nodup ∧
      (∀ n ∈ found, n.distance = oracle n.id ∧ ∃ ep ∈ landing, Reaches g 0 ep n.id) ∧
      ∃ reach : List Nat, reach.Nodup ∧ (∀ x, x ∈ reach ↔ ∃ ep ∈ landing, Reaches g 0 ep x) ∧
        found.length = min k reach.length) := by
  have comparable (layer ep ef : Nat) : Comparable ef oracle (Reaches g layer ep) :=
    .inl fun x _ => numbers x
  have probed := Probe.evaluates d oracle agent g
  constructor
  · intro layer ep ef here positive
    have ⟨visited', seen, results, ran, passed⟩ := searchLayer_evaluates probed visited
      (fun x reaches => respects.reaches here reaches) positive (comparable layer ep ef) []
    rw [List.append_nil] at ran
    exact ⟨visited', seen, results, ran, passed.beamOf (respects.reach here)⟩
  · intro enters k ef positive
    have navigable := respects.navigable enters
    have ⟨landing, descended, walked, absent, stands⟩ := descent_evaluates probed navigable []
    cases landing with
    | none =>
        have nothing : (searchWithOracle Probe.dist visited k ef).run (Probe.handle d oracle) agent
            ⟨g, []⟩ = .done ⟨g, descended⟩ [] := by
          rw [searchWithOracle_eq, Prog.run_bind_done walked]
          rfl
        exact ⟨none, descended, descended, [], walked, absent, nothing, List.Pairwise.nil,
          List.nodup_nil, nofun, [], List.nodup_nil, fun x => ⟨nofun, nofun⟩, by simp⟩
    | some ep =>
        have here := navigable 0 ep (stands ep rfl)
        have ⟨visited', seen, results, ran, passed⟩ := searchLayer_evaluates probed visited
          (fun x reaches => respects.reaches here reaches) positive (comparable 0 ep (max ef k))
          descended
        have ⟨reach, distinct, all⟩ := respects.reach here
        have returned : (searchWithOracle Probe.dist visited k ef).run (Probe.handle d oracle) agent
            ⟨g, []⟩ = .done ⟨g, seen ++ descended⟩ (results.take k) := by
          rw [searchWithOracle_eq, Prog.run_bind_done walked]
          dsimp only
          rw [Prog.run_bind_done ran]
          rfl
        have increasing : results.Pairwise (· < ·) := by
          have apart : results.Nodup := passed.distinctIds.of_map
          exact (passed.retains.sorted.and apart).imp fun both => lt_of_le_of_ne both.1 both.2
        refine ⟨some ep, descended, seen ++ descended, results.take k, walked, absent, returned,
          increasing.sublist (List.take_sublist k results),
          passed.distinctIds.sublist ((List.take_sublist k results).map Neighbor.id), ?_,
          reach, distinct, ?_, ?_⟩
        · intro n member
          have own := passed.own (List.mem_of_mem_take member)
          exact ⟨own.2, ep, rfl, passed.reached n.id own.1⟩
        · intro x
          rw [all x]
          exact ⟨fun reaches => ⟨ep, rfl, reaches⟩,
            fun ⟨_, same, reaches⟩ => Option.some.inj same ▸ reaches⟩
        · rw [List.length_take, passed.count distinct all]
          omega

theorem onLine_number (a b : Nat) : (onLine a b).isNan = false := by
  have each : ∀ i < 10, (F32.ofNat (squares.getD i 0)).isNan = false := by decide
  unfold onLine
  dsimp only
  generalize [5, 5, 1, 10, 7, 4].getD a 0 - [5, 5, 1, 10, 7, 4].getD b 0 +
    ([5, 5, 1, 10, 7, 4].getD b 0 - [5, 5, 1, 10, 7, 4].getD a 0) = i
  by_cases inside : i < 10
  · exact each i inside
  · rw [List.getD_eq_default _ _ (not_lt.mp inside)]
    rfl

theorem searchLayer_beamOf_line : ∃ g, g.len = 6 ∧ g.HasLayer 0 3 ∧
    (∃ visited evaluated results,
      (searchLayer Probe.dist VisitedSet.new 3 2 0).run (Probe.handle onLine (onLine 4)) 0
        ⟨g, []⟩ = .done ⟨g, evaluated⟩ (visited, results) ∧
      BeamOf g 0 3 2 (onLine 4) evaluated results) ∧
    ∃ evaluated found, (searchWithOracle Probe.dist VisitedSet.new 2 1).run
        (Probe.handle onLine (onLine 4)) 0 ⟨g, []⟩ = .done ⟨g, evaluated⟩ found ∧
      found.Pairwise (· < ·) := by
  have ⟨g, built, length, _⟩ := line_built
  have layered := built.contains.layered
  have present : g.HasLayer 0 3 := by
    have held := (built.contains.nodes 3).mpr (by decide)
    have ⟨node, at_⟩ := Option.isSome_iff_exists.mp held
    exact ⟨node, at_, Nat.zero_le _⟩
  have ⟨layers, searches⟩ := searchLayer_beamOf onLine g layered.respects (onLine 4)
    (onLine_number 4) 0 VisitedSet.new
  have ⟨_, _, evaluated, found, _, _, ran, sorted, _⟩ := searches layered.enters 2 1 (by decide)
  exact ⟨g, length, present, layers 0 3 2 present (by decide), evaluated, found, ran, sorted⟩

end Hnsw

end Vektordb
