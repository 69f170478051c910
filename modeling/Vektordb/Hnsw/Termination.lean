import Vektordb.Hnsw.Probe

/-!
Traversals come to an end on every graph whose links stay in range and on their layers, whatever
the distances are: a descent because each round lowers one that is not a NaN, a search of a layer
because it asks for no distance twice.
-/

namespace Vektordb

open Interaction

namespace Hnsw

variable {g : Hnsw} {layer entry : Nat}

theorem Respects.stays (respects : Respects g) (layer : Nat) : Stays g layer (g.HasLayer layer) where
  ground _ here := here.lower (Nat.zero_le layer)
  linked x here := by
    obtain ⟨list, present⟩ := here.listAt
    exact ⟨list, present, fun y member => respects layer x list y present member⟩

structure LocalMinimum (g : Hnsw) (layer : Nat) (oracle : Nat → F32) (entry found : Nat)
    (best : F32) : Prop where
  onLayer : g.HasLayer layer found
  own : best = oracle found
  nearest : ∀ list, g.listAt layer found = some list → ∀ y ∈ list, (oracle y).lt best = false
  lower : found = entry ∨ best.lt (oracle entry) = true

theorem Settles.localMinimum {oracle : Nat → F32} {found : Nat} {best : F32}
    (settles : Settles g layer oracle (g.HasLayer layer) entry (oracle entry) found best) :
    LocalMinimum g layer oracle entry found best := by
  constructor
  case onLayer => exact settles.near
  case nearest => exact settles.nearest
  case own =>
      rcases settles.lower with ⟨rfl, same⟩ | ⟨own, -⟩
      · exact same
      · exact own
  case lower =>
      rcases settles.lower with ⟨same, -⟩ | ⟨-, closer⟩
      · exact .inl same
      · exact .inr closer

/-- Both traversals of a layer terminate: the descent at a local minimum that is no farther than its
start, and the search having evaluated each node at most once. -/
theorem traversals_terminate (d : Distances) (respects : Respects g) (oracle : Nat → F32)
    (agent : Nat) (here : g.HasLayer layer entry) :
    (∃ found best evaluated,
      (greedyDescend Probe.dist entry (oracle entry) layer).run (Probe.handle d oracle) agent
        ⟨g, []⟩ = .done ⟨g, evaluated⟩ (found, best) ∧
      LocalMinimum g layer oracle entry found best) ∧
    ∀ visited ef, ∃ visited' evaluated results,
      (searchLayer Probe.dist visited entry ef layer).run (Probe.handle d oracle) agent ⟨g, []⟩ =
        .done ⟨g, evaluated⟩ (visited', results) ∧
      evaluated.Nodup ∧ ∀ x ∈ evaluated, g.HasLayer layer x := by
  have probed := Probe.evaluates d oracle agent g
  have stays := respects.stays layer
  constructor
  · obtain ⟨found, best, evaluated, ran, settles⟩ :=
      greedyDescend_evaluates probed stays entry (oracle entry) [] here
    exact ⟨found, best, evaluated, ran, settles.localMinimum⟩
  · intro visited ef
    have passes := Trace.passes g layer ef oracle (g.HasLayer layer)
    obtain ⟨visited', seen, candidates, results, ran, trace, -, -⟩ := searchLayer_passes probed
      visited stays passes here (.start here visited g.len (oracle entry)) []
    rw [List.append_nil] at ran
    exact ⟨visited', seen, results, ran, trace.distinct, trace.near⟩

def looping : Hnsw where
  config := ⟨2, 4, .l2⟩
  nodes :=
    { slot := fun id => if id < 2 then some ⟨[[0, 1, 1]], by decide⟩ else none
      len := 2
      slot_lt := by
        intro id node held
        have below : id < 2 := by
          by_contra outside
          rw [if_neg outside] at held
          cases held
        exact ⟨below.trans (by decide), below⟩
      last := .inr rfl }
  entry := 0

theorem looping_respects : Respects looping := by
  intro layer x list y present member
  obtain ⟨node, held, at_⟩ := Option.bind_eq_some_iff.mp present
  have below : x < 2 := (looping.nodes.slot_lt x node held).2
  obtain rfl : (⟨[[0, 1, 1]], by decide⟩ : Node) = node := by
    change (if x < 2 then some _ else none) = some node at held
    rw [if_pos below] at held
    exact Option.some.inj held
  have inside : layer < 1 := (List.getElem?_eq_some_iff.mp at_).1
  obtain rfl : layer = 0 := by omega
  obtain rfl : [0, 1, 1] = list := Option.some.inj at_
  have small : y < 2 := by
    simp only [List.mem_cons, List.not_mem_nil, or_false] at member
    omega
  refine ⟨⟨[[0, 1, 1]], by decide⟩, ?_, Nat.zero_le _⟩
  change (if y < 2 then some _ else none) = some _
  rw [if_pos small]

theorem traversals_terminate_looping :
    (∃ found best evaluated,
      (greedyDescend Probe.dist 1 (F32.ofNat 1) 0).run
        (Probe.handle onLine fun x => if x = 0 then ⟨0x7FC00000⟩ else F32.ofNat 1) 0
        ⟨looping, []⟩ = .done ⟨looping, evaluated⟩ (found, best) ∧
      LocalMinimum looping 0 (fun x => if x = 0 then ⟨0x7FC00000⟩ else F32.ofNat 1) 1 found best) ∧
    ∀ visited ef, ∃ visited' evaluated results,
      (searchLayer Probe.dist visited 1 ef 0).run
        (Probe.handle onLine fun x => if x = 0 then ⟨0x7FC00000⟩ else F32.ofNat 1) 0
        ⟨looping, []⟩ = .done ⟨looping, evaluated⟩ (visited', results) ∧
      evaluated.Nodup ∧ ∀ x ∈ evaluated, looping.HasLayer 0 x :=
  traversals_terminate onLine looping_respects
    (fun x => if x = 0 then ⟨0x7FC00000⟩ else F32.ofNat 1) 0 ⟨_, rfl, Nat.zero_le _⟩

end Hnsw

end Vektordb
