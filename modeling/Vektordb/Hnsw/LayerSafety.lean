import Vektordb.Hnsw.Traversal
import Vektordb.Hnsw.Lists

/-!
Layer safety of the graph at every moment of an interleaving. `Safe` says in which states an
action may be performed; from a layered graph a safe action reaches a layered graph again,
and the program of an insert, interleaved with any others, performs safe actions only.
-/

namespace Vektordb

open Interaction

namespace Hnsw

def HasLayer (g : Hnsw) (layer id : Nat) : Prop :=
  ∃ node, g.nodes.get id = some node ∧ layer ≤ node.level

def HasLevel (g : Hnsw) (id level : Nat) : Prop :=
  ∃ node, g.nodes.get id = some node ∧ node.level = level

def entryLevel (g : Hnsw) : Nat := (unpackEntry g.entry).2

/-- Every link names another node that has the layer, and the entry pointer names a node at
that node's own level. -/
structure Layered (g : Hnsw) : Prop where
  links : ∀ id node layer list nb, g.nodes.get id = some node → node.links[layer]? = some list →
    nb ∈ list → nb ≠ id ∧ g.HasLayer layer nb
  levels : ∀ id level, g.HasLevel id level → level < 255
  entry : g.entry ≠ ENTRY_NONE →
    ∃ id level, g.HasLevel id level ∧ g.entry = packEntry id level

/-- Nodes stay with their levels and the entry only moves up. -/
structure Grows (g after : Hnsw) : Prop where
  config : after.config = g.config
  level : ∀ id level, g.HasLevel id level → after.HasLevel id level
  entry : g.entry ≠ ENTRY_NONE → after.entry ≠ ENTRY_NONE ∧ g.entryLevel ≤ after.entryLevel

theorem Grows.refl (g : Hnsw) : Grows g g := ⟨rfl, fun _ _ has => has, fun some => ⟨some, le_rfl⟩⟩

theorem Grows.trans {g middle after : Hnsw} (first : Grows g middle) (second : Grows middle after) :
    Grows g after :=
  ⟨second.config.trans first.config, fun id level has => second.level id level (first.level id level has),
    fun some => ⟨(second.entry (first.entry some).1).1,
      (first.entry some).2.trans (second.entry (first.entry some).1).2⟩⟩

theorem hasLayer_iff {g : Hnsw} {layer id : Nat} :
    g.HasLayer layer id ↔ ∃ level, g.HasLevel id level ∧ layer ≤ level := by
  constructor
  · rintro ⟨node, held, le⟩
    exact ⟨node.level, ⟨node, held, rfl⟩, le⟩
  · rintro ⟨level, ⟨node, held, rfl⟩, le⟩
    exact ⟨node, held, le⟩

theorem Grows.layer {g after : Hnsw} (grows : Grows g after) {layer id : Nat}
    (has : g.HasLayer layer id) : after.HasLayer layer id := by
  obtain ⟨level, hasLevel, le⟩ := hasLayer_iff.mp has
  exact hasLayer_iff.mpr ⟨level, grows.level id level hasLevel, le⟩

theorem HasLayer.lower {g : Hnsw} {low high id : Nat} (le : low ≤ high)
    (has : g.HasLayer high id) : g.HasLayer low id := by
  obtain ⟨node, held, bound⟩ := has
  exact ⟨node, held, le.trans bound⟩

theorem HasLevel.layer {g : Hnsw} {id level layer : Nat} (has : g.HasLevel id level)
    (le : layer ≤ level) : g.HasLayer layer id :=
  hasLayer_iff.mpr ⟨level, has, le⟩

theorem HasLayer.lt_capacity {g : Hnsw} {layer id : Nat} (has : g.HasLayer layer id) :
    id < SegVec.CAPACITY := by
  obtain ⟨node, held, -⟩ := has
  exact SegVec.get_lt held

theorem lt_two_pow_56 {id : Nat} (inside : id < SegVec.CAPACITY) : id < 2 ^ 56 := by
  rw [SegVec.CAPACITY_eq] at inside
  omega

theorem Layered.unpack {g : Hnsw} (layered : Layered g) {id level : Nat}
    (has : g.HasLevel id level) : unpackEntry (packEntry id level) = (id, level) := by
  have small := layered.levels id level has
  have inside := (has.layer le_rfl).lt_capacity
  exact unpackEntry_packEntry (lt_two_pow_56 inside) (by omega)

theorem Layered.pack_ne_none {g : Hnsw} (layered : Layered g) {id level : Nat}
    (has : g.HasLevel id level) : packEntry id level ≠ ENTRY_NONE :=
  packEntry_ne_none (lt_two_pow_56 (has.layer le_rfl).lt_capacity) (layered.levels id level has)

theorem Layered.entry_level {g : Hnsw} (layered : Layered g) (some : g.entry ≠ ENTRY_NONE) :
    g.HasLevel (unpackEntry g.entry).1 g.entryLevel := by
  obtain ⟨id, level, has, same⟩ := layered.entry some
  have parts := layered.unpack has
  unfold entryLevel
  rw [same, parts]
  exact has

/-! ### One action -/

/-- The states in which an action keeps the graph layered and stays inside its arrays. -/
def Safe (g : Hnsw) : Action → Prop
  | .publish id level => g.nodes.get id = none ∧ id < SegVec.CAPACITY ∧ level < 255
  | .entry => True
  | .claimEntry id level => g.HasLevel id level
  | .raiseEntry id level => g.HasLevel id level ∧ g.entry ≠ ENTRY_NONE
  | .len => True
  | .links id layer => g.HasLayer layer id
  | .distance base other => g.HasLayer 0 base ∧ g.HasLayer 0 other
  | .select candidates _ => ∀ n ∈ candidates, g.HasLayer 0 n.id
  | .linkOwn id layer chosen =>
      g.HasLayer layer id ∧ ∀ x ∈ chosen, x ≠ id ∧ g.HasLayer layer x
  | .linkBack nb layer id _ => nb ≠ id ∧ g.HasLayer layer nb ∧ g.HasLayer layer id

structure Advances (g after : Hnsw) : Prop where
  layered : Layered after
  grows : Grows g after

theorem Layered.same {g after : Hnsw} (layered : Layered g) (nodes : after.nodes = g.nodes)
    (entry : after.entry ≠ ENTRY_NONE →
      ∃ id level, g.HasLevel id level ∧ after.entry = packEntry id level) : Layered after := by
  have level : ∀ id level, after.HasLevel id level ↔ g.HasLevel id level := by
    intro id level
    unfold HasLevel
    rw [nodes]
  have layer : ∀ l id, after.HasLayer l id ↔ g.HasLayer l id := by
    intro l id
    unfold HasLayer
    rw [nodes]
  refine ⟨fun id node l list nb held present member => ?_,
    fun id lv has => layered.levels id lv ((level id lv).mp has), fun some => ?_⟩
  · rw [nodes] at held
    obtain ⟨other, has⟩ := layered.links id node l list nb held present member
    exact ⟨other, (layer l nb).mpr has⟩
  · obtain ⟨id, lv, has, same⟩ := entry some
    exact ⟨id, lv, (level id lv).mpr has, same⟩

theorem Layered.publish {g : Hnsw} (layered : Layered g) {id level : Nat} {nodes : SegVec Node}
    (fresh : g.nodes.get id = none) (small : level < 255)
    (done : g.nodes.set id (Node.new level) = some nodes) :
    Advances g { g with nodes := nodes } := by
  obtain ⟨-, -, get⟩ := SegVec.set_some done
  have old : ∀ x lv, g.HasLevel x lv → ({ g with nodes := nodes } : Hnsw).HasLevel x lv := by
    rintro x lv ⟨node, held, same⟩
    have other : x ≠ id := fun here => by rw [here, fresh] at held; cases held
    exact ⟨node, by rw [get, if_neg other, held], same⟩
  have grows : Grows g { g with nodes := nodes } := ⟨rfl, old, fun some => ⟨some, le_rfl⟩⟩
  refine ⟨⟨fun x node layer list nb held present member => ?_, fun x lv has => ?_,
    fun some => ?_⟩, grows⟩
  · simp only [get] at held
    split at held
    · cases held
      have empty : list = [] := List.eq_of_mem_replicate (List.mem_of_getElem? present)
      rw [empty] at member
      cases member
    · obtain ⟨other, has⟩ := layered.links x node layer list nb held present member
      exact ⟨other, grows.layer has⟩
  · obtain ⟨node, held, rfl⟩ := has
    simp only [get] at held
    split at held
    · cases held
      rw [Node.level_new]
      exact small
    · exact layered.levels x node.level ⟨node, held, rfl⟩
  · obtain ⟨x, lv, has, same⟩ := layered.entry some
    exact ⟨x, lv, old x lv has, same⟩

theorem Layered.rewrite {g after : Hnsw} (layered : Layered g) {id layer : Nat}
    {mutate : List Nat → List Nat}
    (valid : ∀ node cur, g.nodes.get id = some node → node.links[layer]? = some cur →
      ∀ nb ∈ mutate cur, nb ≠ id ∧ g.HasLayer layer nb)
    (done : g.rewriteLinks id layer mutate = some after) : Advances g after := by
  obtain ⟨node, cur, held, present, config, entry, -, get⟩ := rewriteLinks_some done
  have level : ∀ x lv, after.HasLevel x lv ↔ g.HasLevel x lv := by
    intro x lv
    unfold HasLevel
    rw [get]
    by_cases here : x = id
    · subst here
      rw [if_pos rfl, held]
      simp only [Option.some.injEq, exists_eq_left', Node.level_store]
    · rw [if_neg here]
  have layer' : ∀ l x, g.HasLayer l x → after.HasLayer l x := by
    intro l x has
    obtain ⟨lv, hasLevel, le⟩ := hasLayer_iff.mp has
    exact hasLayer_iff.mpr ⟨lv, (level x lv).mpr hasLevel, le⟩
  refine ⟨⟨fun x n l list nb heldThere presentThere member => ?_, fun x lv has =>
    layered.levels x lv ((level x lv).mp has), fun some => ?_⟩, ⟨config, fun x lv has =>
      (level x lv).mpr has, fun some => ?_⟩⟩
  · rw [get] at heldThere
    split at heldThere
    · rename_i here
      subst here
      cases heldThere
      rw [Node.getElem?_store] at presentThere
      split at presentThere
      · rename_i sameLayer
        subst sameLayer
        rw [present] at presentThere
        cases presentThere
        obtain ⟨other, has⟩ := valid node cur held present nb member
        exact ⟨other, layer' _ nb has⟩
      · obtain ⟨other, has⟩ := layered.links x node l list nb held presentThere member
        exact ⟨other, layer' l nb has⟩
    · obtain ⟨other, has⟩ := layered.links x n l list nb heldThere presentThere member
      exact ⟨other, layer' l nb has⟩
  · rw [entry] at some
    obtain ⟨x, lv, has, same⟩ := layered.entry some
    exact ⟨x, lv, (level x lv).mpr has, entry.trans same⟩
  · unfold entryLevel
    rw [entry]
    exact ⟨some, le_rfl⟩

theorem Layered.entryLevel_pack {g : Hnsw} (layered : Layered g) {id level : Nat}
    (has : g.HasLevel id level) :
    ({ g with entry := packEntry id level } : Hnsw).entryLevel = level :=
  congrArg Prod.snd (layered.unpack has)

theorem Layered.moveEntry {g : Hnsw} (layered : Layered g) {id level : Nat}
    (has : g.HasLevel id level) (higher : g.entry ≠ ENTRY_NONE → g.entryLevel ≤ level) :
    Advances g { g with entry := packEntry id level } := by
  refine ⟨layered.same rfl fun _ => ⟨id, level, has, rfl⟩, ⟨rfl, ?_, fun some =>
    ⟨layered.pack_ne_none has, ?_⟩⟩⟩
  · rintro x lv ⟨node, held, same⟩
    exact ⟨node, held, same⟩
  · rw [layered.entryLevel_pack has]
    exact higher some

theorem Advances.refl {g : Hnsw} (layered : Layered g) : Advances g g := ⟨layered, Grows.refl g⟩

theorem rewritten_ok {result : Option Hnsw} {after : Hnsw} {answer : Unit}
    (done : rewritten result = .ok after answer) : result = some after := by
  cases result with
  | none => cases done
  | some g =>
      cases done
      rfl

/-- One safe action keeps the graph layered and lets it grow. -/
theorem Layered.handle {g after : Hnsw} (layered : Layered g) {d : Distances} {agent : Nat}
    {action : Action} {answer : Answer action} (safe : g.Safe action)
    (done : handle d agent g action = .ok after answer) : Advances g after := by
  cases action with
  | publish id level =>
      simp only [Hnsw.handle] at done
      cases set : g.nodes.set id (Node.new level) with
      | none => rw [set] at done; cases done
      | some nodes =>
          rw [set] at done
          cases done
          exact layered.publish safe.1 safe.2.2 set
  | entry => cases done; exact .refl layered
  | claimEntry id level =>
      simp only [Hnsw.handle] at done
      split at done
      · rename_i none
        cases done
        exact layered.moveEntry safe fun some => absurd none some
      · cases done
        exact .refl layered
  | raiseEntry id level =>
      simp only [Hnsw.handle] at done
      split at done
      · rename_i higher
        cases done
        exact layered.moveEntry safe.1 fun _ => higher.le
      · cases done
        exact .refl layered
  | len => cases done; exact .refl layered
  | links id layer =>
      simp only [Hnsw.handle] at done
      split at done
      · cases done
        exact .refl layered
      · cases done
  | distance base other => cases done; exact .refl layered
  | select candidates m => cases done; exact .refl layered
  | linkOwn id layer chosen =>
      refine layered.rewrite (fun node cur held present nb member => ?_) (rewritten_ok done)
      rcases mem_ownLinks member with old | new
      · exact layered.links id node layer cur nb held present old
      · exact safe.2 nb new
  | linkBack nb layer id max =>
      refine layered.rewrite (fun node cur held present x member => ?_) (rewritten_ok done)
      rcases mem_backLinks member with old | new
      · exact layered.links nb node layer cur x held present old
      · rw [new]
        exact ⟨safe.1.symm, safe.2.2⟩

theorem Safe.answered {g : Hnsw} {d : Distances} {agent : Nat} {action : Action}
    (safe : g.Safe action) : ∃ after answer, handle d agent g action = .ok after answer := by
  cases action with
  | publish id level =>
      obtain ⟨nodes, set⟩ := SegVec.set_isSome (v := g.nodes) (Node.new level) safe.2.1
      exact ⟨{ g with nodes := nodes }, (), by simp only [handle, set]⟩
  | entry => exact ⟨_, _, rfl⟩
  | claimEntry id level =>
      simp only [handle]
      split <;> exact ⟨_, _, rfl⟩
  | raiseEntry id level =>
      simp only [handle]
      split <;> exact ⟨_, _, rfl⟩
  | len => exact ⟨_, _, rfl⟩
  | links id layer =>
      obtain ⟨node, held, le⟩ := safe
      have inside : layer < node.links.length := by
        rw [node.links_length]
        omega
      exact ⟨g, node.links[layer], by simp [handle, held, List.getElem?_eq_getElem inside]⟩
  | distance base other => exact ⟨_, _, rfl⟩
  | select candidates m => exact ⟨_, _, rfl⟩
  | linkOwn id layer chosen =>
      obtain ⟨node, held, le⟩ := safe.1
      obtain ⟨after, done⟩ := rewriteLinks_isSome (ownLinks chosen) held le
      exact ⟨after, (), by simp only [handle, done, rewritten]⟩
  | linkBack nb layer id max =>
      obtain ⟨node, held, le⟩ := safe.2.1
      obtain ⟨after, done⟩ := rewriteLinks_isSome (backLinks d nb id max) held le
      exact ⟨after, (), by simp only [handle, done, rewritten]⟩

theorem handle_fresh {g after : Hnsw} {d : Distances} {agent : Nat} {action : Action}
    {answer : Answer action} (done : handle d agent g action = .ok after answer) {x : Nat}
    (other : ∀ id level, action = .publish id level → x ≠ id)
    (fresh : g.nodes.get x = none) : after.nodes.get x = none := by
  have kept : ∀ {id layer mutate}, g.rewriteLinks id layer mutate = some after →
      after.nodes.get x = none := by
    intro id layer mutate rewrote
    obtain ⟨node, cur, held, -, -, -, -, get⟩ := rewriteLinks_some rewrote
    have apart : x ≠ id := fun here => by rw [here, held] at fresh; cases fresh
    rw [get, if_neg apart, fresh]
  cases action with
  | publish id level =>
      simp only [Hnsw.handle] at done
      cases set : g.nodes.set id (Node.new level) with
      | none => rw [set] at done; cases done
      | some nodes =>
          rw [set] at done
          cases done
          simp only [(SegVec.set_some set).2.2, if_neg (other id level rfl), fresh]
  | entry => cases done; exact fresh
  | claimEntry id level =>
      simp only [Hnsw.handle] at done
      split at done <;> (cases done; exact fresh)
  | raiseEntry id level =>
      simp only [Hnsw.handle] at done
      split at done <;> (cases done; exact fresh)
  | len => cases done; exact fresh
  | links id layer =>
      simp only [Hnsw.handle] at done
      split at done
      · cases done; exact fresh
      · cases done
  | distance base other => cases done; exact fresh
  | select candidates m => cases done; exact fresh
  | linkOwn id layer chosen => exact kept (rewritten_ok done)
  | linkBack nb layer id max => exact kept (rewritten_ok done)

end Hnsw

end Vektordb
