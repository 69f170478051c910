import Vektordb.Hnsw.Interleaving
import Vektordb.Hnsw.Sequential

/-!
Indexes that were built by inserts one after another, in any order of their ids and with any
levels. `build` inserts the ids in their order.
-/

namespace Vektordb

open Interaction

namespace Hnsw

/-- The index after inserts that do not overlap. The head of the list is the last id. -/
inductive Built (d : Distances) (config : HnswConfig) : List Nat → Hnsw → Prop
  | new {g : Hnsw} (opened : Hnsw.new config = .ok g) : Built d config [] g
  | insert {ids : List Nat} {g after : Hnsw} {id level : Nat} (visited : VisitedSet)
      (before : Built d config ids g) (fresh : id ∉ ids) (inside : id < SegVec.CAPACITY)
      (small : level < 255)
      (ran : (insert g.config id level visited).run (handle d) 0 g = .done after ()) :
      Built d config (id :: ids) after

def soleOwner (id : Nat) : Owners where
  owns i x := i = 0 ∧ x = id
  disjoint _ _ _ apart mine theirs := apart (mine.1.trans theirs.1.symm)

/-- What an insert that runs alone leaves. -/
theorem insert_layered {d : Distances} {g after : Hnsw} {id level : Nat} {visited : VisitedSet}
    (layered : Layered g) (fresh : g.nodes.get id = none) (inside : id < SegVec.CAPACITY)
    (small : level < 255)
    (ran : (insert g.config id level visited).run (handle d) 0 g = .done after ()) :
    Layered after ∧ Grows g after ∧ Inserted after id level ∧
      ∀ x, (after.nodes.get x).isSome = true → (g.nodes.get x).isSome = true ∨ x = id := by
  let before : Nat → Prop := fun x => (g.nodes.get x).isSome = true
  have kept : Owned (soleOwner id) before g := ⟨layered, fun x present => .inl present⟩
  have secure := (layerDiscipline_hosts d (soleOwner id) before 0 id g.config).insert_secure level
    visited kept ⟨rfl, rfl⟩ fresh inside small
  have assumed : (insert g.config id level visited).Along (handle d) 0
      ((layerDiscipline (soleOwner id) before).assumes 0) g :=
    Prog.Along.always (fun _ _ => trivial) _ g
  obtain ⟨keptAfter, inserted⟩ := secure.run_post kept assumed ran
  have contains : ∀ {a b}, (layerDiscipline (soleOwner id) before).guar 0 a b → Grows a b :=
    fun guaranteed => guaranteed.1
  have grows : Grows g after := secure.run_rel Grows.refl Grows.trans contains kept assumed ran
  refine ⟨keptAfter.layered, grows, inserted, ?_⟩
  intro x present
  rcases keptAfter.owned x present with old | ⟨_, -, rfl⟩
  · exact .inl old
  · exact .inr rfl

structure Contains (ids : List Nat) (g : Hnsw) : Prop where
  layered : Layered g
  bounded : Bounded g
  nodes : ∀ x, (g.nodes.get x).isSome = true ↔ x ∈ ids
  entry : g.entry = ENTRY_NONE ↔ ids = []

theorem Built.contains {d : Distances} {config : HnswConfig} {ids : List Nat} {g : Hnsw}
    (built : Built d config ids g) : Contains ids g := by
  induction built with
  | new opened =>
      obtain ⟨layered, -, empty⟩ := layered_new opened
      refine ⟨layered, bounded_new opened, ?_, ?_⟩
      · intro x
        rw [empty x]
        exact ⟨nofun, nofun⟩
      · unfold Hnsw.new at opened
        split at opened
        · cases opened
          exact ⟨fun _ => rfl, fun _ => rfl⟩
        · cases opened
  | @insert ids g after id level visited _ fresh inside small ran ih =>
      have free : g.nodes.get id = none := by
        rw [← Option.not_isSome_iff_eq_none, ih.nodes id]
        exact fresh
      obtain ⟨layered, grows, inserted, only⟩ := insert_layered ih.layered free inside small ran
      obtain ⟨after', ran', kept, -⟩ :=
        insert_kept d visited ih.layered free inside small
      rw [ran] at ran'
      cases ran'
      refine ⟨layered, kept.bounded ih.bounded, ?_, ⟨fun none => absurd none inserted.2.1, nofun⟩⟩
      intro x
      rw [List.mem_cons]
      constructor
      · intro present
        exact (only x present).symm.imp_right (ih.nodes x).mp
      · rintro (rfl | old)
        · obtain ⟨node, held, -⟩ := inserted.1
          rw [show after.nodes.get x = some node from held]
          rfl
        · obtain ⟨node, held⟩ := Option.isSome_iff_exists.mp ((ih.nodes x).mpr old)
          obtain ⟨later, heldLater, -⟩ := grows.level x node.level ⟨node, held, rfl⟩
          rw [heldLater]
          rfl

theorem build_built {d : Distances} {level : Nat → Nat} {config : HnswConfig} {n : Nat} {g : Hnsw}
    (small : ∀ id, level id < 255) (built : build d level config n = some g) :
    Built d config (List.range n).reverse g := by
  induction n generalizing g with
  | zero =>
      simp only [build] at built
      cases opened : Hnsw.new config with
      | error e => rw [opened] at built; cases built
      | ok first =>
          rw [opened] at built
          cases built
          exact .new opened
  | succ n ih =>
      obtain ⟨before, builtBefore, done⟩ := Option.bind_eq_some_iff.mp built
      obtain ⟨-, inside⟩ := build_sound small built
      rw [List.range_succ, List.reverse_append, List.reverse_singleton, List.singleton_append]
      unfold insertAlone at done
      split at done
      · rename_i ran
        cases done
        refine .insert VisitedSet.new (ih builtBefore) ?_ inside (small n) ran
        rw [List.mem_reverse, List.mem_range]
        exact Nat.lt_irrefl n
      · cases done

end Hnsw

end Vektordb
