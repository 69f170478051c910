import Vektordb.Hnsw.Region
import Vektordb.Hnsw.Guide

/-!
Graphs about which nothing is known but that the traversals cannot leave a region of them: every
node of the region has the layer, and its list on that layer names nodes of the region. A search
and an insert then read lists that are there.
-/

namespace Vektordb

open Interaction

namespace Hnsw

theorem rewriteLinks_listAt {g after : Hnsw} {id layer : Nat} {mutate : List Nat → List Nat}
    (done : g.rewriteLinks id layer mutate = some after) (l x : Nat) :
    after.listAt l x =
      if x = id ∧ l = layer then (g.listAt l x).map mutate else g.listAt l x := by
  obtain ⟨node, cur, held, present, -, -, -, get⟩ := rewriteLinks_some done
  unfold listAt
  rw [get]
  by_cases here : x = id
  · subst here
    rw [if_pos rfl, held, Option.bind_some, Option.bind_some, Node.getElem?_store]
    by_cases sameLayer : l = layer
    · subst sameLayer
      rw [if_pos rfl, if_pos ⟨rfl, rfl⟩, present]
      rfl
    · rw [if_neg sameLayer, if_neg (fun both => sameLayer both.2)]
  · rw [if_neg here, if_neg (fun both => here both.1)]

/-- The region `known` of a graph, closed under links; the entry point lies in it. -/
structure Closed (known : Nat → Nat → Prop) (g : Hnsw) : Prop where
  has : ∀ layer x, known layer x → g.HasLayer layer x
  links : ∀ layer x list, known layer x → g.listAt layer x = some list →
    ∀ y ∈ list, known layer y
  entry : g.entry ≠ ENTRY_NONE → known (unpackEntry g.entry).2 (unpackEntry g.entry).1

variable {known : Nat → Nat → Prop}

theorem Closed.rewrite {g after : Hnsw} {id layer : Nat} {mutate : List Nat → List Nat}
    (closed : Closed known g)
    (valid : ∀ cur, (∀ y ∈ cur, known layer y) → ∀ y ∈ mutate cur, known layer y)
    (done : g.rewriteLinks id layer mutate = some after) :
    Closed known after ∧ after.entry = g.entry := by
  obtain ⟨node, cur, held, present, -, entry, -, get⟩ := rewriteLinks_some done
  refine ⟨⟨?_, ?_, ?_⟩, entry⟩
  · intro l x inside
    rw [← listAt_isSome, rewriteLinks_listAt done]
    have before := listAt_isSome.mpr (closed.has l x inside)
    split
    · rw [Option.isSome_map]
      exact before
    · exact before
  · intro l x list inside at_ y member
    rw [rewriteLinks_listAt done] at at_
    split at at_
    · rename_i here
      obtain ⟨old, before, rfl⟩ := Option.map_eq_some_iff.mp at_
      obtain ⟨-, rfl⟩ := here
      exact valid old (closed.links l x old inside before) y member
    · exact closed.links l x list inside at_ y member
  · intro some
    rw [entry] at some ⊢
    exact closed.entry some

theorem Closed.setEntry {g after : Hnsw} (closed : Closed known g) {id level : Nat}
    (inside : id < SegVec.CAPACITY) (small : level < 255) (named : known level id)
    (nodes : after.nodes = g.nodes) (entry : after.entry = packEntry id level) :
    Closed known after := by
  have parts : unpackEntry after.entry = (id, level) := by
    rw [entry, unpackEntry_packEntry (lt_two_pow_56 inside) (by omega)]
  refine ⟨?_, ?_, ?_⟩
  · intro layer x here
    obtain ⟨node, held, le⟩ := closed.has layer x here
    exact ⟨node, nodes ▸ held, le⟩
  · intro layer x list here present
    unfold listAt at present
    rw [nodes] at present
    exact closed.links layer x list here present
  · intro _
    rw [parts]
    exact named

/-- `also` is what the calls do not change in the graph. -/
def closedDiscipline (known : Nat → Nat → Prop) (also : Hnsw → Prop) (d : Distances) :
    Discipline sig Hnsw where
  inv g := Closed known g ∧ also g
  rely _ s t := s.entry ≠ ENTRY_NONE → t.entry ≠ ENTRY_NONE
  guar _ s t := s.entry ≠ ENTRY_NONE → t.entry ≠ ENTRY_NONE
  assumes _ _ _ := True
  safe agent s action := ∃ t answer, handle d agent s action = .ok t answer
  mayStop := False
  rely_refl _ _ some := some
  rely_trans first second some := second (first some)
  guar_rely _ _ _ moved := moved

variable {also : Hnsw → Prop} {d : Distances} {agent : Nat}

theorem closed_secure (action : Action) (post : Hnsw → Answer action → Prop) {s : Hnsw}
    (steps : ∀ t, Closed known t → also t → (s.entry ≠ ENTRY_NONE → t.entry ≠ ENTRY_NONE) →
      ∃ u answer, handle d agent t action = .ok u answer ∧ Closed known u ∧ also u ∧
        (t.entry ≠ ENTRY_NONE → u.entry ≠ ENTRY_NONE) ∧
        ∀ v, (u.entry ≠ ENTRY_NONE → v.entry ≠ ENTRY_NONE) → Closed known v → post v answer) :
    Secure (handle d) (closedDiscipline known also d) agent post (call action) s := by
  apply Secure.act
  rintro t moved ⟨closed, kept⟩ _
  obtain ⟨u, answer, done, closedAfter, keptAfter, stays, holds⟩ := steps t closed kept moved
  refine ⟨⟨u, answer, done⟩, ?_⟩
  intro u' answer' done'
  rw [done] at done'
  cases done'
  refine ⟨⟨closedAfter, keptAfter⟩, stays, ?_⟩
  apply Secure.ret
  intro v later keptLater
  exact holds v later keptLater.1

theorem closed_read (action : Action) (post : Hnsw → Answer action → Prop) {s : Hnsw}
    (reads : ∀ t, Closed known t → (s.entry ≠ ENTRY_NONE → t.entry ≠ ENTRY_NONE) →
      ∃ answer, handle d agent t action = .ok t answer ∧
        ∀ v, (t.entry ≠ ENTRY_NONE → v.entry ≠ ENTRY_NONE) → Closed known v → post v answer) :
    Secure (handle d) (closedDiscipline known also d) agent post (call action) s := by
  apply closed_secure
  intro t closed kept moved
  obtain ⟨answer, done, holds⟩ := reads t closed moved
  exact ⟨t, answer, done, closed, kept, id, holds⟩

theorem closed_walkable {dist : Nat → Prog sig F32}
    (lower : ∀ {low high x}, low ≤ high → known high x → known low x)
    (inside : ∀ layer x, known layer x → x < SegVec.CAPACITY)
    (oracle : ∀ s x, Secure (handle d) (closedDiscipline known also d) agent
      (fun t _ => (closedDiscipline known also d).rely agent s t) (dist x) s) :
    Walkable (handle d) (closedDiscipline known also d) agent dist fun layer _ x => known layer x
    where
  stable _ _ here := here
  lower := lower
  len s _ := by
    apply closed_read
    intro t _ moved
    exact ⟨t.len, rfl, fun v later _ some => later (moved some)⟩
  links s layer x _ here := by
    apply closed_read
    intro t closed moved
    obtain ⟨list, present⟩ := Option.isSome_iff_exists.mp (listAt_isSome.mpr (closed.has layer x here))
    refine ⟨list, ?_, ?_⟩
    · unfold listAt at present
      simp only [handle, present]
    · intro v later _
      exact ⟨fun some => later (moved some), closed.links layer x list here present⟩
  dist s _ x _ _ := oracle s x
  bounded := .inr fun layer _ x here => inside layer x here

theorem closed_load {s : Hnsw} :
    Secure (handle d) (closedDiscipline known also d) agent
      (fun t packed => (packed ≠ ENTRY_NONE → t.entry ≠ ENTRY_NONE ∧
        known (unpackEntry packed).2 (unpackEntry packed).1) ∧
        (s.entry ≠ ENTRY_NONE → packed ≠ ENTRY_NONE)) (call .entry) s := by
  apply closed_read
  intro t closed moved
  exact ⟨t.entry, rfl, fun v later _ => ⟨fun some => ⟨later some, closed.entry some⟩, moved⟩⟩

theorem closed_linking {config : HnswConfig} {id level : Nat}
    (lower : ∀ {low high x}, low ≤ high → known high x → known low x)
    (inside : ∀ layer x, known layer x → x < SegVec.CAPACITY) (small : level < 255)
    (own : known level id) :
    Linking (handle d) (closedDiscipline known (fun _ => True) d) agent known
      (fun g => g.entry ≠ ENTRY_NONE) config id level where
  walk := closed_walkable lower inside fun s x => closed_read (.distance id x) _
    fun t _ moved => ⟨d id x, rfl, fun v later _ some => later (moved some)⟩
  entered_stable moved some := moved some
  load _ := closed_load.mono fun t packed _ ⟨named, seen⟩ =>
    ⟨fun some => (named some).1, fun some => (named (seen some)).2⟩
  claim _ := by
    apply closed_secure
    intro t closed _ _
    by_cases none : t.entry = ENTRY_NONE
    · refine ⟨{ t with entry := packEntry id level }, true, by simp only [handle, if_pos none],
        closed.setEntry (inside level id own) small own rfl rfl, trivial,
        fun some => absurd none some, ?_⟩
      intro v _ _ lost
      cases lost
    · exact ⟨t, false, by simp only [handle, if_neg none], closed, trivial, fun some => some,
        fun v later _ _ => later none⟩
  raise _ := by
    apply closed_secure
    intro t closed _ _
    by_cases higher : (unpackEntry t.entry).2 < level
    · exact ⟨{ t with entry := packEntry id level }, (), by simp only [handle, if_pos higher],
        closed.setEntry (inside level id own) small own rfl rfl, trivial,
        fun _ => packEntry_ne_none (lt_two_pow_56 (inside level id own)) small,
        fun _ _ _ => trivial⟩
    · exact ⟨t, (), by simp only [handle, if_neg higher], closed, trivial, fun some => some,
        fun _ _ _ => trivial⟩
  select layer found _ among distinct := by
    apply closed_read
    intro t _ _
    refine ⟨_, rfl, ?_⟩
    intro v _ _
    refine ⟨?_, selectNeighbors_nodup (distinct.sublist (List.filter_sublist.map Neighbor.id)),
      selectNeighbors_length d _ _⟩
    intro x member
    obtain ⟨n, offered, rfl⟩ := mem_selectNeighbors member
    exact among n (List.mem_of_mem_filter offered)
  own layer chosen _ le among _ _ := by
    apply closed_secure
    intro t closed _ _
    obtain ⟨node, held, bound⟩ := closed.has layer id (lower le own)
    obtain ⟨after, done⟩ := rewriteLinks_isSome (ownLinks chosen) held bound
    have valid : ∀ cur, (∀ y ∈ cur, known layer y) → ∀ y ∈ ownLinks chosen cur, known layer y := by
      intro cur old y member
      rcases mem_ownLinks member with before | new
      · exact old y before
      · exact among y new
    obtain ⟨closedAfter, entry⟩ := closed.rewrite valid done
    exact ⟨after, (), by simp only [handle, done, rewritten], closedAfter, trivial,
      fun some => entry.symm ▸ some, fun _ _ _ => trivial⟩
  back nb layer _ le here := by
    apply closed_secure
    intro t closed _ _
    obtain ⟨node, held, bound⟩ := closed.has layer nb here
    obtain ⟨after, done⟩ := rewriteLinks_isSome (backLinks d nb id (config.maxDegree layer)) held bound
    have valid : ∀ cur, (∀ y ∈ cur, known layer y) →
        ∀ y ∈ backLinks d nb id (config.maxDegree layer) cur, known layer y := by
      intro cur old y member
      rcases mem_backLinks member with before | rfl
      · exact old y before
      · exact lower le own
    obtain ⟨closedAfter, entry⟩ := closed.rewrite valid done
    exact ⟨after, (), by simp only [handle, done, rewritten], closedAfter, trivial,
      fun some => entry.symm ▸ some, fun _ _ _ => trivial⟩

/-! ### Calls that run alone -/

/-- What a loaded or built index has to be for searches and for the next insert. -/
structure Usable (g : Hnsw) : Prop where
  entered : 0 < g.len → g.entry ≠ ENTRY_NONE
  search : ∀ d (oracle : Nat → F32) visited k ef, ∃ result,
    (searchWithOracle (fun x => .ret (oracle x)) visited k ef).run (handle d) 0 g = .done g result ∧
      ∀ n ∈ result, n.id < g.len
  insert : ∀ d level visited, level < 255 → g.len < SegVec.CAPACITY → ∃ after,
    (insert g.config g.len level visited).run (handle d) 0 g = .done after ()

theorem Stands.lower {g : Hnsw} {low high x : Nat} (le : low ≤ high) (stands : Stands g high x) :
    Stands g low x := by
  induction high, le using Nat.le_induction with
  | base => exact stands
  | succ high _ ih => exact ih stands.down

theorem closed_stands {g : Hnsw} (navigable : ∀ layer x, Stands g layer x → g.HasLayer layer x) :
    Closed (Stands g) g where
  has := navigable
  links _ _ _ stands present _ member := stands.along present member
  entry some := .entry some

theorem search_done {g : Hnsw} (navigable : ∀ layer x, Stands g layer x → g.HasLayer layer x)
    (d : Distances) (oracle : Nat → F32) (visited : VisitedSet) (k ef : Nat) :
    ∃ result, (searchWithOracle (fun x => .ret (oracle x)) visited k ef).run (handle d) 0 g =
      .done g result ∧ ∀ n ∈ result, Stands g 0 n.id := by
  have closed := closed_stands navigable
  have walk : Walkable (handle d) (closedDiscipline (Stands g) (· = g) d) 0
      (fun x => (.ret (oracle x) : Prog sig F32)) fun layer _ x => Stands g layer x :=
    closed_walkable Stands.lower (fun layer x here => (navigable layer x here).lt_capacity)
      fun s x => Secure.ret fun t moved _ => moved
  have secure := searchWithOracle_known walk
    (fun _ => closed_load.mono fun t packed _ ⟨named, _⟩ some => (named some).2) visited k ef
    ⟨closed, rfl⟩
  obtain ⟨after, result, ran, ⟨-, same⟩, among⟩ := secure.run_done ⟨closed, rfl⟩
    (Prog.Along.always (fun _ _ => trivial) _ _) (fun stops => stops) fun t op _ answered => answered
  exact ⟨result, by rw [ran, same], among⟩

def withNode (g : Hnsw) (level : Nat) (layer x : Nat) : Prop :=
  Stands g layer x ∨ x = g.len ∧ layer ≤ level

theorem insert_done {g : Hnsw} (navigable : ∀ layer x, Stands g layer x → g.HasLayer layer x)
    (d : Distances) {level : Nat} (visited : VisitedSet) (small : level < 255)
    (room : g.len < SegVec.CAPACITY) :
    ∃ after, (insert g.config g.len level visited).run (handle d) 0 g = .done after () := by
  obtain ⟨nodes, set⟩ := SegVec.set_isSome (v := g.nodes) (Node.new level) room
  have get := (SegVec.set_some set).2.2
  have free : ∀ layer x, g.HasLayer layer x → x ≠ g.len := by
    rintro layer x ⟨node, held, -⟩ rfl
    exact absurd (SegVec.get_lt_len held) (Nat.lt_irrefl _)
  have closed : Closed (withNode g level) { g with nodes := nodes } := by
    refine ⟨?_, ?_, fun some => .inl (.entry some)⟩
    · rintro layer x (stands | ⟨rfl, le⟩)
      · obtain ⟨node, held, le⟩ := navigable layer x stands
        refine ⟨node, ?_, le⟩
        rw [get, if_neg (free layer x ⟨node, held, le⟩)]
        exact held
      · exact ⟨Node.new level, by rw [get, if_pos rfl], by rw [Node.level_new]; exact le⟩
    · rintro layer x list (stands | ⟨rfl, -⟩) present y member
      · unfold listAt at present
        rw [get, if_neg (free layer x (navigable layer x stands))] at present
        exact .inl (stands.along present member)
      · unfold listAt at present
        rw [get, if_pos rfl, Option.bind_some] at present
        have empty : list = [] := List.eq_of_mem_replicate (List.mem_of_getElem? present)
        rw [empty] at member
        cases member
  have lower : ∀ {low high x}, low ≤ high → withNode g level high x → withNode g level low x := by
    rintro low high x le (stands | ⟨rfl, below⟩)
    · exact .inl (stands.lower le)
    · exact .inr ⟨rfl, le.trans below⟩
  have inside : ∀ layer x, withNode g level layer x → x < SegVec.CAPACITY := by
    rintro layer x (stands | ⟨rfl, -⟩)
    · exact (navigable layer x stands).lt_capacity
    · exact room
  have own : withNode g level level g.len := .inr ⟨rfl, le_rfl⟩
  have linking : Linking (handle d) (closedDiscipline (withNode g level) (fun _ => True) d) 0
      (withNode g level) (fun t => t.entry ≠ ENTRY_NONE) g.config g.len level :=
    closed_linking lower inside small own
  have secure := linking.placed_secure visited ⟨closed, trivial⟩
  obtain ⟨after, value, ran, -⟩ := secure.run_done ⟨closed, trivial⟩
    (Prog.Along.always (fun _ _ => trivial) _ _) (fun stops => stops) fun t op _ answered => answered
  have published : handle d 0 g (.publish g.len level) = .ok { g with nodes := nodes } () := by
    simp only [handle, set]
  refine ⟨after, ?_⟩
  rw [insert_eq]
  exact (Prog.run_act_ok published _).trans ran

end Hnsw

end Vektordb
