import Vektordb.Hnsw.InsertSafety

/-!
Calls of `Hnsw::insert` and of searches on one shared index, interleaved in any order. From a
layered graph every reachable graph is layered, and no call ever reads a list or a node that
is not there.
-/

namespace Vektordb

open Interaction

namespace Hnsw

/-! ### The index as the whole shared state -/

/-- Which ids an agent may publish. -/
structure Owners where
  owns : Nat → Nat → Prop
  disjoint : ∀ i j id, i ≠ j → owns i id → ¬ owns j id

def Leaves (mine : Nat → Prop) (g after : Hnsw) : Prop :=
  Grows g after ∧ ∀ id, mine id → g.nodes.get id = none → after.nodes.get id = none

theorem Leaves.trans {mine : Nat → Prop} {g middle after : Hnsw} (first : Leaves mine g middle)
    (second : Leaves mine middle after) : Leaves mine g after :=
  ⟨first.1.trans second.1, fun id own fresh => second.2 id own (first.2 id own fresh)⟩

structure Owned (o : Owners) (before : Nat → Prop) (g : Hnsw) : Prop where
  layered : Layered g
  owned : ∀ id, (g.nodes.get id).isSome = true → before id ∨ ∃ i, o.owns i id

def layerDiscipline (o : Owners) (before : Nat → Prop) : Discipline sig Hnsw where
  inv := Owned o before
  rely i := Leaves (o.owns i)
  guar i := Leaves fun id => ¬ o.owns i id
  assumes _ _ _ := True
  safe _ g action := g.Safe action
  mayStop := False
  rely_refl _ g := ⟨Grows.refl g, fun _ _ fresh => fresh⟩
  rely_trans := Leaves.trans
  guar_rely different _ _ left :=
    ⟨left.1, fun id own fresh => left.2 id (o.disjoint _ _ id (Ne.symm different) own) fresh⟩

/-- The insert of an id that the agent owns. Other inserts may link to it before it links
itself, so nothing is granted about its own lists. -/
def Owners.claim (o : Owners) (i id : Nat) : Claim Hnsw := ⟨id, fun _ => o.owns i id, fun _ _ => True⟩

theorem Owned.handle {o : Owners} {before : Nat → Prop} {g after : Hnsw} (kept : Owned o before g)
    {d : Distances} {i agent : Nat} {action : Action} {answer : Answer action}
    (safe : g.Safe action) (published : ∀ y level, action = .publish y level → o.owns i y)
    (done : handle d agent g action = .ok after answer) :
    Owned o before after ∧ Leaves (fun id => ¬ o.owns i id) g after := by
  have advances := kept.layered.handle safe done
  refine ⟨⟨advances.layered, fun x present => ?_⟩, advances.grows, fun x foreign free => ?_⟩
  · by_cases mine : o.owns i x
    · exact .inr ⟨i, mine⟩
    · refine kept.owned x ?_
      by_contra absent
      rw [Option.not_isSome_iff_eq_none] at absent
      have other : ∀ y level, action = .publish y level → x ≠ y := fun y level same here =>
        mine (here ▸ published y level same)
      rw [handle_fresh done other absent] at present
      cases present
  · exact handle_fresh done (fun y level same here => foreign (here ▸ published y level same)) free

theorem layerDiscipline_hosts (d : Distances) (o : Owners) (before : Nat → Prop) (i id : Nat)
    (config : HnswConfig) : Hosts (handle d) (layerDiscipline o before) i (fun g => g) config
      (o.claim i id) where
  layered kept := kept.layered
  grows moved := moved.1
  mine_stable _ own := own
  fresh moved own free := moved.2 id own free
  ready_stable _ _ := trivial
  ready_lower _ _ := trivial
  act action post s permitted posts := by
    refine Secure.act fun t moved kept _ => ?_
    obtain ⟨safe, permits⟩ := permitted t moved kept
    refine ⟨safe, fun u answer done => ?_⟩
    have published : ∀ y level, action = .publish y level → o.owns i y := by
      rintro y level rfl
      obtain ⟨rfl, own⟩ := permits
      exact own
    obtain ⟨owned, leaves⟩ := kept.handle safe published done
    refine ⟨owned, leaves, ?_⟩
    refine Secure.ret fun v later keptLater =>
      posts t u answer v moved kept ⟨d, done⟩ (fun same => same) ?_ later keptLater
    cases action <;> first | trivial | exact fun _ _ => trivial

/-! ### Calls -/

/-- One call on the index. The sampled level and what earlier passes of the thread left in its
visited set are part of it. -/
inductive Call where
  | insert (id level : Nat) (visited : VisitedSet)
  | search (oracle : Nat → F32) (visited : VisitedSet) (k ef : Nat)

namespace Call

def program (config : HnswConfig) : Call → Prog sig (List Neighbor)
  | .insert id level visited => do
      Hnsw.insert config id level visited
      pure []
  | .search oracle visited k ef => searchWithOracle (fun x => pure (oracle x)) visited k ef

def inserts : Call → Option Nat
  | .insert id _ _ => some id
  | .search _ _ _ _ => none

end Call

def startPool (g : Hnsw) (calls : List Call) : Pool sig Hnsw (List Neighbor) :=
  ⟨g, calls.map (Call.program g.config)⟩

theorem inserts_apart {ι : Type} {calls : List ι} {inserts : ι → Option Nat}
    (distinct : (calls.filterMap inserts).Nodup) (i j id : Nat) (apart : i ≠ j)
    (mine : (calls[i]?.bind inserts) = some id) : ¬ (calls[j]?.bind inserts) = some id := by
  intro theirs
  obtain ⟨left, atLeft, isLeft⟩ := Option.bind_eq_some_iff.mp mine
  obtain ⟨right, atRight, isRight⟩ := Option.bind_eq_some_iff.mp theirs
  have apartIds := List.pairwise_iff_getElem.mp (List.pairwise_filterMap.mp distinct)
  obtain ⟨insideLeft, rfl⟩ := List.getElem?_eq_some_iff.mp atLeft
  obtain ⟨insideRight, rfl⟩ := List.getElem?_eq_some_iff.mp atRight
  rcases Nat.lt_or_gt_of_ne apart with before | after
  · exact apartIds i j insideLeft insideRight before id isLeft id isRight rfl
  · exact apartIds j i insideRight insideLeft after id isRight id isLeft rfl

def owners (calls : List Call) (distinct : (calls.filterMap Call.inserts).Nodup) : Owners where
  owns i id := (calls[i]?.bind Call.inserts) = some id
  disjoint := inserts_apart distinct

def Finished (calls : List Call) (i : Nat) (g : Hnsw) (_ : List Neighbor) : Prop :=
  ∀ id level visited, calls[i]? = some (Call.insert id level visited) →
    Inserted g id level

/-- The ids of the calls are free, have a slot, and the levels fit the entry pointer. -/
structure Startable (g : Hnsw) (calls : List Call) : Prop where
  layered : Layered g
  distinct : (calls.filterMap Call.inserts).Nodup
  free : ∀ id level visited, Call.insert id level visited ∈ calls →
    g.nodes.get id = none ∧ id < SegVec.CAPACITY ∧ level < 255

theorem Startable.guarded {d : Distances} {g : Hnsw} {calls : List Call}
    (startable : Startable g calls) :
    (startPool g calls).Guarded (handle d) (layerDiscipline (owners calls startable.distinct)
      fun id => (g.nodes.get id).isSome = true) (Finished calls) where
  inv := ⟨startable.layered, fun _ present => .inl present⟩
  secure i p atThread := by
    obtain ⟨call, atCall, rfl⟩ := Option.map_eq_some_iff.mp
      ((List.getElem?_map (f := Call.program g.config)).symm.trans atThread)
    have kept : Owned (owners calls startable.distinct) (fun id => (g.nodes.get id).isSome = true)
        g := ⟨startable.layered, fun _ present => .inl present⟩
    cases call with
    | insert id level visited =>
        obtain ⟨fresh, inside, small⟩ :=
          startable.free id level visited (List.mem_of_getElem? atCall)
        have owned : (owners calls startable.distinct).owns i id :=
          Option.bind_eq_some_iff.mpr ⟨_, atCall, rfl⟩
        have hosts := layerDiscipline_hosts d (owners calls startable.distinct)
          (fun id => (g.nodes.get id).isSome = true) i id g.config
        refine Secure.bind kept (hosts.insert_secure level visited
          kept owned fresh inside small) fun t _ _ inserted => ?_
        refine Secure.ret fun u moved _ id' level' visited' same => ?_
        cases atCall.symm.trans same
        exact inserted.grow moved.1
    | search oracle visited k ef =>
        have hosts := layerDiscipline_hosts d (owners calls startable.distinct)
          (fun id => (g.nodes.get id).isSome = true) i 0 g.config
        refine (hosts.searchWithOracle_secure (fun s x _ _ => Hosts.pure_oracle oracle s x) visited k ef
          kept).mono
          fun t _ _ _ id level visited' same => ?_
        cases atCall.symm.trans same

theorem layered_new {config : HnswConfig} {g : Hnsw} (opened : Hnsw.new config = .ok g) :
    Layered g ∧ g.config = config ∧ ∀ id, g.nodes.get id = none := by
  unfold Hnsw.new at opened
  split at opened
  · cases opened
    refine ⟨⟨fun _ _ _ _ _ held => ?_, fun _ _ has => ?_, fun some => absurd rfl some⟩, rfl,
      fun _ => rfl⟩
    · cases held
    · obtain ⟨node, held, -⟩ := has
      cases held
  · cases opened

theorem startable_new {config : HnswConfig} {g : Hnsw} {calls : List Call}
    (opened : Hnsw.new config = .ok g) (distinct : (calls.filterMap Call.inserts).Nodup)
    (inRange : ∀ id level visited, Call.insert id level visited ∈ calls →
      id < 1024 * (2 ^ 40 - 1) ∧ level < 255) : Startable g calls :=
  ⟨(layered_new opened).1, distinct, fun id level visited member =>
    ⟨(layered_new opened).2.2 id, inRange id level visited member⟩⟩

theorem Startable.never_spins {d : Distances} {g : Hnsw} {calls : List Call}
    (startable : Startable g calls) {schedule : List Nat} {reached : Pool sig Hnsw (List Neighbor)}
    (ran : (startPool g calls).runs (handle d) schedule = some reached) (i : Nat) :
    reached.threads[i]? ≠ some .spin := fun spins =>
  (startable.guarded.runs ran (Pool.Meets.always (fun _ _ _ => trivial) _ _)).secure i _ spins

/-- Layer safety at every moment of every interleaving of inserts and searches. -/
theorem interleaving_layer_safe (d : Distances) {config : HnswConfig} {g : Hnsw}
    {calls : List Call} {schedule later : List Nat} {reached after : Pool sig Hnsw (List Neighbor)}
    (opened : Hnsw.new config = .ok g) (distinct : (calls.filterMap Call.inserts).Nodup)
    (inRange : ∀ id level visited, Call.insert id level visited ∈ calls →
      id < 1024 * (2 ^ 40 - 1) ∧ level < 255)
    (ran : (startPool g calls).runs (handle d) schedule = some reached)
    (continued : reached.runs (handle d) later = some after) :
    (∀ id node layer list nb, reached.state.nodes.get id = some node →
      node.links[layer]? = some list → nb ∈ list →
      nb ≠ id ∧ ∃ target, reached.state.nodes.get nb = some target ∧ layer ≤ target.level) ∧
    (reached.state.entry ≠ ENTRY_NONE → ∃ node,
      reached.state.nodes.get (unpackEntry reached.state.entry).1 = some node ∧
      (unpackEntry reached.state.entry).2 = node.level) ∧
    (reached.state.entry ≠ ENTRY_NONE → after.state.entry ≠ ENTRY_NONE ∧
      (unpackEntry reached.state.entry).2 ≤ (unpackEntry after.state.entry).2) ∧
    (∀ (i : Nat) id level visited result, calls[i]? = some (Call.insert id level visited) →
      reached.threads[i]? = some (Prog.ret result) → reached.state.entry ≠ ENTRY_NONE ∧
      level ≤ (unpackEntry reached.state.entry).2) ∧
    (∀ (i : Nat) action next, reached.threads[i]? = some (Prog.act action next) →
      reached.state.Safe action ∧ ∃ state answer,
        handle d i reached.state action = .ok state answer) := by
  have startable := startable_new opened distinct inRange
  let before : Nat → Prop := fun id => (g.nodes.get id).isSome = true
  have always : ∀ (pool : Pool sig Hnsw (List Neighbor)) (steps : List Nat),
      pool.Meets (handle d) (layerDiscipline (owners calls distinct) before).assumes steps :=
    fun pool steps => Pool.Meets.always (fun _ _ _ => trivial) steps pool
  have guarded := startable.guarded.runs ran (always _ schedule)
  have layered : Layered reached.state := guarded.inv.layered
  have contains : ∀ agent s t, (layerDiscipline (owners calls distinct) before).inv s →
      (layerDiscipline (owners calls distinct) before).guar agent s t → Grows s t :=
    fun _ _ _ _ guaranteed => guaranteed.1
  have grows : Grows reached.state after.state :=
    guarded.runs_rel Grows.refl (fun _ _ _ => Grows.trans) contains continued (always _ later)
  refine ⟨layered.links, fun some => ?_, grows.entry, ?_, ?_⟩
  · obtain ⟨node, held, level⟩ := layered.entry_level some
    exact ⟨node, held, level.symm⟩
  · intro i id level visited result atCall finished
    exact (guarded.returned finished id level visited atCall).2
  · intro i action next atThread
    have safe : reached.state.Safe action := guarded.safe atThread trivial
    exact ⟨safe, safe.answered⟩

def raceCalls : List Call :=
  [.insert 0 0 VisitedSet.new, .insert 1 1 VisitedSet.new,
    .search (fun _ => F32.ofNat 0) VisitedSet.new 1 2]

def raceIndex : Hnsw := ⟨⟨2, 4, .l2⟩, SegVec.new, ENTRY_NONE⟩

/-- The loser of the race for the first entry links to the winner and then moves the entry. -/
theorem interleaving_layer_safe_race :
    ∃ reached after,
      (startPool raceIndex raceCalls).runs (handle fun a b => F32.ofNat (a + b))
        [0, 1, 0, 1, 0, 1] = some reached ∧
      reached.runs (handle fun a b => F32.ofNat (a + b))
        (List.replicate 9 1 ++ List.replicate 3 2) = some after ∧
      (reached.state.entry ≠ ENTRY_NONE → after.state.entry ≠ ENTRY_NONE ∧
        (unpackEntry reached.state.entry).2 ≤ (unpackEntry after.state.entry).2) := by
  have finishes : (((startPool raceIndex raceCalls).runs (handle fun a b => F32.ofNat (a + b))
      [0, 1, 0, 1, 0, 1]).bind (Pool.runs (handle fun a b => F32.ofNat (a + b))
        (List.replicate 9 1 ++ List.replicate 3 2))).isSome = true := by decide +kernel
  obtain ⟨after, whole⟩ := Option.isSome_iff_exists.mp finishes
  obtain ⟨reached, ran, continued⟩ := Option.bind_eq_some_iff.mp whole
  have opened : Hnsw.new ⟨2, 4, .l2⟩ = .ok raceIndex := rfl
  have distinct : (raceCalls.filterMap Call.inserts).Nodup := by decide
  have inRange : ∀ id level visited, Call.insert id level visited ∈ raceCalls →
      id < 1024 * (2 ^ 40 - 1) ∧ level < 255 := by
    intro id level visited member
    simp only [raceCalls, List.mem_cons, Call.insert.injEq, reduceCtorEq, List.not_mem_nil,
      or_false] at member
    omega
  exact ⟨reached, after, ran, continued,
    (interleaving_layer_safe _ opened distinct inRange ran continued).2.2.1⟩

end Hnsw

end Vektordb
