import Vektordb.Db.History

/-!
The graph after recovery. However the inserts were spread over sessions, snapshots and replays,
the graph is the one that the same vectors give in one go, and searches answer the same.
-/

namespace Vektordb

open Interaction

namespace Db

variable {env : Env} {config : HnswConfig} {dim : Nat} {halts : Bool} {rows present : List Row}
  {w t : World}

/-- Two databases that searches cannot tell apart. -/
structure Alike (w t : World) : Prop where
  layered : Hnsw.Layered w.index
  index : t.index = w.index
  kernel : t.kernel = w.kernel
  dim : t.store.dim = w.store.dim
  rows : ∀ id, w.index.HasLayer 0 id → t.row id = w.row id

/-- A search at rest: nothing moves, and both databases answer it alike. -/
def restingDiscipline (env : Env) (w t : World) : Discipline sig World where
  inv s := s = w
  rely _ s u := u = s
  guar _ s u := u = s
  assumes _ _ _ := True
  safe agent _ op := ∃ answer, handle env agent w op = .ok w answer ∧
    handle env agent t op = .ok t answer
  mayStop := False
  rely_refl _ _ := rfl
  rely_trans first second := second.trans first
  guar_rely _ _ _ same := same

def noClaim : Hnsw.Claim World := ⟨SegVec.CAPACITY, fun _ => False, fun _ _ => False⟩

theorem Alike.answers (alike : Alike w t) {agent : Nat} {action : Hnsw.Action}
    (safe : w.index.Safe action) (permitted : noClaim.permits config w action) :
    ∃ answer, Hnsw.handle (w.distances env) agent w.index action = .ok w.index answer ∧
      handle env agent t (.index action) = .ok t answer := by
  have outside : ∀ {layer}, ¬ w.index.HasLayer layer SegVec.CAPACITY :=
    fun has => Nat.lt_irrefl _ has.lt_capacity
  have reads : ∀ answer, Hnsw.handle (w.distances env) agent w.index action = .ok w.index answer →
      ∃ answer, Hnsw.handle (w.distances env) agent w.index action = .ok w.index answer ∧
        handle env agent t (.index action) = .ok t answer := by
    intro answer answered
    have agree : ∀ a b, w.index.HasLayer 0 a → w.index.HasLayer 0 b →
        w.distances env a b = t.distances env a b := by
      intro a b hasA hasB
      unfold World.distances
      rw [alike.kernel, alike.rows a hasA, alike.rows b hasB]
    have same := answered
    rw [Hnsw.handle_congr alike.layered agree agent safe, ← alike.index] at same
    exact ⟨answer, answered, handle_index same⟩
  cases action with
  | publish id level => exact permitted.2.elim
  | entry => exact reads _ rfl
  | claimEntry id level =>
      obtain rfl : id = SegVec.CAPACITY := permitted
      exact absurd (safe.layer (Nat.zero_le _)) outside
  | raiseEntry id level =>
      obtain rfl : id = SegVec.CAPACITY := permitted
      exact absurd (safe.1.layer (Nat.zero_le _)) outside
  | len => exact reads _ rfl
  | links id layer =>
      obtain ⟨after, answer, answered⟩ := @Hnsw.Safe.answered w.index (w.distances env) agent _ safe
      obtain ⟨rfl, -⟩ := Hnsw.Hosts.links_reads answered
      exact reads _ answered
  | distance base other => exact reads _ rfl
  | select candidates m => exact reads _ rfl
  | linkOwn id layer chosen => exact permitted.2.1.elim
  | linkBack nb layer id max =>
      obtain ⟨rfl, -⟩ : id = SegVec.CAPACITY ∧ _ := permitted
      exact absurd safe.2.2 outside

theorem Alike.hosts (alike : Alike w t) (agent : Nat) :
    Hnsw.Hosts (handle env) (restingDiscipline env w t) agent World.index config noClaim where
  layered kept := by
    rw [kept]
    exact alike.layered
  grows moved := by
    rw [moved]
    exact Hnsw.Grows.refl _
  mine_stable _ mine := mine
  fresh _ mine := mine.elim
  ready_stable _ ready := ready
  ready_lower _ ready := ready
  act action post s permitted posts := by
    apply Secure.act
    intro u moved kept _
    obtain ⟨safe, permits⟩ := permitted u moved kept
    obtain rfl : u = w := kept
    obtain ⟨answer, inner, other⟩ := alike.answers safe permits
    have answered : handle env agent u (.index action) = .ok u answer := handle_index inner
    refine ⟨⟨answer, answered, other⟩, ?_⟩
    intro v result done
    rw [answered] at done
    cases done
    refine ⟨rfl, rfl, Secure.ret ?_⟩
    intro x later keptLater
    refine posts u u answer x moved rfl ⟨_, inner⟩ (fun _ => rfl) ?_ later keptLater
    cases action with
    | publish id level => exact permits.2.elim
    | linkOwn id layer chosen => exact permits.2.1.elim
    | _ => exact fun _ ready => ready

/-- The answers of a program that both databases answer alike. -/
theorem run_alike {α : Type} {agent : Nat} {p : Prog sig α}
    (along : p.Along (handle env) agent (fun s op => s = w ∧ (restingDiscipline env w t).safe agent s op)
      w) : ∀ {value}, p.run (handle env) agent w = .done w value →
        p.run (handle env) agent t = .done t value := by
  induction p with
  | ret other =>
      intro value ran
      cases ran
      rfl
  | spin =>
      intro value ran
      cases ran
  | act op next ih =>
      intro value ran
      obtain ⟨⟨-, answer, here, there⟩, later⟩ := along
      rw [Prog.run_act_ok here] at ran
      rw [Prog.run_act_ok there]
      exact ih answer (later w answer here) ran

theorem Alike.search (alike : Alike w t) (agent : Nat) (query : Row) (k ef : Nat)
    (visited other : VisitedSet) :
    ∃ result, (Db.search w.db query k ef visited).run (handle env) agent w = .done w result ∧
      (Db.search t.db query k ef other).run (handle env) agent t = .done t result := by
  have sameDim : t.db.dim = w.db.dim := alike.dim
  unfold Db.search
  rw [sameDim, Hnsw.searchWithOracle_same _ other visited]
  split
  · exact ⟨_, rfl, rfl⟩
  · have hosts : Hnsw.Hosts (handle env) (restingDiscipline env w t) agent World.index
        w.index.config noClaim := alike.hosts agent
    have oracle : ∀ s x, s = w → s.index.HasLayer 0 x →
        Secure (handle env) (restingDiscipline env w t) agent (fun u _ => u = s)
          (call (.measure query x)) s := by
      intro s x kept has
      subst kept
      apply Secure.act (S := sig)
      intro u moved kept _
      obtain rfl : u = s := kept
      have other : handle env agent t (.measure query x) =
          .ok t (env.kernel u.kernel query (u.row x)) := by
        change Reply.ok t (env.kernel t.kernel query (t.row x)) = _
        rw [alike.kernel, alike.rows x has]
        rfl
      refine ⟨⟨_, rfl, other⟩, ?_⟩
      intro v answer done
      cases done
      exact ⟨rfl, rfl, Secure.ret fun x later _ => later⟩
    have secure := hosts.searchWithOracle_secure oracle visited k ef rfl
    have assumed : (Hnsw.searchWithOracle (fun id => call (.measure query id)) visited k ef).Along
        (handle env) agent ((restingDiscipline env w t).assumes agent) w :=
      Prog.Along.always (fun _ _ => trivial) _ w
    obtain ⟨u, hits, ran, kept, -⟩ := secure.run_done rfl assumed id
      fun s op kept safe => by
        obtain ⟨answer, here, -⟩ := safe
        obtain rfl : s = w := kept
        exact ⟨s, answer, here⟩
    obtain rfl : u = w := kept
    have again := run_alike (secure.along rfl assumed) ran
    exact ⟨.ok hits, by rw [Prog.run_bind_done ran]; rfl, by rw [Prog.run_bind_done again]; rfl⟩

/-- Recovery rebuilds the identical graph: after every open and every insert of every history the
graph is the one of the same vectors inserted into a new index in one go, and any two histories
that led to the same vectors answer every search alike. -/
theorem recovery_rebuilds (usable : Usable env config) (fits : config.efConstruction < 2 ^ 32)
    (history : History env config dim halts (.session w present) rows) :
    Hnsw.build (distancesOf env config.metric present) (env.level config.m) config present.length =
        some w.index ∧
      ∀ {others t rows'}, History env config dim others (.session t present) rows' →
        t.index = w.index ∧ ∀ query k ef visited other, ∃ result,
          (Db.search w.db query k ef visited).run (handle env) 0 w = .done w result ∧
            (Db.search t.db query k ef other).run (handle env) 0 t = .done t result := by
  have live : ∀ {others t rows'}, History env config dim others (.session t present) rows' →
      Live env config dim (fun _ => Holders.free) present.length t present := fun other =>
    (other.sane usable).live
  have here := live history
  have built := here.sound.exactly fits
  refine ⟨built, ?_⟩
  intro others t rows' again
  have there := live again
  have same : t.index = w.index := Option.some.inj ((there.sound.exactly fits).symm.trans built)
  have alike : Alike w t := by
    refine ⟨here.sound.layered, same, there.kernel.trans here.kernel.symm,
      there.sameDim.trans here.sameDim.symm, ?_⟩
    rintro id ⟨node, held, -⟩
    have below : id < present.length := (here.sound.dense.2 id).mp (by rw [held]; rfl)
    rw [here.row (List.getElem?_eq_getElem below), there.row (List.getElem?_eq_getElem below)]
  exact ⟨same, fun query k ef visited other => alike.search 0 query k ef visited other⟩

def plainTwice : World :=
  (plainInsert (plainFilled [F32.ofNat 1]) [F32.ofNat 2]).stateOr (plainFilled [F32.ofNat 1])

theorem plain_twice : History plain plainConfig 1 false
    (.session plainTwice [[F32.ofNat 1], [F32.ofNat 2]]) [[F32.ofNat 1], [F32.ofNat 2]] := by
  have runs : ((plainFilled [F32.ofNat 1]).wal.map Wal.nextLsn).all (· < 1000) = true ∧
      (plainInsert (plainFilled [F32.ofNat 1]) [F32.ofNat 2]).answer = some (.ok 1) := by
    decide +kernel
  obtain ⟨inserted, -, -, durable⟩ := plain_first
  exact plain_inserted (plain_filled inserted) runs.1 durable runs.2

theorem recovery_rebuilds_killed : ∃ t,
    History plain plainConfig 1 false (.session t [[F32.ofNat 1], [F32.ofNat 2]])
        [[F32.ofNat 1], [F32.ofNat 2]] ∧
      Hnsw.build (distancesOf plain .l2 [[F32.ofNat 1], [F32.ofNat 2]]) (fun _ => 0) plainConfig 2 =
        some plainTwice.index ∧
      t.index = plainTwice.index ∧
      t.index.listAt 0 0 = some [1] ∧ t.index.listAt 0 1 = some [0] := by
  have twice : plainTwice.db.durable = true ∧ plainTwice.index.listAt 0 0 = some [1] ∧
      plainTwice.index.listAt 0 1 = some [0] := by decide +kernel
  obtain ⟨durable, lists⟩ := twice
  have killed : History plain plainConfig 1 false (.closed (plainStopped 3 plainTwice))
      [[F32.ofNat 1], [F32.ofNat 2]] := plain_twice.stopped durable (plain_stopped 3 _)
  obtain ⟨t, ran, -⟩ := open_recovers plain_usable killed (by decide) (plainOptions true) rfl
    fun _ => VisitedSet.new
  have opened := killed.opened rfl ran
  obtain ⟨built, alike⟩ := recovery_rebuilds plain_usable (by decide) plain_twice
  obtain ⟨same, -⟩ := alike opened
  refine ⟨t, opened, built, same, ?_⟩
  rw [same]
  exact lists

end Db

end Vektordb
