import Vektordb.Db.Progress
import Vektordb.Interaction.Settling

/-!
The two phases of a batch. While it stores its rows it is alone, since the threads of the pool wait
for a row to link; from then on nobody touches the store or the log.
-/

namespace Vektordb

open Interaction LittleEndian

namespace Db

variable {env : Env} {db : Db} {α β : Type} {φ : Action → Prop} {i : Nat} {w t : World}
  {op : Action} {answer : Answer op}

/-! ### The actions of the phases -/

/-- What the first phase does before it hands the rows over to the pool. -/
def Storing : Action → Prop
  | .acquire _ _ => True
  | .release _ _ => True
  | .storeLen => True
  | .ensureHealthy => True
  | .append _ => True
  | .walAppend _ => True
  | .rollbackLast _ => True
  | _ => False

/-- What is done after it, when a thread of the pool has taken its row. -/
def Linking : Action → Prop
  | .index _ => True
  | .finish _ => True
  | .join => True
  | .acquire _ _ => True
  | .release _ _ => True
  | .encodeBatch _ _ => True
  | _ => False

theorem attempt_only {first : Prog sig (Result α)} {next : α → Prog sig (Result β)}
    (only : first.Only φ) (rest : ∀ value, (next value).Only φ) : (attempt first next).Only φ := by
  apply only.bind
  intro result
  cases result with
  | ok value => exact rest value
  | error e => trivial

theorem withLock_only {lock : Lock} {exclusive : Bool} {body : Prog sig α}
    (acquires : φ (.acquire lock exclusive)) (releases : φ (.release lock exclusive))
    (only : body.Only φ) : (withLock lock exclusive body).Only φ :=
  ⟨acquires, fun _ => only.bind fun _ => ⟨releases, fun _ => trivial⟩⟩

theorem insertRowStorageOnly_only (db : Db) (vector : Row) :
    (insertRowStorageOnly db vector).Only Storing := by
  unfold insertRowStorageOnly
  split
  · apply withLock_only trivial trivial
    refine attempt_only ⟨trivial, fun _ => trivial⟩ fun _ => ?_
    refine attempt_only ⟨trivial, fun _ => trivial⟩ fun id => ?_
    refine ⟨trivial, fun (result : Result Nat) => ?_⟩
    cases result with
    | ok lsn => trivial
    | error e => exact attempt_only ⟨trivial, fun _ => trivial⟩ fun _ => trivial
  · exact ⟨trivial, fun _ => trivial⟩

theorem appendRows_only (db : Db) (rows : List Row) (n : Nat) :
    (appendRows db rows n).Only Storing := by
  induction rows generalizing n with
  | nil => trivial
  | cons row rest ih =>
      apply (insertRowStorageOnly_only db row).bind
      intro result
      cases result with
      | ok id => exact ih (n + 1)
      | error e => trivial

theorem release_pending (w : World) (i : Nat) (lock : Lock) (exclusive : Bool) :
    (w.release i lock exclusive).pending = w.pending := by
  unfold World.release
  cases exclusive <;> rfl

theorem storing_pending (storing : Storing op) (done : handle env i w op = .ok t answer) :
    t.pending = w.pending := by
  cases op with
  | acquire lock exclusive =>
      obtain ⟨holders, rfl, -⟩ := acquire_cases done
      rfl
  | release lock exclusive =>
      cases done
      exact release_pending w i lock exclusive
  | storeLen =>
      cases done
      rfl
  | ensureHealthy =>
      unfold handle at done
      dsimp only at done
      split at done
      · cases done
      · cases done
        rfl
  | append vector =>
      change w.append i vector = _ at done
      unfold World.append at done
      split at done <;> cases done <;> rfl
  | walAppend record =>
      change w.walAppend env record = _ at done
      unfold World.walAppend at done
      split at done
      · cases done
      · cases done
        rfl
  | rollbackLast id =>
      change w.rollbackLast id = _ at done
      unfold World.rollbackLast at done
      split at done <;> cases done <;> rfl
  | _ => exact storing.elim

theorem linking_pending (linking : Linking op) (done : handle env i w op = .ok t answer) :
    t.pending = w.pending := by
  cases op with
  | index action =>
      obtain ⟨g, -, rfl⟩ := index_answered done
      rfl
  | acquire lock exclusive =>
      obtain ⟨holders, rfl, -⟩ := acquire_cases done
      rfl
  | release lock exclusive =>
      cases done
      exact release_pending w i lock exclusive
  | finish id =>
      cases done
      rfl
  | join =>
      unfold handle at done
      dsimp only at done
      split at done <;> cases done
      rfl
  | encodeBatch base n =>
      cases done
      unfold World.encodeBatch
      split <;> rfl
  | _ => exact linking.elim

/-- What the second phase leaves alone. -/
structure Spares (w t : World) : Prop where
  store : t.store = w.store
  dir : t.dir = w.dir
  wal : t.wal = w.wal
  quantizer : t.pq.map PqState.pq = w.pq.map PqState.pq

theorem Spares.refl (w : World) : Spares w w := ⟨rfl, rfl, rfl, rfl⟩

theorem Spares.trans {u : World} (first : Spares w t) (second : Spares t u) : Spares w u :=
  ⟨second.store.trans first.store, second.dir.trans first.dir, second.wal.trans first.wal,
    second.quantizer.trans first.quantizer⟩

theorem linking_spares (linking : Linking op ∨ op = .take)
    (done : handle env i w op = .ok t answer) : Spares w t := by
  cases op with
  | index action =>
      obtain ⟨g, -, rfl⟩ := index_answered done
      exact ⟨rfl, rfl, rfl, rfl⟩
  | acquire lock exclusive =>
      obtain ⟨holders, rfl, -⟩ := acquire_cases done
      exact ⟨rfl, rfl, rfl, rfl⟩
  | release lock exclusive =>
      cases done
      cases exclusive <;> exact ⟨rfl, rfl, rfl, rfl⟩
  | finish id =>
      cases done
      exact ⟨rfl, rfl, rfl, rfl⟩
  | join =>
      unfold handle at done
      dsimp only at done
      split at done <;> cases done
      exact Spares.refl w
  | take =>
      unfold handle at done
      dsimp only at done
      split at done
      · cases done
      · cases done
        exact ⟨rfl, rfl, rfl, rfl⟩
  | encodeBatch base n =>
      cases done
      unfold World.encodeBatch
      cases trained : w.pq with
      | none => exact Spares.refl w
      | some state => exact ⟨rfl, rfl, rfl, by rw [trained]; rfl⟩
  | _ => exact (linking.elim id nofun).elim

/-! ### A batch in two phases -/

/-- The first id, how many rows could be stored from there on and why not all of them. -/
def bringBatch (db : Db) (rows : List Row) : Prog sig (Nat × Nat × Option Error) := do
  call (.acquire .maintenance true)
  let base ← call .storeLen
  let stored ← appendRows db rows 0
  pure (base, stored)

/-- The first phase ends when the pool has the rows. -/
def storeBatch (db : Db) (rows : List Row) : Prog sig (Nat × Nat × Option Error) := do
  let stored ← bringBatch db rows
  call (.submit stored.1 stored.2.1)
  pure stored

def batchResult (base : Nat) : Option Error → Result Nat
  | none => .ok base
  | some e => .error e

def linkBatch (stored : Nat × Nat × Option Error) : Prog sig Response := do
  call .join
  withLock .pq true (call (.encodeBatch stored.1 stored.2.1))
  call (.release .maintenance true)
  pure (.id (batchResult stored.1 stored.2.2))

theorem addBatch_phases {batch : Row} (whole : batch.length % db.dim = 0) :
    Request.run env db (.addBatch batch) =
      (storeBatch db (chunksExact db.dim batch) >>= linkBatch) := by
  unfold Request.run addBatch
  dsimp only
  rw [if_neg (by rw [whole]; exact not_not.mpr rfl)]
  unfold storeBatch
  refine Eq.trans ?_ (Prog.bind_assoc (bringBatch db _) _ _).symm
  -- Both sides begin with the same two actions.
  refine congrArg (Prog.act (S := sig) (.acquire .maintenance true)) (funext fun _ => ?_)
  refine congrArg (Prog.act (S := sig) .storeLen) (funext fun base => ?_)
  refine (congrArg (· >>= _) (Prog.bind_assoc (appendRows db _ 0) _ _)).trans ?_
  refine (Prog.bind_assoc (appendRows db _ 0) _ _).trans ?_
  refine Eq.trans ?_ (Prog.bind_assoc (appendRows db _ 0) _ _).symm
  rfl

theorem bringBatch_only (db : Db) (rows : List Row) : (bringBatch db rows).Only Storing := by
  refine ⟨trivial, fun _ => ⟨trivial, fun (base : Nat) => ?_⟩⟩
  exact (appendRows_only db rows 0).bind fun stored => trivial

theorem bringBatch_pending {rows : List Row} {p : Prog sig (Nat × Nat × Option Error)}
    (visited : (bringBatch db rows).Visits (handle env) i w p t) (empty : w.pending = []) :
    t.pending = [] :=
  ((bringBatch_only db rows).visits
    (fun _ _ _ _ storing done empty => (storing_pending storing done).trans empty) empty visited).2

/-- While the first phase has an action to perform, no row waits. -/
theorem storeBatch_waits {rows : List Row} {p : Prog sig (Nat × Nat × Option Error)}
    (empty : w.pending = []) (visited : (storeBatch db rows).Visits (handle env) i w p t) :
    (∃ stored, p = .ret stored) ∨ t.pending = [] := by
  rcases Prog.Visits.bind_inv visited with ⟨first, during, rfl⟩ | ⟨u, stored, ran, later⟩
  · exact .inr (bringBatch_pending during empty)
  · have none : u.pending = [] := bringBatch_pending (Prog.run_done_visits ran) empty
    cases later with
    | here => exact .inr none
    | next submitted rest =>
        cases rest
        exact .inl ⟨stored, rfl⟩

theorem linkBatch_only (stored : Nat × Nat × Option Error) : (linkBatch stored).Only Linking := by
  have encodes : (call (.encodeBatch stored.1 stored.2.1)).Only Linking := ⟨trivial, fun _ => trivial⟩
  refine ⟨trivial, fun _ => ?_⟩
  apply (withLock_only trivial trivial encodes).bind
  exact fun _ => ⟨trivial, fun _ => trivial⟩

theorem linkBatch_returns (stored : Nat × Nat × Option Error) :
    (linkBatch stored).Returns (· = .id (batchResult stored.1 stored.2.2)) :=
  fun _ _ _ _ _ => rfl

/-! ### The threads of the pool -/

variable {helpers : List VisitedSet}

def helpersRun (env : Env) (db : Db) (helpers : List VisitedSet) : List (Prog sig Response) :=
  helpers.map fun visited => (Thread.helper visited).run env db

theorem helper_links (env : Env) (db : Db) (visited : VisitedSet) :
    ∃ next, (Thread.helper visited).run env db = .act (S := sig) .take next ∧
      ∀ id, (next id).Only Linking := by
  refine ⟨_, rfl, fun id => ?_⟩
  have inserts : (Hnsw.insert (T := sig) db.config id (env.level db.config.m id) visited).Only
      Linking := by
    apply (insert_only db.config id (env.level db.config.m id) visited).mono
    rintro _ ⟨action, rfl⟩
    trivial
  have finishes : (call (.finish id)).Only Linking := ⟨trivial, fun _ => trivial⟩
  exact (inserts.bind fun _ => finishes).bind fun _ => trivial

/-- As long as no row is waiting, the threads of the pool are. -/
theorem helpers_wait (first : Prog sig Response) (empty : w.pending = []) (agent : Nat) :
    Pool.step (handle env) (agent + 1) ⟨w, first :: helpersRun env db helpers⟩ = none := by
  cases stepped : Pool.step (handle env) (agent + 1) ⟨w, first :: helpersRun env db helpers⟩ with
  | none => rfl
  | some after =>
      obtain ⟨op, next, t, answer, atAgent, answered, -⟩ := Pool.step_cases stepped
      change (helpersRun env db helpers)[agent]? = some _ at atAgent
      unfold helpersRun at atAgent
      rw [List.getElem?_map] at atAgent
      obtain ⟨visited, -, isThread⟩ := Option.map_eq_some_iff.mp atAgent
      obtain ⟨others, takes, -⟩ := helper_links env db visited
      rw [takes] at isThread
      cases isThread
      unfold handle at answered
      dsimp only at answered
      rw [empty] at answered
      cases answered

/-- A thread of the second phase: it waits for a row, or it has no more to take. -/
def Waiting (p : Prog sig Response) : Prop :=
  p.Only Linking ∨ ∃ next, p = .act (S := sig) .take next ∧ ∀ id, (next id).Only Linking

def atTake : Prog sig Response → Bool
  | .act .take _ => true
  | _ => false

theorem atTake_linking {p : Prog sig Response} (only : p.Only Linking) : atTake p = false := by
  cases p with
  | ret response => rfl
  | spin => rfl
  | act op next =>
      cases op with
      | take => exact only.1.elim
      | _ => rfl

/-- The second phase: the store and the log are as they were, and all but some of the rows that wait
have a thread that waits for them. -/
structure Manned (start : World) (missing : Nat) (pool : Pool sig World Response) : Prop where
  waiting : ∀ (i : Nat) p, pool.threads[i]? = some p → Waiting p
  spares : Spares start pool.state
  enough : pool.state.pending.length ≤ pool.threads.countP atTake + missing

theorem Manned.step {start : World} {missing : Nat} {pool after : Pool sig World Response}
    (stepped : pool.step (handle env) i = some after) (manned : Manned start missing pool) :
    Manned start missing after := by
  obtain ⟨op, next, t, answer, atAgent, answered, rfl⟩ := Pool.step_cases stepped
  obtain ⟨bound, atIndex⟩ := List.getElem?_eq_some_iff.mp atAgent
  have enough := manned.enough
  have rest : (next answer).Only Linking ∧ (Linking op ∨ op = .take) ∧
      t.pending.length ≤ (pool.threads.set i (next answer)).countP atTake + missing := by
    rcases manned.waiting i _ atAgent with only | ⟨others, takes, only⟩
    · have idle : atTake (.act op next) = false := atTake_linking only
      have after : atTake (next answer) = false := atTake_linking (only.2 answer)
      refine ⟨only.2 answer, .inl only.1, ?_⟩
      rw [List.countP_set bound, atIndex, idle, after, linking_pending only.1 answered]
      exact enough
    · cases takes
      have after : atTake (others answer) = false := atTake_linking (only answer)
      refine ⟨only answer, .inr rfl, ?_⟩
      rw [List.countP_set bound, atIndex, after]
      unfold handle at answered
      dsimp only at answered
      split at answered
      · cases answered
      · rename_i id waiting isPending
        cases answered
        rw [isPending] at enough
        change waiting.length + 1 ≤ _ at enough
        change waiting.length ≤ pool.threads.countP atTake - 1 + 0 + missing
        omega
  obtain ⟨only, acts, enoughAfter⟩ := rest
  constructor
  case waiting =>
      intro j p atThread
      by_cases same : i = j
      · subst same
        rw [List.getElem?_set_self bound] at atThread
        cases atThread
        exact .inl only
      · rw [List.getElem?_set_ne same] at atThread
        exact manned.waiting j p atThread
  case spares => exact manned.spares.trans (linking_spares acts answered)
  case enough => exact enoughAfter

theorem Manned.runs {start : World} {missing : Nat} {schedule : List Nat}
    {pool after : Pool sig World Response} (ran : pool.runs (handle env) schedule = some after)
    (manned : Manned start missing pool) : Manned start missing after :=
  Pool.runs_inv (fun _ _ _ stepped => Manned.step stepped) ran manned

theorem Manned.helped {start : World} {pool : Pool sig World Response} (manned : Manned start 0 pool)
    (left : pool.state.pending ≠ []) : ∃ (i : Nat) (next : Nat → Prog sig Response),
      pool.threads[i]? = some (.act (S := sig) .take next) := by
  have enough := manned.enough
  have positive := List.length_pos_iff.mpr left
  obtain ⟨p, member, waits⟩ := List.countP_pos_iff.mp (show 0 < pool.threads.countP atTake by omega)
  obtain ⟨i, atThread⟩ := List.getElem?_of_mem member
  rcases manned.waiting i p atThread with only | ⟨next, rfl, -⟩
  · rw [atTake_linking only] at waits
    cases waits
  · exact ⟨i, next, atThread⟩

/-- A batch that has stored its rows and handed over as many as there are. -/
theorem manned_linkBatch {u : World} (stored : Nat × Nat × Option Error) (env : Env) (db : Db)
    (helpers : List VisitedSet) :
    Manned u (u.pending.length - helpers.length) ⟨u, linkBatch stored :: helpersRun env db helpers⟩ := by
  constructor
  case waiting =>
      intro i p atThread
      cases i with
      | zero =>
          cases atThread
          exact .inl (linkBatch_only stored)
      | succ i =>
          change (helpersRun env db helpers)[i]? = some p at atThread
          unfold helpersRun at atThread
          rw [List.getElem?_map] at atThread
          obtain ⟨visited, -, rfl⟩ := Option.map_eq_some_iff.mp atThread
          exact .inr (helper_links env db visited)
  case spares => exact Spares.refl u
  case enough =>
      have all : (helpersRun env db helpers).countP atTake = helpers.length := by
        rw [List.countP_eq_length.mpr, helpersRun, List.length_map]
        intro p member
        obtain ⟨visited, -, rfl⟩ := List.mem_map.mp member
        rfl
      rw [List.countP_cons, all]
      dsimp only
      omega

end Db

end Vektordb
