import Vektordb.Db.Accounting
import Vektordb.Db.Phases

/-!
What a batch leaves behind if one of its rows fails: the rows before it, in the store, in the log,
in the graph and among the codes, in whatever order the threads of the pool act.
-/

namespace Vektordb

open Interaction LittleEndian VectorStore

namespace Db

variable {env : Env} {db : Db} {w t u : World} {rows : List Row} {batch : Row}
  {helpers : List VisitedSet} {schedule : List Nat} {after : Pool sig World Response}

/-- Rows are appended one after the other, up to the first that the store or the log refuses. -/
inductive Appending (env : Env) (db : Db) :
    World → List Row → World → Nat → Option Error → Prop
  | whole (w : World) : Appending env db w [] w 0 none
  | refused {w t : World} {row : Row} {rest : List Row} {e : Error}
      (ran : (insertRowStorageOnly db row).run (handle env) 0 w = .done t (.error e)) :
      Appending env db w (row :: rest) t 0 (some e)
  | next {w t u : World} {row : Row} {rest : List Row} {id j : Nat} {failure : Option Error}
      (ran : (insertRowStorageOnly db row).run (handle env) 0 w = .done t (.ok id))
      (later : Appending env db t rest u j failure) :
      Appending env db w (row :: rest) u (j + 1) failure

theorem appendRows_appending {n m : Nat} {failure : Option Error}
    (ran : (appendRows db rows n).run (handle env) 0 w = .done t (m, failure)) :
    ∃ j, m = n + j ∧ Appending env db w rows t j failure := by
  induction rows generalizing n w with
  | nil =>
      cases ran
      exact ⟨0, rfl, .whole _⟩
  | cons row rest ih =>
      obtain ⟨u, result, first, later⟩ := Prog.run_bind_inv ran
      cases result with
      | ok id =>
          obtain ⟨j, rfl, appending⟩ := ih later
          exact ⟨j + 1, by omega, .next first appending⟩
      | error e =>
          cases later
          exact ⟨0, rfl, .refused first⟩

theorem Appending.unique {j k : Nat} {failure other : Option Error}
    (first : Appending env db w rows t j failure) (second : Appending env db w rows u k other) :
    t = u ∧ j = k ∧ failure = other := by
  induction first generalizing k u with
  | whole w =>
      cases second
      exact ⟨rfl, rfl, rfl⟩
  | refused ran =>
      cases second with
      | refused again =>
          rw [ran] at again
          cases again
          exact ⟨rfl, rfl, rfl⟩
      | next again later =>
          rw [ran] at again
          cases again
  | next ran later ih =>
      cases second with
      | refused again =>
          rw [ran] at again
          cases again
      | next again others =>
          rw [ran] at again
          cases again
          obtain ⟨same, rfl, same'⟩ := ih others
          exact ⟨same, rfl, same'⟩

theorem Appending.stops {j : Nat} {failure : Option Error}
    (appending : Appending env db w rows t j failure) :
    (failure = none ∧ j = rows.length) ∨ (∃ e, failure = some e) ∧ j < rows.length := by
  induction appending with
  | whole w => exact .inl ⟨rfl, rfl⟩
  | refused ran => exact .inr ⟨⟨_, rfl⟩, Nat.zero_lt_succ _⟩
  | next ran later ih =>
      rw [List.length_cons]
      rcases ih with ⟨rfl, rfl⟩ | ⟨fails, below⟩
      · exact .inl ⟨rfl, rfl⟩
      · exact .inr ⟨fails, Nat.succ_lt_succ below⟩

/-! ### The first phase -/

/-- The batch has the maintenance lock. -/
def seized (w : World) : World := w.setLock .maintenance ⟨[], some 0⟩

def batchThreads (batch : Row) (helpers : List VisitedSet) : List Thread :=
  .client (.addBatch batch) :: helpers.map .helper

theorem acquire_seized (env : Env) (free : w.locks .maintenance = Holders.free) :
    handle env 0 w (.acquire .maintenance true) = .ok (seized w) () := by
  change w.acquire 0 .maintenance true = _
  unfold World.acquire
  rw [if_pos rfl, if_pos free]
  rfl

theorem bringBatch_run (free : w.locks .maintenance = Holders.free)
    {stored : Nat × Nat × Option Error}
    (ran : (bringBatch db rows).run (handle env) 0 w = .done t stored) :
    stored.1 = w.store.count ∧
      (appendRows db rows 0).run (handle env) 0 (seized w) = .done t stored.2 := by
  have first := (Prog.run_act_ok (acquire_seized env free) _).symm.trans ran
  have counts : handle env 0 (seized w) .storeLen = .ok (seized w) w.store.count := rfl
  have second : (appendRows db rows 0 >>= fun appended => .ret (w.store.count, appended)).run
      (handle env) 0 (seized w) = .done t stored := (Prog.run_act_ok counts _).symm.trans first
  obtain ⟨u, appended, appends, last⟩ := Prog.run_bind_inv second
  cases last
  exact ⟨rfl, appends⟩

/-- The rows that wait for the pool are those that have been appended. -/
theorem storeBatch_run (free : w.locks .maintenance = Holders.free) (empty : w.pending = [])
    {stored : Nat × Nat × Option Error}
    (ran : (storeBatch db rows).run (handle env) 0 w = .done u stored) :
    stored.1 = w.store.count ∧ ∃ t,
      (appendRows db rows 0).run (handle env) 0 (seized w) = .done t stored.2 ∧
      u = { t with pending := List.range' w.store.count stored.2.1 } := by
  obtain ⟨t, brought, brings, submits⟩ := Prog.run_bind_inv ran
  have none : t.pending = [] := bringBatch_pending (Prog.run_done_visits brings) empty
  obtain ⟨base, appends⟩ := bringBatch_run free brings
  cases submits
  refine ⟨base, t, appends, ?_⟩
  rw [none, List.nil_append, base]

/-- Either the batch is still at its first phase, and no row waits, or it has gone through it. -/
theorem service_phases (whole : batch.length % w.db.dim = 0) (empty : w.pending = [])
    (ran : (service env w (batchThreads batch helpers)).runs (handle env) schedule = some after) :
    (∃ q t, t.pending = [] ∧ after = ⟨t, (q >>= linkBatch) :: helpersRun env w.db helpers⟩) ∨
      ∃ u stored rest,
        (storeBatch w.db (chunksExact w.db.dim batch)).run (handle env) 0 w = .done u stored ∧
        Pool.runs (handle env) rest ⟨u, linkBatch stored :: helpersRun env w.db helpers⟩ =
          some after := by
  have start : service env w (batchThreads batch helpers) =
      ⟨w, (storeBatch w.db (chunksExact w.db.dim batch) >>= linkBatch) ::
        helpersRun env w.db helpers⟩ := by
    unfold service batchThreads helpersRun
    rw [List.map_cons, List.map_map, Thread.run, addBatch_phases whole]
    rfl
  rw [start] at ran
  refine Pool.front (fun (t : World) first agent (empty : t.pending = []) =>
    helpers_wait first empty agent) ?_ ran
  exact fun q t visited => storeBatch_waits empty visited

/-! ### The batch returns -/

def Unscored (op : Action) : Prop := ∀ table id, op ≠ .score table id

theorem storing_unscored {op : Action} (storing : Storing op) : Unscored op := by
  rintro table id rfl
  exact storing

theorem linking_unscored {op : Action} (linking : Linking op) : Unscored op := by
  rintro table id rfl
  exact linking

theorem batch_unscored (env : Env) (whole : batch.length % db.dim = 0) :
    (Request.run env db (.addBatch batch)).Only Unscored := by
  rw [addBatch_phases whole]
  apply Prog.Only.bind
  · apply ((bringBatch_only db _).mono fun _ storing => storing_unscored storing).bind
    exact fun stored => ⟨nofun, fun _ => trivial⟩
  · exact fun stored => (linkBatch_only stored).mono fun _ linking => linking_unscored linking

theorem batchThreads_unscored (whole : batch.length % w.db.dim = 0)
    (ran : (service env w (batchThreads batch helpers)).runs (handle env) schedule = some after)
    {i : Nat} {p : Prog sig Response} (atThread : after.threads[i]? = some p) :
    p.Only Unscored := by
  refine Pool.runs_only ran ?_ i p atThread
  intro j q atStart
  change ((batchThreads batch helpers).map (Thread.run env w.db))[j]? = some q at atStart
  rw [List.getElem?_map] at atStart
  obtain ⟨thread, isThread, rfl⟩ := Option.map_eq_some_iff.mp atStart
  cases j with
  | zero =>
      cases isThread
      exact batch_unscored env whole
  | succ j =>
      change (helpers.map Thread.helper)[j]? = some thread at isThread
      rw [List.getElem?_map] at isThread
      obtain ⟨visited, -, rfl⟩ := Option.map_eq_some_iff.mp isThread
      obtain ⟨next, takes, links⟩ := helper_links env w.db visited
      rw [takes]
      exact ⟨nofun, fun id => (links id).mono fun _ linking => linking_unscored linking⟩

/-- From wherever the threads have come to, some order of their actions lets the batch return, if
the pool has a thread for each row. -/
theorem batch_returns (levels : Env.Level env) (ready : Ready env w)
    (whole : batch.length % w.db.dim = 0)
    (enough : ∀ u stored, (storeBatch w.db (chunksExact w.db.dim batch)).run (handle env) 0 w =
      .done u stored → u.pending.length ≤ helpers.length)
    (ran : (service env w (batchThreads batch helpers)).runs (handle env) schedule = some after) :
    ∃ more last response, after.runs (handle env) more = some last ∧
      last.threads[0]? = some (.ret response) := by
  obtain ⟨more, last, went, still⟩ := after.settles (handle env)
  have whole' : (service env w (batchThreads batch helpers)).runs (handle env) (schedule ++ more) =
      some last := by
    rw [Pool.runs_append, ran]
    exact went
  rcases concurrent_calls_progress levels ready whole' with
    ⟨i, moves⟩ | ⟨answered, -⟩ | ⟨i, table, id, next, atThread, -⟩ | ⟨waiting, none⟩
  · rw [still i] at moves
    cases moves
  · obtain ⟨response, returned⟩ := answered 0 (.addBatch batch) rfl
    exact ⟨more, last, response, went, returned⟩
  · exact absurd rfl ((batchThreads_unscored whole whole' atThread).1 table id)
  · rcases service_phases whole ready.pending whole' with ⟨q, t, empty, rfl⟩ |
      ⟨u, stored, rest, stores, links⟩
    · exact absurd empty waiting
    · have manned := (manned_linkBatch stored env w.db helpers).runs links
      rw [Nat.sub_eq_zero_of_le (enough u stored stores)] at manned
      obtain ⟨i, next, atThread⟩ := manned.helped waiting
      exact absurd atThread (none i next)

theorem linkBatch_goes (q : Prog sig (Nat × Nat × Option Error)) (response : Response) :
    (q >>= linkBatch) ≠ .ret response := by
  cases q <;> nofun

/-- A batch that has returned has gone through its first phase as it does alone. -/
theorem returned_phases (ready : Ready env w) (whole : batch.length % w.db.dim = 0)
    (ran : (service env w (batchThreads batch helpers)).runs (handle env) schedule = some after)
    {response : Response} (returned : after.threads[0]? = some (.ret response)) :
    ∃ t u j failure rest,
      (appendRows w.db (chunksExact w.db.dim batch) 0).run (handle env) 0 (seized w) =
        .done t (j, failure) ∧
      u = { t with pending := List.range' w.store.count j } ∧
      Pool.runs (handle env) rest
        ⟨u, linkBatch (w.store.count, j, failure) :: helpersRun env w.db helpers⟩ = some after := by
  rcases service_phases whole ready.pending ran with ⟨q, t, -, rfl⟩ |
    ⟨u, ⟨base, j, failure⟩, rest, stores, links⟩
  · exact absurd (Option.some.inj returned) (linkBatch_goes q response)
  · obtain ⟨same, t, appends, isState⟩ := storeBatch_run (ready.locks _) ready.pending stores
    cases same
    exact ⟨t, u, j, failure, rest, appends, isState, links⟩

theorem appending_exists (levels : Env.Level env) (ready : Ready env w)
    (whole : batch.length % w.db.dim = 0) :
    ∃ t j failure, Appending env w.db (seized w) (chunksExact w.db.dim batch) t j failure := by
  obtain ⟨helpers, isMany⟩ : ∃ helpers : List VisitedSet,
      helpers.length = (chunksExact w.db.dim batch).length :=
    ⟨List.replicate _ VisitedSet.new, List.length_replicate⟩
  have enough : ∀ u stored, (storeBatch w.db (chunksExact w.db.dim batch)).run (handle env) 0 w =
      .done u stored → u.pending.length ≤ helpers.length := by
    rintro u ⟨base, j, failure⟩ ran
    obtain ⟨-, t, appends, rfl⟩ := storeBatch_run (ready.locks _) ready.pending ran
    obtain ⟨k, isCount, appending⟩ := appendRows_appending appends
    rw [isMany]
    change (List.range' w.store.count j).length ≤ _
    rw [List.length_range', isCount, Nat.zero_add]
    rcases appending.stops with ⟨-, all⟩ | ⟨-, below⟩
    · exact all.le
    · exact below.le
  have start : (service env w (batchThreads batch helpers)).runs (handle env) [] =
      some (service env w (batchThreads batch helpers)) := rfl
  obtain ⟨more, last, response, went, returned⟩ := batch_returns levels ready whole enough start
  obtain ⟨t, -, j, failure, -, appends, -⟩ := returned_phases ready whole went returned
  obtain ⟨k, -, appending⟩ := appendRows_appending appends
  exact ⟨t, k, failure, appending⟩

/-! ### What the batch has stored -/

/-- The rows of a batch that are stored, before they are linked. -/
structure Stored (env : Env) (w : World) (rows : List Row) (t : World) : Prop where
  count : t.store.count = w.store.count + rows.length
  content : ∀ (k : Nat) row, rows[k]? = some row → t.row (w.store.count + k) = row
  records : ∃ records : List (Nat × WalOp),
    acknowledged env t.dir t.wal = acknowledged env w.dir w.wal ++ records ∧
      records.map Prod.snd = if w.db.durable then logOps w.store.count rows else []
  quantizer : t.pq.map PqState.pq = w.pq.map PqState.pq

theorem Brought.stored {crew : Crew} {i : Nat} {st after : Standing} {s : Shared}
    (brought : Brought w.db.durable st (Tally.of env w) rows after)
    (stands : Stands env crew i after s) : Stored env w rows s.1 := by
  obtain ⟨records, isTally, ops⟩ := brought.tally
  have same := (stands.tally _ isTally).2
  constructor
  case count => exact congrArg Tally.count same
  case content =>
      intro k row isRow
      have below := getElem?_of_lt isRow
      apply stands.rows
      have inside : InBatch (Tally.of env w).count rows.length (w.store.count + k) :=
        ⟨Nat.le_add_right _ _, Nat.add_lt_add_left below _⟩
      rw [brought.content, if_pos inside]
      change rows[w.store.count + k - w.store.count]? = _
      rw [Nat.add_sub_cancel_left]
      exact isRow
  case records => exact ⟨records, congrArg Tally.acked same, ops⟩
  case quantizer => exact congrArg Tally.quantizer same

def loneCrew (env : Env) (w : World) : Crew := crewOf env w [.client (.addBatch [])] False

theorem seized_alone (ready : Ready env w) :
    Consistent env (loneCrew env w) (seized w) (idleLedger env w) ∧
      Stands env (loneCrew env w) 0
        ((Standing.start 0 (atRest env w)).alone (Tally.of env (seized w)))
        (seized w, idleLedger env w) := by
  have calls : (loneCrew env w).calls 0 := ⟨.addBatch [], rfl⟩
  have kept : Consistent env (loneCrew env w) w (idleLedger env w) := ready.consistent _ False
  have idle := idle_start 0 (atRest env w)
  obtain ⟨after, -, stands⟩ := (does_acquire calls true (idle.below .maintenance) (atRest env w)
    kept (fun _ => trivial) (ready.stands _ 0)).2 (seized w, idleLedger env w) ()
    (Handler.noting_ok (acquire_seized env (ready.locks _)))
  exact ⟨after, stands.count ((lock_self _ .maintenance _).trans rfl)⟩

theorem appendRows_stored (ready : Ready env w) {j : Nat} {failure : Option Error}
    (appends : (appendRows w.db rows 0).run (handle env) 0 (seized w) = .done t (j, failure)) :
    Stored env w (rows.take j) t := by
  obtain ⟨kept, here⟩ := seized_alone ready
  obtain ⟨st, isStart⟩ : ∃ st, st = Standing.start 0 (atRest env w) := ⟨_, rfl⟩
  have idle := idle_start 0 (atRest env w)
  rw [← isStart] at here idle
  have mode : (st.alone (Tally.of env (seized w))).mode .maintenance = .exclusive :=
    (lock_self st .maintenance _).trans rfl
  have others : ∀ lock, lock ≠ .maintenance →
      (st.alone (Tally.of env (seized w))).mode lock = .free :=
    fun lock other => (lock_other st _ other).trans (idle.mode lock)
  have calls : (loneCrew env w).calls 0 := ⟨.addBatch [], rfl⟩
  have writes : (loneCrew env w).writes 0 := ⟨.addBatch [], rfl, trivial⟩
  have secure := appendRows_secure calls writes mode (others .wal (by decide))
    (others .pq (by decide)) (List.nil_append rows).symm (brought_nil _ rfl) kept here
  obtain ⟨later, noted⟩ := Prog.run_beside appends note (idleLedger env w)
  obtain ⟨-, phase⟩ := secure.run_post kept
    (Prog.Along.always (fun _ _ careful => careful.elim) _ _) noted
  obtain ⟨after, brought, stands⟩ := phase.brought
  exact Brought.stored brought stands

theorem encodeAll_rows (env : Env) (w : World) (pq : ProductQuantizer) :
    w.encodeAll env pq = w.rows.flatMap (pq.encode env.pq) := by
  unfold World.encodeAll World.rows
  rw [List.flatMap_map]

/-- An open database that has these rows more than another one, and nothing else. -/
structure HasMore (env : Env) (w : World) (rows : List Row) (t : World) : Prop where
  count : t.store.count = w.store.count + rows.length
  content : t.rows = w.rows ++ rows
  nodes : t.index.Dense t.store.count
  levels : ∀ id level, w.index.HasLevel id level → t.index.HasLevel id level
  records : ∃ records : List (Nat × WalOp),
    acknowledged env t.dir t.wal = acknowledged env w.dir w.wal ++ records ∧
      records.map Prod.snd = if w.db.durable then logOps w.store.count rows else []
  quantizer : t.pq.map PqState.pq = w.pq.map PqState.pq
  codes : ∀ before after, w.pq = some before → t.pq = some after →
    after.codes = before.codes ++ rows.flatMap (before.pq.encode env.pq)

theorem Stored.spared (stored : Stored env w rows t) (spares : Spares t u) :
    Stored env w rows u := by
  have sameRow : u.row = t.row := by
    funext x
    unfold World.row World.file
    rw [spares.store, spares.dir]
  constructor
  case count =>
      rw [spares.store]
      exact stored.count
  case content =>
      rw [sameRow]
      exact stored.content
  case records =>
      rw [spares.dir, spares.wal]
      exact stored.records
  case quantizer => exact spares.quantizer.trans stored.quantizer

theorem Stored.whole (stored : Stored env w rows t) (old : ∀ x < w.store.count, t.row x = w.row x) :
    t.rows = w.rows ++ rows := by
  unfold World.rows
  rw [stored.count, List.range_add, List.map_append, List.map_map]
  congr 1
  · exact List.map_congr_left fun x member => old x (List.mem_range.mp member)
  · refine List.ext_getElem ((List.length_map ..).trans List.length_range) fun k _ inside => ?_
    rw [List.getElem_map, List.getElem_range]
    exact stored.content k rows[k] (List.getElem?_eq_getElem inside)

theorem Stored.hasMore (stored : Stored env w rows t) (ready : Ready env w) (resting : Ready env t)
    (old : ∀ x < w.store.count, t.row x = w.row x) (grows : Hnsw.Grows w.index t.index) :
    HasMore env w rows t := by
  have content := stored.whole old
  constructor
  case count => exact stored.count
  case content => exact content
  case nodes => exact resting.complete.1
  case levels => exact grows.level
  case records => exact stored.records
  case quantizer => exact stored.quantizer
  case codes =>
      intro before after was is
      have quantizer := stored.quantizer
      rw [was, is] at quantizer
      have same : after.pq = before.pq := Option.some.inj quantizer
      rw [ready.complete.2 before was, resting.complete.2 after is, same, encodeAll_rows,
        encodeAll_rows, content, List.flatMap_append]

/-! ### Every order of the threads -/

theorem batchThreads_answered {response : Response}
    (returned : after.threads[0]? = some (.ret response)) :
    Answered (batchThreads batch helpers) after := by
  intro i request client
  cases i with
  | zero => exact ⟨response, returned⟩
  | succ i =>
      change (helpers.map Thread.helper)[i]? = _ at client
      rw [List.getElem?_map] at client
      obtain ⟨visited, -, isThread⟩ := Option.map_eq_some_iff.mp client
      cases isThread

theorem linkBatch_answers {stored : Nat × Nat × Option Error} {rest : List Nat}
    {response : Response}
    (links : Pool.runs (handle env) rest ⟨u, linkBatch stored :: helpersRun env db helpers⟩ = some after)
    (returned : after.threads[0]? = some (.ret response)) :
    response = .id (batchResult stored.1 stored.2.2) := by
  have each := Pool.runs_threads (K := fun i (p : Prog sig Response) => i = 0 →
    p.Returns fun (answer : Response) => answer = .id (batchResult stored.1 stored.2.2))
    (fun _ _ _ answer returns first => returns first answer) links ?_
  · exact each 0 _ returned rfl
  · rintro i p atThread rfl
    cases atThread
    exact linkBatch_returns stored

/-- For every database that calls can bring about, with or without a log and a codebook, and for
every batch of whole rows: either all of its rows can be appended, or there is a first that the
store or the log refuses. In whatever order the threads act, the batch answers accordingly, and then
exactly the rows before that one have been added everywhere; and it can always go on until it has
returned. -/
theorem batch_keeps_front (levels : Env.Level env) (life : Life env (.resting w))
    (whole : batch.length % w.db.dim = 0) :
    (∃ t j failure,
      Appending env w.db (seized w) (chunksExact w.db.dim batch) t j failure) ∧
    ∀ t j failure, Appending env w.db (seized w) (chunksExact w.db.dim batch) t j failure →
      ((failure = none ∧ j = (chunksExact w.db.dim batch).length) ∨
        (∃ e, failure = some e) ∧ j < (chunksExact w.db.dim batch).length) ∧
      ∀ (helpers : List VisitedSet) schedule after,
        (service env w (batchThreads batch helpers)).runs (handle env) schedule = some after →
          (∀ response, after.threads[0]? = some (.ret response) →
            response = .id (batchResult w.store.count failure) ∧
              HasMore env w ((chunksExact w.db.dim batch).take j) after.state) ∧
          (j ≤ helpers.length → ∃ more last response,
            after.runs (handle env) more = some last ∧
              last.threads[0]? = some (.ret response)) := by
  have ready : Ready env w := life.sound levels
  refine ⟨appending_exists levels ready whole, ?_⟩
  intro t j failure appending
  refine ⟨appending.stops, ?_⟩
  intro helpers schedule after ran
  constructor
  · intro response returned
    obtain ⟨t', u, j', failure', rest, appends, rfl, links⟩ :=
      returned_phases ready whole ran returned
    obtain ⟨k, isCount, again⟩ := appendRows_appending appends
    obtain ⟨rfl, same, rfl⟩ := appending.unique again
    obtain rfl : j = j' := by omega
    refine ⟨linkBatch_answers links returned, ?_⟩
    obtain ⟨later, reached⟩ := reached_plain levels ready ran
    have spares := ((manned_linkBatch _ env w.db helpers).runs links).spares
    have handed : Spares t { t with pending := List.range' w.store.count j } := ⟨rfl, rfl, rfl, rfl⟩
    have stored : Stored env w ((chunksExact w.db.dim batch).take j) after.state :=
      (appendRows_stored ready appends).spared (handed.trans spares)
    refine stored.hasMore ready (reached.ready (batchThreads_answered returned))
      (fun x below => (reached.before ready below).2) ?_
    have apart : (batchThreads batch helpers).length ∉ schedule :=
      fun acts => Nat.lt_irrefl _ (reached.inside _ acts)
    exact (reached.idle _ apart).grows
  · intro few
    refine batch_returns levels ready whole ?_ ran
    rintro u ⟨base, j', failure'⟩ stores
    obtain ⟨-, t', appends, rfl⟩ := storeBatch_run (ready.locks _) ready.pending stores
    obtain ⟨k, isCount, again⟩ := appendRows_appending appends
    obtain ⟨rfl, rfl, rfl⟩ := appending.unique again
    change (List.range' w.store.count j').length ≤ _
    rw [List.length_range', isCount, Nat.zero_add]
    exact few

/-- The disk takes one more record. -/
def fullWorld : World :=
  { countingNew with faults := [.none, .write 3 "disk full"], refusals := [] }

def fullBatch : Row := [F32.ofNat 4, F32.ofNat 6, F32.ofNat 8]

def fullThreads : List Thread := batchThreads fullBatch [VisitedSet.new, VisitedSet.new]

/-- The second thread of the pool links the row that the disk has taken. -/
def fullTurns : List Nat := List.replicate 14 0 ++ List.replicate 5 2 ++ List.replicate 5 0

def fullServed : Pool sig World Response := servedBy counting fullWorld fullThreads fullTurns

theorem fullServed_runs :
    ((service counting fullWorld fullThreads).runs (handle counting) fullTurns).isSome = true ∧
      fullWorld.db.dim = 1 ∧ fullWorld.store.count = 0 ∧ fullServed.state.store.count = 1 ∧
      (answers fullServed)[0]? = some (some (.id (.error (.io "disk full")))) ∧
      fullServed.state.pq.map PqState.codes = some [4] := by
  decide +kernel

theorem full_served : (service counting fullWorld fullThreads).runs (handle counting) fullTurns =
    some fullServed := served_by fullServed_runs.1

theorem batch_keeps_front_full :
    (answers fullServed)[0]? = some (some (.id (.error (.io "disk full")))) ∧
      HasMore counting fullWorld [[F32.ofNat 4]] fullServed.state ∧
      fullServed.state.pq.map PqState.codes = some [4] := by
  obtain ⟨-, dim, before, stored, answered, codes⟩ := fullServed_runs
  refine ⟨answered, ?_, codes⟩
  have whole : fullBatch.length % fullWorld.db.dim = 0 := by
    rw [dim]
    rfl
  have life : Life counting (.resting fullWorld) := counting_life.faulty _ _
  obtain ⟨⟨t, j, failure, appending⟩, every⟩ := batch_keeps_front counting_levels life whole
  obtain ⟨kept, -⟩ := (every t j failure appending).2 [VisitedSet.new, VisitedSet.new] fullTurns
    fullServed full_served
  obtain ⟨-, more⟩ := kept _ (answers_some answered)
  have rows : chunksExact fullWorld.db.dim fullBatch =
      [[F32.ofNat 4], [F32.ofNat 6], [F32.ofNat 8]] := by
    rw [dim]
    rfl
  rw [rows] at more
  have count := more.count
  change fullServed.state.store.count = _ at count
  rw [stored, before, List.length_take] at count
  change 1 = 0 + min j 3 at count
  obtain rfl : j = 1 := by omega
  exact more

end Db

end Vektordb
