import Vektordb.Db.Reading

/-!
An open database and the threads that use it: clients that each make a call, and threads of the pool
that each link a row of a batch. Every thread keeps the invariant of the shared state whatever the
others do, and where it returns it has nothing in hand and all its rows are complete.
-/

namespace Vektordb

open Interaction LittleEndian VectorStore

namespace Db

/-! ### Threads -/

inductive Request where
  | insert (vector : Row) (visited : VisitedSet)
  | addBatch (batch : Row)
  | get (id : Nat)
  | search (query : Row) (k ef : Nat) (visited : VisitedSet)
  | searchPq (query : Row) (k ef rerank : Nat) (visited : VisitedSet)
  | trainPq (m iters maxSamples : Nat) (seeds : Nat → Nat)
  | checkpoint

/-- The calls that store rows. -/
def Request.Writes : Request → Prop
  | .insert _ _ => True
  | .addBatch _ => True
  | _ => False

inductive Response where
  | id (result : Result Nat)
  | row (result : Result Row)
  | hits (result : Result (List Neighbor))
  | done (result : Result Unit)
  /-- A thread of the pool has linked an id. -/
  | linked
  deriving DecidableEq

def Request.run (env : Env) (db : Db) : Request → Prog sig Response
  | .insert vector visited => Db.insert env db vector visited >>= fun result => .ret (.id result)
  | .addBatch batch => Db.addBatch db batch >>= fun result => .ret (.id result)
  | .get id => call (.get id) >>= fun (result : Result Row) => .ret (.row result)
  | .search query k ef visited => Db.search db query k ef visited >>= fun result => .ret (.hits result)
  | .searchPq query k ef rerank visited =>
      Db.searchPq env db query k ef rerank visited >>= fun result => .ret (.hits result)
  | .trainPq m iters maxSamples seeds =>
      Db.trainPq env db m iters maxSamples seeds >>= fun result => .ret (.done result)
  | .checkpoint => Db.checkpoint db >>= fun result => .ret (.done result)

inductive Thread where
  | client (request : Request)
  | helper (visited : VisitedSet)

def Thread.run (env : Env) (db : Db) : Thread → Prog sig Response
  | .client request => request.run env db
  | .helper visited => worker env db visited >>= fun _ => .ret .linked

/-- The threads of a process, before any of them has begun. -/
def service (env : Env) (w : World) (threads : List Thread) : Pool sig World Response :=
  ⟨w, threads.map (Thread.run env w.db)⟩

def Clients (threads : List Thread) (i : Nat) : Prop := ∃ request, threads[i]? = some (.client request)

def Writers (threads : List Thread) (i : Nat) : Prop :=
  ∃ request, threads[i]? = some (.client request) ∧ request.Writes

/-! ### An open database at rest -/

/-- Nobody is using the database: every row has its node, and its code if there is a codebook. -/
structure Ready (env : Env) (w : World) : Prop where
  shelved : Shelved w.db w.store w.dir
  graphed : Graphed w.db w.index w.store.count
  owners : w.owners.length = w.store.count
  nodes : ∀ x < w.store.count, (w.index.nodes.get x).isSome = true
  coded : ∀ state, w.pq = some state → Coded env w.row w.store.count (fun _ => False) state
  journaled : Journaled env False w.dir w.wal w.store.count
  counted : headerCount w.dir.file.image ≤ w.store.count
  ahead : ∀ len mark, Mark env w.dir len mark → len ≤ headerCount w.dir.file.image
  locks : ∀ lock, w.locks lock = Holders.free
  pending : w.pending = []
  running : w.running = []

/-- The ledger of a database at rest, with the rows that its directory would not bring back. -/
def idleLedger (env : Env) (w : World) : Ledger :=
  ⟨fun _ => none, fun _ => False, fun x => x < w.store.count ∧ ¬ Backed env w.dir x (w.row x)⟩

abbrev atRest (env : Env) (w : World) : Shared := (w, idleLedger env w)

/-- Every row has gone through the log since the store was created. -/
structure Anchored (env : Env) (w : World) : Prop where
  inStep : InStep env w (idleLedger env w)
  journaled : Journaled env True w.dir w.wal w.store.count

def crewOf (env : Env) (w : World) (threads : List Thread) (careful : Prop) : Crew :=
  ⟨w.db, Clients threads, Writers threads, w.store.count, careful, Anchored env w⟩

variable {env : Env} {w : World}

theorem Ready.consistent (ready : Ready env w) (threads : List Thread) (careful : Prop) :
    Consistent env (crewOf env w threads careful) w (idleLedger env w) := by
  constructor
  case shelved => exact ready.shelved
  case graphed => exact ready.graphed
  case assigned =>
      constructor
      case owners => exact ready.owners
      case authors =>
          intro x i late owner
          have inside := getElem?_of_lt owner
          rw [ready.owners] at inside
          exact absurd inside (Nat.not_lt.mpr late)
      case nodes => exact fun x below _ => ready.nodes x below
      case inside => exact nofun
      case owner => exact nofun
      case hand => exact nofun
      case held => exact nofun
      case running =>
          rw [ready.running]
          exact nofun
      case once =>
          rw [ready.running]
          exact List.nodup_nil
      case pending =>
          rw [ready.pending]
          exact nofun
      case distinct =>
          rw [ready.pending]
          exact List.nodup_nil
      case linked => exact nofun
  case coded => exact ready.coded
  case journaled =>
      by_cases anchored : Anchored env w
      · exact anchored.journaled.weaken fun _ => trivial
      · exact ready.journaled.weaken anchored
  case inStep => exact Anchored.inStep
  case secured =>
      constructor
      case covered =>
          intro x below logged
          by_contra lost
          exact logged ⟨below, lost⟩
      case counted => exact fun x below => ⟨below.trans_le ready.counted, id⟩
      case ahead => exact ready.ahead
  case durable => rfl
  case locking =>
      constructor
      · intro lock i _
        rw [ready.locks]
        rfl
      · intro lock i holds
        rw [ready.locks] at holds
        rcases holds with shared | exclusive
        · cases shared
        · cases exclusive

theorem Ready.stands (ready : Ready env w) (crew : Crew) (i : Nat) :
    Stands env crew i (Standing.start i (atRest env w)) (atRest env w) := by
  constructor
  case locks =>
      intro lock
      change Mode.free.Of i (w.locks lock)
      rw [ready.locks]
      exact ⟨rfl, nofun, nofun⟩
  case owned =>
      intro x
      unfold Standing.start
      dsimp only
      by_cases mine : w.owners[x]? = some i
      · rw [if_pos mine]
        exact ⟨fun _ => rfl, fun _ => mine⟩
      · rw [if_neg mine]
        exact ⟨fun owned => absurd owned mine, nofun⟩
  case rows =>
      intro x row isRow
      unfold Standing.start at isRow
      dsimp only at isRow
      split at isRow
      · exact Option.some.inj isRow
      · cases isRow
  case uncoded => exact fun _ _ => Iff.rfl
  case unlogged => exact fun _ _ => Iff.rfl
  case hand => exact fun _ => ⟨nofun, nofun⟩
  case fresh => exact nofun
  case tally => exact nofun

theorem idle_start (i : Nat) (s : Shared) : (Standing.start i s).Idle :=
  ⟨fun _ => rfl, fun _ => id, fun _ => id⟩

/-! ### Where a thread ends -/

variable {crew : Crew} {i : Nat} {st : Standing} {s t : Shared}

/-- The rows with which a call has left its agent, beside those that it had before. -/
inductive Stores (db : Db) : Request → Response → Nat → List Row → Prop
  | insert (vector : Row) (visited : VisitedSet) (id : Nat) :
      Stores db (.insert vector visited) (.id (.ok id)) id [vector]
  | notInserted (vector : Row) (visited : VisitedSet) (e : Error) (base : Nat) :
      Stores db (.insert vector visited) (.id (.error e)) base []
  | batch (batch : Row) (base : Nat) :
      Stores db (.addBatch batch) (.id (.ok base)) base (chunksExact db.dim batch)
  | front (batch : Row) (base inserted : Nat) (e : Error)
      (few : inserted = 0 ∨ inserted < (chunksExact db.dim batch).length) :
      Stores db (.addBatch batch) (.id (.error e)) base ((chunksExact db.dim batch).take inserted)
  | get (id : Nat) (result : Result Row) (base : Nat) : Stores db (.get id) (.row result) base []
  | search (query : Row) (k ef : Nat) (visited : VisitedSet) (result : Result (List Neighbor))
      (base : Nat) : Stores db (.search query k ef visited) (.hits result) base []
  | searchPq (query : Row) (k ef rerank : Nat) (visited : VisitedSet)
      (result : Result (List Neighbor)) (base : Nat) :
      Stores db (.searchPq query k ef rerank visited) (.hits result) base []
  | trainPq (m iters maxSamples : Nat) (seeds : Nat → Nat) (result : Result Unit) (base : Nat) :
      Stores db (.trainPq m iters maxSamples seeds) (.done result) base []
  | checkpoint (result : Result Unit) (base : Nat) :
      Stores db .checkpoint (.done result) base []

def Finds (env : Env) (careful : Prop) (w : World) : Request → Response → Prop
  | .search query k _ _, .hits (.ok hits) => Hnsw.Hits (Exactly env query w) k hits
  | .searchPq query k _ rerank _, .hits result => Ranking env careful query k rerank w result
  | _, _ => True

structure Served (env : Env) (crew : Crew) (i : Nat) (st : Standing) (request : Request) (t : Shared)
    (response : Response) : Prop where
  leaves : ∃ base rows after, Stores crew.db request response base rows ∧
    Leaves env crew i st base rows after t
  finds : Finds env crew.careful t.1 request response

def Ended (env : Env) (crew : Crew) (i : Nat) (st : Standing) : Thread → Shared → Response → Prop
  | .client request, t, response => Served env crew i st request t response
  | .helper _, t, response => response = .linked ∧ Stands env crew i st t

theorem secure_answer {α : Type} {p : Prog sig α} {answer : α → Response} {mid : Shared → α → Prop}
    {post : Shared → Response → Prop} (kept : Consistent env crew s.1 s.2)
    (secure : Secure (noted env) (sharing env crew) i mid p s)
    (stable : ∀ result, (sharing env crew).Stable i fun t => mid t result)
    (ends : ∀ t result, mid t result → post t (answer result)) :
    Secure (noted env) (sharing env crew) i post (p >>= fun result => .ret (answer result)) s := by
  apply Secure.bind kept secure
  intro t result _ holds
  apply Secure.ret
  intro u moved keptLater
  exact ends u result (stable result t u moved keptLater holds)

theorem Appends.stores {rows : List Row} {result : Result Nat} {request : Request}
    (appends : Appends env crew i st rows t result)
    (whole : ∀ base, Stores crew.db request (.id (.ok base)) base rows)
    (front : ∀ base inserted e, (inserted = 0 ∨ inserted < rows.length) →
      Stores crew.db request (.id (.error e)) base (rows.take inserted)) :
    ∃ base rows after, Stores crew.db request (.id result) base rows ∧
      Leaves env crew i st base rows after t := by
  cases appends with
  | whole base after leaves counts => exact ⟨base, rows, after, whole base, leaves⟩
  | front base inserted e after few leaves counts =>
      exact ⟨base, rows.take inserted, after, front base inserted e few, leaves⟩

theorem leaves_recount (idle : st.Idle) (base : Nat) (stands : Stands env crew i (st.recount none) t) :
    Leaves env crew i st base [] (st.recount none) t :=
  ⟨⟨idle.mode, idle.coded, idle.hand⟩, fun _ => (if_neg not_inBatch_zero).symm,
    fun _ inside => absurd inside not_inBatch_zero,
    fun _ _ inside => absurd inside not_inBatch_zero, stands⟩

theorem get_secure (id : Nat) (here : Stands env crew i st s) :
    Secure (noted env) (sharing env crew) i (fun t _ => Stands env crew i st t) (call (.get id)) s := by
  have stable := stands_stable env crew i st
  have reads : Does (noted env) (sharing env crew) i (.get id) (Stands env crew i st)
      fun t _ => Stands env crew i st t :=
    does_look (fun _ _ => rfl) (fun _ ok => .inl ok) fun w => ⟨w.store.get w.file id, rfl⟩
  exact reads.secure stable (fun _ => stable) here

theorem request_secure (levels : Env.Level env) (calls : crew.calls i) (idle : st.Idle)
    (request : Request) (writes : request.Writes → crew.writes i) (kept : Consistent env crew s.1 s.2)
    (here : Stands env crew i st s) :
    Secure (noted env) (sharing env crew) i
      (fun t response => Served env crew i st request t response) (request.run env crew.db) s := by
  cases request with
  | insert vector visited =>
      apply secure_answer kept (insert_secure levels calls (writes trivial) idle vector visited kept here)
      · exact fun result => insertOutcome_stable env crew i st vector result
      · intro t result outcome
        refine ⟨(outcome.appends idle).stores (fun base => .insert vector visited base) ?_, trivial⟩
        rintro base inserted e (rfl | few)
        · exact .notInserted vector visited e base
        · obtain rfl : inserted = 0 := Nat.lt_one_iff.mp few
          exact .notInserted vector visited e base
  | addBatch batch =>
      apply secure_answer kept (addBatch_secure calls (writes trivial) idle batch kept here)
      · exact fun result => appends_stable env crew i st _ result
      · intro t result appends
        exact ⟨appends.stores (fun base => .batch batch base)
          fun base inserted e few => .front batch base inserted e few, trivial⟩
  | get id =>
      apply secure_answer kept (get_secure id here)
      · exact fun _ => stands_stable env crew i st
      · intro t result stands
        exact ⟨⟨0, [], st, .get id result 0, leaves_nil idle 0 stands⟩, trivial⟩
  | search query k ef visited =>
      apply secure_answer kept (search_secure query k ef visited kept here)
      · exact fun result => found_stable env crew i st query k result
      · intro t result found
        have stands : Stands env crew i st t := found.stands
        refine ⟨⟨0, [], st, .search query k ef visited result 0, leaves_nil idle 0 stands⟩, ?_⟩
        cases result with
        | ok hits => exact found.2
        | error e => trivial
  | searchPq query k ef rerank visited =>
      apply secure_answer kept
        (searchPq_secure calls (idle.below .pq) query k ef rerank visited kept here)
      · exact fun result =>
          (stands_stable env crew i st).and (ranking_stable env crew i query k rerank result)
      · rintro t result ⟨stands, ranking⟩
        exact ⟨⟨0, [], st, .searchPq query k ef rerank visited result 0, leaves_nil idle 0 stands⟩,
          ranking⟩
  | trainPq m iters maxSamples seeds =>
      apply secure_answer kept (trainPq_secure calls idle m iters maxSamples seeds kept here)
      · exact fun _ => stands_stable env crew i _
      · intro t result stands
        exact ⟨⟨0, [], _, .trainPq m iters maxSamples seeds result 0, leaves_recount idle 0 stands⟩,
          trivial⟩
  | checkpoint =>
      apply secure_answer kept (checkpoint_secure calls idle kept here)
      · exact fun _ => stands_stable env crew i _
      · intro t result stands
        exact ⟨⟨0, [], _, .checkpoint result 0, leaves_recount idle 0 stands⟩, trivial⟩

theorem thread_secure (levels : Env.Level env) (thread : Thread)
    (client : ∀ request, thread = .client request →
      crew.calls i ∧ (request.Writes → crew.writes i))
    (helper : ∀ visited, thread = .helper visited → ¬ crew.calls i)
    (idle : st.Idle) (kept : Consistent env crew s.1 s.2) (here : Stands env crew i st s) :
    Secure (noted env) (sharing env crew) i (Ended env crew i st thread) (thread.run env crew.db) s := by
  cases thread with
  | client request =>
      obtain ⟨calls, writes⟩ := client request rfl
      exact request_secure levels calls idle request writes kept here
  | helper visited =>
      apply secure_answer kept (worker_secure levels (helper visited rfl) idle visited kept here)
      · exact fun _ => stands_stable env crew i st
      · exact fun t _ stands => ⟨rfl, stands⟩

end Db

end Vektordb
