import Vektordb.Db.World

/-!
The calls of the database as programs of atomic actions. What never changes after opening (the
dimension, the config, whether there is a log) is a parameter of them, and so is what earlier
passes of the calling thread left in its visited set.
-/

namespace Vektordb

open Interaction LittleEndian

structure DbOptions where
  config : HnswConfig
  sync : SyncPolicy
  enableWal : Bool

/-- The fields of an open database that no call changes. -/
structure Db where
  dim : Nat
  config : HnswConfig
  durable : Bool

def World.db (w : World) : Db := ⟨w.store.dim, w.index.config, w.wal.isSome⟩

namespace Db

variable {α β : Type}

/-- The `?` operator. -/
def attempt (first : Prog sig (Result α)) (next : α → Prog sig (Result β)) :
    Prog sig (Result β) := do
  match ← first with
  | .ok value => next value
  | .error e => pure (.error e)

/-- Hold a lock while the body runs, whichever way it returns. -/
def withLock (lock : Lock) (exclusive : Bool) (body : Prog sig α) : Prog sig α := do
  call (.acquire lock exclusive)
  let answer ← body
  call (.release lock exclusive)
  pure answer

/-! ### Opening -/

/-- The store half of replaying one record. -/
def restoreRow (id : Nat) (vector : Row) : Prog sig (Result Unit) := do
  let len ← call .storeLen
  if id = len then attempt (call (.append vector)) fun _ => pure (.ok ())
  else if len < id then pure (.error (.corrupt ("WAL skips store id " ++ toString len)))
  else attempt (call (.get id)) fun row =>
    if row.eq vector = false then
      pure (.error (.corrupt ("WAL vector " ++ toString id ++ " disagrees with vector store")))
    else pure (.ok ())

/-- The graph half of replaying one record. -/
def restoreNode (env : Env) (config : HnswConfig) (scratch : Nat → VisitedSet) (id : Nat) :
    Prog sig (Result Unit) := do
  let len ← call .indexLen
  if id = len then do
    Hnsw.insert config id (env.level config.m id) (scratch id)
    pure (.ok ())
  else if len < id then pure (.error (.corrupt ("WAL skips index id " ++ toString len)))
  else pure (.ok ())

def replay (env : Env) (config : HnswConfig) (scratch : Nat → VisitedSet) (replayFrom : Nat) :
    List (Nat × WalOp) → Prog sig (Result Unit)
  | [] => pure (.ok ())
  | (lsn, .insert id vector) :: rest =>
      -- Already covered by the snapshot.
      if lsn < replayFrom then replay env config scratch replayFrom rest
      else attempt (restoreRow id vector) fun _ =>
        attempt (restoreNode env config scratch id) fun _ =>
          replay env config scratch replayFrom rest

/-- Recovery from the log, also when further logging is disabled. -/
def recover (env : Env) (opts : DbOptions) (scratch : Nat → VisitedSet) (config : HnswConfig)
    (replayFrom : Nat) : Prog sig (Result Unit) := do
  let logged ← call .walNotEmpty
  if opts.enableWal || logged then
    attempt (call (.openWal opts.sync replayFrom)) fun records =>
      attempt (replay env config scratch replayFrom records) fun _ => do
        if opts.enableWal then pure (.ok ())
        else do
          call .dropWal
          pure (.ok ())
  else pure (.ok ())

def «open» (env : Env) (opts : DbOptions) (scratch : Nat → VisitedSet) (dim : Nat) :
    Prog sig (Result Unit) :=
  attempt (call (.openStore dim)) fun found =>
    if found ≠ dim then pure (.error (.dimensionMismatch found dim))
    else attempt (call (.openIndex opts.config)) fun (config, replayFrom) =>
      attempt (recover env opts scratch config replayFrom) fun _ => do
        let nodes ← call .indexLen
        let rows ← call .storeLen
        if nodes ≠ rows then
          pure (.error (.corrupt ("index/store length mismatch: index has " ++ toString nodes ++
            ", store has " ++ toString rows)))
        -- After replay, so the codes cover every recovered vector.
        else call .openCodebook

/-! ### Inserts -/

def insertLogged (vector : Row) : Prog sig (Result Nat) :=
  attempt (call .ensureHealthy) fun _ =>
    attempt (call (.append vector)) fun id => do
      match ← call (.walAppend (.insert id vector)) with
      | .ok _ => pure (.ok id)
      | .error e => attempt (call (.rollbackLast id)) fun _ => pure (.error e)

def insertRowStorageOnly (db : Db) (vector : Row) : Prog sig (Result Nat) :=
  if db.durable then withLock .wal true (insertLogged vector)
  else call (.append vector)

def insert (env : Env) (db : Db) (vector : Row) (visited : VisitedSet) : Prog sig (Result Nat) :=
  withLock .maintenance false <|
    attempt (insertRowStorageOnly db vector) fun id => do
      Hnsw.insert db.config id (env.level db.config.m id) visited
      withLock .pq true (call (.encodeRow id vector))
      pure (.ok id)

/-- Phase 1 of a batch: the rows appended, and the error that stopped it. -/
def appendRows (db : Db) : List Row → Nat → Prog sig (Nat × Option Error)
  | [], inserted => pure (inserted, none)
  | row :: rest, inserted => do
      match ← insertRowStorageOnly db row with
      | .ok _ => appendRows db rest (inserted + 1)
      | .error e => pure (inserted, some e)

/-- Phase 2: link the rows on the thread pool, then encode them. -/
def finishBatch (base n : Nat) : Prog sig Unit := do
  call (.submit base n)
  call .join
  withLock .pq true (call (.encodeBatch base n))

/-- `chunks_exact` -/
def chunksExact (dim : Nat) (batch : Row) : List Row :=
  (List.range (batch.length / dim)).map fun i => (batch.drop (i * dim)).take dim

def addBatch (db : Db) (batch : Row) : Prog sig (Result Nat) :=
  withLock .maintenance true <|
    if batch.length % db.dim ≠ 0 then
      pure (.error (.invalidArgument ("batch length " ++ toString batch.length ++
        " is not a multiple of dimension " ++ toString db.dim)))
    else do
      let base ← call .storeLen
      let (inserted, failure) ← appendRows db (chunksExact db.dim batch) 0
      finishBatch base inserted
      pure (match failure with
        | none => .ok base
        | some e => .error e)

/-- What a thread of the pool does with one id of a batch. -/
def worker (env : Env) (db : Db) (visited : VisitedSet) : Prog sig Unit := do
  let id ← call .take
  Hnsw.insert db.config id (env.level db.config.m id) visited
  call (.finish id)

/-! ### Product quantization -/

/-- The rows of every `step`-th id below the length. -/
def gather : List Nat → Row → Prog sig Row
  | [], samples => pure samples
  | id :: rest, samples => do
      let row ← call (.row id)
      gather rest (samples ++ row)

/-- `(0..n).step_by(step)` -/
def stepBy (n step : Nat) : List Nat := (List.range n).filter fun id => id % step = 0

/-- The ids whose rows are the sample. -/
def sampleIds (n maxSamples : Nat) : List Nat := stepBy n (max (n / max maxSamples 1) 1)

def trainPq (env : Env) (db : Db) (m iters maxSamples : Nat) (seeds : Nat → Nat) :
    Prog sig (Result Unit) :=
  if db.config.metric ≠ .l2 then pure (.error (.corrupt "PQ supports L2 only in v1"))
  else do
    let n ← call .storeLen
    if m = 0 ∨ db.dim % m ≠ 0 then
      pure (.error (.invalidArgument ("PQ m must be a non-zero divisor of dimension " ++
        toString db.dim)))
    else if maxSamples < Pq.K then
      pure (.error (.invalidArgument "max_samples must be at least 256"))
    else if n < Pq.K then pure (.error (.corrupt "need >= 256 vectors to train PQ"))
    else do
      let samples ← gather (sampleIds n maxSamples) []
      match ProductQuantizer.train env.pq samples db.dim m iters seeds with
      | .error e => pure (.error e)
      | .ok pq => withLock .maintenance true do
          let codes ← call (.encodeAll pq)
          withLock .pq true (call (.setPq ⟨pq, codes⟩))
          pure (.ok ())

def rescore (query : Row) : List Neighbor → Prog sig (List Neighbor)
  | [] => pure []
  | hit :: rest => do
      let distance ← call (.measure query hit.id)
      let others ← rescore query rest
      pure (⟨hit.id, distance⟩ :: others)

/-- Approximate search over PQ codes, then re-rank the best `k * rerank` candidates. -/
def searchPq (env : Env) (db : Db) (query : Row) (k ef rerank : Nat) (visited : VisitedSet) :
    Prog sig (Result (List Neighbor)) :=
  if query.length ≠ db.dim then pure (.error (.dimensionMismatch db.dim query.length))
  else withLock .pq false do
    match ← call .quantizer with
    | none => pure (.error (.corrupt "PQ not trained; call train_pq first"))
    | some pq =>
        if rerank ≠ 0 ∧ 2 ^ 64 ≤ k * rerank then
          pure (.error (.invalidArgument "k * rerank overflows"))
        else do
          let fetch := if rerank = 0 then k else k * rerank
          let table := pq.adcTable env.pq query
          let hits ← Hnsw.searchWithOracle (fun id => call (.score table id)) visited fetch
            (max ef fetch)
          if rerank = 0 then pure (.ok hits)
          else do
            let exactly ← rescore query hits
            pure (.ok ((exactly.insertionSort (· ≤ ·)).take k))

def search (db : Db) (query : Row) (k ef : Nat) (visited : VisitedSet) :
    Prog sig (Result (List Neighbor)) :=
  if query.length ≠ db.dim then pure (.error (.dimensionMismatch db.dim query.length))
  else do
    let hits ← Hnsw.searchWithOracle (fun id => call (.measure query id)) visited k ef
    pure (.ok hits)

/-! ### Checkpoints -/

def flush : Prog sig (Result Unit) := do
  call .storeCount
  call .syncPages

def checkpoint (db : Db) : Prog sig (Result Unit) :=
  withLock .maintenance true <|
    attempt flush fun _ =>
      attempt (withLock .pq false (call .saveCodebook)) fun _ =>
        if db.durable then
          withLock .wal true <|
            attempt (call .ensureHealthy) fun _ => do
              let lsn ← call .nextLsn
              attempt (call (.saveIndex lsn)) fun _ => call .resetWal
        else call (.saveIndex 0)

end Db

end Vektordb
