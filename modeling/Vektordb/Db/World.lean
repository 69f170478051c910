import Vektordb.Hnsw.Persist
import Vektordb.Hnsw.Embedding
import Vektordb.Storage.Rows
import Vektordb.Wal.Log
import Vektordb.Pq
import Vektordb.Interaction.Solo

/-!
The database as one shared state: the directory that a process leaves behind, the parts of the
open database in memory, its locks and the tasks of the thread pool. `handle` says what each
atomic action does to it, and `Left` what the directory may look like when the process is killed
inside one.
-/

namespace Vektordb

open Interaction LittleEndian

/-- What the database computes with but does not fix: the checksum, the distance kernels, the
level drawn from the generator seeded with an id, and the arithmetic of product quantization. -/
structure Env where
  hash : Bytes → Nat
  hash_lt : ∀ bytes, hash bytes < 2 ^ 32
  kernel : Metric → Row → Row → F32
  level : (m id : Nat) → Nat
  pq : Pq.Arithmetic

/-! ### State -/

structure Directory where
  store : Option StoreFile
  snap : Option Bytes
  codebook : Option Bytes
  wal : Option Bytes

structure PqState where
  pq : ProductQuantizer
  /-- Code for id `i` at `codes[i*m .. (i+1)*m]`. -/
  codes : Bytes

inductive Lock where
  | maintenance
  | wal
  | pq
  deriving DecidableEq, Repr

/-- Who holds a lock; a mutex is only ever taken exclusively. -/
structure Holders where
  shared : List Nat
  exclusive : Option Nat
  deriving DecidableEq, Repr

def Holders.free : Holders := ⟨[], none⟩

structure World where
  dir : Directory
  store : VectorStore
  index : Hnsw
  kernel : Metric
  wal : Option Wal
  pq : Option PqState
  locks : Lock → Holders
  /-- Ids of the batch that no thread has begun to link. -/
  pending : List Nat
  /-- Ids of the batch that some thread is linking. -/
  running : List Nat
  /-- What the operating system does to the next writes; nothing wrong when the list is empty. -/
  faults : List Wal.Fault
  /-- Whether it refuses the next appends a segment that is not mapped yet, with `true` only after it
  has extended the file. -/
  refusals : List (Option Bool)
  /-- Which agent appended each row. Nothing reads it. -/
  owners : List Nat

namespace Directory

def file (dir : Directory) : StoreFile := dir.store.getD ⟨0, Image.blank, Image.blank⟩

def walBytes (dir : Directory) : Bytes := dir.wal.getD []

end Directory

namespace World

def start (dir : Directory) : World where
  dir := dir
  store := ⟨0, 0, 0, 0⟩
  index := ⟨⟨0, 0, .l2⟩, SegVec.new, ENTRY_NONE⟩
  kernel := .l2
  wal := none
  pq := none
  locks _ := Holders.free
  pending := []
  running := []
  faults := []
  refusals := []
  owners := []

def file (w : World) : StoreFile := w.dir.file

def row (w : World) (id : Nat) : Row := w.store.getUnchecked w.file id

def distances (env : Env) (w : World) : Distances := fun a b =>
  env.kernel w.kernel (w.row a) (w.row b)

def setFile (w : World) (file : StoreFile) : World :=
  { w with dir := { w.dir with store := some file } }

def fault (w : World) : Wal.Fault := w.faults.headD .none

def afterFault (w : World) : World := { w with faults := w.faults.tail }

end World

/-! ### Actions -/

namespace Db

inductive Action where
  | index (action : Hnsw.Action)
  /-- Open the store file or create it; the answer is its dimension. -/
  | openStore (dim : Nat)
  /-- Load the snapshot or start a new index; the answer is its config and where replay starts. -/
  | openIndex (config : HnswConfig)
  | walNotEmpty
  /-- `Wal::open` and `ensure_lsn_at_least`. -/
  | openWal (policy : SyncPolicy) (floor : Nat)
  | dropWal
  | openCodebook
  | storeLen
  | append (vector : Row)
  | rollbackLast (id : Nat)
  | get (id : Nat)
  /-- `get_unchecked` -/
  | row (id : Nat)
  /-- The two halves of `VectorStore::flush`. -/
  | storeCount
  | syncPages
  | indexLen
  | saveIndex (lsn : Nat)
  | ensureHealthy
  | walAppend (op : WalOp)
  | nextLsn
  | resetWal
  | quantizer
  | saveCodebook
  | encodeAll (pq : ProductQuantizer)
  | setPq (state : PqState)
  /-- The code write of `insert` and the one of `finish_batch`. -/
  | encodeRow (id : Nat) (vector : Row)
  | encodeBatch (base n : Nat)
  /-- The oracle of `search_pq`. -/
  | score (table : List F32) (id : Nat)
  | measure (query : Row) (id : Nat)
  | acquire (lock : Lock) (exclusive : Bool)
  | release (lock : Lock) (exclusive : Bool)
  | submit (base n : Nat)
  | take
  | finish (id : Nat)
  | join

abbrev Answer : Action → Type
  | .index action => Hnsw.Answer action
  | .openStore _ => Result Nat
  | .openIndex _ => Result (HnswConfig × Nat)
  | .walNotEmpty => Bool
  | .openWal _ _ => Result (List (Nat × WalOp))
  | .dropWal => Unit
  | .openCodebook => Result Unit
  | .storeLen => Nat
  | .append _ => Result Nat
  | .rollbackLast _ => Result Unit
  | .get _ => Result Row
  | .row _ => Row
  | .storeCount => Unit
  | .syncPages => Result Unit
  | .indexLen => Nat
  | .saveIndex _ => Result Unit
  | .ensureHealthy => Result Unit
  | .walAppend _ => Result Nat
  | .nextLsn => Nat
  | .resetWal => Result Unit
  | .quantizer => Option ProductQuantizer
  | .saveCodebook => Result Unit
  | .encodeAll _ => Bytes
  | .setPq _ => Unit
  | .encodeRow _ _ => Unit
  | .encodeBatch _ _ => Unit
  | .score _ _ => F32
  | .measure _ _ => F32
  | .acquire _ _ => Unit
  | .release _ _ => Unit
  | .submit _ _ => Unit
  | .take => Nat
  | .finish _ => Unit
  | .join => Unit

def sig : Sig := ⟨Action, Answer⟩

instance : Supports Hnsw.sig sig := ⟨fun action => .act (S := sig) (.index action) .ret⟩

def call (action : Action) : Prog sig (Answer action) := Prog.perform (S := sig) action

end Db

/-! ### What the actions do -/

namespace World

/-- The second half of `VectorStore::flush`, the one that may fail. -/
def syncPages (w : World) : Reply World (Result Unit) :=
  match w.fault with
  | .none => .ok (w.afterFault.setFile (w.store.syncPages w.file)) (.ok ())
  | .write _ message => .ok w.afterFault (.error (.io message))
  | .sync message => .ok w.afterFault (.error (.io message))

def openStore (w : World) (dim : Nat) : Reply World (Result Nat) :=
  match w.dir.store with
  | some file =>
      match VectorStore.open file with
      | .ok store => .ok { w with store := store, owners := List.replicate store.count 0 }
          (.ok store.dim)
      | .error e => .ok w (.error e)
  | none =>
      match VectorStore.create dim with
      | .ok (store, file) => .ok ({ w with store := store }.setFile file) (.ok store.dim)
      | .error e => .ok w (.error e)

def openIndex (env : Env) (w : World) (config : HnswConfig) :
    Reply World (Result (HnswConfig × Nat)) :=
  match (match w.dir.snap with
    | some bytes => Hnsw.load env.hash bytes
    | none => (Hnsw.new config).map fun index => (index, 0)) with
  | .ok (index, replayFrom) =>
      .ok { w with index := index, kernel := index.config.metric } (.ok (index.config, replayFrom))
  | .error e => .ok w (.error e)

def openWal (env : Env) (w : World) (policy : SyncPolicy) (floor : Nat) :
    Reply World (Result (List (Nat × WalOp))) :=
  match Wal.open env.hash policy w.dir.walBytes with
  | (.ok (wal, records), file) =>
      .ok { w with dir := { w.dir with wal := some file }, wal := some (wal.ensureLsnAtLeast floor) }
        (.ok records)
  | (.error e, file) => .ok { w with dir := { w.dir with wal := some file } } (.error e)

/-- `encode_all` of the rows below the count. -/
def encodeAll (env : Env) (w : World) (pq : ProductQuantizer) : Bytes :=
  (List.range w.store.count).flatMap fun id => pq.encode env.pq (w.row id)

def openCodebook (env : Env) (w : World) : Reply World (Result Unit) :=
  match w.dir.codebook with
  | none => .ok w (.ok ())
  | some raw =>
      match Pq.loadCodebook env.hash raw with
      | .error e => .ok w (.error e)
      | .ok pq =>
          if pq.dim ≠ w.store.dim then
            .ok w (.error (.corrupt ("pq.codebook is for dim " ++ toString pq.dim ++
              ", store has " ++ toString w.store.dim)))
          else .ok { w with pq := some ⟨pq, w.encodeAll env pq⟩ } (.ok ())

def appendRow (w : World) (vector : Row) : Result Nat × VectorStore × StoreFile :=
  match w.refusals.headD none with
  | none => w.store.append w.file vector
  | some extended => w.store.appendUnmapped w.file vector extended

theorem appendRow_granted {w : World} (granted : w.refusals = []) (vector : Row) :
    w.appendRow vector = w.store.append w.file vector := by
  unfold appendRow
  rw [granted]
  rfl

def append (w : World) (agent : Nat) (vector : Row) : Reply World (Result Nat) :=
  match w.appendRow vector with
  | (.ok id, store, file) =>
      .ok ({ w with
        store := store
        owners := w.owners ++ [agent]
        refusals := w.refusals.tail }.setFile file) (.ok id)
  | (.error e, store, file) =>
      .ok ({ w with store := store, refusals := w.refusals.tail }.setFile file) (.error e)

def rollbackLast (w : World) (id : Nat) : Reply World (Result Unit) :=
  match w.store.rollbackLast id with
  | (.ok (), store) => .ok { w with store := store, owners := w.owners.dropLast } (.ok ())
  | (.error e, store) => .ok { w with store := store } (.error e)

def walAppend (env : Env) (w : World) (op : WalOp) : Reply World (Result Nat) :=
  match w.wal with
  | none => .fault
  | some wal =>
      match wal.append env.hash w.fault op w.dir.walBytes with
      | (answer, wal, file) =>
          .ok { w.afterFault with wal := some wal, dir := { w.dir with wal := some file } } answer

def resetWal (w : World) : Reply World (Result Unit) :=
  match w.wal with
  | none => .fault
  | some wal =>
      match wal.reset w.fault w.dir.walBytes with
      | (answer, wal, file) =>
          .ok { w.afterFault with wal := some wal, dir := { w.dir with wal := some file } } answer

/-- A file is replaced by a rename; after it the sync of the directory may still fail. -/
def replaceFile (w : World) (dir : Directory) : Reply World (Result Unit) :=
  match w.fault with
  | .none => .ok { w.afterFault with dir := dir } (.ok ())
  | .write _ message => .ok w.afterFault (.error (.io message))
  | .sync message => .ok { w.afterFault with dir := dir } (.error (.io message))

def saveIndex (env : Env) (w : World) (lsn : Nat) : Reply World (Result Unit) :=
  match w.index.save env.hash lsn with
  | none => .fault
  | some bytes => w.replaceFile { w.dir with snap := some bytes }

def saveCodebook (env : Env) (w : World) : Reply World (Result Unit) :=
  match w.pq with
  | none => .ok w (.ok ())
  | some state =>
      w.replaceFile { w.dir with codebook := some (Pq.saveCodebook env.hash state.pq) }

/-- `codes.resize(len, 0)` -/
def resize (codes : Bytes) (len : Nat) : Bytes :=
  codes.take len ++ List.replicate (len - codes.length) 0

/-- `codes[at..][..code.len()].copy_from_slice(code)` -/
def overwrite (codes : Bytes) (start : Nat) (code : Bytes) : Bytes :=
  codes.take start ++ (code ++ codes.drop (start + code.length))

def encodeRow (env : Env) (w : World) (id : Nat) (vector : Row) : World :=
  match w.pq with
  | none => w
  | some state =>
      let need := (id + 1) * state.pq.m
      let codes := if state.codes.length < need then resize state.codes need else state.codes
      { w with pq := some { state with
        codes := overwrite codes (id * state.pq.m) (state.pq.encode env.pq vector) } }

def encodeBatch (env : Env) (w : World) (base n : Nat) : World :=
  match w.pq with
  | none => w
  | some state =>
      let codes := resize state.codes ((base + n) * state.pq.m)
      let batch := (List.range n).flatMap fun i => state.pq.encode env.pq (w.row (base + i))
      { w with pq := some { state with codes := overwrite codes (base * state.pq.m) batch } }

/-- The distance of the code of an id; a slice past the codes panics. -/
def score (env : Env) (w : World) (table : List F32) (id : Nat) : Option F32 :=
  match w.pq with
  | none => none
  | some state =>
      if id * state.pq.m + state.pq.m ≤ state.codes.length then
        some (ProductQuantizer.adcDistance env.pq table
          ((state.codes.drop (id * state.pq.m)).take state.pq.m))
      else none

def setLock (w : World) (lock : Lock) (holders : Holders) : World :=
  { w with locks := Function.update w.locks lock holders }

def acquire (w : World) (agent : Nat) (lock : Lock) (exclusive : Bool) : Reply World Unit :=
  let holders := w.locks lock
  if exclusive then
    if holders = Holders.free then .ok (w.setLock lock ⟨[], some agent⟩) () else .blocked
  else if holders.exclusive = none then
    .ok (w.setLock lock { holders with shared := agent :: holders.shared }) ()
  else .blocked

def release (w : World) (agent : Nat) (lock : Lock) (exclusive : Bool) : World :=
  let holders := w.locks lock
  if exclusive then w.setLock lock { holders with exclusive := none }
  else w.setLock lock { holders with shared := holders.shared.erase agent }

end World

namespace Db

open World

def handle (env : Env) : Handler sig World
  | agent, w, .index action =>
      match Hnsw.handle (w.distances env) agent w.index action with
      | .ok index answer => .ok { w with index := index } answer
      | .blocked => .blocked
      | .fault => .fault
  | _, w, .openStore dim => w.openStore dim
  | _, w, .openIndex config => w.openIndex env config
  | _, w, .walNotEmpty => .ok w (decide (0 < w.dir.walBytes.length))
  | _, w, .openWal policy floor => w.openWal env policy floor
  | _, w, .dropWal => .ok { w with wal := none } ()
  | _, w, .openCodebook => w.openCodebook env
  | _, w, .storeLen => .ok w w.store.count
  | agent, w, .append vector => w.append agent vector
  | _, w, .rollbackLast id => w.rollbackLast id
  | _, w, .get id => .ok w (w.store.get w.file id)
  | _, w, .row id => .ok w (w.row id)
  | _, w, .storeCount => .ok (w.setFile (w.store.storeCount w.file)) ()
  | _, w, .syncPages => w.syncPages
  | _, w, .indexLen => .ok w w.index.len
  | _, w, .saveIndex lsn => w.saveIndex env lsn
  | _, w, .ensureHealthy =>
      match w.wal with
      | none => .fault
      | some wal => .ok w wal.ensureHealthy
  | _, w, .walAppend op => w.walAppend env op
  | _, w, .nextLsn =>
      match w.wal with
      | none => .fault
      | some wal => .ok w wal.nextLsn
  | _, w, .resetWal => w.resetWal
  | _, w, .quantizer => .ok w (w.pq.map PqState.pq)
  | _, w, .saveCodebook => w.saveCodebook env
  | _, w, .encodeAll pq => .ok w (w.encodeAll env pq)
  | _, w, .setPq state => .ok { w with pq := some state } ()
  | _, w, .encodeRow id vector => .ok (w.encodeRow env id vector) ()
  | _, w, .encodeBatch base n => .ok (w.encodeBatch env base n) ()
  | _, w, .score table id =>
      match w.score env table id with
      | some distance => .ok w distance
      | none => .fault
  | _, w, .measure query id => .ok w (env.kernel w.kernel query (w.row id))
  | agent, w, .acquire lock exclusive => w.acquire agent lock exclusive
  | agent, w, .release lock exclusive => .ok (w.release agent lock exclusive) ()
  | _, w, .submit base n => .ok { w with pending := w.pending ++ List.range' base n } ()
  | _, w, .take =>
      match w.pending with
      | [] => .blocked
      | id :: rest => .ok { w with pending := rest, running := id :: w.running } id
  | _, w, .finish id => .ok { w with running := w.running.erase id } ()
  | _, w, .join => if w.pending = [] ∧ w.running = [] then .ok w () else .blocked

/-- The directories that a kill inside an action may leave: the segment is there but the row is
not, or only in part, and the frame of a record is written in part. -/
inductive Left (env : Env) (w : World) : Action → Directory → Prop
  | append (vector : Row) (store : VectorStore) (grown : StoreFile) (count : Nat)
      (sameLength : vector.length = w.store.dim)
      (mapped : w.store.ensureMapped w.file ((VectorStore.locate w.store.count).1 + 1) true =
        (.ok (), store, grown)) :
      Left env w (.append vector) (w.setFile (grown.write
        (VectorStore.rowAddress store.rowStride store.count) (vector.toLeBytes.take count))).dir
  | walAppend (op : WalOp) (wal next : Wal) (lsn count : Nat) (file : Bytes)
      (isOpen : w.wal = some wal)
      (writes : wal.append env.hash .none op w.dir.walBytes = (.ok lsn, next, file)) :
      Left env w (.walAppend op)
        { w.dir with wal := some (w.dir.walBytes ++ (Wal.frame env.hash lsn op).take count) }

/-- The directories that a kill of a program run alone may leave. -/
def Killed (env : Env) {α : Type} (p : Prog sig α) (w : World) (dir : Directory) : Prop :=
  ∃ q t, p.Visits (handle env) 0 w q t ∧
    (dir = t.dir ∨ ∃ op next, q = .act op next ∧ Left env t op dir)

end Db

end Vektordb
