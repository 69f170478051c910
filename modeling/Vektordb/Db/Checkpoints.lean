import Vektordb.Db.Session

/-!
Checkpoints. The header counts the rows in memory first, then the pages are synced, the codebook
and the snapshot are replaced, and the log is emptied. With a log every directory on the way gives
back the same rows; without one the header may count rows that neither the old snapshot nor the
log covers.
-/

namespace Vektordb

open Interaction LittleEndian VectorStore

def Directory.refile (dir : Directory) (file : StoreFile) : Directory :=
  { dir with store := some file }

theorem Directory.refile_refile (dir : Directory) (file other : StoreFile) :
    (dir.refile other).refile file = dir.refile file := rfl

theorem Directory.refile_self {dir : Directory} (isStored : dir.store = some dir.file) :
    dir.refile dir.file = dir := by
  obtain ⟨store, snap, codebook, wal⟩ := dir
  change Directory.mk (some _) snap codebook wal = _
  rw [← isStored]

namespace Db

variable {env : Env} {config : HnswConfig} {dim : Nat} {dir : Directory} {rows present : List Row}
  {locks : Lock → Holders} {durable : Bool} {nodes : Nat} {w t : World} {index : Hnsw}
  {replayFrom : Nat} {entries : List (Nat × WalOp)}

theorem Recoverable.refile
    (recoverable : Recoverable env config dim dir rows index replayFrom entries) {file : StoreFile}
    (stored : Stored dim file rows index.len) :
    Recoverable env config dim (dir.refile file) rows index replayFrom entries :=
  { recoverable with
    isStored := rfl
    stored := stored }

theorem Recoverable.recode
    (recoverable : Recoverable env config dim dir rows index replayFrom entries)
    {pq : ProductQuantizer} (sameDim : pq.dim = dim) (small : dim < 2 ^ 32) :
    Recoverable env config dim { dir with codebook := some (Pq.saveCodebook env.hash pq) } rows index
      replayFrom entries := by
  refine { recoverable with codebook := ?_ }
  intro raw saved
  cases saved
  exact ⟨pq, Pq.loadCodebook_saveCodebook env.hash_lt (sameDim ▸ small), sameDim⟩

theorem Recoverable.counted
    (recoverable : Recoverable env config dim dir rows index replayFrom entries)
    (levels : ∀ id, env.level config.m id ≤ 63) {file : StoreFile} (front : rows <+: present)
    (image : Counts dim file.image present present.length)
    (reaches : Reaches dim present.length file) (lengths : ∀ row ∈ present, row.length = dim) :
    Restores env config dim (dir.refile file) present rows.length index replayFrom
      entries := by
  have header : headerCount file.image = present.length := image.header
  have covered : index.len ≤ rows.length :=
    recoverable.stored.image.least.trans recoverable.stored.image.most
  have inside : index.len ≤ SegVec.CAPACITY := by
    rw [← CAPACITY_eq]
    exact covered.trans recoverable.stored.reaches.capacity
  have same : Hnsw.AgreeBelow index.len (distancesOf env config.metric rows)
      (distancesOf env config.metric present) := by
    apply distancesOf_agree
    intro id below
    obtain ⟨rest, rfl⟩ := front
    rw [List.getElem?_append_left (below.trans_le covered)]
  constructor
  case isStored => rfl
  case counts => exact { image with least := (covered.trans front.length_le).trans image.least }
  case reaches => exact reaches
  case lengths => exact lengths
  case loads => exact recoverable.loads
  case sound => exact recoverable.sound.congr inside (small_levels levels) same
  case logs => exact recoverable.logs
  case ordered => exact recoverable.ordered
  case agree =>
      intro lsn id vector member
      have below := recoverable.ids_lt member
      constructor
      · exact below
      · intro outside
        change headerCount file.image ≤ id at outside
        change id < rows.length at below
        have shorter := front.length_le
        omega
  case logged => exact recoverable.logged
  case covered => exact covered
  case length =>
      change present.length = max (headerCount file.image) rows.length
      have shorter := front.length_le
      omega
  case codebook => exact recoverable.codebook

/-! ### What a checkpoint leaves -/

/-- The directories that a checkpoint of `w` may leave: one that gives back what it gave back
before, one with a header that is ahead of that, and one with the new snapshot. -/
inductive Halted (env : Env) (config : HnswConfig) (dim : Nat) (w : World)
    (rows present : List Row) (dir : Directory) : Prop
  | behind (recovers : Recovers env config dim rows dir) (snap : dir.snap = w.dir.snap)
  | ahead (index : Hnsw) (replayFrom : Nat) (entries : List (Nat × WalOp))
      (more : rows.length < present.length)
      (header : headerCount dir.file.image = present.length)
      (restores : Restores env config dim dir present rows.length index replayFrom entries)
      (snap : dir.snap = w.dir.snap)
  | covered (lsn : Nat) (bytes : Bytes) (saved : w.index.save env.hash lsn = some bytes)
      (front : rows <+: present) (recovers : Recovers env config dim present dir)
      (all : ∀ index replayFrom, dir.loadIndex env config = .ok (index, replayFrom) →
        index.len = present.length) (snap : dir.snap = some bytes)

/-- A session in the middle of a checkpoint, before the snapshot is replaced. Its directory would
give back the rows with the store file from before; the header now counts the rows in memory. -/
structure Flushing (env : Env) (config : HnswConfig) (dim : Nat) (locks : Lock → Holders)
    (durable : Bool) (w t : World) (rows present : List Row) : Prop where
  live : Live env config dim locks present.length t present
  lengths : ∀ row ∈ present, row.length = dim
  isStored : t.dir.store = some t.file
  kept : ∃ index replayFrom entries,
    Recoverable env config dim (t.dir.refile w.file) rows index replayFrom entries ∧
      Logging env.hash rows present t.dir replayFrom entries durable t.wal
  header : headerCount w.file.image ≤ present.length
  len : t.file.len = w.file.len
  image : Counts dim t.file.image present present.length
  device : t.file.device = w.file.device ∨ Counts dim t.file.device present present.length
  index : t.index = w.index
  snap : t.dir.snap = w.dir.snap

structure Synced (env : Env) (config : HnswConfig) (dim : Nat) (locks : Lock → Holders)
    (durable : Bool) (w t : World) (rows present : List Row) : Prop extends
    Flushing env config dim locks durable w t rows present where
  stored : Stored dim t.file present present.length

theorem Flushing.session (flushing : Flushing env config dim locks durable w t rows present)
    (front : present <+: rows) : Session env config dim locks durable present.length t rows present := by
  obtain ⟨index, replayFrom, entries, recoverable, logging⟩ := flushing.kept
  have least : index.len ≤ present.length :=
    recoverable.stored.image.least.trans flushing.header
  have stored : Stored dim t.file rows index.len := by
    constructor
    case image => exact { flushing.image.extend front with least := least.trans flushing.image.least }
    case device =>
        rcases flushing.device with same | synced
        · rw [same]
          exact recoverable.stored.device
        · exact { synced.extend front with least := least.trans synced.least }
    case synced =>
        rw [flushing.image.header]
        rcases flushing.device with same | synced
        · rw [same]
          exact recoverable.stored.synced.trans flushing.header
        · exact synced.header.le
    case reaches => exact recoverable.stored.reaches.longer flushing.len.ge (flushing.len ▸ id)
  have same := recoverable.refile stored
  rw [Directory.refile_refile, show t.file = t.dir.file from rfl,
    Directory.refile_self flushing.isStored] at same
  exact ⟨flushing.live, flushing.lengths, index, replayFrom, entries, same, logging⟩

/-- One of the two lists is a front of the other, and which one the log decides. -/
theorem Logging.comparable {hash : Bytes → Nat} {wal : Option Wal}
    (logging : Logging hash rows present dir replayFrom entries durable wal) :
    present <+: rows ∨ durable = false ∧ rows <+: present := by
  cases logging with
  | disabled front => exact .inr ⟨rfl, front⟩
  | healthy same => exact .inl (same ▸ List.prefix_rfl)
  | poisoned front => exact .inl front

theorem Flushing.halted (flushing : Flushing env config dim locks durable w t rows present)
    (levels : ∀ id, env.level config.m id ≤ 63) : Halted env config dim w rows present t.dir := by
  obtain ⟨index, replayFrom, entries, recoverable, logging⟩ := flushing.kept
  by_cases front : present <+: rows
  · exact .behind (flushing.session front).recovers flushing.snap
  · have behind : rows <+: present := (logging.comparable.resolve_left front).2
    have shorter : rows.length < present.length := by
      by_contra long
      have same := behind.eq_of_length_le (Nat.le_of_not_lt long)
      exact front (same ▸ List.prefix_rfl)
    have reaches : Reaches dim present.length t.file := by
      obtain ⟨flushed, undo, rep⟩ := flushing.live.stored
      exact rep.reaches
    have counted := recoverable.counted levels behind flushing.image reaches flushing.lengths
    rw [Directory.refile_refile, show t.file = t.dir.file from rfl,
      Directory.refile_self flushing.isStored] at counted
    exact .ahead index replayFrom entries shorter flushing.image.header counted flushing.snap

/-! ### The flush -/

theorem Live.setFile (live : Live env config dim locks nodes w present) {file : StoreFile}
    {flushed : List Row} {undo : Bool}
    (rep : Represents dim w.store file present flushed undo) (faults : List Wal.Fault) :
    Live env config dim locks nodes ({ w with faults := faults }.setFile file) present :=
  ⟨live.locks, live.pending, live.running, ⟨flushed, undo, rep⟩, live.kernel, live.sound,
    live.nodes_le, live.quantizer, live.granted⟩

theorem counts_of_represents {store : VectorStore} {file : StoreFile} {undo : Bool}
    (rep : Represents dim store file present present undo) :
    Counts dim file.image present present.length := by
  constructor
  case formatted => exact rep.formatted
  case least => exact rep.header.ge
  case most => exact rep.header.le
  case holds =>
      rw [rep.header, List.take_length]
      exact rep.holds

theorem Session.storeCount (session : Session env config dim locks durable present.length t rows
      present) (sameIndex : t.index = w.index) (sameDir : t.dir = w.dir) :
    Flushing env config dim locks durable w (t.setFile (t.store.storeCount t.file)) rows present := by
  obtain ⟨flushed, undo, rep⟩ := session.live.stored
  obtain ⟨index, replayFrom, entries, recoverable, logging⟩ := session.kept
  have counted := rep.storeCount
  have sameFile : t.file = w.file := congrArg Directory.file sameDir
  constructor
  case live => exact session.live.setFile counted t.faults
  case lengths => exact session.lengths
  case isStored => rfl
  case kept =>
      refine ⟨index, replayFrom, entries, ?_, logging.moved rfl⟩
      rw [← sameFile]
      change Recoverable env config dim (t.dir.refile t.dir.file) rows index replayFrom entries
      rw [Directory.refile_self recoverable.isStored]
      exact recoverable
  case header =>
      rw [← sameFile]
      exact session.live.header_le
  case len =>
      change t.file.len = w.file.len
      rw [sameFile]
  case image => exact counts_of_represents counted
  case device =>
      left
      change t.file.device = w.file.device
      rw [sameFile]
  case index => exact sameIndex
  case snap =>
      change t.dir.snap = w.dir.snap
      rw [sameDir]

theorem Flushing.syncPages (flushing : Flushing env config dim locks durable w t rows present) :
    Synced env config dim locks durable w (t.afterFault.setFile (t.store.syncPages t.file)) rows
      present := by
  obtain ⟨flushed, undo, rep⟩ := flushing.live.stored
  obtain ⟨index, replayFrom, entries, recoverable, logging⟩ := flushing.kept
  have header : headerCount t.file.image = t.store.count :=
    flushing.image.header.trans rep.count.symm
  have same := sameRows_sync rep.attached rep.sameDim
  rw [← header] at same
  have device : Counts dim (t.store.syncPages t.file).device present present.length :=
    flushing.image.same same
  constructor
  case stored =>
      have counted : headerCount (t.store.syncPages t.file).device =
          headerCount (t.store.syncPages t.file).image :=
        device.header.trans flushing.image.header.symm
      exact ⟨flushing.image, device, counted.le, rep.reaches.longer le_rfl id⟩
  case toFlushing =>
    exact { flushing with
      live := flushing.live.setFile rep.syncPages t.faults.tail
      isStored := rfl
      kept := ⟨index, replayFrom, entries, recoverable, logging.moved rfl⟩
      len := flushing.len
      image := flushing.image
      device := .inr device
      index := flushing.index
      snap := flushing.snap }

theorem Flushing.setFaults (flushing : Flushing env config dim locks durable w t rows present)
    (faults : List Wal.Fault) :
    Flushing env config dim locks durable w { t with faults := faults } rows present := by
  have live := flushing.live
  exact { flushing with
    live := ⟨live.locks, live.pending, live.running, live.stored, live.kernel, live.sound,
      live.nodes_le, live.quantizer, live.granted⟩ }

theorem syncPages_cases (t : World) :
    t.syncPages = .ok (t.afterFault.setFile (t.store.syncPages t.file)) (.ok ()) ∨
      ∃ message, t.syncPages = .ok t.afterFault (.error (.io message)) := by
  unfold World.syncPages
  cases t.fault with
  | none => exact .inl rfl
  | write written message => exact .inr ⟨message, rfl⟩
  | sync message => exact .inr ⟨message, rfl⟩

theorem Session.flush (session : Session env config dim locks durable present.length t rows present)
    (levels : ∀ id, env.level config.m id ≤ 63) (sameIndex : t.index = w.index)
    (sameDir : t.dir = w.dir) :
    (Db.flush).Leads (handle env) 0 (Keeps env (Halted env config dim w rows present))
      (fun u result => (result = .ok () ∧ Synced env config dim locks durable w u rows present) ∨
        ((∃ e, result = .error e) ∧ Flushing env config dim locks durable w u rows present)) t := by
  have counted := session.storeCount sameIndex sameDir
  unfold Db.flush
  refine leads_call (Keeps.whole (.behind session.recovers (congrArg Directory.snap sameDir))) rfl ?_
  generalize t.setFile (t.store.storeCount t.file) = u at counted
  have here : Keeps env (Halted env config dim w rows present) u .syncPages :=
    Keeps.whole (counted.halted levels)
  rcases syncPages_cases u with synced | ⟨message, failed⟩
  · exact Prog.Leads.act (S := sig) here synced (Prog.Leads.ret (.inl ⟨rfl, counted.syncPages⟩))
  · exact Prog.Leads.act (S := sig) here failed
      (Prog.Leads.ret (.inr ⟨⟨_, rfl⟩, counted.setFaults _⟩))

/-! ### The codebook -/

theorem Flushing.setLock (flushing : Flushing env config dim locks durable w t rows present)
    (lock : Lock) (holders : Holders) :
    Flushing env config dim (Function.update locks lock holders) durable w (t.setLock lock holders)
      rows present := by
  have live := flushing.live
  refine { flushing with live := ?_ }
  refine ⟨?_, live.pending, live.running, live.stored, live.kernel, live.sound, live.nodes_le,
    live.quantizer, live.granted⟩
  rw [← live.locks]
  rfl

theorem Synced.setLock (synced : Synced env config dim locks durable w t rows present)
    (lock : Lock) (holders : Holders) :
    Synced env config dim (Function.update locks lock holders) durable w (t.setLock lock holders)
      rows present :=
  ⟨synced.toFlushing.setLock lock holders, synced.stored⟩

theorem replaceFile_cases (t : World) (dir : Directory) :
    t.replaceFile dir = .ok { t.afterFault with dir := dir } (.ok ()) ∨ ∃ message,
      t.replaceFile dir = .ok t.afterFault (.error (.io message)) ∨
      t.replaceFile dir = .ok { t.afterFault with dir := dir } (.error (.io message)) := by
  unfold World.replaceFile
  cases t.fault with
  | none => exact .inl rfl
  | write written message => exact .inr ⟨message, .inl rfl⟩
  | sync message => exact .inr ⟨message, .inr rfl⟩

theorem Synced.setFaults (synced : Synced env config dim locks durable w t rows present)
    (faults : List Wal.Fault) :
    Synced env config dim locks durable w { t with faults := faults } rows present :=
  ⟨synced.toFlushing.setFaults faults, synced.stored⟩

theorem Synced.recode (synced : Synced env config dim locks durable w t rows present)
    {pq : ProductQuantizer} (sameDim : pq.dim = dim) :
    Synced env config dim locks durable w
      { t with dir := { t.dir with codebook := some (Pq.saveCodebook env.hash pq) } } rows present := by
  obtain ⟨index, replayFrom, entries, recoverable, logging⟩ := synced.kept
  have live := synced.live
  have small := synced.image.formatted.dim_lt
  constructor
  case stored => exact synced.stored
  case toFlushing =>
    exact { synced.toFlushing with
      live := ⟨live.locks, live.pending, live.running, live.stored, live.kernel, live.sound,
        live.nodes_le, live.quantizer, live.granted⟩
      kept := ⟨index, replayFrom, entries, recoverable.recode sameDim small, logging.moved rfl⟩ }

theorem Synced.saveCodebook (synced : Synced env config dim locks durable w t rows present)
    (levels : ∀ id, env.level config.m id ≤ 63) :
    (call .saveCodebook).Leads (handle env) 0 (Keeps env (Halted env config dim w rows present))
      (fun u _ => Synced env config dim locks durable w u rows present) t := by
  have here : Keeps env (Halted env config dim w rows present) t .saveCodebook :=
    Keeps.whole (synced.halted levels)
  cases trained : t.pq with
  | none =>
      have answered : handle env 0 t .saveCodebook = .ok t (.ok ()) := by
        change t.saveCodebook env = _
        unfold World.saveCodebook
        rw [trained]
        rfl
      exact Prog.Leads.act (S := sig) here answered (Prog.Leads.ret synced)
  | some state =>
      have answered : handle env 0 t .saveCodebook =
          t.replaceFile { t.dir with codebook := some (Pq.saveCodebook env.hash state.pq) } := by
        change t.saveCodebook env = _
        unfold World.saveCodebook
        rw [trained]
      have recoded := (synced.setFaults t.faults.tail).recode (synced.live.quantizer state trained)
      rcases replaceFile_cases t _ with done | ⟨message, done | done⟩
      · exact Prog.Leads.act (S := sig) here (answered.trans done) (Prog.Leads.ret recoded)
      · exact Prog.Leads.act (S := sig) here (answered.trans done)
          (Prog.Leads.ret (synced.setFaults _))
      · exact Prog.Leads.act (S := sig) here (answered.trans done) (Prog.Leads.ret recoded)

/-! ### The snapshot -/

/-- A session in the middle of a checkpoint, after the snapshot has been replaced. -/
structure Covered (env : Env) (config : HnswConfig) (dim : Nat) (locks : Lock → Holders)
    (durable : Bool) (w t : World) (rows present : List Row) : Prop where
  live : Live env config dim locks present.length t present
  lengths : ∀ row ∈ present, row.length = dim
  kept : ∃ index replayFrom entries,
    Recoverable env config dim t.dir present index replayFrom entries ∧
      Logging env.hash present present t.dir replayFrom entries durable t.wal ∧
      index.len = present.length
  front : rows <+: present
  snap : ∃ lsn bytes, w.index.save env.hash lsn = some bytes ∧ t.dir.snap = some bytes

theorem Covered.session (covered : Covered env config dim locks durable w t rows present) :
    Session env config dim locks durable present.length t present present := by
  obtain ⟨index, replayFrom, entries, recoverable, logging, -⟩ := covered.kept
  exact ⟨covered.live, covered.lengths, index, replayFrom, entries, recoverable, logging⟩

theorem Covered.halted (covered : Covered env config dim locks durable w t rows present) :
    Halted env config dim w rows present t.dir := by
  obtain ⟨lsn, bytes, saved, snap⟩ := covered.snap
  obtain ⟨index, replayFrom, entries, recoverable, -, len⟩ := covered.kept
  refine .covered lsn bytes saved covered.front covered.session.recovers ?_ snap
  intro other start loads
  rw [recoverable.loads] at loads
  cases loads
  exact len

theorem Synced.saveIndex (synced : Synced env config dim locks durable w t rows present)
    (usable : Usable env config) {index : Hnsw} {replayFrom lsn : Nat}
    {entries : List (Nat × WalOp)}
    (recoverable : Recoverable env config dim (t.dir.refile w.file) rows index replayFrom entries)
    (front : rows <+: present) (fits : lsn < 2 ^ 64)
    (logging : Logging env.hash present present t.dir lsn entries durable t.wal) :
    (call (.saveIndex lsn)).Leads (handle env) 0 (Keeps env (Halted env config dim w rows present))
      (fun u result => Covered env config dim locks durable w u rows present ∨
        (∃ e, result = .error e) ∧ Flushing env config dim locks durable w u rows present) t := by
  have here : Keeps env (Halted env config dim w rows present) t (.saveIndex lsn) :=
    Keeps.whole (synced.halted usable.levels)
  have live := synced.live
  obtain ⟨bytes, saved, len, snapshot⟩ :=
    recoverable.snapshot usable front synced.stored synced.lengths live.sound fits
  have sameDir : ({ t.dir.refile w.file with store := some t.file, snap := some bytes } : Directory) =
      { t.dir with snap := some bytes } := by
    have whole := Directory.refile_self synced.isStored
    exact congrArg (fun dir : Directory => { dir with snap := some bytes }) whole
  rw [sameDir] at snapshot
  have answered : handle env 0 t (.saveIndex lsn) =
      t.replaceFile { t.dir with snap := some bytes } := by
    change t.saveIndex env lsn = _
    unfold World.saveIndex
    rw [saved]
  have covered : Covered env config dim locks durable w
      { t.afterFault with dir := { t.dir with snap := some bytes } } rows present := by
    refine ⟨⟨live.locks, live.pending, live.running, live.stored, live.kernel, live.sound,
      live.nodes_le, live.quantizer, live.granted⟩, synced.lengths, ⟨_, lsn, entries, snapshot, logging.moved rfl,
      len⟩, front, lsn, bytes, ?_, rfl⟩
    rw [← synced.index]
    exact saved
  rcases replaceFile_cases t _ with done | ⟨message, done | done⟩
  · exact Prog.Leads.act (S := sig) here (answered.trans done) (Prog.Leads.ret (.inl covered))
  · exact Prog.Leads.act (S := sig) here (answered.trans done)
      (Prog.Leads.ret (.inr ⟨⟨_, rfl⟩, synced.toFlushing.setFaults _⟩))
  · exact Prog.Leads.act (S := sig) here (answered.trans done) (Prog.Leads.ret (.inl covered))

/-! ### The log -/

theorem Recoverable.rewrite
    (recoverable : Recoverable env config dim dir rows index replayFrom entries) :
    Recoverable env config dim { dir with wal := some dir.walBytes } rows index replayFrom entries :=
  { recoverable with logs := recoverable.logs }

theorem Covered.resetWal (covered : Covered env config dim locks true w t rows present) :
    (call .resetWal).Leads (handle env) 0 (Keeps env (Halted env config dim w rows present))
      (fun u _ => Covered env config dim locks true w u rows present) t := by
  obtain ⟨index, replayFrom, entries, recoverable, logging, len⟩ := covered.kept
  have here : Keeps env (Halted env config dim w rows present) t .resetWal :=
    Keeps.whole covered.halted
  have live := covered.live
  have step : ∀ {wal next : Wal} {result : Result Unit} {bytes : Bytes}
      {entries' : List (Nat × WalOp)}, t.wal = some wal →
      wal.reset t.fault t.dir.walBytes = (result, next, bytes) →
      Recoverable env config dim { t.dir with wal := some bytes } present index replayFrom entries' →
      Logging env.hash present present { t.dir with wal := some bytes } replayFrom entries' true
        (some next) →
      (call .resetWal).Leads (handle env) 0 (Keeps env (Halted env config dim w rows present))
        (fun u _ => Covered env config dim locks true w u rows present) t := by
    intro wal next result bytes entries' isOpen done kept logs
    have answered : handle env 0 t .resetWal = .ok { t.afterFault with
        wal := some next
        dir := { t.dir with wal := some bytes } } result := by
      change t.resetWal = _
      unfold World.resetWal
      rw [isOpen]
      dsimp only
      rw [done]
      rfl
    refine Prog.Leads.act (S := sig) here answered (Prog.Leads.ret ?_)
    exact ⟨live.relog _ _, covered.lengths, ⟨index, replayFrom, entries', kept, logs, len⟩,
      covered.front, covered.snap⟩
  generalize isOpen : t.wal = log at logging
  cases logging with
  | poisoned front => exact step isOpen rfl recoverable.rewrite (.poisoned front)
  | @healthy policy nextLsn same whole floor fits =>
      have emptied := recoverable.reset len
      cases fault : t.fault with
      | none =>
          rw [fault] at step
          exact step isOpen rfl emptied (.healthy rfl rfl floor fits)
      | write written message =>
          rw [fault] at step
          exact step isOpen rfl recoverable.rewrite (.poisoned List.prefix_rfl)
      | sync message =>
          rw [fault] at step
          exact step isOpen rfl emptied (.poisoned List.prefix_rfl)

/-! ### Checkpoints -/

inductive CheckpointEnds (env : Env) (config : HnswConfig) (dim : Nat) (locks : Lock → Holders)
    (durable : Bool) (w : World) (rows present : List Row) (t : World) : Result Unit → Prop
  | completed (covered : Covered env config dim locks durable w t rows present) :
      CheckpointEnds env config dim locks durable w rows present t (.ok ())
  | failed (e : Error) (flushing : Flushing env config dim locks durable w t rows present) :
      CheckpointEnds env config dim locks durable w rows present t (.error e)
  /-- The snapshot is in place, but the directory or the log could not be synced. -/
  | unsynced (e : Error) (covered : Covered env config dim locks durable w t rows present) :
      CheckpointEnds env config dim locks durable w rows present t (.error e)

theorem CheckpointEnds.holders {result : Result Unit}
    (ends : CheckpointEnds env config dim locks durable w rows present t result) :
    t.locks = locks := by
  cases ends with
  | completed covered => exact covered.live.locks
  | failed _ flushing => exact flushing.live.locks
  | unsynced _ covered => exact covered.live.locks

theorem CheckpointEnds.halted {result : Result Unit}
    (ends : CheckpointEnds env config dim locks durable w rows present t result)
    (levels : ∀ id, env.level config.m id ≤ 63) : Halted env config dim w rows present t.dir := by
  cases ends with
  | completed covered => exact covered.halted
  | failed _ flushing => exact flushing.halted levels
  | unsynced _ covered => exact covered.halted

theorem Covered.unlock {lock : Lock} {holders : Holders}
    (covered : Covered env config dim (Function.update locks lock holders) durable w t rows present)
    (free : locks lock = Holders.free) :
    Covered env config dim locks durable w (t.setLock lock Holders.free) rows present := by
  have session := covered.session.unlock free
  exact ⟨session.live, covered.lengths, covered.kept, covered.front, covered.snap⟩

theorem Flushing.unlock {lock : Lock} {holders : Holders}
    (flushing : Flushing env config dim (Function.update locks lock holders) durable w t rows
      present) (free : locks lock = Holders.free) :
    Flushing env config dim locks durable w (t.setLock lock Holders.free) rows present := by
  have released := flushing.setLock lock Holders.free
  rwa [update_free free] at released

theorem CheckpointEnds.unlock {result : Result Unit} {lock : Lock} {holders : Holders}
    (ends : CheckpointEnds env config dim (Function.update locks lock holders) durable w rows present
      t result) (free : locks lock = Holders.free) :
    CheckpointEnds env config dim locks durable w rows present (t.setLock lock Holders.free)
      result := by
  cases ends with
  | completed covered => exact .completed (covered.unlock free)
  | failed e flushing => exact .failed e (flushing.unlock free)
  | unsynced e covered => exact .unsynced e (covered.unlock free)

theorem Synced.unlogged (synced : Synced env config dim locks false w t rows present)
    (usable : Usable env config) :
    (call (.saveIndex 0)).Leads (handle env) 0 (Keeps env (Halted env config dim w rows present))
      (CheckpointEnds env config dim locks false w rows present) t := by
  obtain ⟨index, replayFrom, entries, recoverable, logging⟩ := synced.kept
  generalize isOpen : t.wal = log at logging
  cases logging with
  | disabled front =>
      have logs : Logging env.hash present present t.dir 0 entries false t.wal := by
        rw [isOpen]
        exact .disabled List.prefix_rfl
      apply (synced.saveIndex usable recoverable front (Nat.two_pow_pos 64) logs).mono
      intro u result ends
      cases result with
      | ok value =>
          rcases ends with covered | ⟨⟨e, same⟩, -⟩
          · exact .completed covered
          · cases same
      | error e =>
          rcases ends with covered | ⟨-, flushing⟩
          · exact .unsynced e covered
          · exact .failed e flushing

theorem Synced.logged (synced : Synced env config dim locks true w t rows present)
    (usable : Usable env config) :
    (attempt (call .ensureHealthy) fun _ => do
        let lsn ← call .nextLsn
        attempt (call (.saveIndex lsn)) fun _ => call .resetWal).Leads (handle env) 0
      (Keeps env (Halted env config dim w rows present))
      (CheckpointEnds env config dim locks true w rows present) t := by
  obtain ⟨index, replayFrom, entries, recoverable, logging⟩ := synced.kept
  have kept := synced.halted usable.levels
  generalize isOpen : t.wal = log at logging
  unfold attempt
  cases logging with
  | poisoned front =>
      refine leads_call (Keeps.whole kept) (ensureHealthy_answer isOpen) ?_
      exact Prog.Leads.ret (.failed _ synced.toFlushing)
  | @healthy policy nextLsn same whole floor fits =>
      have counts : handle env 0 t .nextLsn = .ok t nextLsn := by simp only [handle, isOpen]
      subst same
      refine leads_call (Keeps.whole kept) (ensureHealthy_answer isOpen) ?_
      refine leads_call (Keeps.whole kept) counts ?_
      have logs : Logging env.hash present present t.dir nextLsn entries true t.wal := by
        rw [isOpen]
        exact .healthy rfl whole le_rfl fits
      apply (synced.saveIndex usable recoverable List.prefix_rfl fits logs).bind
      intro u result ends
      cases result with
      | ok value =>
          rcases ends with covered | ⟨⟨e, other⟩, -⟩
          · apply covered.resetWal.mono
            intro v emptied after
            cases emptied with
            | ok value => exact .completed after
            | error e => exact .unsynced e after
          · cases other
      | error e =>
          rcases ends with covered | ⟨-, flushing⟩
          · exact Prog.Leads.ret (.unsynced e covered)
          · exact Prog.Leads.ret (.failed e flushing)

theorem Synced.unlock {lock : Lock} {holders : Holders}
    (synced : Synced env config dim (Function.update locks lock holders) durable w t rows present)
    (free : locks lock = Holders.free) :
    Synced env config dim locks durable w (t.setLock lock Holders.free) rows present :=
  ⟨synced.toFlushing.unlock free, synced.stored⟩

/-- The codebook and what comes after it. -/
theorem Synced.rest (synced : Synced env config dim locks durable w t rows present)
    (usable : Usable env config) (freePq : locks .pq = Holders.free)
    (freeWal : locks .wal = Holders.free) :
    (attempt (withLock .pq false (call .saveCodebook)) fun _ =>
      if durable then
        withLock .wal true <|
          attempt (call .ensureHealthy) fun _ => do
            let lsn ← call .nextLsn
            attempt (call (.saveIndex lsn)) fun _ => call .resetWal
      else call (.saveIndex 0)).Leads (handle env) 0 (Keeps env (Halted env config dim w rows present))
      (CheckpointEnds env config dim locks durable w rows present) t := by
  have kept := synced.halted usable.levels
  have isFree : t.locks .pq = Holders.free := by
    rw [synced.live.locks]
    exact freePq
  have books := (synced.setLock .pq (holding false)).saveCodebook usable.levels
  have saved : (withLock .pq false (call .saveCodebook)).Leads (handle env) 0
      (Keeps env (Halted env config dim w rows present))
      (fun u _ => Synced env config dim locks durable w u rows present) t := by
    apply leads_withLock isFree kept books
    intro u result after
    refine ⟨?_, after.halted usable.levels, after.unlock freePq⟩
    rw [after.live.locks, Function.update_self]
  apply leads_attempt saved
  · intro u _ after
    cases durable with
    | false => exact after.unlogged usable
    | true =>
        have isFreeWal : u.locks .wal = Holders.free := by
          rw [after.live.locks]
          exact freeWal
        have logged := (after.setLock .wal (holding true)).logged usable
        rw [if_pos rfl]
        apply leads_withLock isFreeWal (after.halted usable.levels) logged
        intro v result ends
        refine ⟨?_, ends.halted usable.levels, ends.unlock freeWal⟩
        rw [ends.holders, Function.update_self]
  · intro u e after
    exact .failed e after.toFlushing

theorem Session.checkpoint (session : Session env config dim (fun _ => Holders.free) durable
      present.length w rows present) (usable : Usable env config) :
    (Db.checkpoint w.db).Leads (handle env) 0 (Keeps env (Halted env config dim w rows present))
      (CheckpointEnds env config dim (fun _ => Holders.free) durable w rows present) w := by
  have kept : Halted env config dim w rows present w.dir := .behind session.recovers rfl
  have isFree : w.locks .maintenance = Holders.free := by
    rw [session.live.locks]
  have flushes := (session.setLock .maintenance (holding true)).flush (w := w) usable.levels rfl rfl
  have released : ∀ t result,
      CheckpointEnds env config dim (Function.update (fun _ => Holders.free) .maintenance
        (holding true)) durable w rows present t result →
      t.locks .maintenance = holding true ∧ Halted env config dim w rows present t.dir ∧
        CheckpointEnds env config dim (fun _ => Holders.free) durable w rows present
          (t.setLock .maintenance Holders.free) result := by
    intro t result ends
    refine ⟨?_, ends.halted usable.levels, ends.unlock rfl⟩
    rw [ends.holders, Function.update_self]
  unfold Db.checkpoint
  rw [session.isDurable]
  apply leads_withLock isFree kept ?_ released
  apply leads_attempt flushes
  · rintro t _ (⟨-, synced⟩ | ⟨⟨e, same⟩, -⟩)
    · exact synced.rest usable rfl rfl
    · cases same
  · rintro t e (⟨same, -⟩ | ⟨-, flushing⟩)
    · cases same
    · exact .failed e flushing

end Db

end Vektordb
