import Vektordb.Db.Recovery
import Vektordb.Hnsw.Persist

/-!
Sessions. `Recoverable` is the condition under which the next process finds exactly the given
rows, and `Session` what holds between the calls of one process: the rows in memory, the rows that
the directory would give back, and how far the log is behind. Every call keeps both, wherever it
is stopped.
-/

namespace Vektordb

open Interaction LittleEndian VectorStore

/-- Snapshots keep `ef_construction` in 32 bits. -/
def Hnsw.narrow (g : Hnsw) : Hnsw :=
  { g with config := { g.config with efConstruction := g.config.efConstruction % 2 ^ 32 } }

theorem Hnsw.Sound.narrow {d : Distances} {level : Nat → Nat} {config : HnswConfig} {n : Nat}
    {g : Hnsw} (sound : Hnsw.Sound d level config n g) (small : ∀ id, level id < 255) :
    Hnsw.Sound d level config n g.narrow where
  layered := ⟨sound.layered.links, sound.layered.levels, sound.layered.entry⟩
  bounded := sound.bounded
  dense := sound.dense
  levels := sound.levels
  m := sound.m
  metric := sound.metric
  exactly fits := by
    have built := sound.exactly fits
    have same : g.narrow = g := by
      have config := (Hnsw.build_config small built).1
      unfold Hnsw.narrow
      rw [config, Nat.mod_eq_of_lt fits, ← config]
    rw [same]
    exact built

namespace Db

structure Usable (env : Env) (config : HnswConfig) : Prop where
  levels : ∀ id, env.level config.m id ≤ 63
  m : 2 ≤ config.m ∧ config.m ≤ 4096

/-- A directory that gives back exactly the rows. -/
structure Recoverable (env : Env) (config : HnswConfig) (dim : Nat) (dir : Directory)
    (rows : List Row) (index : Hnsw) (replayFrom : Nat) (entries : List (Nat × WalOp)) : Prop where
  isStored : dir.store = some dir.file
  stored : Stored dim dir.file rows index.len
  lengths : ∀ row ∈ rows, row.length = dim
  loads : dir.loadIndex env config = .ok (index, replayFrom)
  sound : Hnsw.Sound (distancesOf env config.metric rows) (env.level config.m) config index.len
    index
  watermark : replayFrom < 2 ^ 64
  logs : Logs env.hash dir.walBytes entries
  ordered : entries.Pairwise fun left right => Wal.recordId left < Wal.recordId right
  present : ∀ lsn id vector, (lsn, .insert id vector) ∈ entries → rows[id]? = some vector
  logged : ∀ id, index.len ≤ id → id < rows.length → ∃ lsn vector,
    (lsn, .insert id vector) ∈ entries ∧ replayFrom ≤ lsn
  codebook : ∀ raw, dir.codebook = some raw → ∃ pq, Pq.loadCodebook env.hash raw = .ok pq ∧
    pq.dim = dim

def Recovers (env : Env) (config : HnswConfig) (dim : Nat) (rows : List Row) (dir : Directory) :
    Prop :=
  ∃ index replayFrom entries, Recoverable env config dim dir rows index replayFrom entries

variable {env : Env} {config : HnswConfig} {dim : Nat} {dir : Directory} {rows : List Row}
  {index : Hnsw} {replayFrom : Nat} {entries : List (Nat × WalOp)}

theorem Recoverable.restores
    (recoverable : Recoverable env config dim dir rows index replayFrom entries) :
    Restores env config dim dir rows rows.length index replayFrom entries where
  isStored := recoverable.isStored
  counts := recoverable.stored.image
  reaches := recoverable.stored.reaches
  lengths := recoverable.lengths
  loads := recoverable.loads
  sound := recoverable.sound
  logs := recoverable.logs
  ordered := recoverable.ordered
  agree lsn id vector member := by
    have at_ := recoverable.present lsn id vector member
    exact ⟨(List.getElem?_eq_some_iff.mp at_).1, fun _ => at_⟩
  logged := recoverable.logged
  covered := recoverable.stored.image.least.trans recoverable.stored.image.most
  length := (Nat.max_eq_right recoverable.stored.image.most).symm
  codebook := recoverable.codebook

/-- The rows on file agree with the log unless a replayed record contains a NaN. -/
theorem Recoverable.agrees_iff
    (recoverable : Recoverable env config dim dir rows index replayFrom entries) :
    Agrees rows (headerCount dir.file.image) replayFrom entries ↔
      ∀ lsn id vector, (lsn, .insert id vector) ∈ entries → replayFrom ≤ lsn →
        id < headerCount dir.file.image → vector.hasNan = false := by
  have same : ∀ lsn id vector, (lsn, .insert id vector) ∈ entries →
      (rows.getD id []).eq vector = !vector.hasNan := by
    intro lsn id vector member
    rw [List.getD_eq_getElem?_getD, recoverable.present lsn id vector member, Option.getD_some,
      Row.eq_self]
  constructor
  · intro agrees lsn id vector member replayed counted
    have equal := agrees lsn id vector member replayed counted
    rw [same lsn id vector member] at equal
    exact Bool.not_eq_true' _ ▸ equal
  · intro clean lsn id vector member replayed counted
    rw [same lsn id vector member, clean lsn id vector member replayed counted]
    rfl

theorem Recoverable.undisturbed
    (recoverable : Recoverable env config dim dir rows index replayFrom entries) {after : Directory}
    (undisturbed : Undisturbed env.hash dim (headerCount dir.file.image) entries dir after) :
    Recoverable env config dim after rows index replayFrom entries := by
  refine { recoverable with
    isStored := undisturbed.isStored
    stored := recoverable.stored.frontier undisturbed.frontier
    loads := ?_
    logs := ?_
    codebook := ?_ }
  · have loads := recoverable.loads
    unfold Directory.loadIndex at loads ⊢
    rw [undisturbed.snap]
    exact loads
  · rcases undisturbed.wal with same | whole
    · rw [same]
      exact recoverable.logs
    · rw [whole]
      exact Logs.whole recoverable.logs.encodable recoverable.logs.lsns
  · rw [undisturbed.codebook]
    exact recoverable.codebook

theorem Recoverable.behind
    (recoverable : Recoverable env config dim dir rows index replayFrom entries)
    {file : StoreFile} (frontier : Frontier dim (headerCount dir.file.image) dir.file file) :
    Recoverable env config dim { dir with store := some file } rows index replayFrom entries :=
  recoverable.undisturbed ⟨rfl, frontier, rfl, rfl, .inl rfl⟩

theorem Recoverable.ids_lt
    (recoverable : Recoverable env config dim dir rows index replayFrom entries) {entry : Nat × WalOp}
    (member : entry ∈ entries) : Wal.recordId entry < rows.length := by
  obtain ⟨lsn, ⟨id, vector⟩⟩ := entry
  exact (List.getElem?_eq_some_iff.mp (recoverable.present lsn id vector member)).1

theorem Recoverable.torn
    (recoverable : Recoverable env config dim dir rows index replayFrom entries)
    {entry : Nat × WalOp} (next : Wal.Encodable entry) {count : Nat}
    (part : count < (Wal.frame env.hash entry.1 entry.2).length) {bytes : Bytes}
    (written : bytes = Wal.frames env.hash entries ++
      (Wal.frame env.hash entry.1 entry.2).take count) :
    Recoverable env config dim { dir with wal := some bytes } rows index replayFrom entries := by
  refine { recoverable with logs := ?_ }
  exact ⟨recoverable.logs.encodable, recoverable.logs.lsns, entry, count, next, part, written⟩

theorem Recoverable.record
    (recoverable : Recoverable env config dim dir rows index replayFrom entries)
    (levels : ∀ id, env.level config.m id ≤ 63) {lsn : Nat} {vector : Row}
    (sameLength : vector.length = dim) (reaches : Reaches dim (rows.length + 1) dir.file)
    (next : Wal.Encodable (lsn, .insert rows.length vector)) (fits : lsn + 1 < 2 ^ 64)
    (above : replayFrom ≤ lsn) :
    Recoverable env config dim
      { dir with wal := some (Wal.frames env.hash entries ++
        Wal.frame env.hash lsn (.insert rows.length vector)) }
      (rows ++ [vector]) index replayFrom (entries ++ [(lsn, .insert rows.length vector)]) := by
  have longer : (rows ++ [vector]).length = rows.length + 1 := List.length_append
  have covered : index.len ≤ rows.length :=
    recoverable.stored.image.least.trans recoverable.stored.image.most
  have same : Hnsw.AgreeBelow index.len (distancesOf env config.metric rows)
      (distancesOf env config.metric (rows ++ [vector])) := by
    apply distancesOf_agree
    intro id below
    rw [List.getElem?_append_left (below.trans_le covered)]
  have inside : index.len ≤ SegVec.CAPACITY := by
    rw [← CAPACITY_eq]
    exact covered.trans recoverable.stored.reaches.capacity
  have among : ∀ entry, entry ∈ entries ++ [(lsn, .insert rows.length vector)] →
      entry ∈ entries ∨ entry = (lsn, .insert rows.length vector) := by
    intro entry member
    exact (List.mem_append.mp member).imp id List.mem_singleton.mp
  have bytes : Wal.frames env.hash entries ++ Wal.frame env.hash lsn (.insert rows.length vector) =
      Wal.frames env.hash (entries ++ [(lsn, .insert rows.length vector)]) := by
    rw [Wal.frames_append, Wal.frames_singleton]
  refine ⟨recoverable.isStored, ?_, ?_, recoverable.loads,
    recoverable.sound.congr inside (small_levels levels) same, recoverable.watermark, ?_, ?_, ?_, ?_,
    recoverable.codebook⟩
  · exact recoverable.stored.extend (List.prefix_append _ _) (by rw [longer]; exact reaches)
  · intro row member
    rcases List.mem_append.mp member with old | new
    · exact recoverable.lengths row old
    · rw [List.mem_singleton.mp new]
      exact sameLength
  · change Logs env.hash (Wal.frames env.hash entries ++ _) _
    rw [bytes]
    apply Logs.whole
    · intro entry member
      rcases among entry member with old | rfl
      · exact recoverable.logs.encodable entry old
      · exact next
    · intro entry member
      rcases among entry member with old | rfl
      · exact recoverable.logs.lsns entry old
      · exact fits
  · rw [List.pairwise_append]
    refine ⟨recoverable.ordered, List.pairwise_singleton _ _, ?_⟩
    intro old member new isNew
    rw [List.mem_singleton.mp isNew]
    exact recoverable.ids_lt member
  · intro l id v member
    rcases among _ member with old | new
    · have at_ := recoverable.present l id v old
      rw [List.getElem?_append_left (List.getElem?_eq_some_iff.mp at_).1]
      exact at_
    · cases new
      rw [List.getElem?_append_right le_rfl, Nat.sub_self]
      rfl
  · intro id low high
    by_cases old : id < rows.length
    · obtain ⟨l, v, member, replayed⟩ := recoverable.logged id low old
      exact ⟨l, v, List.mem_append_left _ member, replayed⟩
    · obtain rfl : id = rows.length := by omega
      exact ⟨lsn, vector, List.mem_append_right _ (List.mem_singleton_self _), above⟩

theorem Recoverable.snapshot
    (recoverable : Recoverable env config dim dir rows index replayFrom entries)
    (usable : Usable env config) {present : List Row} {file : StoreFile} {g : Hnsw} {lsn : Nat}
    (front : rows <+: present) (stored : Stored dim file present present.length)
    (lengths : ∀ row ∈ present, row.length = dim)
    (sound : Hnsw.Sound (distancesOf env config.metric present) (env.level config.m) config
      present.length g) (fits : lsn < 2 ^ 64) :
    ∃ bytes, g.save env.hash lsn = some bytes ∧ g.narrow.len = present.length ∧
      Recoverable env config dim { dir with store := some file, snap := some bytes } present g.narrow
        lsn entries := by
  have inside : present.length ≤ SegVec.CAPACITY := by
    rw [← CAPACITY_eq]
    exact stored.reaches.capacity
  have bounds : ∀ id level, g.HasLevel id level → level ≤ 63 := by
    rintro id level ⟨node, held, rfl⟩
    have below : id < present.length := (sound.dense.2 id).mp (by rw [held]; rfl)
    obtain ⟨other, heldToo, sampled⟩ := sound.levels id below
    rw [held] at heldToo
    cases heldToo
    rw [sampled]
    exact usable.levels id
  have m : 2 ≤ g.config.m ∧ g.config.m ≤ 4096 := by
    rw [sound.m]
    exact usable.m
  obtain ⟨bytes, saved, loaded⟩ := Hnsw.load_save env.hash_lt sound.layered sound.bounded sound.dense
    inside m bounds fits
  have len : g.narrow.len = present.length := sound.dense.1
  have narrowed := sound.narrow (small_levels usable.levels)
  rw [← len] at stored narrowed
  refine ⟨bytes, saved, len, rfl, stored, lengths, loaded, narrowed, fits, recoverable.logs,
    recoverable.ordered, ?_, ?_, recoverable.codebook⟩
  · intro l id vector member
    obtain ⟨rest, rfl⟩ := front
    have at_ := recoverable.present l id vector member
    rw [List.getElem?_append_left (List.getElem?_eq_some_iff.mp at_).1]
    exact at_
  · intro id low high
    omega

theorem Recoverable.reset
    (recoverable : Recoverable env config dim dir rows index replayFrom entries)
    (covered : index.len = rows.length) :
    Recoverable env config dim { dir with wal := some [] } rows index replayFrom [] := by
  refine { recoverable with
    logs := Logs.empty env.hash
    ordered := List.Pairwise.nil
    present := nofun
    logged := ?_ }
  intro id low high
  omega

/-! ### Sessions -/

/-- The log of a session, for the rows that the directory gives back and those in memory. -/
inductive Logging (hash : Bytes → Nat) (rows present : List Row) (dir : Directory)
    (replayFrom : Nat) (entries : List (Nat × WalOp)) : Bool → Option Wal → Prop
  | disabled (front : rows <+: present) : Logging hash rows present dir replayFrom entries false none
  | healthy {policy : SyncPolicy} {nextLsn : Nat} (same : present = rows)
      (whole : dir.walBytes = Wal.frames hash entries) (floor : replayFrom ≤ nextLsn)
      (fits : nextLsn < 2 ^ 64) :
      Logging hash rows present dir replayFrom entries true (some ⟨policy, nextLsn, false⟩)
  | poisoned {policy : SyncPolicy} {nextLsn : Nat} (front : present <+: rows) :
      Logging hash rows present dir replayFrom entries true (some ⟨policy, nextLsn, true⟩)

theorem Logging.moved {hash : Bytes → Nat} {rows present : List Row} {dir after : Directory}
    {replayFrom : Nat} {entries : List (Nat × WalOp)} {durable : Bool} {wal : Option Wal}
    (logging : Logging hash rows present dir replayFrom entries durable wal)
    (same : after.walBytes = dir.walBytes) :
    Logging hash rows present after replayFrom entries durable wal := by
  cases logging with
  | disabled front => exact .disabled front
  | healthy same' whole floor fits => exact .healthy same' (same.trans whole) floor fits
  | poisoned front => exact .poisoned front

theorem Logging.longer {hash : Bytes → Nat} {rows present : List Row} {dir : Directory}
    {replayFrom : Nat} {entries : List (Nat × WalOp)} {wal : Option Wal} {vector : Row}
    (logging : Logging hash rows present dir replayFrom entries false wal) :
    Logging hash rows (present ++ [vector]) dir replayFrom entries false wal := by
  cases logging with
  | disabled front => exact .disabled (front.trans (List.prefix_append _ _))

/-- An open database with the rows `present` in memory, `nodes` of them in the graph, whose
directory gives back `rows`. -/
structure Session (env : Env) (config : HnswConfig) (dim : Nat) (locks : Lock → Holders)
    (durable : Bool) (nodes : Nat) (w : World) (rows present : List Row) : Prop where
  live : Live env config dim locks nodes w present
  lengths : ∀ row ∈ present, row.length = dim
  kept : ∃ index replayFrom entries,
    Recoverable env config dim w.dir rows index replayFrom entries ∧
      Logging env.hash rows present w.dir replayFrom entries durable w.wal

variable {locks : Lock → Holders} {durable : Bool} {nodes : Nat} {w : World} {present : List Row}

theorem Session.recovers (session : Session env config dim locks durable nodes w rows present) :
    Recovers env config dim rows w.dir := by
  obtain ⟨index, replayFrom, entries, recoverable, -⟩ := session.kept
  exact ⟨index, replayFrom, entries, recoverable⟩

theorem Session.isDurable (session : Session env config dim locks durable nodes w rows present) :
    w.db.durable = durable := by
  obtain ⟨index, replayFrom, entries, -, logging⟩ := session.kept
  change w.wal.isSome = durable
  generalize w.wal = wal at logging
  cases logging <;> rfl

theorem Session.setFaults (session : Session env config dim locks durable nodes w rows present)
    (faults : List Wal.Fault) :
    Session env config dim locks durable nodes { w with faults := faults } rows present := by
  have live := session.live
  exact ⟨⟨live.locks, live.pending, live.running, live.stored, live.kernel, live.sound,
    live.nodes_le, live.quantizer, live.granted⟩, session.lengths, session.kept⟩

theorem Session.setLock (session : Session env config dim locks durable nodes w rows present)
    (lock : Lock) (holders : Holders) :
    Session env config dim (Function.update locks lock holders) durable nodes
      (w.setLock lock holders) rows present := by
  have live := session.live
  refine ⟨⟨?_, live.pending, live.running, live.stored, live.kernel, live.sound, live.nodes_le,
    live.quantizer, live.granted⟩, session.lengths, session.kept⟩
  rw [← live.locks]
  rfl

theorem Live.relog {t : World} (live : Live env config dim locks nodes t present) (wal : Option Wal)
    (bytes : Option Bytes) :
    Live env config dim locks nodes
      { t.afterFault with
        wal := wal
        dir := { t.dir with wal := bytes } } present :=
  ⟨live.locks, live.pending, live.running, live.stored, live.kernel, live.sound, live.nodes_le,
    live.quantizer, live.granted⟩

theorem ensureHealthy_answer {wal : Wal} (isOpen : w.wal = some wal) :
    handle env 0 w .ensureHealthy = .ok w wal.ensureHealthy := by
  simp only [handle, isOpen]

/-- The holders of a lock that agent 0 has to itself, or shares with nobody. -/
def holding (exclusive : Bool) : Holders := if exclusive then ⟨[], some 0⟩ else ⟨[0], none⟩

variable {α : Type} {P : Directory → Prop}

theorem leads_withLock {mid post : World → α → Prop} {lock : Lock} {exclusive : Bool}
    {body : Prog sig α} (free : w.locks lock = Holders.free) (kept : P w.dir)
    (ran : body.Leads (handle env) 0 (Keeps env P) mid (w.setLock lock (holding exclusive)))
    (after : ∀ t value, mid t value → t.locks lock = holding exclusive ∧ P t.dir ∧
      post (t.setLock lock Holders.free) value) :
    (withLock lock exclusive body).Leads (handle env) 0 (Keeps env P) post w := by
  have acquired : handle env 0 w (.acquire lock exclusive) =
      .ok (w.setLock lock (holding exclusive)) () := by
    change w.acquire 0 lock exclusive = _
    unfold World.acquire
    rw [free]
    cases exclusive <;> rfl
  unfold withLock
  refine leads_call (Keeps.whole kept) acquired ?_
  apply ran.bind
  intro t value reached
  obtain ⟨holders, keptAfter, final⟩ := after t value reached
  have released : handle env 0 t (.release lock exclusive) =
      .ok (t.setLock lock Holders.free) () := by
    change Reply.ok (t.release 0 lock exclusive) () = _
    unfold World.release
    rw [holders]
    cases exclusive <;> rfl
  refine leads_call (Keeps.whole keptAfter) released ?_
  exact Prog.Leads.ret final

theorem update_free {lock : Lock} (free : locks lock = Holders.free) (holders : Holders) :
    Function.update (Function.update locks lock holders) lock Holders.free = locks := by
  rw [Function.update_idem, ← free, Function.update_eq_self]

theorem Session.unlock {t : World} {lock : Lock} {holders : Holders}
    (session : Session env config dim (Function.update locks lock holders) durable nodes t rows
      present) (free : locks lock = Holders.free) :
    Session env config dim locks durable nodes (t.setLock lock Holders.free) rows present := by
  have released := session.setLock lock Holders.free
  rwa [update_free free] at released

end Db

end Vektordb
