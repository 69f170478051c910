import Vektordb.Db.Inserts
import Vektordb.Db.Checkpoints

/-!
Histories of a directory: sessions that are closed or killed anywhere, one after another. The
second index of `History` is the list of the rows that are durable, and `History.sane` that the
directory gives back exactly these, whatever the history was.
-/

namespace Vektordb

open Interaction LittleEndian VectorStore

def World.rows (w : World) : List Row := (List.range w.store.count).map w.row

namespace Db

/-- Between two processes there is a directory; in a session there is an open database, and the
list of the vectors that were brought back and inserted. -/
inductive Phase where
  | closed (dir : Directory)
  | session (w : World) (present : List Row)

/-- The histories of a directory whose store file has been created, with the rows that are
durable. A checkpoint without a log is stopped in the middle only in those that allow `halts`. -/
inductive History (env : Env) (config : HnswConfig) (dim : Nat) (halts : Bool) :
    Phase → List Row → Prop
  | created {store : VectorStore} {file : StoreFile}
      (done : VectorStore.create dim = .ok (store, file)) :
      History env config dim halts (.closed ⟨some file, none, none, none⟩) []
  | opened {dir : Directory} {rows : List Row} {opts : DbOptions} {scratch : Nat → VisitedSet}
      {w : World} (earlier : History env config dim halts (.closed dir) rows)
      (sameConfig : opts.config = config)
      (ran : (Db.open env opts scratch dim).run (handle env) 0 (World.start dir) =
        .done w (.ok ())) :
      History env config dim halts (.session w rows) rows
  | unopened {dir after : Directory} {rows : List Row} {opts : DbOptions}
      {scratch : Nat → VisitedSet} (earlier : History env config dim halts (.closed dir) rows)
      (sameConfig : opts.config = config)
      (killed : Killed env (Db.open env opts scratch dim) (World.start dir) after) :
      History env config dim halts (.closed after) rows
  | faulty {w : World} {present rows : List Row}
      (earlier : History env config dim halts (.session w present) rows)
      (faults : List Wal.Fault) :
      History env config dim halts (.session { w with faults := faults } present) rows
  | inserted {w t : World} {present rows : List Row} {vector : Row} {visited : VisitedSet}
      {id : Nat} (earlier : History env config dim halts (.session w present) rows)
      (room : ∀ wal, w.wal = some wal → wal.nextLsn + 1 < 2 ^ 64)
      (ran : (Db.insert env w.db vector visited).run (handle env) 0 w = .done t (.ok id)) :
      History env config dim halts (.session t (present ++ [vector]))
        (if w.db.durable then rows ++ [vector] else rows)
  | refused {w t : World} {present rows after : List Row} {vector : Row} {visited : VisitedSet}
      {e : Error} (earlier : History env config dim halts (.session w present) rows)
      (room : ∀ wal, w.wal = some wal → wal.nextLsn + 1 < 2 ^ 64)
      (ran : (Db.insert env w.db vector visited).run (handle env) 0 w = .done t (.error e))
      (durable : RecordWritten env w vector t.dir ∧ after = rows ++ [vector] ∨
        ¬ RecordWritten env w vector t.dir ∧ after = rows) :
      History env config dim halts (.session t present) after
  | uninserted {w : World} {dir : Directory} {present rows after : List Row} {vector : Row}
      {visited : VisitedSet} (earlier : History env config dim halts (.session w present) rows)
      (room : ∀ wal, w.wal = some wal → wal.nextLsn + 1 < 2 ^ 64)
      (killed : Killed env (Db.insert env w.db vector visited) w dir)
      (durable : RecordWritten env w vector dir ∧ after = rows ++ [vector] ∨
        ¬ RecordWritten env w vector dir ∧ after = rows) :
      History env config dim halts (.closed dir) after
  | trained {w t : World} {present rows : List Row} {m iters maxSamples : Nat}
      {seeds : Nat → Nat} {result : Result Unit}
      (earlier : History env config dim halts (.session w present) rows)
      (ran : (Db.trainPq env w.db m iters maxSamples seeds).run (handle env) 0 w = .done t result) :
      History env config dim halts (.session t present) rows
  | checkpointed {w t : World} {present rows : List Row}
      (earlier : History env config dim halts (.session w present) rows)
      (ran : (Db.checkpoint w.db).run (handle env) 0 w = .done t (.ok ())) :
      History env config dim halts (.session t present) present
  | failed {w t : World} {present rows : List Row} {e : Error}
      (earlier : History env config dim halts (.session w present) rows)
      (durable : w.db.durable = true)
      (ran : (Db.checkpoint w.db).run (handle env) 0 w = .done t (.error e)) :
      History env config dim halts (.session t present) rows
  /-- Without a log a failed checkpoint may leave a header that counts rows which are nowhere else;
  the session goes on if it did not. -/
  | interrupted {w t : World} {present rows after : List Row} {e : Error}
      (earlier : History env config dim halts (.session w present) rows)
      (volatile : w.db.durable = false)
      (ran : (Db.checkpoint w.db).run (handle env) 0 w = .done t (.error e))
      (durable : headerCount t.file.image ≤ rows.length ∧ t.dir.snap = w.dir.snap ∧ after = rows ∨
        t.dir.snap ≠ w.dir.snap ∧ after = present) :
      History env config dim halts (.session t present) after
  | stopped {w : World} {dir : Directory} {present rows : List Row}
      (earlier : History env config dim halts (.session w present) rows)
      (durable : w.db.durable = true) (killed : Killed env (Db.checkpoint w.db) w dir) :
      History env config dim halts (.closed dir) rows
  /-- Without a log the rows are durable once the new snapshot is in place. -/
  | halted {w : World} {dir : Directory} {present rows after : List Row}
      (earlier : History env config dim halts (.session w present) rows) (allowed : halts = true)
      (volatile : w.db.durable = false) (killed : Killed env (Db.checkpoint w.db) w dir)
      (durable : dir.snap = w.dir.snap ∧ after = rows ∨ dir.snap ≠ w.dir.snap ∧ after = present) :
      History env config dim halts (.closed dir) after
  | closed {w : World} {present rows : List Row}
      (earlier : History env config dim halts (.session w present) rows) :
      History env config dim halts (.closed w.dir) rows

variable {env : Env} {config : HnswConfig} {dim : Nat} {halts : Bool} {dir : Directory}
  {rows present : List Row} {w t : World}

/-! ### A new store -/

theorem create_recovers {store : VectorStore} {file : StoreFile} (usable : Usable env config)
    (done : VectorStore.create dim = .ok (store, file)) :
    Recovers env config dim [] ⟨some file, none, none, none⟩ := by
  have range : 0 < dim ∧ dim < 2 ^ 32 := by
    unfold VectorStore.create at done
    split at done
    · cases done
    · omega
  obtain ⟨store', file', created, sameDim, count, attached, formatted, header, synced, device⟩ :=
    create_ok range.1 range.2
  rw [created] at done
  cases done
  obtain ⟨index, isNew⟩ : ∃ index, Hnsw.new config = .ok index := by
    unfold Hnsw.new
    rw [if_pos usable.m]
    exact ⟨_, rfl⟩
  have sound := Hnsw.sound_new isNew (distancesOf env config.metric []) (env.level config.m)
  have len : index.len = 0 := sound.dense.1
  have reaches := attached.reaches
  rw [count, sameDim] at reaches
  have counts : ∀ {image : Image}, Formatted dim image → headerCount image = 0 →
      Counts dim image [] index.len := by
    intro image format zero
    rw [len]
    exact ⟨format, Nat.zero_le _, zero.le, by rw [List.take_nil]; exact nofun⟩
  refine ⟨index, 0, [], ⟨rfl, ⟨counts formatted header, counts synced device, ?_, reaches⟩, nofun,
    ?_, ?_, Nat.two_pow_pos 64, Logs.empty env.hash, List.Pairwise.nil, nofun, ?_, nofun⟩⟩
  · change headerCount file.device ≤ headerCount file.image
    rw [header, device]
  · unfold Directory.loadIndex
    rw [isNew]
    rfl
  · rw [len]
    exact sound
  · intro id _ below
    cases below

/-! ### Opening -/

/-- A directory whose header counts rows that do not come back. -/
def Skewed (env : Env) (config : HnswConfig) (dim : Nat) (dir : Directory) : Prop :=
  ∃ rows linked index replayFrom entries,
    Restores env config dim dir rows linked index replayFrom entries ∧ linked < rows.length

theorem Restores.kept {linked replayFrom : Nat} {index : Hnsw} {entries : List (Nat × WalOp)}
    (restores : Restores env config dim dir rows linked index replayFrom entries)
    {after : Directory}
    (undisturbed : Undisturbed env.hash dim (headerCount dir.file.image) entries dir after) :
    Restores env config dim after rows linked index replayFrom entries := by
  have frontier := undisturbed.frontier
  have header := frontier.image.header
  refine { restores with
    isStored := undisturbed.isStored
    counts := restores.counts.same frontier.image
    reaches := restores.reaches.longer frontier.len frontier.small
    loads := ?_
    logs := ?_
    agree := ?_
    length := ?_
    codebook := ?_ }
  · have loads := restores.loads
    unfold Directory.loadIndex at loads ⊢
    rw [undisturbed.snap]
    exact loads
  · rcases undisturbed.wal with same | whole
    · rw [same]
      exact restores.logs
    · rw [whole]
      exact Logs.whole restores.logs.encodable restores.logs.lsns
  · rw [← header]
    exact restores.agree
  · rw [← header]
    exact restores.length
  · rw [undisturbed.codebook]
    exact restores.codebook

theorem Ends.undisturbed {opts : DbOptions} {linked replayFrom : Nat}
    {entries : List (Nat × WalOp)} {result : Result Unit}
    (ends : Ends env config dim opts dir rows linked replayFrom entries t result) :
    Undisturbed env.hash dim (headerCount dir.file.image) entries dir t.dir := by
  cases ends with
  | opened _ _ final => exact final.undisturbed
  | mismatch _ _ kept => exact kept
  | disagreement _ _ kept => exact kept

theorem Restores.unopened {linked replayFrom : Nat} {index : Hnsw} {entries : List (Nat × WalOp)}
    (restores : Restores env config dim dir rows linked index replayFrom entries)
    (levels : ∀ id, env.level config.m id ≤ 63) {opts : DbOptions} (sameConfig : opts.config = config)
    {scratch : Nat → VisitedSet} {after : Directory}
    (killed : Killed env (Db.open env opts scratch dim) (World.start dir) after) :
    Undisturbed env.hash dim (headerCount dir.file.image) entries dir after :=
  killed.kept (restores.open levels opts sameConfig scratch) fun _ _ ends => ends.undisturbed

theorem Opened.session {opts : DbOptions} {replayFrom : Nat} {index : Hnsw}
    {entries : List (Nat × WalOp)}
    (recoverable : Recoverable env config dim dir rows index replayFrom entries)
    (opened : Opened env config dim opts dir rows rows.length replayFrom entries w) :
    Session env config dim (fun _ => Holders.free) opts.enableWal rows.length w rows rows := by
  have kept := recoverable.undisturbed opened.undisturbed
  refine ⟨opened.live, recoverable.lengths, index, replayFrom, entries, kept, ?_⟩
  rw [opened.wal]
  cases enabled : opts.enableWal with
  | false => exact .disabled List.prefix_rfl
  | true =>
      have next : Wal.nextAfter 0 entries < 2 ^ 64 := by
        rcases Wal.nextAfter_spec entries with ⟨-, zero⟩ | ⟨entry, member, last, -⟩
        · rw [zero]
          exact Nat.two_pow_pos 64
        · rw [last]
          exact recoverable.logs.lsns entry member
      exact .healthy rfl (opened.log enabled) (Nat.le_max_right _ _)
        (Nat.max_lt.mpr ⟨next, recoverable.watermark⟩)

/-! ### Training -/

theorem train_dim {arith : Pq.Arithmetic} {samples : Row} {m iters : Nat} {seeds : Nat → Nat}
    {pq : ProductQuantizer} (trained : ProductQuantizer.train arith samples dim m iters seeds = .ok pq) :
    pq.dim = dim := by
  unfold ProductQuantizer.train at trained
  split at trained
  · cases trained
  · split at trained
    · cases trained
    · dsimp only at trained
      split at trained
      · cases trained
      · cases trained
        rfl

theorem gather_leads {P : Directory → Prop} (kept : P w.dir) (ids : List Nat) (samples : Row) :
    (gather ids samples).Leads (handle env) 0 (Keeps env P) (fun t _ => t = w) w := by
  induction ids generalizing samples with
  | nil => exact Prog.Leads.ret rfl
  | cons id rest ih => exact leads_call (Keeps.whole kept) rfl (ih _)

variable {locks : Lock → Holders} {durable : Bool} {nodes : Nat}

theorem Session.setPq (session : Session env config dim locks durable nodes w rows present)
    {state : PqState} (sameDim : state.pq.dim = dim) :
    Session env config dim locks durable nodes { w with pq := some state } rows present := by
  have live := session.live
  refine ⟨⟨live.locks, live.pending, live.running, live.stored, live.kernel, live.sound,
    live.nodes_le, ?_, live.granted⟩, session.lengths, session.kept⟩
  intro other trained
  cases trained
  exact sameDim

theorem Session.locked {α : Type} {φ : α → Prop}
    (session : Session env config dim locks durable nodes w rows present)
    {lock : Lock} {exclusive : Bool} (free : locks lock = Holders.free) {body : Prog sig α}
    (ran : body.Leads (handle env) 0 (Keeps env (Recovers env config dim rows)) (fun t value =>
      Session env config dim (Function.update locks lock (holding exclusive)) durable nodes t rows
        present ∧ φ value) (w.setLock lock (holding exclusive))) :
    (withLock lock exclusive body).Leads (handle env) 0 (Keeps env (Recovers env config dim rows))
      (fun t value => Session env config dim locks durable nodes t rows present ∧ φ value) w := by
  have isFree : w.locks lock = Holders.free := by
    rw [session.live.locks]
    exact free
  apply leads_withLock isFree session.recovers ran
  rintro t value ⟨after, holds⟩
  refine ⟨?_, after.recovers, after.unlock free, holds⟩
  rw [after.live.locks, Function.update_self]

theorem Session.encodeAll (session : Session env config dim (fun _ => Holders.free) durable nodes w
      rows present) {pq : ProductQuantizer} (sameDim : pq.dim = dim) :
    (withLock .maintenance true do
        let codes ← call (.encodeAll pq)
        withLock .pq true (call (.setPq ⟨pq, codes⟩))
        pure (.ok () : Result Unit)).Leads (handle env) 0 (Keeps env (Recovers env config dim rows))
      (fun t _ => Session env config dim (fun _ => Holders.free) durable nodes t rows present ∧ True)
      w := by
  have held := session.setLock .maintenance (holding true)
  apply session.locked rfl
  refine leads_call (Keeps.whole held.recovers) rfl ?_
  generalize (w.setLock .maintenance (holding true)).encodeAll env pq = codes
  have inner := held.setLock .pq (holding true)
  apply (held.locked (φ := fun _ => True) rfl (Prog.Leads.act (S := sig)
    (Keeps.whole inner.recovers) rfl (Prog.Leads.ret ⟨inner.setPq sameDim, trivial⟩))).bind
  rintro t - ⟨after, -⟩
  exact Prog.Leads.ret ⟨after, trivial⟩

theorem Session.trainPq (session : Session env config dim (fun _ => Holders.free) durable nodes w rows
      present) (m iters maxSamples : Nat) (seeds : Nat → Nat) :
    (Db.trainPq env w.db m iters maxSamples seeds).Leads (handle env) 0
      (Keeps env (Recovers env config dim rows)) (fun t _ =>
        Session env config dim (fun _ => Holders.free) durable nodes t rows present) w := by
  have kept := session.recovers
  unfold Db.trainPq
  split
  · exact Prog.Leads.ret session
  · refine leads_call (Keeps.whole kept) rfl ?_
    split
    · exact Prog.Leads.ret session
    · split
      · exact Prog.Leads.ret session
      · split
        · exact Prog.Leads.ret session
        · apply (gather_leads kept _ _).bind
          rintro t samples rfl
          cases trained : ProductQuantizer.train env.pq samples t.db.dim m iters seeds with
          | error e => exact Prog.Leads.ret session
          | ok pq =>
              apply (session.encodeAll ((train_dim trained).trans session.live.sameDim)).mono
              rintro u - ⟨after, -⟩
              exact after

/-! ### All histories -/

/-- What holds between two steps of a history. -/
def Sane (env : Env) (config : HnswConfig) (dim : Nat) (halts : Bool) : Phase → List Row → Prop
  | .closed dir, rows => Recovers env config dim rows dir ∨ halts = true ∧ Skewed env config dim dir
  | .session w present, rows =>
      Session env config dim (fun _ => Holders.free) w.db.durable present.length w rows present

theorem Session.sane {durable : Bool} (session : Session env config dim (fun _ => Holders.free) durable
      present.length t rows present) : Sane env config dim halts (.session t present) rows := by
  change Session env config dim (fun _ => Holders.free) t.db.durable present.length t rows present
  rw [session.isDurable]
  exact session

theorem sane_opened {opts : DbOptions} {scratch : Nat → VisitedSet} (usable : Usable env config)
    (sane : Sane env config dim halts (.closed dir) rows) (sameConfig : opts.config = config)
    (ran : (Db.open env opts scratch dim).run (handle env) 0 (World.start dir) = .done w (.ok ())) :
    Sane env config dim halts (.session w rows) rows := by
  rcases sane with ⟨index, replayFrom, entries, recoverable⟩ |
    ⟨-, other, linked, index, replayFrom, entries, restores, behind⟩
  · have ends := (recoverable.restores.open usable.levels opts sameConfig scratch).run_post ran
    generalize answer : (Except.ok () : Result Unit) = result at ends
    cases ends with
    | opened _ _ final => exact (final.session recoverable).sane
    | mismatch => cases answer
    | disagreement => cases answer
  · have ends := (restores.open usable.levels opts sameConfig scratch).run_post ran
    generalize answer : (Except.ok () : Result Unit) = result at ends
    cases ends with
    | opened _ whole => omega
    | mismatch => cases answer
    | disagreement => cases answer

theorem sane_unopened {opts : DbOptions} {scratch : Nat → VisitedSet} {after : Directory}
    (usable : Usable env config) (sane : Sane env config dim halts (.closed dir) rows)
    (sameConfig : opts.config = config)
    (killed : Killed env (Db.open env opts scratch dim) (World.start dir) after) :
    Sane env config dim halts (.closed after) rows := by
  rcases sane with ⟨index, replayFrom, entries, recoverable⟩ |
    ⟨allowed, other, linked, index, replayFrom, entries, restores, behind⟩
  · have undisturbed := recoverable.restores.unopened usable.levels sameConfig killed
    exact .inl ⟨index, replayFrom, entries, recoverable.undisturbed undisturbed⟩
  · have undisturbed := restores.unopened usable.levels sameConfig killed
    exact .inr ⟨allowed, other, linked, index, replayFrom, entries, restores.kept undisturbed, behind⟩

theorem Session.comparable (session : Session env config dim locks durable nodes w rows present)
    (isDurable : durable = true) : present <+: rows := by
  obtain ⟨index, replayFrom, entries, -, logging⟩ := session.kept
  rcases logging.comparable with front | ⟨volatile, -⟩
  · exact front
  · rw [volatile] at isDurable
    cases isDurable

/-- With a log every stopped checkpoint leaves the same rows. -/
theorem Halted.recovers (halted : Halted env config dim w rows present dir)
    (front : present <+: rows) : Recovers env config dim rows dir := by
  cases halted with
  | behind recovers => exact recovers
  | ahead _ _ _ more =>
      have shorter := front.length_le
      omega
  | covered _ _ _ longer recovers =>
      rw [longer.eq_of_length_le front.length_le]
      exact recovers

theorem Halted.sane {after : List Row} (halted : Halted env config dim w rows present dir)
    (recovers : Recovers env config dim rows w.dir)
    (durable : dir.snap = w.dir.snap ∧ after = rows ∨ dir.snap ≠ w.dir.snap ∧ after = present) :
    Recovers env config dim after dir ∨ Skewed env config dim dir := by
  cases halted with
  | behind recovers snap =>
      obtain ⟨-, rfl⟩ := durable.resolve_right fun other => other.1 snap
      exact .inl recovers
  | ahead index replayFrom entries more header restores snap =>
      exact .inr ⟨_, _, index, replayFrom, entries, restores, more⟩
  | covered lsn bytes saved longer kept all snap =>
      rcases durable with ⟨same, rfl⟩ | ⟨-, rfl⟩
      · obtain ⟨index, replayFrom, entries, recoverable⟩ := recovers
        have loads : dir.loadIndex env config = .ok (index, replayFrom) := by
          have loads := recoverable.loads
          unfold Directory.loadIndex at loads ⊢
          rw [same]
          exact loads
        have len := all index replayFrom loads
        have covered := recoverable.stored.image.least.trans recoverable.stored.image.most
        rw [longer.eq_of_length_le (len ▸ covered)]
        exact .inl kept
      · exact .inl kept

theorem CheckpointEnds.session {e : Error}
    (ends : CheckpointEnds env config dim locks durable w rows present t (.error e))
    (front : present <+: rows) : Session env config dim locks durable present.length t rows present := by
  cases ends with
  | failed _ flushing => exact flushing.session front
  | unsynced _ covered =>
      rw [covered.front.eq_of_length_le front.length_le]
      exact covered.session

/-- Without a log the header or the snapshot tells whether a failed checkpoint did any harm. -/
theorem CheckpointEnds.survives {e : Error} {after : List Row}
    (ends : CheckpointEnds env config dim locks false w rows present t (.error e))
    (durable : headerCount t.file.image ≤ rows.length ∧ t.dir.snap = w.dir.snap ∧ after = rows ∨
      t.dir.snap ≠ w.dir.snap ∧ after = present) :
    Session env config dim locks false present.length t after present := by
  cases ends with
  | failed _ flushing =>
      obtain ⟨counted, -, rfl⟩ := durable.resolve_right fun other => other.1 flushing.snap
      have header : present.length ≤ after.length := flushing.image.header ▸ counted
      obtain ⟨index, replayFrom, entries, -, logging⟩ := flushing.kept
      rcases logging.comparable with front | ⟨-, front⟩
      · exact flushing.session front
      · exact flushing.session (front.eq_of_length_le header ▸ List.prefix_rfl)
  | unsynced _ covered =>
      rcases durable with ⟨counted, -, rfl⟩ | ⟨-, rfl⟩
      · obtain ⟨index, replayFrom, entries, recoverable, -, len⟩ := covered.kept
        have header : present.length ≤ after.length :=
          (len ▸ recoverable.stored.image.least).trans counted
        rw [covered.front.eq_of_length_le header]
        exact covered.session
      · exact covered.session

theorem InsertRecovers.comes {vector : Row} {after : List Row}
    (recovers : InsertRecovers env config dim w vector rows dir)
    (durable : RecordWritten env w vector dir ∧ after = rows ++ [vector] ∨
      ¬ RecordWritten env w vector dir ∧ after = rows) : Recovers env config dim after dir := by
  rcases durable with ⟨written, rfl⟩ | ⟨unwritten, rfl⟩
  · exact recovers.1 written
  · exact recovers.2 unwritten

theorem Session.more {vector : Row} (session : Session env config dim locks durable
      (present.length + 1) w rows (present ++ [vector])) :
    Session env config dim locks durable (present ++ [vector]).length w rows (present ++ [vector]) := by
  rw [List.length_append]
  exact session

theorem Session.renamed {written : Prop} {more after other : List Row}
    (session : Session env config dim locks durable nodes w after present)
    (comes : written ∧ after = more ∨ ¬ written ∧ after = rows)
    (same : written ∧ other = more ∨ ¬ written ∧ other = rows) :
    Session env config dim locks durable nodes w other present := by
  rcases same with ⟨is, rfl⟩ | ⟨is, rfl⟩
  · obtain ⟨-, rfl⟩ := comes.resolve_right fun other => other.1 is
    exact session
  · obtain ⟨-, rfl⟩ := comes.resolve_left fun other => is other.1
    exact session

/-- A directory gives back exactly the rows that are durable, wherever the history was stopped. -/
theorem History.sane {phase : Phase} (usable : Usable env config)
    (history : History env config dim halts phase rows) : Sane env config dim halts phase rows := by
  induction history with
  | created done => exact .inl (create_recovers usable done)
  | opened _ sameConfig ran ih => exact sane_opened usable ih sameConfig ran
  | unopened _ sameConfig killed ih => exact sane_unopened usable ih sameConfig killed
  | faulty _ faults ih => exact ih.setFaults faults
  | inserted _ room ran ih =>
      have ends := (ih.insert usable.levels room _ _).run_post ran
      cases ends with
      | accepted session => exact session.more.sane
  | refused _ room ran durable ih =>
      have ends := (ih.insert usable.levels room _ _).run_post ran
      cases ends with
      | refused _ _ session comes => exact (session.renamed comes durable).sane
  | uninserted _ room killed durable ih =>
      have kept := killed.kept (ih.insert usable.levels room _ _) fun _ _ ends => ends.recovers
      exact .inl (kept.comes durable)
  | trained _ ran ih => exact ((ih.trainPq _ _ _ _).run_post ran).sane
  | checkpointed _ ran ih =>
      have ends := (ih.checkpoint usable).run_post ran
      cases ends with
      | completed covered => exact covered.session.sane
  | failed _ durable ran ih =>
      exact (((ih.checkpoint usable).run_post ran).session (ih.comparable durable)).sane
  | interrupted _ volatile ran durable ih =>
      rw [Sane, volatile] at ih
      exact (((ih.checkpoint usable).run_post ran).survives durable).sane
  | stopped _ durable killed ih =>
      have kept := killed.kept (ih.checkpoint usable) fun _ _ ends => ends.halted usable.levels
      exact .inl (kept.recovers (ih.comparable durable))
  | halted _ allowed volatile killed durable ih =>
      have kept := killed.kept (ih.checkpoint usable) fun _ _ ends => ends.halted usable.levels
      exact (kept.sane ih.recovers durable).imp id fun skewed => ⟨allowed, skewed⟩
  | closed _ ih => exact .inl ih.recovers

/-! ### What opening gives back -/

theorem Live.rows_eq (live : Live env config dim locks nodes w rows) : w.rows = rows := by
  unfold World.rows
  rw [live.count]
  apply List.ext_getElem
  · rw [List.length_map, List.length_range]
  · intro id left right
    rw [List.getElem_map, List.getElem_range]
    exact live.row (List.getElem?_eq_getElem right)

theorem Live.len_eq (live : Live env config dim locks rows.length w rows) :
    w.index.len = w.store.count :=
  live.sound.dense.1.trans live.count.symm

/-- The replayed records of the rows that the header counts have no NaN in them. -/
def Numbers (env : Env) (config : HnswConfig) (dir : Directory) : Prop :=
  ∀ index replayFrom wal entries file, dir.loadIndex env config = .ok (index, replayFrom) →
    Wal.open env.hash .always dir.walBytes = (.ok (wal, entries), file) →
    ∀ lsn id vector, (lsn, .insert id vector) ∈ entries → replayFrom ≤ lsn →
      id < headerCount dir.file.image → vector.hasNan = false

theorem Recoverable.numbers_iff {index : Hnsw} {replayFrom : Nat} {entries : List (Nat × WalOp)}
    (recoverable : Recoverable env config dim dir rows index replayFrom entries) :
    Numbers env config dir ↔ Agrees rows (headerCount dir.file.image) replayFrom entries := by
  have opens := recoverable.logs.opens env.hash_lt .always
  rw [recoverable.agrees_iff]
  constructor
  · intro numbers
    exact numbers index replayFrom _ entries _ recoverable.loads opens
  · intro clean index' replayFrom' wal entries' file loads opened
    rw [recoverable.loads] at loads
    rw [opens] at opened
    cases loads
    cases opened
    exact clean

theorem Recovers.open (recovers : Recovers env config dim rows dir)
    (levels : ∀ id, env.level config.m id ≤ 63) (opts : DbOptions) (sameConfig : opts.config = config)
    (scratch : Nat → VisitedSet) :
    ∃ t result, (Db.open env opts scratch dim).run (handle env) 0 (World.start dir) = .done t result ∧
      ((Numbers env config dir ∧ result = .ok () ∧ t.index.len = t.store.count ∧ t.rows = rows) ∨
        (¬ Numbers env config dir ∧ ∃ id, result = .error (disagrees id))) := by
  obtain ⟨index, replayFrom, entries, recoverable⟩ := recovers
  obtain ⟨t, result, ran, ends⟩ :=
    (recoverable.restores.open levels opts sameConfig scratch).run_done
  refine ⟨t, result, ran, ?_⟩
  rw [recoverable.numbers_iff]
  cases ends with
  | opened agrees _ final => exact .inl ⟨agrees, rfl, final.live.len_eq, final.live.rows_eq⟩
  | mismatch _ ahead => exact absurd ahead (Nat.lt_irrefl _)
  | disagreement id differs => exact .inr ⟨differs, id, rfl⟩

theorem Recovers.numbers (recovers : Recovers env config dim rows dir)
    (clean : ∀ row ∈ rows, row.hasNan = false) : Numbers env config dir := by
  obtain ⟨index, replayFrom, entries, recoverable⟩ := recovers
  rw [recoverable.numbers_iff, recoverable.agrees_iff]
  intro lsn id vector member _ _
  exact clean vector (List.mem_of_getElem? (recoverable.present lsn id vector member))

theorem History.recovers (usable : Usable env config)
    (history : History env config dim false (.closed dir) rows) :
    Recovers env config dim rows dir :=
  (history.sane usable).resolve_right fun skewed => Bool.false_ne_true skewed.1

/-- Crash recovery: after every history every process finds exactly the durable rows. -/
theorem open_recovers (usable : Usable env config)
    (history : History env config dim false (.closed dir) rows)
    (clean : ∀ row ∈ rows, row.hasNan = false) (opts : DbOptions) (sameConfig : opts.config = config)
    (scratch : Nat → VisitedSet) :
    ∃ t, (Db.open env opts scratch dim).run (handle env) 0 (World.start dir) = .done t (.ok ()) ∧
      t.index.len = t.store.count ∧ t.rows = rows := by
  have recovers := history.recovers usable
  obtain ⟨t, result, ran, ⟨-, rfl, len, same⟩ | ⟨differs, -⟩⟩ :=
    recovers.open usable.levels opts sameConfig scratch
  · exact ⟨t, ran, len, same⟩
  · exact absurd (recovers.numbers clean) differs

/-! ### An example: one insert, killed inside the checkpoint after it -/

theorem zeros_length (d : Nat) : (List.replicate (Pq.K * d) (F32.ofNat 0)).length = Pq.K * d :=
  List.length_replicate

/-- No checksums, no distances, and all nodes on layer 0. -/
def plain : Env where
  hash _ := 0
  hash_lt _ := Nat.two_pow_pos 32
  kernel _ _ _ := F32.ofNat 0
  level _ _ := 0
  pq :=
    { l2 := fun _ _ => F32.ofNat 0
      add := fun a _ => a
      kmeans := fun _ _ d _ _ => ⟨List.replicate (Pq.K * d) (F32.ofNat 0), zeros_length d⟩ }

def plainConfig : HnswConfig := ⟨2, 4, .l2⟩

theorem plain_usable : Usable plain plainConfig := ⟨fun _ => Nat.zero_le 63, by decide⟩

def plainOptions (enableWal : Bool) : DbOptions := ⟨plainConfig, .always, enableWal⟩

def plainFile : StoreFile :=
  match VectorStore.create 1 with
  | .ok (_, file) => file
  | .error _ => ⟨0, Image.blank, Image.blank⟩

def plainOpen (enableWal : Bool) (dir : Directory) : Outcome World (Result Unit) :=
  (Db.open plain (plainOptions enableWal) (fun _ => VisitedSet.new) 1).run (handle plain) 0
    (World.start dir)

def plainSession (enableWal : Bool) : World :=
  (plainOpen enableWal ⟨some plainFile, none, none, none⟩).stateOr (World.start ⟨none, none, none, none⟩)

def plainInsert (w : World) (vector : Row) : Outcome World (Result Nat) :=
  (Db.insert plain w.db vector VisitedSet.new).run (handle plain) 0 w

/-- A checkpoint that is killed between the flush and the rest. -/
def plainFlushed (w : World) : Directory := (w.setFile (w.store.flush w.file)).dir

theorem plain_created {halts : Bool} :
    History plain plainConfig 1 halts (.closed ⟨some plainFile, none, none, none⟩) [] := by
  obtain ⟨store, file, created, -⟩ :=
    VectorStore.create_ok (show 0 < 1 from Nat.one_pos) (show 1 < 2 ^ 32 by decide)
  have same : plainFile = file := by
    unfold plainFile
    rw [created]
  rw [same]
  exact .created created

theorem plain_session {halts enableWal : Bool}
    (opened : (plainOpen enableWal ⟨some plainFile, none, none, none⟩).answer = some (.ok ())) :
    History plain plainConfig 1 halts (.session (plainSession enableWal) []) [] :=
  .opened plain_created rfl (Outcome.done_stateOr opened _)

theorem plain_flushed {w : World} (free : w.locks .maintenance = Holders.free)
    (quiet : w.faults.isEmpty = true) :
    Killed plain (Db.checkpoint w.db) w (plainFlushed w) := by
  have acquired : handle plain 0 w (.acquire .maintenance true) =
      .ok (w.setLock .maintenance (holding true)) () := by
    change w.acquire 0 .maintenance true = _
    unfold World.acquire
    rw [free]
    rfl
  let counted := (w.setLock .maintenance (holding true)).setFile (w.store.storeCount w.file)
  have noFault : counted.fault = .none := by
    change w.faults.headD .none = .none
    rw [List.isEmpty_iff.mp quiet]
    rfl
  have synced : handle plain 0 counted .syncPages =
      .ok (counted.afterFault.setFile (counted.store.syncPages counted.file)) (.ok ()) := by
    change counted.syncPages = _
    unfold World.syncPages
    rw [noFault]
    rfl
  exact ⟨_, _, .next acquired (.next rfl (.next synced (.here _ _))), .inl rfl⟩

def plainStopped (n : Nat) (w : World) : Directory :=
  match (Db.checkpoint w.db).walk (handle plain) 0 n w with
  | some (_, t) => t.dir
  | none => w.dir

theorem plain_stopped (n : Nat) (w : World) :
    Killed plain (Db.checkpoint w.db) w (plainStopped n w) := by
  unfold plainStopped
  cases walked : (Db.checkpoint w.db).walk (handle plain) 0 n w with
  | some reached => exact ⟨reached.1, reached.2, Prog.walk_visits walked, .inl rfl⟩
  | none => exact ⟨_, w, .here _ _, .inl rfl⟩

theorem plain_inserted {halts : Bool} {w : World} {rows present : List Row} {vector : Row}
    {id : Nat} (session : History plain plainConfig 1 halts (.session w present) rows)
    (log : (w.wal.map Wal.nextLsn).all (· < 1000) = true) (durable : w.db.durable = true)
    (inserted : (plainInsert w vector).answer = some (.ok id)) :
    History plain plainConfig 1 halts (.session ((plainInsert w vector).stateOr w)
      (present ++ [vector])) (rows ++ [vector]) := by
  have room : ∀ wal, w.wal = some wal → wal.nextLsn + 1 < 2 ^ 64 := by
    intro wal same
    rw [same] at log
    have small : wal.nextLsn < 1000 := of_decide_eq_true log
    omega
  have stored := session.inserted room (Outcome.done_stateOr inserted w)
  rw [durable] at stored
  exact stored

theorem plain_fresh : (plainOpen true ⟨some plainFile, none, none, none⟩).answer = some (.ok ()) ∧
    ((plainSession true).wal.map Wal.nextLsn).all (· < 1000) = true ∧
    (plainSession true).db.durable = true := by decide +kernel

def plainFilled (vector : Row) : World :=
  (plainInsert (plainSession true) vector).stateOr (plainSession true)

theorem plain_filled {halts : Bool} {vector : Row}
    (inserted : (plainInsert (plainSession true) vector).answer = some (.ok 0)) :
    History plain plainConfig 1 halts (.session (plainFilled vector) [vector]) [vector] := by
  obtain ⟨opened, log, durable⟩ := plain_fresh
  exact plain_inserted (plain_session opened) log durable inserted

def plainKilled (vector : Row) : Directory := plainFlushed (plainFilled vector)

theorem plain_killed {vector : Row}
    (inserted : (plainInsert (plainSession true) vector).answer = some (.ok 0))
    (free : (plainFilled vector).locks .maintenance = Holders.free)
    (quiet : (plainFilled vector).faults.isEmpty = true)
    (durable : (plainFilled vector).db.durable = true) :
    History plain plainConfig 1 false (.closed (plainKilled vector)) [vector] :=
  (plain_filled inserted).stopped durable (plain_flushed free quiet)

theorem plain_first : (plainInsert (plainSession true) [F32.ofNat 1]).answer = some (.ok 0) ∧
    (plainFilled [F32.ofNat 1]).locks .maintenance = Holders.free ∧
    (plainFilled [F32.ofNat 1]).faults.isEmpty = true ∧
    (plainFilled [F32.ofNat 1]).db.durable = true := by decide +kernel

theorem plain_killed_first :
    History plain plainConfig 1 false (.closed (plainKilled [F32.ofNat 1])) [[F32.ofNat 1]] := by
  obtain ⟨inserted, free, quiet, durable⟩ := plain_first
  exact plain_killed inserted free quiet durable

theorem open_recovers_killed :
    ∃ t, History plain plainConfig 1 false (.closed (plainKilled [F32.ofNat 1])) [[F32.ofNat 1]] ∧
      plainOpen true (plainKilled [F32.ofNat 1]) = .done t (.ok ()) ∧
      t.index.len = t.store.count ∧ t.rows = [[F32.ofNat 1]] := by
  obtain ⟨t, ran, len, same⟩ := open_recovers plain_usable plain_killed_first (by decide)
    (plainOptions true) rfl fun _ => VisitedSet.new
  exact ⟨t, plain_killed_first, ran, len, same⟩

/-- Replay: the rows come back bit for bit unless a NaN is compared with itself. -/
theorem replay_accepts_iff (usable : Usable env config)
    (history : History env config dim false (.closed dir) rows) (opts : DbOptions)
    (sameConfig : opts.config = config) (scratch : Nat → VisitedSet) :
    (∃ t, (Db.open env opts scratch dim).run (handle env) 0 (World.start dir) = .done t (.ok ()) ∧
      t.rows = rows) ↔ Numbers env config dir := by
  obtain ⟨t, result, ran, ⟨numbers, rfl, -, same⟩ | ⟨differs, id, rfl⟩⟩ :=
    (history.recovers usable).open usable.levels opts sameConfig scratch
  · exact ⟨fun _ => numbers, fun _ => ⟨t, ran, same⟩⟩
  · refine ⟨?_, fun numbers => absurd numbers differs⟩
    rintro ⟨other, accepted, -⟩
    rw [ran] at accepted
    cases accepted

def nan : F32 := ⟨0x7FC00000⟩

theorem replay_refuses_nan :
    History plain plainConfig 1 false (.closed (plainKilled [nan])) [[nan]] ∧
      (plainOpen true (plainKilled [nan])).answer =
        some (.error (.corrupt "WAL vector 0 disagrees with vector store")) := by
  have runs : (plainInsert (plainSession true) [nan]).answer = some (.ok 0) ∧
      (plainFilled [nan]).locks .maintenance = Holders.free ∧
      (plainFilled [nan]).faults.isEmpty = true ∧ (plainFilled [nan]).db.durable = true ∧
      (plainOpen true (plainKilled [nan])).answer =
        some (.error (.corrupt "WAL vector 0 disagrees with vector store")) := by decide +kernel
  obtain ⟨inserted, free, quiet, durable, refused⟩ := runs
  exact ⟨plain_killed inserted free quiet durable, refused⟩

theorem replay_accepts_iff_killed :
    (∃ t, plainOpen true (plainKilled [F32.ofNat 1]) = .done t (.ok ()) ∧
      t.rows = [[F32.ofNat 1]]) ↔ Numbers plain plainConfig (plainKilled [F32.ofNat 1]) :=
  replay_accepts_iff plain_usable plain_killed_first (plainOptions true) rfl fun _ => VisitedSet.new

end Db

end Vektordb
