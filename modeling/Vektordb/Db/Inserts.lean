import Vektordb.Db.Session
import Vektordb.Wal.Tail

/-!
Inserts one at a time. An insert that is accepted adds its row to the session, and one that is
refused leaves store, graph and codes as they were; wherever it is stopped, the directory gives
back the rows from before it, and the new one exactly if its whole record is in the log.
-/

namespace Vektordb

open Interaction LittleEndian VectorStore

namespace Db

/-- The whole record of an insert of the next row into `w` has been written. -/
def RecordWritten (env : Env) (w : World) (vector : Row) (dir : Directory) : Prop :=
  ∃ wal, w.wal = some wal ∧ dir.walBytes =
    w.dir.walBytes ++ Wal.frame env.hash wal.nextLsn (.insert w.store.count vector)

/-- What a directory gives back that an insert into `w` leaves. -/
def InsertRecovers (env : Env) (config : HnswConfig) (dim : Nat) (w : World) (vector : Row)
    (rows : List Row) (dir : Directory) : Prop :=
  (RecordWritten env w vector dir → Recovers env config dim (rows ++ [vector]) dir) ∧
    (¬ RecordWritten env w vector dir → Recovers env config dim rows dir)

variable {env : Env} {config : HnswConfig} {dim : Nat} {rows present : List Row}
  {locks : Lock → Holders} {durable : Bool} {nodes : Nat} {w : World} {vector : Row}

theorem not_written {dir : Directory} (same : dir.walBytes = w.dir.walBytes) :
    ¬ RecordWritten env w vector dir := by
  rintro ⟨wal, -, longer⟩
  have lengths := congrArg List.length longer
  rw [List.length_append, Wal.frame_length, same] at lengths
  omega

theorem insertRecovers_same {dir : Directory} (same : dir.walBytes = w.dir.walBytes)
    (recovers : Recovers env config dim rows dir) :
    InsertRecovers env config dim w vector rows dir :=
  ⟨fun written => absurd written (not_written same), fun _ => recovers⟩

theorem Live.rollback (live : Live env config dim locks nodes w (present ++ [vector]))
    {flushed : List Row} (rep : Represents dim w.store w.file (present ++ [vector]) flushed true)
    (levels : ∀ id, env.level config.m id ≤ 63) (behind : nodes ≤ present.length) :
    handle env 0 w (.rollbackLast present.length) =
        .ok { w with
          store := { w.store with count := present.length }
          owners := w.owners.dropLast } (.ok ()) ∧
      Live env config dim locks nodes { w with
          store := { w.store with count := present.length }
          owners := w.owners.dropLast } present := by
  obtain ⟨done, after⟩ := rep.rollback
  have same : Hnsw.AgreeBelow nodes (distancesOf env config.metric (present ++ [vector]))
      (distancesOf env config.metric present) := by
    apply distancesOf_agree
    intro id below
    rw [List.getElem?_append_left (below.trans_le behind)]
  refine ⟨?_, live.locks, live.pending, live.running, ⟨flushed, false, after⟩, live.kernel,
    live.sound.congr (live.nodes_le.trans live.capacity) (small_levels levels) same, behind,
    live.quantizer, live.granted⟩
  change w.rollbackLast present.length = _
  unfold World.rollbackLast
  rw [done]
  rfl

/-! ### The record of a row -/

/-- A world in which the next row has been appended to the store but not to the log. -/
structure Recording (env : Env) (config : HnswConfig) (dim : Nat) (w : World) (vector : Row)
    (rows : List Row) (policy : SyncPolicy) (nextLsn : Nat) (index : Hnsw) (replayFrom : Nat)
    (entries : List (Nat × WalOp)) (t : World) : Prop where
  recoverable : Recoverable env config dim t.dir rows index replayFrom entries
  wal : t.wal = some ⟨policy, nextLsn, false⟩
  whole : t.dir.walBytes = Wal.frames env.hash entries
  floor : replayFrom ≤ nextLsn
  room : nextLsn + 1 < 2 ^ 64
  sameLength : vector.length = dim
  reaches : Reaches dim (rows.length + 1) t.dir.file
  sameWal : w.wal = t.wal
  sameBytes : w.dir.walBytes = t.dir.walBytes
  sameCount : w.store.count = rows.length

section Recording

variable {policy : SyncPolicy} {nextLsn : Nat} {index : Hnsw} {replayFrom : Nat}
  {entries : List (Nat × WalOp)} {t : World}

theorem Recording.encodable (recording : Recording env config dim w vector rows policy nextLsn index
      replayFrom entries t)
    (size : (Wal.payload nextLsn (.insert rows.length vector)).length < 2 ^ 32) :
    Wal.Encodable (nextLsn, .insert rows.length vector) := by
  have room := recording.room
  have capacity := recording.reaches.capacity
  rw [CAPACITY_eq, SegVec.CAPACITY_eq] at capacity
  refine ⟨by dsimp only; omega, ?_, size⟩
  intro id row same
  cases same
  omega

/-- However much of the frame is written, the row comes back exactly if all of it is. -/
theorem Recording.partly (recording : Recording env config dim w vector rows policy nextLsn index
      replayFrom entries t) (levels : ∀ id, env.level config.m id ≤ 63)
    (size : (Wal.payload nextLsn (.insert rows.length vector)).length < 2 ^ 32) (count : Nat) :
    InsertRecovers env config dim w vector rows { t.dir with
      wal := some (Wal.frames env.hash entries ++
        (Wal.frame env.hash nextLsn (.insert rows.length vector)).take count) } := by
  have encodable := recording.encodable size
  have before : w.dir.walBytes = Wal.frames env.hash entries :=
    recording.sameBytes.trans recording.whole
  by_cases part : count < (Wal.frame env.hash nextLsn (.insert rows.length vector)).length
  · have torn := recording.recoverable.torn encodable part rfl
    refine ⟨?_, fun _ => ⟨index, replayFrom, entries, torn⟩⟩
    rintro ⟨wal, isWal, longer⟩
    rw [recording.sameWal, recording.wal] at isWal
    cases isWal
    have lengths := congrArg List.length longer
    rw [before, recording.sameCount] at lengths
    change (Wal.frames env.hash entries ++ _).length = _ at lengths
    rw [List.length_append, List.length_append, List.length_take] at lengths
    dsimp only at lengths
    omega
  · rw [List.take_of_length_le (Nat.le_of_not_lt part)]
    have record := recording.recoverable.record levels recording.sameLength recording.reaches
      encodable recording.room recording.floor
    refine ⟨fun _ => ⟨index, replayFrom, _, record⟩, fun unwritten => absurd ?_ unwritten⟩
    refine ⟨⟨policy, nextLsn, false⟩, recording.sameWal.trans recording.wal, ?_⟩
    rw [before, recording.sameCount]
    rfl

theorem Recording.keeps (recording : Recording env config dim w vector rows policy nextLsn index
      replayFrom entries t) (levels : ∀ id, env.level config.m id ≤ 63) :
    Keeps env (InsertRecovers env config dim w vector rows) t
      (.walAppend (.insert rows.length vector)) := by
  rintro dir (rfl | left)
  · exact insertRecovers_same recording.sameBytes.symm
      ⟨index, replayFrom, entries, recording.recoverable⟩
  · cases left with
    | walAppend op wal next lsn count file isOpen writes =>
        rw [recording.wal] at isOpen
        cases isOpen
        obtain ⟨-, rfl, size, -, -⟩ := Wal.append_spec writes
        rw [recording.whole]
        exact recording.partly levels size count

end Recording

/-! ### The store half of an insert -/

/-- What a refused insert leaves as it was, besides the rows. -/
structure Unchanged (w t : World) : Prop where
  count : t.store.count = w.store.count
  index : t.index = w.index
  pq : t.pq = w.pq
  nextLsn : t.wal.map Wal.nextLsn = w.wal.map Wal.nextLsn

inductive RowEnds (env : Env) (config : HnswConfig) (dim : Nat) (locks : Lock → Holders)
    (durable : Bool) (w : World) (vector : Row) (rows present : List Row) (t : World) :
    Result Nat → Prop
  | accepted (session : Session env config dim locks durable present.length t
        (if durable then rows ++ [vector] else rows) (present ++ [vector]))
      (recorded : RecordWritten env w vector t.dir ↔ durable = true)
      (index : t.index = w.index) :
      RowEnds env config dim locks durable w vector rows present t (.ok present.length)
  | refused (e : Error) (rows' : List Row)
      (session : Session env config dim locks durable present.length t rows' present)
      (comes : RecordWritten env w vector t.dir ∧ rows' = rows ++ [vector] ∨
        ¬ RecordWritten env w vector t.dir ∧ rows' = rows)
      (unchanged : Unchanged w t)
      (poisoned : ∀ message, e = .io message → ∃ wal, t.wal = some wal ∧ wal.poisoned = true) :
      RowEnds env config dim locks durable w vector rows present t (.error e)

theorem walAppend_answer {wal next : Wal} {op : WalOp} {result : Result Nat} {file : Bytes}
    (isOpen : w.wal = some wal)
    (done : wal.append env.hash w.fault op w.dir.walBytes = (result, next, file)) :
    handle env 0 w (.walAppend op) = .ok { w.afterFault with
      wal := some next
      dir := { w.dir with wal := some file } } result := by
  change w.walAppend env op = _
  unfold World.walAppend
  rw [isOpen]
  dsimp only
  rw [done]
  rfl

theorem Appended.recoverable {index : Hnsw} {replayFrom : Nat} {entries : List (Nat × WalOp)}
    {t : World} (appended : Appended dim present.length w t)
    (header : headerCount w.file.image ≤ present.length)
    (recoverable : Recoverable env config dim w.dir rows index replayFrom entries) :
    Recoverable env config dim t.dir rows index replayFrom entries := by
  rw [appended.dir]
  exact recoverable.behind (appended.frontier.mono header)

theorem Appended.walBytes {n : Nat} {t : World} (appended : Appended dim n w t) :
    t.dir.walBytes = w.dir.walBytes := by
  rw [appended.dir]
  rfl

theorem Session.keepsAppend (session : Session env config dim locks durable nodes w rows present)
    (vector : Row) : Keeps env (InsertRecovers env config dim w vector rows) w (.append vector) := by
  obtain ⟨index, replayFrom, entries, recoverable, -⟩ := session.kept
  have header := session.live.header_le
  refine Keeps.append session.live ?_ ?_
  · exact insertRecovers_same rfl session.recovers
  · intro file frontier
    exact insertRecovers_same rfl ⟨index, replayFrom, entries,
      recoverable.behind (frontier.mono header)⟩

theorem lengths_append (lengths : ∀ row ∈ present, row.length = dim) (sameLength : vector.length = dim) :
    ∀ row ∈ present ++ [vector], row.length = dim := by
  intro row member
  rcases List.mem_append.mp member with old | new
  · exact lengths row old
  · rw [List.mem_singleton.mp new]
    exact sameLength

theorem Session.appendOnly (session : Session env config dim locks false present.length w rows
      present) (levels : ∀ id, env.level config.m id ≤ 63) (vector : Row) :
    (call (.append vector)).Leads (handle env) 0 (Keeps env (InsertRecovers env config dim w vector
      rows)) (RowEnds env config dim locks false w vector rows present) w := by
  obtain ⟨index, replayFrom, entries, recoverable, logging⟩ := session.kept
  obtain ⟨t, result, answered, appended, outcome⟩ := session.live.append levels vector
  have kept := appended.recoverable session.live.header_le recoverable
  have sameWal := appended.wal
  have unwritten : ¬ RecordWritten env w vector t.dir := by
    rintro ⟨wal, isOpen, -⟩
    generalize w.wal = log at logging isOpen
    cases logging
    cases isOpen
  refine Prog.Leads.act (S := sig) (session.keepsAppend vector) answered ?_
  rcases outcome with ⟨e, rfl, notIo, live⟩ | ⟨rfl, sameLength, live, -⟩
  · refine Prog.Leads.ret (.refused e rows ⟨live, session.lengths, index, replayFrom, entries, kept,
      ?_⟩ (.inr ⟨unwritten, rfl⟩) ?_ ?_)
    · rw [sameWal]
      exact logging.moved appended.walBytes
    · exact ⟨live.count.trans session.live.count.symm, appended.index, appended.pq,
        congrArg _ sameWal⟩
    · intro message isIo
      exact absurd isIo (notIo message)
  · refine Prog.Leads.ret (.accepted ⟨live, lengths_append session.lengths sameLength, index,
      replayFrom, entries, kept, ?_⟩ ⟨fun written => absurd written unwritten, nofun⟩
      appended.index)
    rw [sameWal]
    exact (logging.moved appended.walBytes).longer

theorem Session.insertPoisoned (session : Session env config dim locks true present.length w rows
      present) {wal : Wal} (isOpen : w.wal = some wal) (poisoned : wal.poisoned = true)
    (vector : Row) :
    (insertLogged vector).Leads (handle env) 0 (Keeps env (InsertRecovers env config dim w vector
      rows)) (fun t result => t = w ∧
        RowEnds env config dim locks true w vector rows present t result) w := by
  have refuses : wal.ensureHealthy =
      .error (.corrupt "WAL is unavailable after an I/O failure; reopen the database") := by
    unfold Wal.ensureHealthy
    rw [if_pos poisoned]
  unfold insertLogged attempt
  refine leads_call (Keeps.whole (insertRecovers_same rfl session.recovers))
    (ensureHealthy_answer isOpen) ?_
  rw [refuses]
  refine Prog.Leads.ret ⟨rfl, .refused _ rows session (.inr ⟨not_written rfl, rfl⟩)
    ⟨rfl, rfl, rfl, rfl⟩ ?_⟩
  intro message same
  cases same

/-- A record that is refused or cannot be written takes its row with it. -/
theorem Recording.undo {policy : SyncPolicy} {nextLsn : Nat} {index : Hnsw} {replayFrom : Nat}
    {entries : List (Nat × WalOp)} {t : World}
    (recording : Recording env config dim w vector present policy nextLsn index replayFrom entries t)
    (levels : ∀ id, env.level config.m id ≤ 63)
    (live : Live env config dim locks present.length t (present ++ [vector]))
    {flushed : List Row} (rep : Represents dim t.store t.file (present ++ [vector]) flushed true)
    (lengths : ∀ row ∈ present, row.length = dim)
    (sameIndex : t.index = w.index) (samePq : t.pq = w.pq) {e : Error} {poisoned : Bool}
    {bytes : Bytes} {rows' : List Row}
    (keeps : InsertRecovers env config dim w vector present { t.dir with wal := some bytes })
    (comes : RecordWritten env w vector { t.dir with wal := some bytes } ∧
        rows' = present ++ [vector] ∨
      ¬ RecordWritten env w vector { t.dir with wal := some bytes } ∧ rows' = present)
    (kept : ∃ index replayFrom entries,
      Recoverable env config dim { t.dir with wal := some bytes } rows' index replayFrom entries ∧
        Logging env.hash rows' present { t.dir with wal := some bytes } replayFrom entries true
          (some ⟨policy, nextLsn, poisoned⟩))
    (isIo : ∀ message, e = .io message → poisoned = true) :
    (attempt (call (.rollbackLast present.length)) fun _ => pure (.error e : Result Nat)).Leads
      (handle env) 0 (Keeps env (InsertRecovers env config dim w vector present))
      (RowEnds env config dim locks true w vector present present)
      { t.afterFault with
        wal := some ⟨policy, nextLsn, poisoned⟩
        dir := { t.dir with wal := some bytes } } := by
  have relogged := live.relog (some ⟨policy, nextLsn, poisoned⟩) (some bytes)
  obtain ⟨answered, after⟩ := relogged.rollback rep levels le_rfl
  unfold attempt
  refine leads_call (Keeps.whole keeps) answered ?_
  refine Prog.Leads.ret (.refused e rows' ⟨after, lengths, kept⟩ comes
    ⟨recording.sameCount.symm, sameIndex, samePq, ?_⟩ ?_)
  · rw [recording.sameWal, recording.wal]
    rfl
  · intro message same
    exact ⟨_, rfl, isIo message same⟩

theorem Session.insertLogged (session : Session env config dim locks true present.length w rows
      present) (levels : ∀ id, env.level config.m id ≤ 63)
    (room : ∀ wal, w.wal = some wal → wal.nextLsn + 1 < 2 ^ 64) (vector : Row) :
    (insertLogged vector).Leads (handle env) 0 (Keeps env (InsertRecovers env config dim w vector
      rows)) (RowEnds env config dim locks true w vector rows present) w := by
  obtain ⟨index, replayFrom, entries, recoverable, logging⟩ := session.kept
  obtain ⟨wal, isOpen⟩ : ∃ wal, w.wal = some wal := by
    generalize w.wal = log at logging
    cases logging with
    | healthy => exact ⟨_, rfl⟩
    | poisoned => exact ⟨_, rfl⟩
  have roomHere := room wal isOpen
  rw [isOpen] at logging
  cases logging with
  | poisoned front =>
      apply (session.insertPoisoned isOpen rfl vector).mono
      intro t result ended
      exact ended.2
  | @healthy policy nextLsn same whole floor fits =>
      subst same
      have healthy : (⟨policy, nextLsn, false⟩ : Wal).ensureHealthy = .ok () := rfl
      have kept : InsertRecovers env config dim w vector present w.dir :=
        insertRecovers_same rfl session.recovers
      obtain ⟨t, result, answered, appended, outcome⟩ := session.live.append levels vector
      have keptRow := appended.recoverable session.live.header_le recoverable
      unfold Db.insertLogged attempt
      refine leads_call (Keeps.whole kept) (ensureHealthy_answer isOpen) ?_
      rw [healthy]
      refine leads_call (session.keepsAppend vector) answered ?_
      rcases outcome with ⟨e, rfl, notIo, live⟩ | ⟨rfl, sameLength, live, flushed, rep⟩
      · refine Prog.Leads.ret (.refused e present ⟨live, session.lengths, index, replayFrom, entries,
          keptRow, ?_⟩ (.inr ⟨not_written appended.walBytes, rfl⟩) ?_ ?_)
        · rw [appended.wal, isOpen]
          exact .healthy rfl (appended.walBytes.trans whole) floor fits
        · exact ⟨live.count.trans session.live.count.symm, appended.index, appended.pq,
            congrArg _ appended.wal⟩
        · intro message isIo
          exact absurd isIo (notIo message)
      · have reaches := rep.reaches
        rw [List.length_append] at reaches
        have recording : Recording env config dim w vector present policy nextLsn index replayFrom
            entries t :=
          ⟨keptRow, appended.wal.trans isOpen, appended.walBytes.trans whole, floor, roomHere,
            sameLength, reaches, appended.wal.symm, appended.walBytes.symm, session.live.count⟩
        dsimp only
        have keeps := recording.keeps levels
        rcases Wal.append_cases t.fault (.insert present.length vector) t.dir.walBytes with
          ⟨message, done⟩ | ⟨size, done | ⟨message, count, done⟩⟩
        · refine leads_call keeps (walAppend_answer recording.wal done) ?_
          have same : Recoverable env config dim { t.dir with wal := some t.dir.walBytes } present
              index replayFrom entries :=
            keptRow.undisturbed ⟨keptRow.isStored, Frontier.refl .., rfl, rfl, .inl rfl⟩
          have unwritten : ¬ RecordWritten env w vector { t.dir with wal := some t.dir.walBytes } :=
            not_written recording.sameBytes.symm
          exact recording.undo levels live rep session.lengths appended.index appended.pq
            ⟨fun written => absurd written unwritten, fun _ => ⟨index, replayFrom, entries, same⟩⟩
            (.inr ⟨unwritten, rfl⟩)
            ⟨index, replayFrom, entries, same, .healthy rfl recording.whole floor fits⟩ nofun
        · refine leads_call keeps (walAppend_answer recording.wal done) ?_
          have record := keptRow.record levels sameLength reaches (recording.encodable size) roomHere
            floor
          have written : RecordWritten env w vector { t.dir with
              wal := some (Wal.frames env.hash entries ++
                Wal.frame env.hash nextLsn (.insert present.length vector)) } := by
            refine ⟨⟨policy, nextLsn, false⟩, isOpen, ?_⟩
            rw [recording.sameBytes, recording.whole, recording.sameCount]
            rfl
          have bytes : Wal.frames env.hash entries ++
              Wal.frame env.hash nextLsn (.insert present.length vector) =
                Wal.frames env.hash (entries ++ [(nextLsn, .insert present.length vector)]) := by
            rw [Wal.frames_append, Wal.frames_singleton]
          rw [recording.whole, Nat.mod_eq_of_lt roomHere]
          refine Prog.Leads.ret (.accepted ⟨live.relog _ _,
            lengths_append session.lengths sameLength, index, replayFrom, _, record, ?_⟩
            ⟨fun _ => rfl, fun _ => written⟩ appended.index)
          exact .healthy rfl bytes (floor.trans (Nat.le_succ _)) roomHere
        · refine leads_call keeps (walAppend_answer recording.wal done) ?_
          rw [recording.whole]
          have comes := recording.partly levels size count
          by_cases written : RecordWritten env w vector { t.dir with
              wal := some (Wal.frames env.hash entries ++
                (Wal.frame env.hash nextLsn (.insert present.length vector)).take count) }
          · obtain ⟨index', replayFrom', entries', recovers⟩ := comes.1 written
            exact recording.undo levels live rep session.lengths appended.index appended.pq comes
              (.inl ⟨written, rfl⟩)
              ⟨index', replayFrom', entries', recovers, .poisoned (List.prefix_append _ _)⟩
              fun _ _ => rfl
          · obtain ⟨index', replayFrom', entries', recovers⟩ := comes.2 written
            exact recording.undo levels live rep session.lengths appended.index appended.pq comes
              (.inr ⟨written, rfl⟩)
              ⟨index', replayFrom', entries', recovers, .poisoned List.prefix_rfl⟩ fun _ _ => rfl

theorem insertRecovers_of {t : World} {rows' : List Row}
    (comes : RecordWritten env w vector t.dir ∧ rows' = rows ++ [vector] ∨
      ¬ RecordWritten env w vector t.dir ∧ rows' = rows)
    (recovers : Recovers env config dim rows' t.dir) :
    InsertRecovers env config dim w vector rows t.dir := by
  rcases comes with ⟨written, rfl⟩ | ⟨unwritten, rfl⟩
  · exact ⟨fun _ => recovers, fun other => absurd written other⟩
  · exact ⟨fun other => absurd other unwritten, fun _ => recovers⟩

theorem comes_of_recorded {t : World} (recorded : RecordWritten env w vector t.dir ↔ durable = true) :
    RecordWritten env w vector t.dir ∧ (if durable then rows ++ [vector] else rows) = rows ++ [vector] ∨
      ¬ RecordWritten env w vector t.dir ∧ (if durable then rows ++ [vector] else rows) = rows := by
  cases durable with
  | true => exact .inl ⟨recorded.mpr rfl, rfl⟩
  | false => exact .inr ⟨fun written => absurd (recorded.mp written) Bool.false_ne_true, rfl⟩

theorem RowEnds.holders {t : World} {result : Result Nat}
    (ends : RowEnds env config dim locks durable w vector rows present t result) :
    t.locks = locks := by
  cases ends with
  | accepted session => exact session.live.locks
  | refused _ _ session => exact session.live.locks

theorem RowEnds.recovers {t : World} {result : Result Nat}
    (ends : RowEnds env config dim locks durable w vector rows present t result) :
    InsertRecovers env config dim w vector rows t.dir := by
  cases ends with
  | accepted session recorded => exact insertRecovers_of (comes_of_recorded recorded) session.recovers
  | refused _ _ session comes => exact insertRecovers_of comes session.recovers

theorem RowEnds.unlock {t : World} {result : Result Nat} {lock : Lock} {holders : Holders}
    (ends : RowEnds env config dim (Function.update locks lock holders) durable
      (w.setLock lock holders) vector rows present t result) (free : locks lock = Holders.free) :
    RowEnds env config dim locks durable w vector rows present (t.setLock lock Holders.free)
      result := by
  cases ends with
  | accepted session recorded index => exact .accepted (session.unlock free) recorded index
  | refused e rows' session comes unchanged poisoned =>
      exact .refused e rows' (session.unlock free) comes
        ⟨unchanged.count, unchanged.index, unchanged.pq, unchanged.nextLsn⟩ poisoned

theorem Session.insertRow (session : Session env config dim locks durable present.length w rows
      present) (levels : ∀ id, env.level config.m id ≤ 63)
    (room : ∀ wal, w.wal = some wal → wal.nextLsn + 1 < 2 ^ 64) (free : locks .wal = Holders.free)
    (vector : Row) :
    (insertRowStorageOnly w.db vector).Leads (handle env) 0 (Keeps env (InsertRecovers env config dim
      w vector rows)) (RowEnds env config dim locks durable w vector rows present) w := by
  unfold insertRowStorageOnly
  rw [session.isDurable]
  cases durable with
  | false => exact session.appendOnly levels vector
  | true =>
      have held := session.setLock .wal (holding true)
      have kept : InsertRecovers env config dim w vector rows w.dir :=
        insertRecovers_same rfl session.recovers
      have isFree : w.locks .wal = Holders.free := by
        rw [session.live.locks]
        exact free
      rw [if_pos rfl]
      apply leads_withLock isFree kept (held.insertLogged levels room vector)
      intro t result ends
      refine ⟨?_, ends.recovers, ends.unlock free⟩
      rw [ends.holders, Function.update_self]

/-! ### Inserts -/

inductive InsertEnds (env : Env) (config : HnswConfig) (dim : Nat) (locks : Lock → Holders)
    (durable : Bool) (w : World) (vector : Row) (rows present : List Row) (t : World) :
    Result Nat → Prop
  | accepted (session : Session env config dim locks durable (present.length + 1) t
        (if durable then rows ++ [vector] else rows) (present ++ [vector]))
      (recorded : RecordWritten env w vector t.dir ↔ durable = true) :
      InsertEnds env config dim locks durable w vector rows present t (.ok present.length)
  | refused (e : Error) (rows' : List Row)
      (session : Session env config dim locks durable present.length t rows' present)
      (comes : RecordWritten env w vector t.dir ∧ rows' = rows ++ [vector] ∨
        ¬ RecordWritten env w vector t.dir ∧ rows' = rows)
      (unchanged : Unchanged w t)
      (poisoned : ∀ message, e = .io message → ∃ wal, t.wal = some wal ∧ wal.poisoned = true) :
      InsertEnds env config dim locks durable w vector rows present t (.error e)

theorem InsertEnds.recovers {t : World} {result : Result Nat}
    (ends : InsertEnds env config dim locks durable w vector rows present t result) :
    InsertRecovers env config dim w vector rows t.dir := by
  cases ends with
  | accepted session recorded => exact insertRecovers_of (comes_of_recorded recorded) session.recovers
  | refused _ _ session comes => exact insertRecovers_of comes session.recovers

theorem InsertEnds.holders {t : World} {result : Result Nat}
    (ends : InsertEnds env config dim locks durable w vector rows present t result) :
    t.locks = locks := by
  cases ends with
  | accepted session => exact session.live.locks
  | refused _ _ session => exact session.live.locks

theorem InsertEnds.unlock {t : World} {result : Result Nat} {lock : Lock} {holders : Holders}
    (ends : InsertEnds env config dim (Function.update locks lock holders) durable
      (w.setLock lock holders) vector rows present t result) (free : locks lock = Holders.free) :
    InsertEnds env config dim locks durable w vector rows present (t.setLock lock Holders.free)
      result := by
  cases ends with
  | accepted session recorded => exact .accepted (session.unlock free) recorded
  | refused e rows' session comes unchanged poisoned =>
      exact .refused e rows' (session.unlock free) comes
        ⟨unchanged.count, unchanged.index, unchanged.pq, unchanged.nextLsn⟩ poisoned

theorem encodeRow_eq (env : Env) (w : World) (id : Nat) (vector : Row) : ∃ pq,
    w.encodeRow env id vector = { w with pq := pq } ∧
      ∀ state, pq = some state → ∃ before, w.pq = some before ∧ state.pq = before.pq := by
  unfold World.encodeRow
  split
  · exact ⟨w.pq, rfl, fun state trained => ⟨state, trained, rfl⟩⟩
  · rename_i before trained
    refine ⟨_, rfl, fun state same => ⟨before, trained, ?_⟩⟩
    cases same
    rfl

theorem Session.encodeRow (session : Session env config dim locks durable nodes w rows present)
    (id : Nat) (vector : Row) :
    (w.encodeRow env id vector).dir = w.dir ∧
      Session env config dim locks durable nodes (w.encodeRow env id vector) rows present := by
  obtain ⟨pq, same, sameBook⟩ := encodeRow_eq env w id vector
  rw [same]
  have live := session.live
  refine ⟨rfl, ⟨live.locks, live.pending, live.running, live.stored, live.kernel, live.sound,
    live.nodes_le, ?_, live.granted⟩, session.lengths, session.kept⟩
  intro state trained
  obtain ⟨before, was, equal⟩ := sameBook state trained
  rw [equal]
  exact live.quantizer before was

theorem Session.link (session : Session env config dim locks durable present.length w rows
      (present ++ [vector])) (levels : ∀ id, env.level config.m id ≤ 63)
    (free : locks .pq = Holders.free) {P : Directory → Prop} (kept : P w.dir)
    (visited : VisitedSet) :
    (Hnsw.insert w.index.config present.length (env.level w.index.config.m present.length) visited
      >>= fun _ => withLock .pq true (call (.encodeRow present.length vector)) >>= fun _ =>
        pure (.ok present.length : Result Nat)).Leads (handle env) 0 (Keeps env P)
      (fun t result => result = .ok present.length ∧ t.dir = w.dir ∧
        Session env config dim locks durable (present.length + 1) t rows (present ++ [vector])) w := by
  have more : present.length < (present ++ [vector]).length := by
    rw [List.length_append]
    exact Nat.lt_succ_self _
  rw [session.live.sound.m]
  apply (session.live.link levels more visited kept).bind
  rintro t - ⟨index, rfl, -, linked⟩
  have after : Session env config dim locks durable (present.length + 1)
      ({ w with index := index } : World) rows (present ++ [vector]) :=
    ⟨linked, session.lengths, session.kept⟩
  have sameDir : ({ w with index := index } : World).dir = w.dir := rfl
  generalize ({ w with index := index } : World) = t at after linked sameDir
  have keptHere : P t.dir := by
    rw [sameDir]
    exact kept
  have held := after.setLock .pq (holding true)
  have isFree : t.locks .pq = Holders.free := by
    rw [linked.locks]
    exact free
  have encodes : (call (.encodeRow present.length vector)).Leads (handle env) 0 (Keeps env P)
      (fun u (_ : Unit) => u.dir = w.dir ∧
        Session env config dim (Function.update locks .pq (holding true)) durable
          (present.length + 1) u rows (present ++ [vector])) (t.setLock .pq (holding true)) := by
    obtain ⟨dir, encoded⟩ := held.encodeRow present.length vector
    exact Prog.Leads.act (S := sig) (Keeps.whole keptHere) rfl
      (Prog.Leads.ret ⟨dir.trans sameDir, encoded⟩)
  have locked : (withLock .pq true (call (.encodeRow present.length vector))).Leads (handle env) 0
      (Keeps env P) (fun u (_ : Unit) => u.dir = w.dir ∧
        Session env config dim locks durable (present.length + 1) u rows (present ++ [vector])) t := by
    apply leads_withLock isFree keptHere encodes
    rintro u - ⟨dir, encoded⟩
    refine ⟨?_, ?_, dir, encoded.unlock free⟩
    · rw [encoded.live.locks, Function.update_self]
    · rw [dir]
      exact kept
  apply locked.bind
  rintro u - ⟨dir, final⟩
  exact Prog.Leads.ret ⟨rfl, dir, final⟩

theorem Session.insert (session : Session env config dim (fun _ => Holders.free) durable
      present.length w rows present) (levels : ∀ id, env.level config.m id ≤ 63)
    (room : ∀ wal, w.wal = some wal → wal.nextLsn + 1 < 2 ^ 64) (vector : Row)
    (visited : VisitedSet) :
    (Db.insert env w.db vector visited).Leads (handle env) 0 (Keeps env (InsertRecovers env config
      dim w vector rows)) (InsertEnds env config dim (fun _ => Holders.free) durable w vector rows
        present) w := by
  have held := session.setLock .maintenance (holding false)
  have kept : InsertRecovers env config dim w vector rows w.dir :=
    insertRecovers_same rfl session.recovers
  have isFree : w.locks .maintenance = Holders.free := by
    rw [session.live.locks]
  have stores := held.insertRow levels room rfl vector
  have body : (attempt (insertRowStorageOnly w.db vector) fun id => do
        Hnsw.insert w.db.config id (env.level w.db.config.m id) visited
        withLock .pq true (call (.encodeRow id vector))
        pure (.ok id)).Leads (handle env) 0
      (Keeps env (InsertRecovers env config dim w vector rows))
      (InsertEnds env config dim
        (Function.update (fun _ => Holders.free) .maintenance (holding false)) durable
        (w.setLock .maintenance (holding false)) vector rows present)
      (w.setLock .maintenance (holding false)) := by
    apply leads_attempt stores
    · intro t id ends
      have comes := ends.recovers
      cases ends with
      | accepted stored recorded sameIndex =>
          have linking := stored.link levels rfl comes visited
          rw [sameIndex] at linking
          apply linking.mono
          rintro u result ⟨rfl, dir, after⟩
          refine .accepted after ?_
          rw [dir]
          exact recorded
    · intro t e ends
      cases ends with
      | refused _ rows' after comes unchanged poisoned =>
          exact .refused e rows' after comes unchanged poisoned
  unfold Db.insert
  apply leads_withLock isFree kept body
  intro t result ends
  refine ⟨?_, ends.recovers, ends.unlock rfl⟩
  rw [ends.holders, Function.update_self]

end Db

end Vektordb
