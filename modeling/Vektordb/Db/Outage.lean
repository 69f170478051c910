import Vektordb.Db.History

/-!
Checkpoints without a log that are stopped in the middle. The header is written before the
snapshot, and nothing bridges the two: what decides whether the directory still opens is whether
the header on file counts more rows than were durable while the old snapshot is in place.
-/

namespace Vektordb

open Interaction LittleEndian VectorStore

namespace Db

variable {env : Env} {config : HnswConfig} {dim : Nat} {halts : Bool} {rows present : List Row}
  {w : World} {dir : Directory}

/-- The header on file counts durable rows only, or the snapshot has been replaced. -/
def Bridged (w : World) (rows : List Row) (dir : Directory) : Prop :=
  headerCount dir.file.image ≤ rows.length ∨ dir.snap ≠ w.dir.snap

/-- The next process finds the rows from before the checkpoint or those that it was to save. -/
def OpensWith (env : Env) (opts : DbOptions) (scratch : Nat → VisitedSet) (dim : Nat)
    (dir : Directory) (rows present : List Row) : Prop :=
  ∃ t, (Db.open env opts scratch dim).run (handle env) 0 (World.start dir) = .done t (.ok ()) ∧
    (t.rows = rows ∨ t.rows = present)

theorem Recovers.header_le (recovers : Recovers env config dim rows dir) :
    headerCount dir.file.image ≤ rows.length := by
  obtain ⟨index, replayFrom, entries, recoverable⟩ := recovers
  exact recoverable.stored.image.most

theorem Recovers.opensWith {found : List Row} (recovers : Recovers env config dim found dir)
    (levels : ∀ id, env.level config.m id ≤ 63) (opts : DbOptions) (sameConfig : opts.config = config)
    (scratch : Nat → VisitedSet) (which : found = rows ∨ found = present) :
    OpensWith env opts scratch dim dir rows present ↔ Numbers env config dir := by
  obtain ⟨t, result, ran, ⟨numbers, rfl, -, same⟩ | ⟨differs, id, rfl⟩⟩ :=
    recovers.open levels opts sameConfig scratch
  · constructor
    case mp => exact fun _ => numbers
    case mpr =>
        intro _
        refine ⟨t, ran, ?_⟩
        rw [same]
        exact which
  · constructor
    case mp =>
        rintro ⟨other, accepted, -⟩
        rw [ran] at accepted
        cases accepted
    case mpr => exact fun numbers => absurd numbers differs

/-- With the header ahead of the snapshot and the log, nothing opens. -/
theorem Restores.not_opensWith {found : List Row} {index : Hnsw} {linked replayFrom : Nat}
    {entries : List (Nat × WalOp)}
    (restores : Restores env config dim dir found linked index replayFrom entries)
    (behind : linked < found.length) (levels : ∀ id, env.level config.m id ≤ 63) (opts : DbOptions)
    (sameConfig : opts.config = config) (scratch : Nat → VisitedSet) :
    ¬ OpensWith env opts scratch dim dir rows present := by
  rintro ⟨t, ran, -⟩
  have ends := (restores.open levels opts sameConfig scratch).run_post ran
  generalize answer : (Except.ok () : Result Unit) = result at ends
  cases ends with
  | opened _ whole => omega
  | mismatch => cases answer
  | disagreement => cases answer

theorem Halted.opensWith_iff (halted : Halted env config dim w rows present dir)
    (levels : ∀ id, env.level config.m id ≤ 63) (before : Recovers env config dim rows w.dir)
    (opts : DbOptions) (sameConfig : opts.config = config) (scratch : Nat → VisitedSet) :
    OpensWith env opts scratch dim dir rows present ↔
      Bridged w rows dir ∧ Numbers env config dir := by
  cases halted with
  | behind recovers snap =>
      rw [recovers.opensWith levels opts sameConfig scratch (.inl rfl)]
      exact (and_iff_right (.inl recovers.header_le)).symm
  | ahead index replayFrom entries more header restores snap =>
      constructor
      case mp =>
          intro opens
          exact absurd opens (restores.not_opensWith more levels opts sameConfig scratch)
      case mpr =>
          rintro ⟨counted | replaced, -⟩
          · rw [header] at counted
            omega
          · exact absurd snap replaced
  | covered lsn bytes saved longer recovers all snap =>
      rw [recovers.opensWith levels opts sameConfig scratch (.inr rfl)]
      have bridged : Bridged w rows dir := by
        by_cases same : dir.snap = w.dir.snap
        · left
          obtain ⟨index, replayFrom, entries, recoverable⟩ := before
          have loads : dir.loadIndex env config = .ok (index, replayFrom) := by
            have loads := recoverable.loads
            unfold Directory.loadIndex at loads ⊢
            rw [same]
            exact loads
          have len := all index replayFrom loads
          have saved := recoverable.stored.image.least.trans recoverable.stored.image.most
          have counted := recovers.header_le
          omega
        · exact .inr same
      exact (and_iff_right bridged).symm

/-- A checkpoint stopped by a crash or an error at any point of it: the next process finds what was
durable before or what was to be saved if and only if the header on file does not count rows that
only the new snapshot covers, and no NaN is compared. -/
theorem halted_checkpoint_opens_iff (usable : Usable env config)
    (history : History env config dim halts (.session w present) rows)
    (killed : Killed env (Db.checkpoint w.db) w dir) (opts : DbOptions)
    (sameConfig : opts.config = config) (scratch : Nat → VisitedSet) :
    OpensWith env opts scratch dim dir rows present ↔
      Bridged w rows dir ∧ Numbers env config dir := by
  have session : Session env config dim (fun _ => Holders.free) w.db.durable present.length w rows
      present := history.sane usable
  have halted := killed.kept (session.checkpoint usable) fun _ _ ends => ends.halted usable.levels
  exact halted.opensWith_iff usable.levels session.recovers opts sameConfig scratch

/-! ### An example: one insert without a log, and a kill inside its checkpoint -/

def plainUnlogged (vector : Row) : World :=
  (plainInsert (plainSession false) vector).stateOr (plainSession false)

theorem plain_unlogged {vector : Row}
    (inserted : (plainInsert (plainSession false) vector).answer = some (.ok 0)) :
    History plain plainConfig 1 halts (.session (plainUnlogged vector) [vector]) [] := by
  have fresh : (plainOpen false ⟨some plainFile, none, none, none⟩).answer = some (.ok ()) ∧
      (plainSession false).wal = none ∧ (plainSession false).db.durable = false := by decide +kernel
  obtain ⟨opened, log, volatile⟩ := fresh
  have room : ∀ wal, (plainSession false).wal = some wal → wal.nextLsn + 1 < 2 ^ 64 := by
    rw [log]
    exact nofun
  have session : History plain plainConfig 1 halts (.session (plainSession false) []) [] :=
    plain_session opened
  have stored := session.inserted room (Outcome.done_stateOr inserted (plainSession false))
  rw [volatile] at stored
  exact stored

theorem plain_unlogged_first : (plainInsert (plainSession false) [F32.ofNat 1]).answer = some (.ok 0) ∧
    (plainUnlogged [F32.ofNat 1]).locks .maintenance = Holders.free ∧
    (plainUnlogged [F32.ofNat 1]).faults.isEmpty = true ∧
    (plainUnlogged [F32.ofNat 1]).db.durable = false ∧
    (plainOpen false (plainFlushed (plainUnlogged [F32.ofNat 1]))).answer =
      some (.error (lengthMismatch 0 1)) := by decide +kernel

theorem plain_unlogged_killed : Killed plain (Db.checkpoint (plainUnlogged [F32.ofNat 1]).db)
    (plainUnlogged [F32.ofNat 1]) (plainFlushed (plainUnlogged [F32.ofNat 1])) :=
  plain_flushed plain_unlogged_first.2.1 plain_unlogged_first.2.2.1

theorem halted_checkpoint_mismatch :
    History plain plainConfig 1 true (.session (plainUnlogged [F32.ofNat 1]) [[F32.ofNat 1]]) [] ∧
      (plainUnlogged [F32.ofNat 1]).db.durable = false ∧
      Killed plain (Db.checkpoint (plainUnlogged [F32.ofNat 1]).db) (plainUnlogged [F32.ofNat 1])
        (plainFlushed (plainUnlogged [F32.ofNat 1])) ∧
      (plainOpen false (plainFlushed (plainUnlogged [F32.ofNat 1]))).answer =
        some (.error (lengthMismatch 0 1)) := by
  obtain ⟨inserted, -, -, volatile, refused⟩ := plain_unlogged_first
  exact ⟨plain_unlogged inserted, volatile, plain_unlogged_killed, refused⟩

/-- Killed when the snapshot has been renamed and the lock is still held, it has saved the row. -/
theorem halted_checkpoint_opens_plain :
    OpensWith plain (plainOptions false) (fun _ => VisitedSet.new) 1
      (plainStopped 7 (plainUnlogged [F32.ofNat 1])) [] [[F32.ofNat 1]] := by
  apply (halted_checkpoint_opens_iff plain_usable (@plain_unlogged true _ plain_unlogged_first.1)
    (plain_stopped 7 _) (plainOptions false) rfl fun _ => VisitedSet.new).mpr
  have left : (plainStopped 7 (plainUnlogged [F32.ofNat 1])).snap ≠
        (plainUnlogged [F32.ofNat 1]).dir.snap ∧
      (plainStopped 7 (plainUnlogged [F32.ofNat 1])).walBytes = [] := by decide +kernel
  obtain ⟨replaced, noLog⟩ := left
  refine ⟨.inr replaced, ?_⟩
  intro index replayFrom wal entries file _ opened lsn id vector member
  rw [noLog] at opened
  cases opened
  cases member

end Db

end Vektordb
