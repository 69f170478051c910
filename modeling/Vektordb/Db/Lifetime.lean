import Vektordb.Db.Quiescence

/-!
The life of a database. Processes open its directory one after the other and serve any calls at once,
whatever the operating system does to their writes, until all have returned or the process is
stopped, in the middle of an action as well. A database between rounds of calls is at rest, and what
a process leaves behind can be opened again.
-/

namespace Vektordb

open Interaction LittleEndian VectorStore

namespace Db

variable {env : Env} {crew : Crew} {i : Nat} {w : World} {l : Ledger}

/-! ### Where a process may be stopped -/

theorem Consistent.intact (kept : Consistent env crew w l) : Intact env w.dir := by
  have shelved := kept.shelved
  have counted : headerCount w.dir.file.image ≤ w.store.count := by
    by_contra beyond
    exact absurd (kept.secured.counted _ (Nat.lt_of_not_le beyond)).1 (lt_irrefl _)
  constructor
  case stored =>
      intro file isFile
      obtain rfl : w.dir.file = file := Option.some.inj (shelved.isStored.symm.trans isFile)
      exact ⟨_, shelved.formatted, shelved.reaches counted⟩
  case journal =>
      obtain ⟨entries, next, journal, -, -⟩ := kept.journaled
      exact ⟨entries, next, journal⟩
  case ahead => exact kept.secured.ahead

theorem Consistent.left (kept : Consistent env crew w l) {op : Action} {dir : Directory}
    (promised : Promised env crew i (w, l) op) (left : Left env w op dir) : Intact env dir := by
  have intact := kept.intact
  have counted : headerCount w.dir.file.image ≤ w.store.count := by
    by_contra beyond
    exact absurd (kept.secured.counted _ (Nat.lt_of_not_le beyond)).1 (lt_irrefl _)
  cases left with
  | append vector store grown count sameLength mapped =>
      exact kept.shelved.left intact counted (.append vector store grown count sameLength mapped)
  | walAppend op wal next lsn count file isOpen writes =>
      obtain ⟨id, vector⟩ := op
      have recording : Inscribing env w id := promised
      obtain ⟨entries, other, journal, -, writing⟩ := kept.journaled
      obtain ⟨policy, nextLsn, poisoned⟩ := wal
      cases poisoned with
      | true => cases writes
      | false =>
          obtain ⟨isNext, whole⟩ := (writing _ isOpen).healthy rfl
          change nextLsn = other at isNext
          subst isNext
          rcases Wal.append_cases .none (.insert id vector) w.dir.walBytes with
            ⟨message, answered⟩ | ⟨size, answered | ⟨message, part, answered⟩⟩
          · rw [answered] at writes
            cases writes
          · rw [answered] at writes
            cases writes
            have follows : Follows entries lsn id vector :=
              kept.follows recording journal isOpen rfl size
            obtain ⟨entries', next', journal', -⟩ := journal.part follows count
            rw [← whole] at journal'
            refine ⟨?_, ⟨entries', next', journal'⟩, ?_⟩
            · exact intact.stored
            · exact fun len mark marked => intact.ahead len mark (marked.moved rfl)
          · rw [answered] at writes
            cases writes

/-! ### Processes -/

inductive Stage where
  /-- No process has the database open. -/
  | closed (dir : Directory)
  /-- A process has it open and no call is under way. -/
  | resting (w : World)

/-- What the threads of a process leave behind if it is stopped here. -/
def Abandons (env : Env) (pool : Pool sig World Response) (dir : Directory) : Prop :=
  dir = pool.state.dir ∨ ∃ (i : Nat) (op : Action) (next : Answer op → Prog sig Response),
    pool.threads[i]? = some (.act op next) ∧ Left env pool.state op dir

inductive Life (env : Env) : Stage → Prop
  | new (codebook : Option Bytes) : Life env (.closed (newDirectory codebook))
  /-- A start that fails or is stopped. -/
  | killed {dir after : Directory} {opts : DbOptions} {scratch : Nat → VisitedSet} {dim : Nat}
      (life : Life env (.closed dir))
      (killed : Killed env (Db.open env opts scratch dim) (World.start dir) after) :
      Life env (.closed after)
  | opened {dir : Directory} {w : World} {opts : DbOptions} {scratch : Nat → VisitedSet} {dim : Nat}
      (life : Life env (.closed dir))
      (ran : (Db.open env opts scratch dim).run (handle env) 0 (World.start dir) = .done w (.ok ())) :
      Life env (.resting w)
  | faulty {w : World} (life : Life env (.resting w)) (faults : List Wal.Fault)
      (refusals : List (Option Bool)) :
      Life env (.resting { w with faults := faults, refusals := refusals })
  /-- A round of calls, all of which have returned. -/
  | served {w : World} {threads : List Thread} {schedule : List Nat}
      {after : Pool sig World Response} (life : Life env (.resting w))
      (ran : (service env w threads).runs (handle env) schedule = some after)
      (answered : Answered threads after) : Life env (.resting after.state)
  | stopped {w : World} {threads : List Thread} {schedule : List Nat}
      {after : Pool sig World Response} {dir : Directory} (life : Life env (.resting w))
      (ran : (service env w threads).runs (handle env) schedule = some after)
      (left : Abandons env after dir) : Life env (.closed dir)

/-- What is known of a database between two rounds of calls. -/
def Stage.Sound (env : Env) : Stage → Prop
  | .closed dir => Intact env dir
  | .resting w => Ready env w

theorem Ready.faulty (ready : Ready env w) (faults : List Wal.Fault) (refusals : List (Option Bool)) :
    Ready env { w with faults := faults, refusals := refusals } := { ready with }

theorem Reached.abandoned {threads : List Thread} {schedule : List Nat}
    {plain : Pool sig World Response} {later : Ledger}
    (reached : Reached env w threads False schedule (plain.beside later)) {dir : Directory}
    (left : Abandons env plain dir) : Intact env dir := by
  have kept : Consistent env (crewOf env w threads False) plain.state later := reached.guarded.inv
  rcases left with rfl | ⟨i, op, next, atAgent, torn⟩
  · exact kept.intact
  · exact kept.left (reached.guarded.safe atAgent False.elim) torn

/-- Whatever happened before, a directory can be opened as far as the model goes, and a database that
nobody uses has a node and a code for each of its rows. -/
theorem Life.sound (levels : Env.Level env) {stage : Stage} (life : Life env stage) :
    stage.Sound env := by
  induction life with
  | new codebook => exact intact_new env codebook
  | killed life killed intact =>
      exact killed.kept (intact.open levels _ _ _) fun t result ends => ends.1
  | opened life ran intact => exact ((intact.open levels _ _ _).run_post ran).2 rfl
  | faulty life faults refusals ready => exact ready.faulty faults refusals
  | served life ran answered ready =>
      obtain ⟨later, reached⟩ := reached_plain levels ready ran
      exact reached.ready answered
  | stopped life ran left ready =>
      obtain ⟨later, reached⟩ := reached_plain levels ready ran
      exact reached.abandoned left

theorem plain_life : Life plain (.resting plainNew) := .opened (.new none) plain_new

end Db

end Vektordb
