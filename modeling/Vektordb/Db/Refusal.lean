import Vektordb.Db.History

/-!
Refused inserts. An insert that fails leaves the database as it was, and one that fails while it
writes the log is the last to write there: every later call of the process is refused before it
reaches the log, so that no record is ever written behind a torn one.
-/

namespace Vektordb

open Interaction LittleEndian

namespace Db

variable {env : Env} {config : HnswConfig} {dim : Nat} {halts : Bool} {rows present : List Row}
  {w t u : World} {db : Db} {locks : Lock → Holders} {bytes : Bytes}

def LogIs (bytes : Bytes) (dir : Directory) : Prop := dir.walBytes = bytes

/-- An open database whose log is not to be used any more. -/
structure Stopped (locks : Lock → Holders) (bytes : Bytes) (u : World) : Prop where
  locks : u.locks = locks
  pending : u.pending = []
  running : u.running = []
  wal : ∃ wal, u.wal = some wal ∧ wal.poisoned = true
  log : LogIs bytes u.dir

theorem Stopped.setLock (stopped : Stopped locks bytes u) (lock : Lock) (holders : Holders) :
    Stopped (Function.update locks lock holders) bytes (u.setLock lock holders) := by
  refine { stopped with locks := ?_ }
  rw [← stopped.locks]
  rfl

theorem Stopped.unlock {lock : Lock} {holders : Holders}
    (stopped : Stopped (Function.update locks lock holders) bytes u)
    (free : locks lock = Holders.free) : Stopped locks bytes (u.setLock lock Holders.free) := by
  have released := stopped.setLock lock Holders.free
  rwa [update_free free] at released

theorem Stopped.locked {α : Type} {φ : α → Prop} (stopped : Stopped locks bytes u) {lock : Lock}
    {exclusive : Bool} (free : locks lock = Holders.free) {body : Prog sig α}
    (ran : body.Leads (handle env) 0 (Keeps env (LogIs bytes)) (fun t value =>
      Stopped (Function.update locks lock (holding exclusive)) bytes t ∧ φ value)
        (u.setLock lock (holding exclusive))) :
    (withLock lock exclusive body).Leads (handle env) 0 (Keeps env (LogIs bytes))
      (fun t value => Stopped locks bytes t ∧ φ value) u := by
  have isFree : u.locks lock = Holders.free := by
    rw [stopped.locks]
    exact free
  apply leads_withLock isFree stopped.log ran
  rintro t value ⟨after, holds⟩
  refine ⟨?_, after.log, after.unlock free, holds⟩
  rw [after.locks, Function.update_self]

/-- A call is refused, and the log is as before at every step of it. -/
def Refuses {α : Type} (env : Env) (locks : Lock → Holders) (bytes : Bytes)
    (p : Prog sig (Result α)) (u : World) : Prop :=
  p.Leads (handle env) 0 (Keeps env (LogIs bytes))
    (fun t result => Stopped locks bytes t ∧ ∃ e, result = .error e) u

theorem Stopped.unhealthy (stopped : Stopped locks bytes u) : ∃ e,
    handle env 0 u .ensureHealthy = .ok u (.error e) := by
  obtain ⟨wal, isOpen, poisoned⟩ := stopped.wal
  have refuses : wal.ensureHealthy =
      .error (.corrupt "WAL is unavailable after an I/O failure; reopen the database") := by
    unfold Wal.ensureHealthy
    rw [if_pos poisoned]
  exact ⟨_, by rw [ensureHealthy_answer isOpen, refuses]⟩

theorem Stopped.attempt {α : Type} (stopped : Stopped locks bytes u)
    (next : Unit → Prog sig (Result α)) :
    Refuses env locks bytes (attempt (call .ensureHealthy) next) u := by
  obtain ⟨e, answered⟩ := stopped.unhealthy
  unfold Db.attempt
  refine leads_call (Keeps.whole stopped.log) answered ?_
  exact Prog.Leads.ret ⟨stopped, e, rfl⟩

theorem Stopped.row (stopped : Stopped locks bytes u) (durable : db.durable = true)
    (free : locks .wal = Holders.free) (vector : Row) :
    Refuses env locks bytes (insertRowStorageOnly db vector) u := by
  unfold insertRowStorageOnly
  rw [if_pos durable]
  exact stopped.locked free ((stopped.setLock .wal (holding true)).attempt _)

theorem Stopped.insert (stopped : Stopped (fun _ => Holders.free) bytes u)
    (durable : db.durable = true) (vector : Row) (visited : VisitedSet) :
    Refuses env (fun _ => Holders.free) bytes (Db.insert env db vector visited) u := by
  unfold Db.insert
  apply stopped.locked rfl
  apply leads_attempt ((stopped.setLock .maintenance (holding false)).row durable rfl vector)
  · rintro t id ⟨-, e, same⟩
    cases same
  · rintro t e ⟨after, -⟩
    exact ⟨after, e, rfl⟩

theorem Stopped.same (stopped : Stopped locks bytes u) (sameLocks : t.locks = u.locks)
    (pending : t.pending = u.pending) (running : t.running = u.running) (wal : t.wal = u.wal)
    (log : t.dir.wal = u.dir.wal) : Stopped locks bytes t := by
  constructor
  case locks => exact sameLocks.trans stopped.locks
  case pending => exact pending.trans stopped.pending
  case running => exact running.trans stopped.running
  case wal =>
      rw [wal]
      exact stopped.wal
  case log =>
      change t.dir.wal.getD [] = bytes
      rw [log]
      exact stopped.log

theorem Stopped.finishBatch (stopped : Stopped locks bytes u) (free : locks .pq = Holders.free)
    (base : Nat) :
    (finishBatch base 0).Leads (handle env) 0 (Keeps env (LogIs bytes))
      (fun t _ => Stopped locks bytes t ∧ True) u := by
  have submitted : handle env 0 u (.submit base 0) = .ok u () := by
    change Reply.ok { u with pending := u.pending ++ [] } () = _
    rw [List.append_nil]
    rfl
  have joined : handle env 0 u .join = .ok u () := if_pos ⟨stopped.pending, stopped.running⟩
  unfold Db.finishBatch
  refine leads_call (Keeps.whole stopped.log) submitted ?_
  refine leads_call (Keeps.whole stopped.log) joined ?_
  have held := stopped.setLock .pq (holding true)
  apply stopped.locked free
  refine Prog.Leads.act (S := sig) (Keeps.whole held.log) rfl (Prog.Leads.ret ⟨?_, trivial⟩)
  unfold World.encodeBatch
  split
  · exact held
  · exact held.same rfl rfl rfl rfl rfl

theorem chunksExact_ne_nil {dim : Nat} {batch : Row} (positive : 0 < dim) (rest : batch ≠ [])
    (whole : batch.length % dim = 0) : ∃ row later, chunksExact dim batch = row :: later := by
  have length : (chunksExact dim batch).length = batch.length / dim := by
    unfold chunksExact
    rw [List.length_map, List.length_range]
  have some : 0 < batch.length / dim :=
    Nat.div_pos (Nat.le_of_dvd (List.length_pos_iff.mpr rest) (Nat.dvd_of_mod_eq_zero whole)) positive
  cases chunks : chunksExact dim batch with
  | nil =>
      rw [chunks, List.length_nil] at length
      omega
  | cons row later => exact ⟨row, later, rfl⟩

theorem Stopped.appendRows (stopped : Stopped locks bytes u) (durable : db.durable = true)
    (free : locks .wal = Holders.free) (row : Row) (later : List Row) :
    (Db.appendRows db (row :: later) 0).Leads (handle env) 0 (Keeps env (LogIs bytes))
      (fun t found => Stopped locks bytes t ∧ ∃ e, found = (0, some e)) u := by
  unfold Db.appendRows
  apply (stopped.row durable free row).bind
  rintro t result ⟨after, e, rfl⟩
  exact Prog.Leads.ret ⟨after, e, rfl⟩

theorem Stopped.addBatch (stopped : Stopped (fun _ => Holders.free) bytes u)
    (durable : db.durable = true) (batch : Row) :
    (Db.addBatch db batch).Leads (handle env) 0 (Keeps env (LogIs bytes)) (fun t result =>
      Stopped (fun _ => Holders.free) bytes t ∧ (0 < db.dim → batch ≠ [] → ∃ e, result = .error e))
      u := by
  have held := stopped.setLock .maintenance (holding true)
  unfold Db.addBatch
  apply stopped.locked rfl
  split
  · exact Prog.Leads.ret ⟨held, fun _ _ => ⟨_, rfl⟩⟩
  · rename_i whole
    refine leads_call (Keeps.whole held.log) rfl ?_
    generalize (u.setLock .maintenance (holding true)).store.count = base
    cases chunks : chunksExact db.dim batch with
    | nil =>
        apply (held.finishBatch rfl base).bind
        rintro v - ⟨final, -⟩
        refine Prog.Leads.ret ⟨final, fun positive rest => ?_⟩
        obtain ⟨row, later, some⟩ := chunksExact_ne_nil positive rest (not_not.mp whole)
        rw [chunks] at some
        cases some
    | cons row later =>
        apply (held.appendRows durable rfl row later).bind
        rintro t found ⟨after, e, rfl⟩
        apply (after.finishBatch rfl base).bind
        rintro v - ⟨final, -⟩
        exact Prog.Leads.ret ⟨final, fun _ _ => ⟨e, rfl⟩⟩

theorem Stopped.flush (stopped : Stopped locks bytes u) :
    (Db.flush).Leads (handle env) 0 (Keeps env (LogIs bytes)) (fun t _ => Stopped locks bytes t)
      u := by
  unfold Db.flush
  refine leads_call (Keeps.whole stopped.log) rfl ?_
  have counted : Stopped locks bytes (u.setFile (u.store.storeCount u.file)) :=
    stopped.same rfl rfl rfl rfl rfl
  generalize u.setFile (u.store.storeCount u.file) = t at counted
  have here : Keeps env (LogIs bytes) t .syncPages := Keeps.whole counted.log
  rcases syncPages_cases t with synced | ⟨message, failed⟩
  · exact Prog.Leads.act (S := sig) here synced (Prog.Leads.ret (counted.same rfl rfl rfl rfl rfl))
  · exact Prog.Leads.act (S := sig) here failed (Prog.Leads.ret (counted.same rfl rfl rfl rfl rfl))

theorem Stopped.saveCodebook (stopped : Stopped locks bytes u) :
    (call .saveCodebook).Leads (handle env) 0 (Keeps env (LogIs bytes))
      (fun t _ => Stopped locks bytes t ∧ True) u := by
  have here : Keeps env (LogIs bytes) u .saveCodebook := Keeps.whole stopped.log
  have saved : ∃ t result, u.saveCodebook env = .ok t result ∧ Stopped locks bytes t := by
    unfold World.saveCodebook
    split
    · exact ⟨u, _, rfl, stopped⟩
    · rename_i state _
      rcases replaceFile_cases u { u.dir with
          codebook := some (Pq.saveCodebook env.hash state.pq) } with done | ⟨message, done | done⟩
      · exact ⟨_, _, done, stopped.same rfl rfl rfl rfl rfl⟩
      · exact ⟨_, _, done, stopped.same rfl rfl rfl rfl rfl⟩
      · exact ⟨_, _, done, stopped.same rfl rfl rfl rfl rfl⟩
  obtain ⟨t, result, answered, after⟩ := saved
  exact Prog.Leads.act (S := sig) here answered (Prog.Leads.ret ⟨after, trivial⟩)

theorem Stopped.checkpoint (stopped : Stopped (fun _ => Holders.free) bytes u)
    (durable : db.durable = true) :
    Refuses env (fun _ => Holders.free) bytes (Db.checkpoint db) u := by
  have held := stopped.setLock .maintenance (holding true)
  unfold Db.checkpoint
  rw [durable]
  apply stopped.locked rfl
  apply leads_attempt held.flush
  · intro t _ flushed
    apply leads_attempt (flushed.locked rfl (flushed.setLock .pq (holding false)).saveCodebook)
    · rintro v _ ⟨after, -⟩
      exact after.locked rfl ((after.setLock .wal (holding true)).attempt _)
    · rintro v e ⟨after, -⟩
      exact ⟨after, e, rfl⟩
  · intro t e flushed
    exact ⟨flushed, e, rfl⟩

/-! ### The session of a stopped database -/

theorem encodeBatch_eq (env : Env) (w : World) (base n : Nat) : ∃ pq,
    w.encodeBatch env base n = { w with pq := pq } ∧
      ∀ state, pq = some state → ∃ before, w.pq = some before ∧ state.pq = before.pq := by
  unfold World.encodeBatch
  split
  · exact ⟨w.pq, rfl, fun state trained => ⟨state, trained, rfl⟩⟩
  · rename_i before trained
    refine ⟨_, rfl, ?_⟩
    intro state same
    cases same
    exact ⟨before, trained, rfl⟩

variable {durable : Bool} {nodes : Nat}

theorem Session.encodeBatch (session : Session env config dim locks durable nodes w rows present)
    (base n : Nat) :
    Session env config dim locks durable nodes (w.encodeBatch env base n) rows present := by
  obtain ⟨pq, same, sameBook⟩ := encodeBatch_eq env w base n
  rw [same]
  have live := session.live
  refine ⟨⟨live.locks, live.pending, live.running, live.stored, live.kernel, live.sound,
    live.nodes_le, ?_, live.granted⟩, session.lengths, session.kept⟩
  intro state trained
  obtain ⟨before, was, equal⟩ := sameBook state trained
  rw [equal]
  exact live.quantizer before was

theorem Session.finishBatch (session : Session env config dim locks durable nodes w rows present)
    (free : locks .pq = Holders.free) (base : Nat) :
    (Db.finishBatch base 0).Leads (handle env) 0 (Keeps env (Recovers env config dim rows))
      (fun t _ => Session env config dim locks durable nodes t rows present ∧ True) w := by
  have submitted : handle env 0 w (.submit base 0) = .ok w () := by
    change Reply.ok { w with pending := w.pending ++ [] } () = _
    rw [List.append_nil]
    rfl
  have joined : handle env 0 w .join = .ok w () := if_pos ⟨session.live.pending, session.live.running⟩
  have held := session.setLock .pq (holding true)
  unfold Db.finishBatch
  refine leads_call (Keeps.whole session.recovers) submitted ?_
  refine leads_call (Keeps.whole session.recovers) joined ?_
  apply session.locked free
  exact Prog.Leads.act (S := sig) (Keeps.whole held.recovers) rfl
    (Prog.Leads.ret ⟨held.encodeBatch base 0, trivial⟩)

theorem Session.refusedRow (session : Session env config dim locks true nodes w rows present)
    (free : locks .wal = Holders.free) {wal : Wal} (isOpen : w.wal = some wal)
    (poisoned : wal.poisoned = true) (durable : db.durable = true) (vector : Row) :
    (insertRowStorageOnly db vector).Leads (handle env) 0 (Keeps env (Recovers env config dim rows))
      (fun t result => Session env config dim locks true nodes t rows present ∧
        ∃ e, result = .error e) w := by
  have held := session.setLock .wal (holding true)
  have refuses : wal.ensureHealthy =
      .error (.corrupt "WAL is unavailable after an I/O failure; reopen the database") := by
    unfold Wal.ensureHealthy
    rw [if_pos poisoned]
  have answered : handle env 0 (w.setLock .wal (holding true)) .ensureHealthy =
      .ok (w.setLock .wal (holding true)) wal.ensureHealthy := ensureHealthy_answer isOpen
  unfold insertRowStorageOnly
  rw [if_pos durable]
  apply session.locked free
  unfold Db.insertLogged attempt
  refine leads_call (Keeps.whole held.recovers) answered ?_
  rw [refuses]
  exact Prog.Leads.ret ⟨held, _, rfl⟩

theorem Session.refusedBatch (session : Session env config dim (fun _ => Holders.free) true nodes w
      rows present) {wal : Wal} (isOpen : w.wal = some wal) (poisoned : wal.poisoned = true)
    (durable : db.durable = true) (batch : Row) :
    (Db.addBatch db batch).Leads (handle env) 0 (Keeps env (Recovers env config dim rows))
      (fun t _ => Session env config dim (fun _ => Holders.free) true nodes t rows present ∧ True)
      w := by
  have held := session.setLock .maintenance (holding true)
  have isHeld : (w.setLock .maintenance (holding true)).wal = some wal := isOpen
  unfold Db.addBatch
  apply session.locked rfl
  split
  · exact Prog.Leads.ret ⟨held, trivial⟩
  · refine leads_call (Keeps.whole held.recovers) rfl ?_
    generalize w.setLock .maintenance (holding true) = v at held isHeld
    have stored : (Db.appendRows db (chunksExact db.dim batch) 0).Leads (handle env) 0
        (Keeps env (Recovers env config dim rows)) (fun t found =>
          Session env config dim (Function.update (fun _ => Holders.free) .maintenance
            (holding true)) true nodes t rows present ∧ found.1 = 0) v := by
      cases chunksExact db.dim batch with
      | nil => exact Prog.Leads.ret ⟨held, rfl⟩
      | cons row later =>
          unfold Db.appendRows
          apply (held.refusedRow rfl isHeld poisoned durable row).bind
          rintro t result ⟨after, e, rfl⟩
          exact Prog.Leads.ret ⟨after, rfl⟩
    apply stored.bind
    rintro t ⟨inserted, failure⟩ ⟨after, none⟩
    dsimp only at none
    subst none
    apply (after.finishBatch rfl _).bind
    rintro u - ⟨final, -⟩
    exact Prog.Leads.ret ⟨final, trivial⟩

theorem Session.refusedInsert (session : Session env config dim (fun _ => Holders.free) true nodes w
      rows present) {wal : Wal} (isOpen : w.wal = some wal) (poisoned : wal.poisoned = true)
    (durable : db.durable = true) (vector : Row) (visited : VisitedSet) :
    (Db.insert env db vector visited).Leads (handle env) 0 (Keeps env (Recovers env config dim rows))
      (fun t _ => Session env config dim (fun _ => Holders.free) true nodes t rows present ∧ True)
      w := by
  have held := session.setLock .maintenance (holding false)
  unfold Db.insert
  apply session.locked rfl
  apply leads_attempt (held.refusedRow rfl isOpen poisoned durable vector)
  · rintro t id ⟨-, e, same⟩
    cases same
  · rintro t e ⟨after, -⟩
    exact ⟨after, trivial⟩

/-! ### The rest of the process -/

/-- The states of a process that goes on calling. -/
inductive Later (env : Env) (db : Db) (w : World) : World → Prop
  | here : Later env db w w
  | faulty {t : World} (before : Later env db w t) (faults : List Wal.Fault) :
      Later env db w { t with faults := faults }
  | insert {t u : World} {vector : Row} {visited : VisitedSet} {result : Result Nat}
      (before : Later env db w t)
      (ran : (Db.insert env db vector visited).run (handle env) 0 t = .done u result) :
      Later env db w u
  | addBatch {t u : World} {batch : Row} {result : Result Nat} (before : Later env db w t)
      (ran : (Db.addBatch db batch).run (handle env) 0 t = .done u result) : Later env db w u
  | checkpoint {t u : World} {result : Result Unit} (before : Later env db w t)
      (ran : (Db.checkpoint db).run (handle env) 0 t = .done u result) : Later env db w u

structure Refusing (env : Env) (db : Db) (bytes : Bytes) (u : World) : Prop where
  log : u.dir.walBytes = bytes
  insert : ∀ vector visited, Refuses env (fun _ => Holders.free) bytes
    (Db.insert env db vector visited) u
  row : ∀ vector, Refuses env (fun _ => Holders.free) bytes (insertRowStorageOnly db vector) u
  batch : ∀ batch, batch ≠ [] →
    Refuses env (fun _ => Holders.free) bytes (Db.addBatch db batch) u
  checkpoint : Refuses env (fun _ => Holders.free) bytes (Db.checkpoint db) u

theorem Stopped.refusing (stopped : Stopped (fun _ => Holders.free) bytes u)
    (durable : db.durable = true) (positive : 0 < db.dim) : Refusing env db bytes u where
  log := stopped.log
  insert vector visited := stopped.insert durable vector visited
  row vector := stopped.row durable rfl vector
  batch batch rest := (stopped.addBatch durable batch).mono fun _ _ ends =>
    ⟨ends.1, ends.2 positive rest⟩
  checkpoint := stopped.checkpoint durable

theorem Later.kept (later : Later env db t u) (durable : db.durable = true)
    (usable : Usable env config)
    (session : Session env config dim (fun _ => Holders.free) true present.length t rows present)
    (stopped : Stopped (fun _ => Holders.free) bytes t) :
    Session env config dim (fun _ => Holders.free) true present.length u rows present ∧
      Stopped (fun _ => Holders.free) bytes u := by
  induction later with
  | here => exact ⟨session, stopped⟩
  | faulty _ faults ih =>
      obtain ⟨before, halted⟩ := ih
      exact ⟨before.setFaults faults, halted.same rfl rfl rfl rfl rfl⟩
  | insert _ ran ih =>
      obtain ⟨before, halted⟩ := ih
      obtain ⟨wal, isOpen, poisoned⟩ := halted.wal
      exact ⟨((before.refusedInsert isOpen poisoned durable _ _).run_post ran).1,
        ((halted.insert durable _ _).run_post ran).1⟩
  | addBatch _ ran ih =>
      obtain ⟨before, halted⟩ := ih
      obtain ⟨wal, isOpen, poisoned⟩ := halted.wal
      exact ⟨((before.refusedBatch isOpen poisoned durable _).run_post ran).1,
        ((halted.addBatch durable _).run_post ran).1⟩
  | @checkpoint v u result _ ran ih =>
      obtain ⟨before, halted⟩ := ih
      obtain ⟨after, e, rfl⟩ := (halted.checkpoint durable).run_post ran
      refine ⟨?_, after⟩
      have same : Db.checkpoint db = Db.checkpoint v.db := by
        unfold Db.checkpoint
        rw [durable, before.isDurable]
      rw [same] at ran
      exact ((before.checkpoint usable).run_post ran).session (before.comparable rfl)

/-- What an insert that fails leaves as it was. -/
structure Atomic (w t : World) : Prop where
  count : t.store.count = w.store.count
  rows : ∀ id < w.store.count, t.row id = w.row id
  index : t.index = w.index
  pq : t.pq = w.pq
  nextLsn : t.wal.map Wal.nextLsn = w.wal.map Wal.nextLsn

def Reopens (env : Env) (config : HnswConfig) (dim : Nat) (dir : Directory) (rows : List Row) :
    Prop :=
  ∀ (opts : DbOptions) (scratch : Nat → VisitedSet), opts.config = config →
    ∃ v, (Db.open env opts scratch dim).run (handle env) 0 (World.start dir) = .done v (.ok ()) ∧
      v.rows = rows

theorem Recovers.reopens {dir : Directory} (recovers : Recovers env config dim rows dir)
    (levels : ∀ id, env.level config.m id ≤ 63) (clean : ∀ row ∈ rows, row.hasNan = false) :
    Reopens env config dim dir rows := by
  intro opts scratch sameConfig
  obtain ⟨v, result, ran, ⟨-, rfl, -, same⟩ | ⟨differs, -⟩⟩ :=
    recovers.open levels opts sameConfig scratch
  · exact ⟨v, ran, same⟩
  · exact absurd (recovers.numbers clean) differs

/-- A failed insert leaves the database as it was and does not bury later records: after an I/O
error the log is not written any more, and what the process leaves at any time gives back every
row that was durable, and the one of the failed insert if its whole record had been written. -/
theorem failed_insert_atomic (usable : Usable env config)
    (history : History env config dim false (.session w present) rows) (durable : w.db.durable = true)
    (clean : ∀ row ∈ rows, row.hasNan = false)
    (room : ∀ wal, w.wal = some wal → wal.nextLsn + 1 < 2 ^ 64) {vector : Row}
    (number : vector.hasNan = false) {visited : VisitedSet} {e : Error}
    (ran : (Db.insert env w.db vector visited).run (handle env) 0 w = .done t (.error e)) :
    Atomic w t ∧ ∃ after,
      (RecordWritten env w vector t.dir ∧ after = rows ++ [vector] ∨
        ¬ RecordWritten env w vector t.dir ∧ after = rows) ∧
      present <+: after ∧ Reopens env config dim t.dir after ∧
      ∀ message, e = .io message → ∀ u, Later env w.db t u →
        Refusing env w.db t.dir.walBytes u ∧ Reopens env config dim u.dir after := by
  have session : Session env config dim (fun _ => Holders.free) w.db.durable present.length w rows
      present := history.sane usable
  rw [durable] at session
  have ends := (session.insert usable.levels room vector visited).run_post ran
  cases ends with
  | refused _ after kept comes unchanged poisoned =>
      have cleanAfter : ∀ row ∈ after, row.hasNan = false := by
        rcases comes with ⟨-, rfl⟩ | ⟨-, rfl⟩
        · intro row member
          rcases List.mem_append.mp member with old | new
          · exact clean row old
          · rw [List.mem_singleton.mp new]
            exact number
        · exact clean
      have sameRows : ∀ id < w.store.count, t.row id = w.row id := by
        intro id below
        rw [session.live.count] at below
        rw [kept.live.row (List.getElem?_eq_getElem below),
          session.live.row (List.getElem?_eq_getElem below)]
      refine ⟨⟨unchanged.count, sameRows, unchanged.index, unchanged.pq, unchanged.nextLsn⟩, after,
        comes, kept.comparable rfl, kept.recovers.reopens usable.levels cleanAfter, ?_⟩
      intro message isIo u later
      have stopped : Stopped (fun _ => Holders.free) t.dir.walBytes t :=
        ⟨kept.live.locks, kept.live.pending, kept.live.running, poisoned message isIo, rfl⟩
      obtain ⟨keptLater, stoppedLater⟩ := later.kept durable usable kept stopped
      have positive : 0 < w.db.dim := by
        obtain ⟨flushed, undo, rep⟩ := session.live.stored
        change 0 < w.store.dim
        rw [session.live.sameDim]
        exact rep.formatted.dim_pos
      exact ⟨stoppedLater.refusing durable positive,
        keptLater.recovers.reopens usable.levels cleanAfter⟩

/-- A new database whose next write stops after three bytes. -/
def plainFull : World := { plainSession true with faults := [.write 3 "disk full"] }

theorem failed_insert_atomic_full : ∃ t,
    plainInsert plainFull [F32.ofNat 1] = .done t (.error (.io "disk full")) ∧ Atomic plainFull t ∧
      Refusing plain plainFull.db t.dir.walBytes t ∧ Reopens plain plainConfig 1 t.dir [] := by
  have history : History plain plainConfig 1 false (.session plainFull []) [] :=
    (plain_session plain_fresh.1).faulty [.write 3 "disk full"]
  have runs : plainFull.wal = some ⟨.always, 0, false⟩ ∧
      (plainInsert plainFull [F32.ofNat 1]).answer = some (.error (.io "disk full")) ∧
      ((plainInsert plainFull [F32.ofNat 1]).stateOr plainFull).dir.walBytes.length = 3 := by
    decide +kernel
  obtain ⟨log, failed, torn⟩ := runs
  have room : ∀ wal, plainFull.wal = some wal → wal.nextLsn + 1 < 2 ^ 64 := by
    rw [log]
    intro wal same
    cases same
    decide
  have ran := Outcome.done_stateOr failed plainFull
  obtain ⟨atomic, after, comes, -, -, further⟩ := failed_insert_atomic plain_usable history
    plain_fresh.2.2 (by decide) room (by decide) ran
  obtain ⟨refusing, reopens⟩ := further "disk full" rfl _ .here
  rcases comes with ⟨⟨wal, isOpen, written⟩, -⟩ | ⟨-, rfl⟩
  · have lengths := torn.symm.trans (congrArg List.length written)
    rw [List.length_append, Wal.frame_length] at lengths
    omega
  · exact ⟨_, ran, atomic, refusing, reopens⟩

end Db

end Vektordb
