import Vektordb.Db.Checkpoints
import Vektordb.Db.Sharing
import Vektordb.Wal.Tail

/-!
The actions on files, under the maintenance lock and, where the log is written, the WAL lock: the
header and the pages of the store, a record, the snapshot and the codebook.
-/

namespace Vektordb

open Interaction LittleEndian VectorStore

namespace Db

variable {env : Env} {crew : Crew} {i : Nat} {w t : World} {l : Ledger}

/-! ### Files -/

/-- The files, the open log and the queue of faults are replaced, and nothing else. -/
def World.refile (w : World) (dir : Directory) (log : Option Wal) (faults : List Wal.Fault) : World :=
  { w with dir := dir, wal := log, faults := faults }

/-- New files with the same rows, under the maintenance lock, and under the WAL lock if the log is
one of them. -/
theorem Consistent.refile (kept : Consistent env crew w l) (holds : w.Holds i .maintenance)
    (dir : Directory) (log : Option Wal) (faults : List Wal.Fault)
    (shelved : Shelved crew.db w.store dir)
    (rows : ∀ x, w.store.getUnchecked dir.file x = w.row x)
    (journaled : Journaled env crew.strict dir log w.store.count) (durable : log.isSome = w.wal.isSome)
    (records : ∀ lsn id vector, InLog env dir lsn id vector →
      InLog env w.dir lsn id vector ∨ w.row id = vector)
    (secured : Secured env dir w.row w.store.count l.unlogged l.uncoded)
    (locked : ¬ w.Owns i .wal → log = w.wal ∧ dir.wal = w.dir.wal) :
    Consistent env crew (World.refile w dir log faults) l ∧
      Guarantees i (w, l) (World.refile w dir log faults, l) := by
  have sameRows : (World.refile w dir log faults).row = w.row := funext rows
  have assigned := kept.assigned
  refine ⟨⟨shelved, kept.graphed, ?_, ?_, journaled, ?_, ?_, durable.trans kept.durable,
    kept.locking⟩, ?_⟩
  · exact ⟨assigned.owners, assigned.authors, assigned.nodes, assigned.inside, assigned.owner, assigned.hand,
      assigned.held, assigned.running, assigned.once, assigned.pending, assigned.distinct,
      assigned.linked⟩
  · rw [sameRows]
    exact kept.coded
  · intro strict
    have inStep := kept.inStep strict
    constructor
    case isOpen => exact durable.trans inStep.isOpen
    case coded => exact inStep.coded
    case agrees =>
        intro lsn id vector recorded below
        rw [sameRows]
        rcases records lsn id vector recorded with before | same
        · exact inStep.agrees lsn id vector before below
        · exact same
    case even =>
        intro free
        have nobody : ¬ w.Owns i .wal := by
          intro owns
          unfold World.Owns at owns
          rw [show w.locks .wal = Holders.free from free] at owns
          cases owns
        rw [(locked nobody).1]
        exact inStep.even free
  · rw [sameRows]
    exact secured
  · apply Still.guarantees
    constructor
    case index => rfl
    case locks => rfl
    case hands => exact fun _ _ _ => Iff.rfl
    case calm => exact fun _ _ free => free
    case owned => exact fun _ _ _ => Iff.rfl
    case rows => exact fun x _ => ⟨rows x, Iff.rfl, Iff.rfl, rfl⟩
    case content => exact fun x _ => rows x
    case kernel => rfl
    case prior => exact fun _ _ _ _ => rfl
    case frozen => exact fun free => absurd holds free
    case wal =>
        intro free
        obtain ⟨wal, file⟩ := locked free
        exact ⟨wal, file, fun _ => ⟨rfl, rfl⟩⟩
    case pq => exact fun _ => rfl

def Flushed (w : World) : Prop := headerCount w.dir.file.image = w.store.count

theorem Consistent.storeCount (kept : Consistent env crew w l) (holds : w.Holds i .maintenance)
    (complete : ∀ x, ¬ l.uncoded x) :
    Consistent env crew (w.setFile (w.store.storeCount w.file)) l ∧
      Guarantees i (w, l) (w.setFile (w.store.storeCount w.file), l) ∧
      Flushed (w.setFile (w.store.storeCount w.file)) := by
  have shelved := kept.shelved
  have small : w.store.count < 2 ^ 64 := by
    have bound := shelved.attached.count_le
    rw [CAPACITY_eq, SegVec.CAPACITY_eq] at bound
    omega
  obtain ⟨formatted, header, rows⟩ := storeCount_spec shelved.formatted small
  have after : Shelved crew.db w.store { w.dir with store := some (w.store.storeCount w.file) } :=
    ⟨rfl, formatted, shelved.attached.write _ _, shelved.dim⟩
  have secured : Secured env { w.dir with store := some (w.store.storeCount w.file) } w.row
      w.store.count l.unlogged l.uncoded :=
    kept.secured.flushed header rfl (.of_eq rfl) complete
  have refiled : Consistent env crew (World.refile w { w.dir with
      store := some (w.store.storeCount w.file) } w.wal w.faults) l ∧
      Guarantees i (w, l) (World.refile w { w.dir with
        store := some (w.store.storeCount w.file) } w.wal w.faults, l) := by
    apply kept.refile holds _ w.wal w.faults after
    · intro x
      rw [shelved.row_eq]
      refine (Shelved.row_eq (w := World.refile w { w.dir with
        store := some (w.store.storeCount w.file) } w.wal w.faults) after x).trans ?_
      exact rows x
    · exact kept.journaled.stored _
    · rfl
    · exact fun _ _ _ recorded => .inl recorded
    · exact secured
    · exact fun _ => ⟨rfl, rfl⟩
  exact ⟨refiled.1, refiled.2, header⟩

theorem Consistent.afterFault (kept : Consistent env crew w l) (holds : w.Holds i .maintenance) :
    Consistent env crew w.afterFault l ∧ Guarantees i (w, l) (w.afterFault, l) :=
  kept.refile holds w.dir w.wal w.faults.tail kept.shelved (fun _ => rfl) kept.journaled rfl
    (fun _ _ _ => .inl) kept.secured fun _ => ⟨rfl, rfl⟩

theorem Consistent.syncPages (kept : Consistent env crew w l) (holds : w.Holds i .maintenance)
    {result : Result Unit} (done : w.syncPages = .ok t result) :
    Consistent env crew t l ∧ Guarantees i (w, l) (t, l) ∧ (Flushed w → Flushed t) := by
  have shelved := kept.shelved
  rcases syncPages_cases w with whole | ⟨message, failed⟩
  · rw [whole] at done
    cases done
    rw [← and_assoc]
    refine ⟨?_, id⟩
    apply kept.refile holds { w.dir with store := some (w.store.syncPages w.file) } w.wal
      w.faults.tail
    · exact ⟨rfl, shelved.formatted, shelved.attached.sync _, shelved.dim⟩
    · exact fun _ => rfl
    · exact kept.journaled.stored _
    · rfl
    · exact fun _ _ _ recorded => .inl recorded
    · exact kept.secured.moved rfl rfl (.of_eq rfl) fun _ _ => rfl
    · exact fun _ => ⟨rfl, rfl⟩
  · rw [failed] at done
    cases done
    obtain ⟨after, guarantees⟩ := kept.afterFault holds
    exact ⟨after, guarantees, id⟩

theorem Consistent.replaceFile (kept : Consistent env crew w l) (holds : w.Holds i .maintenance)
    (dir : Directory) (store : dir.store = w.dir.store) (wal : dir.wal = w.dir.wal)
    (journaled : Journaled env crew.strict dir w.wal w.store.count)
    (secured : Secured env dir w.row w.store.count l.unlogged l.uncoded) {result : Result Unit}
    (done : w.replaceFile dir = .ok t result) :
    Consistent env crew t l ∧ Guarantees i (w, l) (t, l) ∧
      t.store = w.store ∧ (t.dir = dir ∨ result ≠ .ok () ∧ t.dir = w.dir) := by
  have file : dir.file = w.dir.file := by
    unfold Directory.file
    rw [store]
  have replaced : Consistent env crew (World.refile w dir w.wal w.faults.tail) l ∧
      Guarantees i (w, l) (World.refile w dir w.wal w.faults.tail, l) := by
    have shelved := kept.shelved
    apply kept.refile holds dir w.wal w.faults.tail
    · refine ⟨?_, ?_, ?_, shelved.dim⟩
      · rw [store, file]
        exact shelved.isStored
      · rw [file]
        exact shelved.formatted
      · rw [file]
        exact shelved.attached
    · intro x
      rw [file]
      rfl
    · exact journaled
    · rfl
    · intro lsn id vector recorded
      have bytes : w.dir.walBytes = dir.walBytes := congrArg (fun log => Option.getD log []) wal.symm
      exact .inl (Extends.of_eq bytes lsn id vector recorded)
    · exact secured
    · exact fun _ => ⟨rfl, wal⟩
  rcases replaceFile_cases w dir with whole | ⟨message, failed | whole⟩
  · rw [whole] at done
    cases done
    exact ⟨replaced.1, replaced.2, rfl, .inl rfl⟩
  · rw [failed] at done
    cases done
    obtain ⟨after, guarantees⟩ := kept.afterFault holds
    exact ⟨after, guarantees, rfl, .inr ⟨nofun, rfl⟩⟩
  · rw [whole] at done
    cases done
    exact ⟨replaced.1, replaced.2, rfl, .inl rfl⟩

/-! ### The log -/

theorem Consistent.relog (kept : Consistent env crew w l) (faults : List Wal.Fault)
    (holds : w.Holds i .maintenance) (owns : w.Owns i .wal) {wal : Wal} (isOpen : w.wal.isSome = true) {bytes : Bytes}
    {entries : List (Nat × WalOp)} {next : Nat}
    (journal : Journal env { w.dir with wal := some bytes } entries next)
    (aligned : crew.strict → Aligned env { w.dir with wal := some bytes } entries next)
    (records : ∀ lsn id vector, (lsn, .insert id vector) ∈ entries →
      InLog env w.dir lsn id vector ∨ w.row id = vector)
    (writing : Writing env { w.dir with wal := some bytes } w.store.count entries next wal)
    (secured : Secured env { w.dir with wal := some bytes } w.row w.store.count l.unlogged
      l.uncoded) :
    Consistent env crew (World.refile w { w.dir with wal := some bytes } (some wal) faults) l ∧
      Guarantees i (w, l) (World.refile w { w.dir with wal := some bytes } (some wal) faults, l) := by
  have shelved := kept.shelved
  apply kept.refile holds { w.dir with wal := some bytes } (some wal) faults
    ⟨shelved.isStored, shelved.formatted, shelved.attached, shelved.dim⟩ (fun _ => rfl)
  · refine ⟨entries, next, journal, aligned, ?_⟩
    intro other same
    cases same
    exact writing
  · exact isOpen.symm
  · rintro lsn id vector ⟨others, logs, member⟩
    obtain rfl := Logs.unique env.hash_lt journal.logs logs
    exact records lsn id vector member
  · exact secured
  · exact fun free => absurd owns free

theorem Consistent.resetWal (kept : Consistent env crew w l) (holds : w.Holds i .maintenance)
    (owns : w.Owns i .wal) (complete : ∀ x, ¬ l.uncoded x) (flushed : Flushed w)
    (sealed : Sealed env w.dir w.store.count) {result : Result Unit} (done : w.resetWal = .ok t result) :
    Consistent env crew t l ∧ Guarantees i (w, l) (t, l) := by
  obtain ⟨entries, next, journal, aligned, writing⟩ := kept.journaled
  unfold World.resetWal at done
  cases isOpen : w.wal with
  | none => rw [isOpen] at done; cases done
  | some wal =>
      have before := writing wal isOpen
      have same : Journal env { w.dir with wal := some w.dir.walBytes } entries next :=
        journal.moved rfl rfl
      have kept' : ∀ log : Wal, log.nextLsn = wal.nextLsn →
          (log.poisoned = false → wal.poisoned = false) →
          Writing env { w.dir with wal := some w.dir.walBytes } w.store.count entries next log := by
        intro log lsn healthy
        refine ⟨lsn ▸ before.few, ?_, ?_⟩
        · rw [lsn]
          exact before.known
        · intro unharmed
          rw [lsn]
          exact before.healthy (healthy unharmed)
      have emptied : ∀ log : Wal, log.nextLsn = wal.nextLsn → wal.poisoned = false →
          Writing env { w.dir with wal := some [] } w.store.count [] next log := by
        intro log lsn healthy
        refine ⟨lsn ▸ before.few, nofun, fun _ => ⟨?_, rfl⟩⟩
        rw [lsn]
        exact (before.healthy healthy).1
      have some : w.wal.isSome = true := by rw [isOpen]; rfl
      have secured : ∀ bytes, Secured env { w.dir with wal := Option.some bytes } w.row w.store.count
          l.unlogged l.uncoded := by
        intro bytes
        have still : Sealed env { w.dir with wal := Option.some bytes } w.store.count :=
          fun len mark marked => sealed len mark (marked.moved rfl)
        exact still.secured flushed complete
      have still : crew.strict → Aligned env { w.dir with wal := Option.some w.dir.walBytes } entries next :=
        fun strict => (aligned strict).moved rfl
      have listed : ∀ lsn id vector, (lsn, .insert id vector) ∈ entries →
          InLog env w.dir lsn id vector ∨ w.row id = vector :=
        fun lsn id vector member => .inl ⟨entries, journal.logs, member⟩
      have covered : wal.poisoned = false → crew.strict →
          Aligned env { w.dir with wal := Option.some [] } [] next := by
        intro healthy strict
        have behind : ∀ len mark, Mark env w.dir len mark → next ≤ len := by
          intro len mark marked
          rw [sealed len mark marked, ← (before.healthy healthy).1]
          exact before.few
        exact (aligned strict).reset rfl behind
      rw [isOpen] at done
      dsimp only at done
      unfold Wal.reset Wal.ensureHealthy at done
      cases harmed : wal.poisoned with
      | true =>
          rw [harmed] at done
          cases done
          exact kept.relog _ holds owns some same still listed (kept' wal rfl id) (secured _)
      | false =>
          rw [harmed] at done
          cases fault : w.fault with
          | none =>
              rw [fault] at done
              cases done
              exact kept.relog _ holds owns some journal.reset (covered harmed) nofun
                (emptied wal rfl harmed) (secured _)
          | write count message =>
              rw [fault] at done
              cases done
              exact kept.relog _ holds owns some same still listed (kept' _ rfl nofun) (secured _)
          | sync message =>
              rw [fault] at done
              cases done
              exact kept.relog _ holds owns some journal.reset (covered harmed) nofun
                (emptied _ rfl harmed) (secured _)

theorem Guarantees.record {id : Nat} (guarantees : Guarantees i (w, l) (t, l))
    (holds : w.Holds i .maintenance) (owner : w.owners[id]? = some i) (uncoded : l.uncoded id) :
    Guarantees i (w, l) (t, l.record id) := by
  refine { guarantees with rows := ?_, frozen := fun free => absurd holds free, wal := ?_ }
  · intro x known
    have apart : x ≠ id := by
      rintro rfl
      rcases known with ⟨j, different, theirs⟩ | settled
      · exact different (Option.some.inj (theirs.symm.trans owner))
      · exact settled.2 uncoded
    have same := guarantees.rows x known
    exact ⟨same.row, same.uncoded, and_iff_right apart, same.owner⟩
  · intro free
    have same := guarantees.wal free
    exact ⟨same.wal, same.file, same.store⟩

theorem Consistent.record {id : Nat} (kept : Consistent env crew w l)
    (backed : Backed env w.dir id (w.row id)) : Consistent env crew w (l.record id) := by
  have assigned := kept.assigned
  refine { kept with assigned := ?_, inStep := ?_, secured := kept.secured.record backed }
  rotate_left
  · intro strict
    exact { kept.inStep strict with coded := fun x unlogged => (kept.inStep strict).coded x unlogged.2 }
  exact ⟨assigned.owners, assigned.authors, assigned.nodes, assigned.inside, assigned.owner,
    assigned.hand, assigned.held, assigned.running, assigned.once, assigned.pending,
    assigned.distinct, assigned.linked⟩

/-- What recording the last row answers. -/
structure Recorded (env : Env) (id : Nat) (vector : Row) (w t : World) (result : Result Nat) :
    Prop where
  files : ∃ bytes wal, t = World.refile w { w.dir with wal := some bytes } (some wal) w.faults.tail
  outcome : (∃ e, result = .error e ∧ Inscribing env t id ∧
      acknowledged env t.dir t.wal = acknowledged env w.dir w.wal ∧
      t.wal.map Wal.nextLsn = w.wal.map Wal.nextLsn) ∨
    ∃ lsn, result = .ok lsn ∧
      acknowledged env t.dir t.wal = acknowledged env w.dir w.wal ++ [(lsn, .insert id vector)] ∧
      t.wal.map Wal.nextLsn = w.wal.map fun wal => wal.nextLsn + 1

/-- A log that refused the record keeps what was acknowledged, whatever is in its file. -/
theorem Consistent.unrecorded (kept : Consistent env crew w l) (holds : w.Holds i .maintenance)
    (owns : w.Owns i .wal) {id : Nat} (recording : Inscribing env w id) {wal : Wal} (log : Wal)
    (isOpen : w.wal = some wal) {entries entries' : List (Nat × WalOp)} {next' : Nat} {bytes : Bytes}
    {vector : Row} (isRow : w.row id = vector) (logs : Logs env.hash w.dir.walBytes entries)
    (journal : Journal env { w.dir with wal := some bytes } entries' next')
    (aligned : crew.strict → Aligned env { w.dir with wal := some bytes } entries' next')
    (among : entries' = entries ∨ entries' = entries ++ [(wal.nextLsn, .insert id vector)])
    (lsn : log.nextLsn = wal.nextLsn)
    (healthy : log.poisoned = false → log.nextLsn = next' ∧ bytes = Wal.frames env.hash entries')
    (e : Error) :
    Consistent env crew (World.refile w { w.dir with wal := some bytes } (some log) w.faults.tail) l ∧
      Guarantees i (w, l)
        (World.refile w { w.dir with wal := some bytes } (some log) w.faults.tail, l) ∧
      Recorded env id vector w
        (World.refile w { w.dir with wal := some bytes } (some log) w.faults.tail) (.error e) := by
  have count := recording.count
  have few := recording.few wal isOpen
  have olds : ∀ entry ∈ entries', entry.1 < wal.nextLsn → Wal.recordId entry < id := by
    intro entry member below
    have old := recording.known wal entries isOpen logs entry
    rcases among with rfl | rfl
    · exact old member below
    · rcases List.mem_append.mp member with before | new
      · exact old before below
      · rw [List.mem_singleton.mp new] at below
        exact absurd below (Nat.lt_irrefl _)
  have writing : Writing env { w.dir with wal := some bytes } w.store.count entries' next' log := by
    refine ⟨?_, ?_, healthy⟩
    · rw [lsn]
      omega
    · intro entry member below
      have old := olds entry member (lsn ▸ below)
      omega
  have front : ∀ entry ∈ entries, entry ∈ entries' := by
    intro entry member
    rcases among with rfl | rfl
    · exact member
    · exact List.mem_append_left _ member
  have records : ∀ lsn x row, (lsn, .insert x row) ∈ entries' →
      InLog env w.dir lsn x row ∨ w.row x = row := by
    intro lsn x row member
    rcases among with rfl | rfl
    · exact .inl ⟨entries', logs, member⟩
    · rcases List.mem_append.mp member with before | new
      · exact .inl ⟨entries, logs, before⟩
      · cases List.mem_singleton.mp new
        exact .inr isRow
  obtain ⟨after, guarantees⟩ := kept.relog w.faults.tail holds owns recording.isOpen
    journal aligned records writing
    (kept.secured.moved rfl rfl (.of_logs logs journal.logs front) fun _ _ => rfl)
  refine ⟨after, guarantees, ⟨bytes, log, rfl⟩, .inl ⟨e, rfl, ⟨rfl, count, ?_, ?_⟩, ?_, ?_⟩⟩
  · intro other isOther
    cases isOther
    exact lsn.trans_le few
  · intro other records isOther others
    cases isOther
    rw [← Logs.unique env.hash_lt journal.logs others, lsn]
    exact olds
  · change acknowledged env { w.dir with wal := some bytes } (some log) =
      acknowledged env w.dir w.wal
    rw [isOpen, acknowledged_eq logs wal, acknowledged_eq journal.logs log, lsn]
    rcases among with rfl | rfl
    · rfl
    · rw [List.filter_append, List.filter_singleton, decide_eq_false (Nat.lt_irrefl _)]
      exact List.append_nil _
  · change some log.nextLsn = w.wal.map Wal.nextLsn
    rw [isOpen, lsn]
    rfl

theorem Consistent.follows (kept : Consistent env crew w l) {id next : Nat}
    (recording : Inscribing env w id) {entries : List (Nat × WalOp)} {wal : Wal} {vector : Row}
    (journal : Journal env w.dir entries next) (isOpen : w.wal = some wal) (isNext : wal.nextLsn = next)
    (size : (Wal.payload next (.insert id vector)).length < 2 ^ 32) :
    Follows entries next id vector := by
  have count := recording.count
  have capacity := kept.shelved.attached.count_le
  rw [CAPACITY_eq, SegVec.CAPACITY_eq] at capacity
  have few := recording.few wal isOpen
  rw [isNext] at few
  refine ⟨⟨by dsimp only; omega, ?_, size⟩, by omega, few, ?_⟩
  · intro other row same
    cases same
    omega
  · intro entry member
    have below := journal.consecutive.lt member
    rw [← isNext] at below
    exact recording.known wal entries isOpen journal.logs entry member below

theorem Consistent.walAppend (kept : Consistent env crew w l) (holds : w.Holds i .maintenance)
    (owns : w.Owns i .wal) {id : Nat} (recording : Inscribing env w id) {vector : Row}
    (isRow : w.row id = vector) (owner : w.owners[id]? = some i) (uncoded : l.uncoded id)
    (isNew : crew.strict → ∀ wal, w.wal = some wal → wal.nextLsn = id) {result : Result Nat}
    (done : w.walAppend env (.insert id vector) = .ok t result) :
    Consistent env crew t (note i l (.walAppend (.insert id vector)) result) ∧
      Guarantees i (w, l) (t, note i l (.walAppend (.insert id vector)) result) ∧
      Recorded env id vector w t result := by
  obtain ⟨entries, next, journal, aligned, writing⟩ := kept.journaled
  have count := recording.count
  have capacity := kept.shelved.attached.count_le
  rw [CAPACITY_eq, SegVec.CAPACITY_eq] at capacity
  unfold World.walAppend at done
  cases isOpen : w.wal with
  | none => rw [isOpen] at done; cases done
  | some wal =>
      obtain ⟨policy, nextLsn, poisoned⟩ := wal
      have before := writing _ isOpen
      have few : nextLsn ≤ id := recording.few _ isOpen
      have known := recording.known _ entries isOpen journal.logs
      have same : Journal env { w.dir with wal := some w.dir.walBytes } entries next :=
        journal.moved rfl rfl
      have still : crew.strict → Aligned env { w.dir with wal := some w.dir.walBytes } entries next :=
        fun strict => (aligned strict).moved rfl
      have equal : crew.strict → nextLsn = id := fun strict => isNew strict _ isOpen
      rw [isOpen] at done
      dsimp only at done
      cases poisoned with
      | true =>
          cases done
          exact kept.unrecorded holds owns recording _ isOpen isRow journal.logs same still (.inl rfl)
            rfl nofun _
      | false =>
          obtain ⟨isNext, whole⟩ := before.healthy rfl
          change nextLsn = next at isNext
          subst isNext
          have room : nextLsn + 1 < 2 ^ 64 := by omega
          have follows : (Wal.payload nextLsn (.insert id vector)).length < 2 ^ 32 →
              Follows entries nextLsn id vector := kept.follows recording journal isOpen rfl
          rcases Wal.append_cases w.fault (.insert id vector) w.dir.walBytes with
            ⟨message, answered⟩ | ⟨size, answered | ⟨message, count, answered⟩⟩
          · rw [answered] at done
            cases done
            exact kept.unrecorded holds owns recording _ isOpen isRow journal.logs same still (.inl rfl)
              rfl before.healthy _
          · rw [answered, whole, Nat.mod_eq_of_lt room] at done
            cases done
            have pushed := journal.push (follows size)
            have writing' : Writing env { w.dir with wal := some (Wal.frames env.hash entries ++
                Wal.frame env.hash nextLsn (.insert id vector)) } w.store.count
                (entries ++ [(nextLsn, .insert id vector)]) (nextLsn + 1)
                ⟨policy, nextLsn + 1, false⟩ := by
              refine ⟨by dsimp only; omega, ?_, ?_⟩
              · intro entry member _
                rcases List.mem_append.mp member with old | new
                · have bound := known entry old (journal.consecutive.lt old)
                  omega
                · rw [List.mem_singleton.mp new]
                  change id < _
                  omega
              · intro _
                refine ⟨rfl, ?_⟩
                rw [Wal.frames_append, Wal.frames_singleton]
                rfl
            have more : Extends env w.dir { w.dir with wal := some (Wal.frames env.hash entries ++
                Wal.frame env.hash nextLsn (.insert id vector)) } :=
              .of_logs journal.logs pushed.logs fun _ member => List.mem_append_left _ member
            have longer : crew.strict → Aligned env { w.dir with wal := some (Wal.frames env.hash entries ++
                Wal.frame env.hash nextLsn (.insert id vector)) }
                (entries ++ [(nextLsn, .insert id vector)]) (nextLsn + 1) := by
              intro strict
              rw [← equal strict]
              exact (aligned strict).push vector rfl
            have records : ∀ lsn x row, (lsn, .insert x row) ∈ entries ++
                [(nextLsn, .insert id vector)] → InLog env w.dir lsn x row ∨ w.row x = row := by
              intro lsn x row member
              rcases List.mem_append.mp member with old | new
              · exact .inl ⟨entries, journal.logs, old⟩
              · cases List.mem_singleton.mp new
                exact .inr isRow
            obtain ⟨after, guarantees⟩ := kept.relog w.faults.tail holds owns
              recording.isOpen pushed longer records writing' (kept.secured.moved rfl rfl more fun _ _ => rfl)
            have backed : Backed env { w.dir with wal := some (Wal.frames env.hash entries ++
                Wal.frame env.hash nextLsn (.insert id vector)) } id (w.row id) := by
              intro len mark marked
              right
              refine ⟨nextLsn, ?_, _, pushed.logs, ?_⟩
              · exact journal.mark_le (marked.moved rfl)
              · rw [isRow]
                exact List.mem_append_right _ (List.mem_singleton_self _)
            refine ⟨after.record backed, guarantees.record holds owner uncoded, ⟨_, _, rfl⟩,
              .inr ⟨nextLsn, rfl, ?_, by rw [isOpen]; rfl⟩⟩
            change acknowledged env { w.dir with wal := some (Wal.frames env.hash entries ++
                Wal.frame env.hash nextLsn (.insert id vector)) }
              (some ⟨policy, nextLsn + 1, false⟩) = acknowledged env w.dir w.wal ++ _
            have all : ∀ entry ∈ entries, decide (entry.1 < nextLsn) = true :=
              fun entry member => decide_eq_true (journal.consecutive.lt member)
            have still : ∀ entry ∈ entries ++ [(nextLsn, WalOp.insert id vector)],
                decide (entry.1 < nextLsn + 1) = true :=
              fun entry member => decide_eq_true (pushed.consecutive.lt member)
            rw [isOpen, acknowledged_eq journal.logs, acknowledged_eq pushed.logs,
              List.filter_eq_self.mpr all, List.filter_eq_self.mpr still]
          · rw [answered, whole] at done
            cases done
            obtain ⟨entries', next', journal', among⟩ := journal.part (follows size) count
            have longer : crew.strict → Aligned env { w.dir with wal := some (Wal.frames env.hash entries ++
                (Wal.frame env.hash nextLsn (.insert id vector)).take count) } entries' next' := by
              intro strict
              rcases among with ⟨rfl, rfl⟩ | ⟨rfl, rfl⟩
              · exact (aligned strict).moved rfl
              · rw [← equal strict]
                exact (aligned strict).push vector rfl
            exact kept.unrecorded holds owns recording ⟨policy, nextLsn, true⟩ isOpen isRow journal.logs
              journal' longer (among.imp And.left And.left) rfl nofun _

/-! ### Snapshots -/

theorem Graphed.len_le {db : Db} {g : Hnsw} {count : Nat} (graphed : Graphed db g count) :
    g.len ≤ count := by
  rcases g.nodes.last with none | some
  · change g.nodes.len ≤ count
    omega
  · have below := graphed.inside _ some
    change g.nodes.len ≤ count
    omega

theorem Graphed.dense {db : Db} {g : Hnsw} {count : Nat} (graphed : Graphed db g count)
    (all : ∀ x < count, (g.nodes.get x).isSome = true) : g.Dense count := by
  refine ⟨?_, fun x => ⟨graphed.inside x, all x⟩⟩
  apply le_antisymm graphed.len_le
  by_cases empty : count = 0
  · rw [empty]
    exact Nat.zero_le _
  · obtain ⟨node, held⟩ := Option.isSome_iff_exists.mp (all (count - 1) (by omega))
    have below : count - 1 < g.len := SegVec.get_lt_len held
    omega

/-- What a checkpoint writes into the snapshot. -/
structure Watermark (w : World) (lsn : Nat) : Prop where
  closed : w.wal = none → lsn = 0
  healthy : ∀ wal, w.wal = some wal → wal.poisoned = false ∧ lsn = wal.nextLsn

theorem Consistent.complete (kept : Consistent env crew w l) (complete : ∀ x, ¬ l.uncoded x) :
    w.index.Dense w.store.count :=
  kept.graphed.dense fun x below => kept.assigned.nodes x below (complete x)

theorem save_isSome {hash : Bytes → Nat} {g : Hnsw} {n : Nat} (dense : g.Dense n) (lsn : Nat) :
    ∃ bytes, g.save hash lsn = some bytes := by
  have present : ∀ x < g.len, (g.nodes.get x).isSome = true := by
    intro x below
    rw [dense.1] at below
    exact (dense.2 x).mpr below
  obtain ⟨nodes, collected, -, -⟩ := Persist.mapM_range present
  unfold Hnsw.save
  rw [collected]
  exact ⟨_, rfl⟩

theorem Consistent.saveIndex (kept : Consistent env crew w l) (holds : w.Holds i .maintenance)
    (complete : ∀ x, ¬ l.uncoded x) (flushed : Flushed w) {lsn : Nat} (mark : Watermark w lsn)
    (even : crew.strict → Even w)
    {result : Result Unit} (done : w.saveIndex env lsn = .ok t result) :
    Consistent env crew t l ∧ Guarantees i (w, l) (t, l) ∧
      (result = .ok () → Flushed t ∧ Sealed env t.dir t.store.count) := by
  have graphed := kept.graphed
  have dense := kept.complete complete
  have length : w.index.len = w.store.count := dense.1
  have capacity := kept.shelved.attached.count_le
  rw [CAPACITY_eq, SegVec.CAPACITY_eq] at capacity
  unfold World.saveIndex at done
  cases saved : w.index.save env.hash lsn with
  | none => rw [saved] at done; cases done
  | some bytes =>
      rw [saved] at done
      obtain ⟨entries, next, journal, aligned, writing⟩ := kept.journaled
      have facts : lsn ≤ next ∧ lsn ≤ w.store.count ∧
          ∀ entry ∈ entries, entry.1 < lsn → Wal.recordId entry < w.store.count := by
        cases isOpen : w.wal with
        | none =>
            rw [mark.closed isOpen]
            exact ⟨Nat.zero_le _, Nat.zero_le _, fun _ _ below => absurd below (Nat.not_lt_zero _)⟩
        | some wal =>
            obtain ⟨healthy, rfl⟩ := mark.healthy wal isOpen
            have before := writing wal isOpen
            exact ⟨(before.healthy healthy).1.le, before.few, before.known⟩
      obtain ⟨lsn_le, few, older⟩ := facts
      rw [← length] at few older
      have m : w.index.config.m ≤ 4096 := by
        rw [graphed.config]
        exact graphed.m
      have sealed : Sealed env { w.dir with snap := some bytes } w.store.count := by
        intro len other marked
        cases marked with
        | fresh noSnap => cases noSnap
        | snapshot image index _ isSnap loaded =>
            cases isSnap
            obtain ⟨rfl, -⟩ := Hnsw.load_saved graphed.layered graphed.moderate m (by omega) saved loaded
            exact length
      have longer : crew.strict → Aligned env { w.dir with snap := some bytes } entries next := by
        intro strict
        obtain ⟨wal, isOpen⟩ := Option.isSome_iff_exists.mp (kept.inStep strict).isOpen
        obtain ⟨healthy, isMark⟩ := mark.healthy wal isOpen
        have isCount := even strict wal isOpen
        have isNext := ((writing wal isOpen).healthy healthy).1
        refine ⟨(aligned strict).lsns, ?_⟩
        intro len other marked
        have isLen := sealed len other marked
        cases marked with
        | fresh noSnap => cases noSnap
        | snapshot image index _ isSnap loaded =>
            cases isSnap
            obtain ⟨-, isLsn⟩ :=
              Hnsw.load_saved graphed.layered graphed.moderate m (by omega) saved loaded
            exact ⟨by omega, by omega⟩
      have journaled : Journaled env crew.strict { w.dir with snap := some bytes } w.wal
          w.store.count := by
        refine ⟨entries, next, journal.saved graphed.layered graphed.moderate m saved (by omega)
          lsn_le few older, longer, ?_⟩
        intro wal isOpen
        have before := writing wal isOpen
        exact ⟨before.few, before.known, before.healthy⟩
      obtain ⟨after, guarantees, store, replaced⟩ := kept.replaceFile holds
        { w.dir with snap := some bytes } rfl rfl journaled (sealed.secured flushed complete) done
      refine ⟨after, guarantees, ?_⟩
      intro isOk
      have dir := replaced.resolve_right fun failed => failed.1 isOk
      unfold Flushed
      rw [dir, store]
      exact ⟨flushed, sealed⟩

theorem Consistent.saveCodebook (kept : Consistent env crew w l) (holds : w.Holds i .maintenance)
    {result : Result Unit} (done : w.saveCodebook env = .ok t result) :
    Consistent env crew t l ∧ Guarantees i (w, l) (t, l) ∧ (Flushed w → Flushed t) := by
  unfold World.saveCodebook at done
  cases trained : w.pq with
  | none =>
      rw [trained] at done
      cases done
      exact ⟨kept, Guarantees.refl i _, id⟩
  | some state =>
      rw [trained] at done
      obtain ⟨dir, isDir⟩ : ∃ dir, dir = { w.dir with
          codebook := some (Pq.saveCodebook env.hash state.pq) } := ⟨_, rfl⟩
      have same : dir.store = w.dir.store ∧ dir.snap = w.dir.snap ∧ dir.wal = w.dir.wal := by
        rw [isDir]
        exact ⟨rfl, rfl, rfl⟩
      have file : dir.file = w.dir.file := congrArg (fun store => Option.getD store _) same.1
      have bytes : dir.walBytes = w.dir.walBytes := congrArg (fun log => Option.getD log []) same.2.2
      have secured : Secured env dir w.row w.store.count l.unlogged l.uncoded :=
        kept.secured.moved (by rw [file]) same.2.1 (.of_eq bytes) fun _ _ => rfl
      change w.replaceFile { w.dir with
        codebook := some (Pq.saveCodebook env.hash state.pq) } = _ at done
      rw [← isDir] at done
      obtain ⟨after, guarantees, store, replaced⟩ := kept.replaceFile holds dir same.1 same.2.2
        (kept.journaled.moved bytes same.2.1 le_rfl) secured done
      refine ⟨after, guarantees, ?_⟩
      intro flushed
      have image : t.dir.file = w.dir.file := by
        rcases replaced with replaced | ⟨-, replaced⟩
        · rw [replaced, file]
        · rw [replaced]
      unfold Flushed
      rw [store, image]
      exact flushed

end Db

end Vektordb
