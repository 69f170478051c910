import Vektordb.Db.Journal

/-!
Which rows a directory brings back when it is opened. The snapshot covers the ids below its length,
and the log those of the records that are not older than the snapshot; the count in the header of
the store is never behind the snapshot, so no row below it comes from a record alone.
-/

namespace Vektordb

open Interaction LittleEndian VectorStore

namespace Db

/-- The length of the index in the snapshot, and the LSN from which the log is replayed. -/
inductive Mark (env : Env) (dir : Directory) : Nat → Nat → Prop
  | fresh (noSnap : dir.snap = none) : Mark env dir 0 0
  | snapshot (bytes : Bytes) (index : Hnsw) (lsn : Nat) (isSnap : dir.snap = some bytes)
      (loaded : Hnsw.load env.hash bytes = .ok (index, lsn)) : Mark env dir index.len lsn

def InLog (env : Env) (dir : Directory) (lsn id : Nat) (vector : Row) : Prop :=
  ∃ entries, Logs env.hash dir.walBytes entries ∧ (lsn, WalOp.insert id vector) ∈ entries

/-- A row that is there after opening, unless the directory cannot be opened. -/
def Backed (env : Env) (dir : Directory) (id : Nat) (row : Row) : Prop :=
  ∀ len mark, Mark env dir len mark → id < len ∨ ∃ lsn, mark ≤ lsn ∧ InLog env dir lsn id row

variable {env : Env} {dir after : Directory} {rows rows' : Nat → Row} {count : Nat}
  {unlogged uncoded : Nat → Prop}

theorem Mark.moved {len mark : Nat} (marked : Mark env after len mark) (snap : after.snap = dir.snap) :
    Mark env dir len mark := by
  cases marked with
  | fresh noSnap => exact .fresh (snap.symm.trans noSnap)
  | snapshot bytes index _ isSnap loaded =>
      exact .snapshot bytes index mark (snap.symm.trans isSnap) loaded

theorem Journal.mark_le {entries : List (Nat × WalOp)} {next len mark : Nat}
    (journal : Journal env dir entries next) (marked : Mark env dir len mark) : mark ≤ next := by
  cases marked with
  | fresh noSnap => exact Nat.zero_le _
  | snapshot bytes index _ isSnap loaded => exact (journal.snap bytes index mark isSnap loaded).lsn_le

def Extends (env : Env) (dir after : Directory) : Prop :=
  ∀ lsn id vector, InLog env dir lsn id vector → InLog env after lsn id vector

theorem Extends.of_eq (same : after.walBytes = dir.walBytes) : Extends env dir after := by
  rintro lsn id vector ⟨entries, logs, member⟩
  exact ⟨entries, same ▸ logs, member⟩

theorem Extends.of_logs {entries more : List (Nat × WalOp)} (logs : Logs env.hash dir.walBytes entries)
    (others : Logs env.hash after.walBytes more) (front : ∀ entry ∈ entries, entry ∈ more) :
    Extends env dir after := by
  rintro lsn id vector ⟨same, logged, member⟩
  obtain rfl := Logs.unique env.hash_lt logs logged
  exact ⟨more, others, front _ member⟩

theorem Backed.moved {id : Nat} {row : Row} (covered : Backed env dir id row)
    (snap : after.snap = dir.snap) (more : Extends env dir after) : Backed env after id row := by
  intro len mark marked
  refine (covered len mark (marked.moved snap)).imp_right ?_
  rintro ⟨lsn, le, recorded⟩
  exact ⟨lsn, le, more lsn id row recorded⟩

/-- What a directory keeps of the rows of the open database. -/
structure Secured (env : Env) (dir : Directory) (rows : Nat → Row) (count : Nat)
    (unlogged uncoded : Nat → Prop) : Prop where
  covered : ∀ x < count, ¬ unlogged x → Backed env dir x (rows x)
  counted : ∀ x < headerCount dir.file.image, x < count ∧ ¬ uncoded x
  ahead : ∀ len mark, Mark env dir len mark → len ≤ headerCount dir.file.image

theorem Secured.moved (secured : Secured env dir rows count unlogged uncoded)
    (header : headerCount after.file.image = headerCount dir.file.image)
    (snap : after.snap = dir.snap) (more : Extends env dir after)
    (same : ∀ x < count, rows' x = rows x) : Secured env after rows' count unlogged uncoded := by
  constructor
  case covered =>
      intro x below logged
      rw [same x below]
      exact (secured.covered x below logged).moved snap more
  case counted =>
      rw [header]
      exact secured.counted
  case ahead =>
      intro len mark marked
      rw [header]
      exact secured.ahead len mark (marked.moved snap)

theorem Secured.enter (secured : Secured env dir rows count unlogged uncoded) :
    Secured env dir rows (count + 1) (fun x => x = count ∨ unlogged x)
      fun x => x = count ∨ uncoded x := by
  constructor
  case covered =>
      intro x below logged
      obtain ⟨different, before⟩ := not_or.mp logged
      exact secured.covered x (by omega) before
  case counted =>
      intro x counted
      obtain ⟨below, coded⟩ := secured.counted x counted
      exact ⟨by omega, not_or.mpr ⟨below.ne, coded⟩⟩
  case ahead => exact secured.ahead

theorem Secured.retract {id : Nat} (secured : Secured env dir rows count unlogged uncoded)
    (last : count = id + 1) (uncodedLast : uncoded id) :
    Secured env dir rows id (fun x => x ≠ id ∧ unlogged x) fun x => x ≠ id ∧ uncoded x := by
  constructor
  case covered =>
      intro x below logged
      exact secured.covered x (by omega) fun before => logged ⟨below.ne, before⟩
  case counted =>
      intro x counted
      obtain ⟨below, coded⟩ := secured.counted x counted
      have apart : x ≠ id := by
        rintro rfl
        exact coded uncodedLast
      exact ⟨by omega, fun both => coded both.2⟩
  case ahead => exact secured.ahead

theorem Secured.coded {fewer : Nat → Prop} (secured : Secured env dir rows count unlogged uncoded)
    (coded : ∀ x, fewer x → uncoded x) : Secured env dir rows count unlogged fewer :=
  ⟨secured.covered, fun x counted => ⟨(secured.counted x counted).1,
    fun left => (secured.counted x counted).2 (coded x left)⟩, secured.ahead⟩

theorem Secured.record {id : Nat} (secured : Secured env dir rows count unlogged uncoded)
    (backed : Backed env dir id (rows id)) :
    Secured env dir rows count (fun x => x ≠ id ∧ unlogged x) uncoded := by
  refine ⟨?_, secured.counted, secured.ahead⟩
  intro x below logged
  by_cases same : x = id
  · rw [same]
    exact backed
  · exact secured.covered x below fun before => logged ⟨same, before⟩

theorem Secured.flushed (secured : Secured env dir rows count unlogged uncoded)
    (header : headerCount after.file.image = count) (snap : after.snap = dir.snap)
    (more : Extends env dir after) (complete : ∀ x, ¬ uncoded x) :
    Secured env after rows count unlogged uncoded := by
  constructor
  case covered => exact fun x below logged => (secured.covered x below logged).moved snap more
  case counted =>
      rw [header]
      exact fun x below => ⟨below, complete x⟩
  case ahead =>
      intro len mark marked
      rw [header]
      apply le_trans (secured.ahead len mark (marked.moved snap))
      by_contra more
      exact absurd (secured.counted count (Nat.lt_of_not_le more)).1 (lt_irrefl _)

/-- A snapshot covers every row, if it can be loaded. -/
def Sealed (env : Env) (dir : Directory) (count : Nat) : Prop :=
  ∀ len mark, Mark env dir len mark → len = count

theorem Sealed.secured (sealed : Sealed env dir count)
    (header : headerCount dir.file.image = count) (complete : ∀ x, ¬ uncoded x) :
    Secured env dir rows count unlogged uncoded := by
  constructor
  case covered =>
      intro x below _ len mark marked
      rw [sealed len mark marked]
      exact .inl below
  case counted =>
      rw [header]
      exact fun x below => ⟨below, complete x⟩
  case ahead =>
      intro len mark marked
      rw [header, sealed len mark marked]

end Db

end Vektordb
