import Vektordb.Db.Coverage

/-!
The log of an open database. Its counter and its file agree as long as no write has failed; and if
every row has gone through it since the store was created, the LSN of a record is the id of its row
and no id is missing between the snapshot and the last record.
-/

namespace Vektordb

open Interaction LittleEndian

namespace Db

variable {env : Env} {dir after : Directory} {entries : List (Nat × WalOp)} {next : Nat}

/-! ### A log of every row -/

/-- LSNs are ids, and the records begin where the snapshot ends, or before. -/
structure Aligned (env : Env) (dir : Directory) (entries : List (Nat × WalOp)) (next : Nat) : Prop where
  lsns : ∀ entry ∈ entries, entry.1 = Wal.recordId entry
  marks : ∀ len mark, Mark env dir len mark → mark = len ∧ next ≤ len + entries.length

theorem Aligned.moved (aligned : Aligned env dir entries next) (snap : after.snap = dir.snap) :
    Aligned env after entries next :=
  ⟨aligned.lsns, fun len mark marked => aligned.marks len mark (marked.moved snap)⟩

theorem Aligned.push (aligned : Aligned env dir entries next) (vector : Row)
    (snap : after.snap = dir.snap) :
    Aligned env after (entries ++ [(next, .insert next vector)]) (next + 1) := by
  constructor
  case lsns =>
      intro entry member
      rcases List.mem_append.mp member with old | new
      · exact aligned.lsns entry old
      · rw [List.mem_singleton.mp new]
        rfl
  case marks =>
      intro len mark marked
      obtain ⟨same, covered⟩ := aligned.marks len mark (marked.moved snap)
      rw [List.length_append, List.length_singleton]
      exact ⟨same, by omega⟩

theorem Aligned.reset (aligned : Aligned env dir entries next) (snap : after.snap = dir.snap)
    (covered : ∀ len mark, Mark env dir len mark → next ≤ len) : Aligned env after [] next := by
  refine ⟨nofun, ?_⟩
  intro len mark marked
  have before := marked.moved snap
  exact ⟨(aligned.marks len mark before).1, covered len mark before⟩

/-! ### An open log -/

/-- What the open log and the file have in common, when the store has `count` rows. -/
structure Writing (env : Env) (dir : Directory) (count : Nat) (entries : List (Nat × WalOp))
    (next : Nat) (wal : Wal) : Prop where
  few : wal.nextLsn ≤ count
  known : ∀ entry ∈ entries, entry.1 < wal.nextLsn → Wal.recordId entry < count
  healthy : wal.poisoned = false →
    wal.nextLsn = next ∧ dir.walBytes = Wal.frames env.hash entries

/-- The log of an open database; a strict one has had every row. -/
def Journaled (env : Env) (strict : Prop) (dir : Directory) (log : Option Wal) (count : Nat) : Prop :=
  ∃ entries next, Journal env dir entries next ∧ (strict → Aligned env dir entries next) ∧
    ∀ wal, log = some wal → Writing env dir count entries next wal

variable {strict : Prop} {log : Option Wal} {count : Nat}

theorem Journaled.moved (journaled : Journaled env strict dir log count)
    (bytes : after.walBytes = dir.walBytes) (snap : after.snap = dir.snap) {more : Nat}
    (le : count ≤ more) : Journaled env strict after log more := by
  obtain ⟨entries, next, journal, aligned, writing⟩ := journaled
  refine ⟨entries, next, journal.moved bytes snap, fun isStrict => (aligned isStrict).moved snap, ?_⟩
  intro wal isOpen
  have before := writing wal isOpen
  refine ⟨before.few.trans le, ?_, ?_⟩
  · intro entry member acked
    exact (before.known entry member acked).trans_le le
  · intro healthy
    obtain ⟨same, whole⟩ := before.healthy healthy
    exact ⟨same, bytes.trans whole⟩

theorem Journaled.weaken {other : Prop} (journaled : Journaled env strict dir log count)
    (weaker : other → strict) : Journaled env other dir log count := by
  obtain ⟨entries, next, journal, aligned, writing⟩ := journaled
  exact ⟨entries, next, journal, fun holds => aligned (weaker holds), writing⟩

/-- The records in the file of an open log below its counter. -/
def acknowledged (env : Env) (dir : Directory) : Option Wal → List (Nat × WalOp)
  | none => []
  | some wal =>
      match Wal.open env.hash wal.policy dir.walBytes with
      | (.ok (_, records), _) => records.filter fun entry => entry.1 < wal.nextLsn
      | (.error _, _) => []

theorem acknowledged_eq (logs : Logs env.hash dir.walBytes entries) (wal : Wal) :
    acknowledged env dir (some wal) = entries.filter fun entry => entry.1 < wal.nextLsn := by
  unfold acknowledged
  dsimp only
  rw [logs.opens env.hash_lt wal.policy]

theorem Journaled.stored (journaled : Journaled env strict dir log count) (file : StoreFile) :
    Journaled env strict { dir with store := some file } log count := by
  apply journaled.moved
  · rfl
  · rfl
  · exact le_rfl

end Db

end Vektordb
