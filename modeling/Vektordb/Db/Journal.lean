import Vektordb.Db.Recovery
import Vektordb.Hnsw.Reload

/-!
The log and the snapshot of a directory, side by side. The records have consecutive LSNs and
increasing ids, no LSN is above its id, and a snapshot names an LSN that is not ahead of the log and
covers the records below it. Appending a record, whole or in part, saving the index and emptying
the log keep this.
-/

namespace Vektordb

open Interaction LittleEndian

namespace Db

/-- The LSNs of the records, one after the other, are the last ones before `next`. -/
def Consecutive (next : Nat) (entries : List (Nat × WalOp)) : Prop :=
  entries.length ≤ next ∧
    entries.map Prod.fst = List.range' (next - entries.length) entries.length

variable {entries : List (Nat × WalOp)} {next : Nat}

theorem consecutive_nil (next : Nat) : Consecutive next [] := ⟨Nat.zero_le _, rfl⟩

theorem Consecutive.push (consecutive : Consecutive next entries) (op : WalOp) :
    Consecutive (next + 1) (entries ++ [(next, op)]) := by
  obtain ⟨few, lsns⟩ := consecutive
  have length : (entries ++ [(next, op)]).length = entries.length + 1 := List.length_append
  refine ⟨by omega, ?_⟩
  rw [length, List.map_append, lsns, List.map_singleton, Nat.add_sub_add_right,
    List.range'_1_concat, Nat.sub_add_cancel few]

theorem Consecutive.lt (consecutive : Consecutive next entries) {entry : Nat × WalOp}
    (member : entry ∈ entries) : entry.1 < next := by
  have listed : entry.1 ∈ entries.map Prod.fst := List.mem_map_of_mem member
  rw [consecutive.2, List.mem_range'_1] at listed
  have few := consecutive.1
  omega

theorem Consecutive.nextAfter (consecutive : Consecutive next entries) (some : entries ≠ []) :
    Wal.nextAfter 0 entries = next := by
  have last : next - 1 ∈ entries.map Prod.fst := by
    have positive := List.length_pos_of_ne_nil some
    have few := consecutive.1
    rw [consecutive.2, List.mem_range'_1]
    omega
  obtain ⟨entry, member, isLast⟩ := List.mem_map.mp last
  rcases Wal.nextAfter_spec entries with ⟨empty, -⟩ | ⟨top, isTop, after, most⟩
  · exact absurd empty some
  · have bound := most entry member
    have below := consecutive.lt isTop
    have above := consecutive.lt member
    omega

/-! ### A directory -/

/-- A snapshot that was taken when the counter of the log stood at `lsn`. -/
structure Snapped (entries : List (Nat × WalOp)) (next : Nat) (index : Hnsw) (lsn : Nat) : Prop where
  layered : index.Layered
  moderate : index.Moderate
  lsn_le : lsn ≤ next
  covers : lsn ≤ index.len
  older : ∀ entry ∈ entries, entry.1 < lsn → Wal.recordId entry < index.len

structure Journal (env : Env) (dir : Directory) (entries : List (Nat × WalOp)) (next : Nat) : Prop where
  logs : Logs env.hash dir.walBytes entries
  consecutive : Consecutive next entries
  ordered : entries.Pairwise fun left right => Wal.recordId left < Wal.recordId right
  late : ∀ entry ∈ entries, entry.1 ≤ Wal.recordId entry
  snap : ∀ bytes index lsn, dir.snap = some bytes → Hnsw.load env.hash bytes = .ok (index, lsn) →
    Snapped entries next index lsn

variable {env : Env} {dir after : Directory}

theorem Journal.moved (journal : Journal env dir entries next) (wal : after.walBytes = dir.walBytes)
    (snap : after.snap = dir.snap) : Journal env after entries next := by
  refine { journal with logs := ?_, snap := ?_ }
  · rw [wal]
    exact journal.logs
  · intro bytes index lsn isSnap
    exact journal.snap bytes index lsn (snap.symm.trans isSnap)

theorem journal_empty (env : Env) : Journal env ⟨none, none, none, none⟩ [] 0 :=
  ⟨Logs.empty env.hash, consecutive_nil 0, List.Pairwise.nil, nofun, nofun⟩

theorem Logs.unique {hash : Bytes → Nat} (small : ∀ bytes, hash bytes < 2 ^ 32) {bytes : Bytes}
    {other : List (Nat × WalOp)} (logs : Logs hash bytes entries) (same : Logs hash bytes other) :
    entries = other := by
  have read := (logs.opens small .always).symm.trans (same.opens small .always)
  exact (Prod.mk.inj (Except.ok.inj (Prod.mk.inj read).1)).2

theorem Journal.cut (journal : Journal env dir entries next) :
    Journal env { dir with wal := some (Wal.frames env.hash entries) } entries next :=
  { journal with
    logs := Logs.whole journal.logs.encodable journal.logs.lsns
    snap := journal.snap }

theorem Journal.reset (journal : Journal env dir entries next) :
    Journal env { dir with wal := some [] } [] next where
  logs := Logs.empty env.hash
  consecutive := consecutive_nil next
  ordered := List.Pairwise.nil
  late := nofun
  snap bytes index lsn isSnap loaded :=
    { journal.snap bytes index lsn isSnap loaded with older := nofun }

structure Follows (entries : List (Nat × WalOp)) (next id : Nat) (vector : Row) : Prop where
  encodable : Wal.Encodable (next, .insert id vector)
  fits : next + 1 < 2 ^ 64
  late : next ≤ id
  above : ∀ entry ∈ entries, Wal.recordId entry < id

theorem Journal.push (journal : Journal env dir entries next) {id : Nat} {vector : Row}
    (follows : Follows entries next id vector) :
    Journal env { dir with wal := some (Wal.frames env.hash entries ++
      Wal.frame env.hash next (.insert id vector)) } (entries ++ [(next, .insert id vector)])
      (next + 1) := by
  have among : ∀ entry, entry ∈ entries ++ [(next, .insert id vector)] →
      entry ∈ entries ∨ entry = (next, .insert id vector) := fun entry member =>
    (List.mem_append.mp member).imp_right List.mem_singleton.mp
  constructor
  case logs =>
      change Logs env.hash (Wal.frames env.hash entries ++ Wal.frame env.hash next _) _
      rw [show Wal.frames env.hash entries ++ Wal.frame env.hash next (.insert id vector) =
        Wal.frames env.hash (entries ++ [(next, .insert id vector)]) by
          rw [Wal.frames_append, Wal.frames_singleton]]
      apply Logs.whole
      · intro entry member
        rcases among entry member with old | rfl
        · exact journal.logs.encodable entry old
        · exact follows.encodable
      · intro entry member
        rcases among entry member with old | rfl
        · exact journal.logs.lsns entry old
        · exact follows.fits
  case consecutive => exact journal.consecutive.push _
  case ordered =>
      rw [List.pairwise_append]
      refine ⟨journal.ordered, List.pairwise_singleton _ _, ?_⟩
      intro old member new isNew
      rw [List.mem_singleton.mp isNew]
      exact follows.above old member
  case late =>
      intro entry member
      rcases among entry member with old | rfl
      · exact journal.late entry old
      · exact follows.late
  case snap =>
      intro bytes index lsn isSnap loaded
      have snapped := journal.snap bytes index lsn isSnap loaded
      refine { snapped with lsn_le := snapped.lsn_le.trans (Nat.le_succ next), older := ?_ }
      intro entry member below
      rcases among entry member with old | rfl
      · exact snapped.older entry old below
      · exact absurd below (Nat.not_lt.mpr snapped.lsn_le)

/-- A part of one more record. -/
theorem Journal.part (journal : Journal env dir entries next) {id : Nat} {vector : Row}
    (follows : Follows entries next id vector) (count : Nat) :
    ∃ entries' next', Journal env { dir with wal := some (Wal.frames env.hash entries ++
      (Wal.frame env.hash next (.insert id vector)).take count) } entries' next' ∧
      (entries' = entries ∧ next' = next ∨
        entries' = entries ++ [(next, .insert id vector)] ∧ next' = next + 1) := by
  by_cases short : count < (Wal.frame env.hash next (.insert id vector)).length
  · refine ⟨entries, next, ?_, .inl ⟨rfl, rfl⟩⟩
    exact { journal with
      logs := ⟨journal.logs.encodable, journal.logs.lsns, (next, .insert id vector), count,
        follows.encodable, short, rfl⟩
      snap := journal.snap }
  · refine ⟨_, next + 1, ?_, .inr ⟨rfl, rfl⟩⟩
    rw [List.take_of_length_le (Nat.le_of_not_lt short)]
    exact journal.push follows

theorem Journal.saved (journal : Journal env dir entries next) {g : Hnsw} {lsn : Nat} {bytes : Bytes}
    (layered : g.Layered) (moderate : g.Moderate) (m : g.config.m ≤ 4096)
    (saved : g.save env.hash lsn = some bytes) (small : lsn < 2 ^ 64) (lsn_le : lsn ≤ next)
    (covers : lsn ≤ g.len)
    (older : ∀ entry ∈ entries, entry.1 < lsn → Wal.recordId entry < g.len) :
    Journal env { dir with snap := some bytes } entries next := by
  refine { journal with snap := ?_ }
  intro other index l isSnap loaded
  cases isSnap
  obtain ⟨rfl, rfl⟩ := Hnsw.load_saved layered moderate m small saved loaded
  exact ⟨⟨layered.links, layered.levels, layered.entry⟩, moderate, lsn_le, covers, older⟩

end Db

end Vektordb
