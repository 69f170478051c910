import Vektordb.Wal.Exact

/-!
Torn writes. The file of a log that only appended and reset is the frames of its records, and
every prefix of it is some of these frames and a part of the next one, so that opening it loses
the torn record and nothing else, and what is appended afterwards is found behind the rest.
-/

namespace Vektordb

open LittleEndian

namespace Wal

variable {hash : Bytes → Nat}

inductive Appends (hash : Bytes → Nat) : Wal → Bytes → List (Nat × WalOp) → Wal → Bytes → Prop
  | nil (wal : Wal) (file : Bytes) : Appends hash wal file [] wal file
  | cons {wal next last : Wal} {file after final : Bytes} {lsn id : Nat} {vector : Row}
      {later : List (Nat × WalOp)} (idFits : id < 2 ^ 64) (lsnFits : lsn < 2 ^ 64 - 1)
      (written : wal.append hash .none (.insert id vector) file = (.ok lsn, next, after))
      (rest : Appends hash next after later last final) :
      Appends hash wal file ((lsn, .insert id vector) :: later) last final

/-- The states of a log that was empty at first, with the records since the last reset. -/
inductive Logged (hash : Bytes → Nat) (policy : SyncPolicy) (start : Nat) :
    Wal → Bytes → List (Nat × WalOp) → Prop
  | empty : Logged hash policy start ⟨policy, start, false⟩ [] []
  | append {wal next : Wal} {file after : Bytes} {entries later : List (Nat × WalOp)}
      (before : Logged hash policy start wal file entries)
      (written : Appends hash wal file later next after) :
      Logged hash policy start next after (entries ++ later)
  | reset {wal next : Wal} {file after : Bytes} {entries : List (Nat × WalOp)}
      (before : Logged hash policy start wal file entries)
      (done : wal.reset .none file = (.ok (), next, after)) : Logged hash policy start next after []

theorem append_spec {wal next : Wal} {file after : Bytes} {op : WalOp} {lsn : Nat}
    (written : wal.append hash .none op file = (.ok lsn, next, after)) :
    wal.poisoned = false ∧ lsn = wal.nextLsn ∧ (payload lsn op).length < 2 ^ 32 ∧
      next = { wal with nextLsn := (lsn + 1) % 2 ^ 64 } ∧ after = file ++ frame hash lsn op := by
  obtain ⟨id, vector⟩ := op
  unfold append ensureHealthy at written
  cases healthy : wal.poisoned with
  | true => simp only [healthy, if_true, Prod.mk.injEq, reduceCtorEq, false_and] at written
  | false =>
      simp only [healthy, Bool.false_eq_true, if_false] at written
      split at written
      · cases written
      · split at written
        · cases written
        · rename_i fits
          cases written
          exact ⟨rfl, rfl, Nat.lt_of_not_le fits, rfl, rfl⟩

theorem append_cases {policy : SyncPolicy} {nextLsn : Nat} (fault : Fault) (op : WalOp)
    (file : Bytes) :
    (∃ message, append hash fault ⟨policy, nextLsn, false⟩ op file =
        (.error (.invalidArgument message), ⟨policy, nextLsn, false⟩, file)) ∨
      (payload nextLsn op).length < 2 ^ 32 ∧
        (append hash fault ⟨policy, nextLsn, false⟩ op file =
            (.ok nextLsn, ⟨policy, (nextLsn + 1) % 2 ^ 64, false⟩, file ++ frame hash nextLsn op) ∨
          ∃ message count, append hash fault ⟨policy, nextLsn, false⟩ op file =
            (.error (.io message), ⟨policy, nextLsn, true⟩,
              file ++ (frame hash nextLsn op).take count)) := by
  obtain ⟨id, vector⟩ := op
  unfold append ensureHealthy
  simp only [Bool.false_eq_true, if_false]
  split
  · exact .inl ⟨_, rfl⟩
  · split
    · exact .inl ⟨_, rfl⟩
    · rename_i fits
      refine .inr ⟨Nat.lt_of_not_le fits, ?_⟩
      cases fault with
      | none => exact .inl rfl
      | write count message => exact .inr ⟨message, count, rfl⟩
      | sync message =>
          dsimp only
          split
          · refine .inr ⟨message, (frame hash nextLsn (.insert id vector)).length, ?_⟩
            rw [List.take_length]
          · exact .inl rfl

theorem Appends.spec {wal last : Wal} {file final : Bytes} {entries : List (Nat × WalOp)}
    (appends : Appends hash wal file entries last final) :
    final = file ++ frames hash entries ∧ (∀ entry ∈ entries, Encodable entry) ∧
      (∀ entry ∈ entries, entry.1 + 1 < 2 ^ 64) ∧ ∀ entry ∈ entries, wal.nextLsn ≤ entry.1 := by
  induction appends with
  | nil wal file => exact ⟨(List.append_nil file).symm, nofun, nofun, nofun⟩
  | @cons wal next last file after final lsn id vector later idFits lsnFits written rest ih =>
      obtain ⟨-, rfl, size, rfl, rfl⟩ := append_spec written
      obtain ⟨whole, encodable, lsns, above⟩ := ih
      refine ⟨?_, fun entry member => ?_, fun entry member => ?_, fun entry member => ?_⟩
      · rw [whole, List.append_assoc]
        rfl
      · rcases List.mem_cons.mp member with rfl | old
        · exact ⟨by dsimp only; omega, fun other row same => by cases same; exact idFits, size⟩
        · exact encodable entry old
      · rcases List.mem_cons.mp member with rfl | old
        · dsimp only
          omega
        · exact lsns entry old
      · rcases List.mem_cons.mp member with rfl | old
        · exact le_rfl
        · have bound := above entry old
          dsimp only at bound
          rw [Nat.mod_eq_of_lt (by omega)] at bound
          omega

theorem Logged.spec {policy : SyncPolicy} {start : Nat} {wal : Wal} {file : Bytes}
    {entries : List (Nat × WalOp)} (logged : Logged hash policy start wal file entries) :
    file = frames hash entries ∧ (∀ entry ∈ entries, Encodable entry) ∧
      ∀ entry ∈ entries, entry.1 + 1 < 2 ^ 64 := by
  induction logged with
  | empty => exact ⟨rfl, nofun, nofun⟩
  | append _ written ih =>
      obtain ⟨rfl, encodable, lsns⟩ := ih
      obtain ⟨rfl, encodableLater, lsnsLater, -⟩ := written.spec
      refine ⟨(frames_append ..).symm, fun entry member => ?_, fun entry member => ?_⟩
      · exact (List.mem_append.mp member).elim (encodable entry) (encodableLater entry)
      · exact (List.mem_append.mp member).elim (lsns entry) (lsnsLater entry)
  | reset _ done _ =>
      refine ⟨?_, nofun, nofun⟩
      unfold Wal.reset at done
      split at done
      · cases done
      · cases done
        rfl

/-- Where a cut falls among the frames. -/
theorem take_frames {entries : List (Nat × WalOp)} (count : Nat)
    (inside : count ≤ (frames hash entries).length) :
    ∃ n ≤ entries.length, (frames hash (entries.take n)).length ≤ count ∧
      ((n = entries.length ∧ (frames hash entries).take count = frames hash entries) ∨
        ∃ entry, entries[n]? = some entry ∧
          count < (frames hash (entries.take (n + 1))).length ∧
          count - (frames hash (entries.take n)).length <
            (frame hash entry.1 entry.2).length ∧
          (frames hash entries).take count = frames hash (entries.take n) ++
            (frame hash entry.1 entry.2).take (count - (frames hash (entries.take n)).length)) := by
  induction entries generalizing count with
  | nil => exact ⟨0, le_rfl, Nat.zero_le _, .inl ⟨rfl, List.take_nil⟩⟩
  | cons entry tail ih =>
      have parts : frames hash (entry :: tail) = frame hash entry.1 entry.2 ++ frames hash tail := rfl
      by_cases first : count < (frame hash entry.1 entry.2).length
      · refine ⟨0, Nat.zero_le _, Nat.zero_le _, .inr ⟨entry, rfl, ?_, first, ?_⟩⟩
        · rw [List.take_succ_cons, List.take_zero, frames_singleton]
          exact first
        · rw [parts, List.take_append_of_le_length first.le]
          rfl
      · rw [parts, List.length_append] at inside
        obtain ⟨n, le, below, cut⟩ := ih (count - (frame hash entry.1 entry.2).length)
          (by omega)
        have front : frames hash ((entry :: tail).take (n + 1)) =
            frame hash entry.1 entry.2 ++ frames hash (tail.take n) := rfl
        have taken : (frames hash (entry :: tail)).take count = frame hash entry.1 entry.2 ++
            (frames hash tail).take (count - (frame hash entry.1 entry.2).length) := by
          rw [parts, List.take_append, List.take_of_length_le (by omega)]
        refine ⟨n + 1, Nat.succ_le_succ le, by rw [front, List.length_append]; omega, ?_⟩
        rcases cut with ⟨all, whole⟩ | ⟨next, at_, above, short, whole⟩
        · exact .inl ⟨by rw [all]; rfl, by rw [taken, whole]; rfl⟩
        · refine .inr ⟨next, at_, ?_, ?_, ?_⟩
          · rw [show frames hash ((entry :: tail).take (n + 1 + 1)) =
              frame hash entry.1 entry.2 ++ frames hash (tail.take (n + 1)) from rfl,
              List.length_append]
            omega
          · rw [front, List.length_append]
            omega
          · rw [taken, whole, front, List.append_assoc, List.length_append, Nat.sub_sub]

/-- Every byte prefix of a log opens with the records whose frames lie wholly inside it, and what
is appended afterwards is found behind them. -/
theorem open_prefix (small : ∀ bytes, hash bytes < 2 ^ 32) {policy : SyncPolicy} {start : Nat}
    {wal : Wal} {file : Bytes} {entries : List (Nat × WalOp)}
    (logged : Logged hash policy start wal file entries) {count : Nat}
    (inside : count ≤ file.length) (reopened : SyncPolicy) :
    ∃ n ≤ entries.length, (frames hash (entries.take n)).length ≤ count ∧
      (n < entries.length → count < (frames hash (entries.take (n + 1))).length) ∧
      ∃ found, Wal.open hash reopened (file.take count) =
          (.ok (found, entries.take n), frames hash (entries.take n)) ∧
        ∀ later last final, Appends hash found (frames hash (entries.take n)) later last final →
          (∃ again, Wal.open hash reopened final = (.ok (again, entries.take n ++ later), final)) ∧
          ∀ old ∈ entries.take n, ∀ new ∈ later, old.1 < new.1 := by
  obtain ⟨rfl, encodable, lsns⟩ := logged.spec
  obtain ⟨n, le, below, cut⟩ := take_frames count inside
  have kept : ∀ entry ∈ entries.take n, Encodable entry := fun entry member =>
    encodable entry (List.mem_of_mem_take member)
  have keptLsns : ∀ entry ∈ entries.take n, entry.1 + 1 < 2 ^ 64 := fun entry member =>
    lsns entry (List.mem_of_mem_take member)
  have opened : Wal.open hash reopened ((frames hash entries).take count) =
      (.ok (⟨reopened, nextAfter 0 (entries.take n), false⟩, entries.take n),
        frames hash (entries.take n)) := by
    rcases cut with ⟨all, whole⟩ | ⟨entry, at_, -, short, whole⟩
    · rw [whole, all, List.take_length]
      exact open_frames small reopened encodable lsns
    · rw [whole]
      exact open_torn small reopened kept keptLsns
        (encodable entry (List.mem_of_getElem? at_)) _ short
  refine ⟨n, le, below, fun more => ?_, _, opened, fun later last final appends => ?_⟩
  · rcases cut with ⟨all, -⟩ | ⟨-, -, above, -⟩
    · omega
    · exact above
  · obtain ⟨rfl, encodableLater, lsnsLater, above⟩ := appends.spec
    refine ⟨?_, fun old member new among => ?_⟩
    · rw [← frames_append]
      refine ⟨_, open_frames small reopened (fun entry member => ?_) fun entry member => ?_⟩
      · exact (List.mem_append.mp member).elim (kept entry) (encodableLater entry)
      · exact (List.mem_append.mp member).elim (keptLsns entry) (lsnsLater entry)
    · have least := above new among
      dsimp only at least
      rcases nextAfter_spec (entries.take n) with ⟨empty, -⟩ | ⟨entry, -, next, largest⟩
      · rw [empty] at member
        cases member
      · have le := largest old member
        omega

theorem open_prefix_chopped :
    let first : Nat × WalOp := (5, .insert 0 [F32.ofNat 0x3F800000])
    let second : Nat × WalOp := (6, .insert 1 [F32.ofNat 0x40000000])
    ∃ found, Wal.open Crc32.hash .always ((frames Crc32.hash [first, second]).take 59) =
      (.ok (found, [first]), frames Crc32.hash [first]) := by
  intro first second
  have written : (⟨.always, 5, false⟩ : Wal).append Crc32.hash .none first.2 [] =
      (.ok 5, ⟨.always, 6, false⟩, frames Crc32.hash [first]) := by decide +kernel
  have again : (⟨.always, 6, false⟩ : Wal).append Crc32.hash .none second.2
      (frames Crc32.hash [first]) =
      (.ok 6, ⟨.always, 7, false⟩, frames Crc32.hash [first, second]) := by decide +kernel
  have logged : Logged Crc32.hash .always 5 ⟨.always, 7, false⟩ (frames Crc32.hash [first, second])
      [first, second] :=
    Logged.empty.append (.cons (by decide) (by decide) written
      (.cons (by decide) (by decide) again (.nil _ _)))
  have lengths : (frames Crc32.hash [first, second]).length = 66 ∧
      (frames Crc32.hash [first]).length = 33 := by decide +kernel
  have inside : 59 ≤ (frames Crc32.hash [first, second]).length := by omega
  obtain ⟨n, le, fits, cut, found, opened, -⟩ :=
    open_prefix Crc32.hash_lt logged inside .always
  have one : n = 1 := by
    have bound : n ≤ 2 := le
    rcases n with _ | _ | _ | n
    · have short : 59 < (frames Crc32.hash [first]).length := cut (by decide)
      omega
    · rfl
    · have long : (frames Crc32.hash [first, second]).length ≤ 59 := fits
      omega
    · omega
  subst one
  exact ⟨found, opened⟩

end Wal

end Vektordb
