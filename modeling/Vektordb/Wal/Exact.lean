import Vektordb.Wal.Log

/-!
Decoding is exact. Whatever a scan accepts is the encoding of the records that it returns, what
it cuts off could not have been a whole frame, and scanning the rest again changes nothing.
-/

namespace Vektordb

open LittleEndian

namespace Wal

variable {hash : Bytes → Nat}

/-! ### One record -/

theorem readOp_sound {bytes : Bytes} {entry : Nat × WalOp} (found : readOp bytes = .ok entry)
    (small : bytes.length < 2 ^ 32) :
    payload entry.1 entry.2 = bytes ∧ Encodable entry := by
  unfold readOp at found
  split at found
  · rename_i tag
    split at found
    · cases found
    · rename_i long
      dsimp only at found
      split at found
      · cases found
      · rename_i sized
        have length : bytes.length = 21 + decode ((bytes.drop 17).take 4) * 4 := not_not.mp sized
        cases found
        have lsn := encode_decode_take 8 bytes (by omega)
        have id := encode_decode_take 8 (bytes.drop 9)
          (by rw [List.length_drop]; omega)
        have dim := encode_decode_take 4 (bytes.drop 17)
          (by rw [List.length_drop]; omega)
        have row : Row.toLeBytes (Row.ofLeBytes (decode ((bytes.drop 17).take 4))
            (bytes.drop 21)) = bytes.drop 21 :=
          Row.toLeBytes_ofLeBytes (by rw [List.length_drop]; omega)
        have afterTag : OP_INSERT :: bytes.drop 9 = bytes.drop 8 := by
          cases rest : bytes.drop 8 with
          | nil => rw [rest] at tag; cases tag
          | cons head tail =>
              rw [rest] at tag
              have next : bytes.drop 9 = tail := by
                rw [show 9 = 8 + 1 from rfl, ← List.drop_drop, rest]
                rfl
              rw [next]
              exact congrArg (· :: tail) (Option.some.inj tag).symm
        have parts : payload (decode (bytes.take 8)) (.insert (decode ((bytes.drop 9).take 8))
            (Row.ofLeBytes (decode ((bytes.drop 17).take 4)) (bytes.drop 21))) = bytes := by
          unfold payload opBytes
          dsimp only
          rw [lsn, id, Row.ofLeBytes_length, dim, row]
          calc bytes.take 8 ++ OP_INSERT :: ((bytes.drop 9).take 8 ++
                ((bytes.drop 17).take 4 ++ bytes.drop 21))
              = bytes.take 8 ++ OP_INSERT :: ((bytes.drop 9).take 8 ++ bytes.drop 17) := by
                rw [show bytes.drop 21 = (bytes.drop 17).drop 4 by rw [List.drop_drop],
                  List.take_append_drop]
            _ = bytes.take 8 ++ OP_INSERT :: bytes.drop 9 := by
                rw [show bytes.drop 17 = (bytes.drop 9).drop 8 by rw [List.drop_drop],
                  List.take_append_drop]
            _ = bytes := by rw [afterTag, List.take_append_drop]
        refine ⟨parts, ?_, fun id vector same => ?_, ?_⟩
        · exact decode_take_lt 8 bytes
        · cases same
          exact decode_take_lt 8 (bytes.drop 9)
        · dsimp only
          rw [parts]
          exact small
  · cases found

/-- What cannot be a whole frame: less than a header, a bare header that declares less than any
record has, or a header that declares more than there is. -/
def Torn (tail : Bytes) : Prop :=
  tail.length < 8 ∨ (tail.length = 8 ∧ decode (tail.take 4) < 9) ∨
    (8 ≤ tail.length ∧ tail.length < 8 + decode (tail.take 4))

/-- All that reading one record can find, at a position inside the file. -/
theorem readRecord_sound (hash : Bytes → Nat) {file : Bytes} {pos : Nat} (inside : pos ≤ file.length) :
    (∀ consumed lsn op, readRecord hash (file.drop pos) file.length pos = .record consumed lsn op →
      file.drop pos = frame hash lsn op ++ file.drop (pos + consumed) ∧
        consumed = (frame hash lsn op).length ∧ pos + consumed ≤ file.length ∧
        Encodable (lsn, op)) ∧
    (readRecord hash (file.drop pos) file.length pos = .stopped .eof → file.drop pos = []) ∧
    (readRecord hash (file.drop pos) file.length pos = .stopped .torn → Torn (file.drop pos)) := by
  have length : (file.drop pos).length = file.length - pos := List.length_drop
  generalize rest : file.drop pos = reader at length
  unfold readRecord
  dsimp only
  split
  · rename_i atEnd
    refine ⟨nofun, fun _ => ?_,
      nofun⟩
    exact List.length_eq_zero_iff.mp (by omega)
  · split
    · exact ⟨nofun, nofun,
        fun _ => .inl (by omega)⟩
    · split
      · exact ⟨nofun, nofun,
          fun _ => .inl (by omega)⟩
      · split
        · rename_i short
          refine ⟨nofun, fun impossible => ?_, fun stops => ?_⟩
          · split at impossible <;> cases impossible
          · split at stops
            · exact .inr (.inl ⟨by omega, short⟩)
            · cases stops
        · split
          · exact ⟨nofun,
              nofun, fun _ => .inr (.inr ⟨by omega, by omega⟩)⟩
          · split
            · rename_i fits cut
              rw [List.length_drop] at cut
              omega
            · split
              · exact ⟨nofun,
                  nofun, nofun⟩
              · rename_i short outside cut crc
                split
                · exact ⟨nofun,
                    nofun, nofun⟩
                · rename_i lsn op found
                  refine ⟨fun consumed lsn' op' same => ?_, nofun,
                    nofun⟩
                  cases same
                  have lenBound : decode (reader.take 4) < 2 ^ 32 := decode_take_lt 4 reader
                  have bodyLength : ((reader.drop 8).take (decode (reader.take 4))).length =
                      decode (reader.take 4) := by
                    rw [List.length_take]
                    omega
                  obtain ⟨same, encodable⟩ := readOp_sound found (by rw [bodyLength]; exact lenBound)
                  dsimp only at same
                  have frameSize : (frame hash lsn op).length = 8 + decode (reader.take 4) := by
                    rw [frame_length, same, bodyLength]
                  have first := encode_decode_take 4 reader (by omega)
                  have second := encode_decode_take 4 (reader.drop 4)
                    (by rw [List.length_drop]; omega)
                  refine ⟨?_, frameSize.symm, by omega, encodable⟩
                  unfold frame
                  rw [same, bodyLength, not_not.mp crc, first, second, ← List.drop_drop, rest,
                    ← List.drop_drop]
                  simp only [List.append_assoc, List.take_append_drop]
                  rw [show reader.drop 8 = (reader.drop 4).drop 4 by rw [List.drop_drop],
                    List.take_append_drop, List.take_append_drop]

/-! ### The walk -/

/-- What the walk has passed is the encoding of what it has gathered. -/
structure Walked (hash : Bytes → Nat) (file : Bytes) (scan : Scan) : Prop where
  goodEnd : scan.goodEnd = (frames hash scan.records).length
  file : file = frames hash scan.records ++ file.drop scan.goodEnd
  next : scan.nextLsn = nextAfter 0 scan.records
  encodable : ∀ entry ∈ scan.records, Encodable entry
  lsns : ∀ entry ∈ scan.records, entry.1 + 1 < 2 ^ 64

theorem Walked.inside {file : Bytes} {scan : Scan} (walked : Walked hash file scan) :
    scan.goodEnd ≤ file.length := by
  have length := congrArg List.length walked.file
  rw [List.length_append] at length
  have goodEnd := walked.goodEnd
  omega

theorem nextAfter_append (next : Nat) (left right : List (Nat × WalOp)) :
    nextAfter next (left ++ right) = nextAfter (nextAfter next left) right :=
  List.foldl_append

theorem frames_singleton (entry : Nat × WalOp) :
    frames hash [entry] = frame hash entry.1 entry.2 := List.append_nil _

theorem Walked.step {file : Bytes} {scan : Scan} {consumed lsn : Nat} {op : WalOp}
    (walked : Walked hash file scan)
    (read : readRecord hash (file.drop scan.goodEnd) file.length scan.goodEnd =
      .record consumed lsn op) (fits : lsn + 1 < 2 ^ 64) :
    Walked hash file ⟨scan.goodEnd + consumed, max scan.nextLsn (lsn + 1),
      scan.records ++ [(lsn, op)]⟩ := by
  obtain ⟨rest, size, -, encodable⟩ :=
    (readRecord_sound hash walked.inside).1 consumed lsn op read
  refine ⟨?_, ?_, ?_, fun entry member => ?_, fun entry member => ?_⟩
  · rw [frames_append, frames_singleton, List.length_append, ← walked.goodEnd, size]
  · calc file = frames hash scan.records ++ file.drop scan.goodEnd := walked.file
      _ = frames hash scan.records ++ (frame hash lsn op ++
            file.drop (scan.goodEnd + consumed)) := by rw [rest]
      _ = frames hash (scan.records ++ [(lsn, op)]) ++ file.drop (scan.goodEnd + consumed) := by
          rw [frames_append, frames_singleton, List.append_assoc]
  · rw [nextAfter_append, ← walked.next]
    rfl
  · rcases List.mem_append.mp member with old | new
    · exact walked.encodable entry old
    · rw [List.mem_singleton.mp new]
      exact encodable
  · rcases List.mem_append.mp member with old | new
    · exact walked.lsns entry old
    · rw [List.mem_singleton.mp new]
      exact fits

theorem walk_sound {file : Bytes} {fuel : Nat} {scan final : Scan}
    (walked : Walked hash file scan) (enough : file.length - scan.goodEnd < fuel)
    (done : walk hash file fuel scan = .ok final) :
    Walked hash file final ∧ Torn (file.drop final.goodEnd) := by
  induction fuel generalizing scan with
  | zero => omega
  | succ fuel ih =>
      have sound := readRecord_sound hash walked.inside
      unfold walk at done
      cases read : readRecord hash (file.drop scan.goodEnd) file.length scan.goodEnd with
      | record consumed lsn op =>
          rw [read] at done
          dsimp only at done
          split at done
          · cases done
          · rename_i fits
            obtain ⟨-, size, inside, -⟩ := sound.1 consumed lsn op read
            have length := frame_length hash lsn op
            exact ih (walked.step read (by omega)) (by dsimp only; omega) done
      | stopped stop =>
          rw [read] at done
          cases stop with
          | eof =>
              cases done
              refine ⟨walked, .inl ?_⟩
              rw [sound.2.1 read]
              decide
          | torn =>
              cases done
              exact ⟨walked, sound.2.2 read⟩
          | corrupt why => cases done

theorem nextAfter_spec (entries : List (Nat × WalOp)) :
    (entries = [] ∧ nextAfter 0 entries = 0) ∨
      ∃ entry ∈ entries, nextAfter 0 entries = entry.1 + 1 ∧
        ∀ other ∈ entries, other.1 ≤ entry.1 := by
  induction entries using List.reverseRecOn with
  | nil => exact .inl ⟨rfl, rfl⟩
  | append_singleton front last ih =>
      right
      have whole : nextAfter 0 (front ++ [last]) = max (nextAfter 0 front) (last.1 + 1) :=
        nextAfter_append 0 front [last]
      have inFront : ∀ {other}, other ∈ front ++ [last] → other ∈ front ∨ other = last :=
        fun member => (List.mem_append.mp member).imp id List.mem_singleton.mp
      rcases ih with ⟨rfl, zero⟩ | ⟨entry, member, next, largest⟩
      · refine ⟨last, List.mem_append_right _ (List.mem_singleton_self _), ?_, fun other among => ?_⟩
        · rw [whole, zero]
          omega
        · rcases inFront among with old | rfl
          · cases old
          · exact le_rfl
      · by_cases later : entry.1 ≤ last.1
        · refine ⟨last, List.mem_append_right _ (List.mem_singleton_self _), by omega,
            fun other among => ?_⟩
          rcases inFront among with old | rfl
          · exact (largest other old).trans later
          · exact le_rfl
        · refine ⟨entry, List.mem_append_left _ member, by omega, fun other among => ?_⟩
          rcases inFront among with old | rfl
          · exact largest other old
          · omega

theorem open_torn (small : ∀ bytes, hash bytes < 2 ^ 32) (policy : SyncPolicy)
    {entries : List (Nat × WalOp)} (encodable : ∀ entry ∈ entries, Encodable entry)
    (lsns : ∀ entry ∈ entries, entry.1 + 1 < 2 ^ 64) {entry : Nat × WalOp}
    (next : Encodable entry) (count : Nat) (part : count < (frame hash entry.1 entry.2).length) :
    Wal.open hash policy (frames hash entries ++ (frame hash entry.1 entry.2).take count) =
      (.ok (⟨policy, nextAfter 0 entries, false⟩, entries), frames hash entries) := by
  obtain ⟨fuel, passes⟩ := scan_frames small encodable lsns
    ((frame hash entry.1 entry.2).take count)
  have stops := readRecord_torn next (frames hash entries).length part
  have length : (frames hash entries ++ (frame hash entry.1 entry.2).take count).length =
      (frames hash entries).length + count := by
    rw [List.length_append, List.length_take, Nat.min_eq_left part.le]
  have scanned : scan hash (frames hash entries ++ (frame hash entry.1 entry.2).take count) =
      .ok ⟨(frames hash entries).length, nextAfter 0 entries, entries⟩ := by
    rw [passes, walk, List.drop_left' rfl, length, stops]
    by_cases empty : count = 0
    · rw [if_pos empty]
    · rw [if_neg empty]
  simp only [Wal.open, scanned, List.take_left]

theorem open_frames (small : ∀ bytes, hash bytes < 2 ^ 32) (policy : SyncPolicy)
    {entries : List (Nat × WalOp)} (encodable : ∀ entry ∈ entries, Encodable entry)
    (lsns : ∀ entry ∈ entries, entry.1 + 1 < 2 ^ 64) :
    Wal.open hash policy (frames hash entries) =
      (.ok (⟨policy, nextAfter 0 entries, false⟩, entries), frames hash entries) := by
  have some : Encodable (0, .insert 0 []) :=
    ⟨by decide, fun id vector same => by cases same; decide, by decide⟩
  have nothing := open_torn small policy encodable lsns some 0
    (by rw [frame_length]; omega)
  rwa [List.take_zero, List.append_nil] at nothing

/-- Decoding is exact on arbitrary bytes. -/
theorem open_exact (small : ∀ bytes, hash bytes < 2 ^ 32) (policy : SyncPolicy) (file : Bytes) :
    (∀ e after, Wal.open hash policy file = (.error e, after) → after = file) ∧
    (∀ wal records after, Wal.open hash policy file = (.ok (wal, records), after) →
      after <+: file ∧
      after = records.flatMap (fun entry => frame hash entry.1 entry.2) ∧
      ((records = [] ∧ wal.nextLsn = 0) ∨ ∃ entry ∈ records, wal.nextLsn = entry.1 + 1 ∧
        ∀ other ∈ records, other.1 ≤ entry.1) ∧
      Torn (file.drop after.length) ∧
      Wal.open hash policy after = (.ok (wal, records), after)) := by
  unfold Wal.open
  cases scanned : scan hash file with
  | error e =>
      refine ⟨fun other after same => ?_, nofun⟩
      cases same
      rfl
  | ok found =>
      refine ⟨nofun, fun wal records after same => ?_⟩
      cases same
      have start : Walked hash file ⟨0, 0, []⟩ := ⟨rfl, rfl, rfl, nofun, nofun⟩
      obtain ⟨walked, torn⟩ := walk_sound start (by dsimp only; omega) scanned
      have kept : file.take found.goodEnd = frames hash found.records := by
        calc file.take found.goodEnd
            = (frames hash found.records ++ file.drop found.goodEnd).take found.goodEnd := by
              rw [← walked.file]
          _ = frames hash found.records := List.take_left' walked.goodEnd.symm
      refine ⟨List.take_prefix _ _, kept, ?_, ?_, ?_⟩
      · dsimp only
        rw [walked.next]
        exact nextAfter_spec found.records
      · rw [List.length_take, Nat.min_eq_left walked.inside]
        exact torn
      · have again := open_frames small policy walked.encodable walked.lsns
        unfold Wal.open at again
        rw [kept, walked.next]
        exact again

def strayByte : Bytes := frame Crc32.hash 0 (.insert 0 [F32.ofNat 0x3F800000]) ++ [7]

theorem open_exact_strayByte :
    (Wal.open Crc32.hash .always strayByte).2 <+: strayByte ∧
      Torn (strayByte.drop (Wal.open Crc32.hash .always strayByte).2.length) := by
  have opened : Wal.open Crc32.hash .always strayByte =
      (.ok (⟨.always, 1, false⟩, [(0, .insert 0 [F32.ofNat 0x3F800000])]),
        frame Crc32.hash 0 (.insert 0 [F32.ofNat 0x3F800000])) := by decide +kernel
  obtain ⟨front, -, -, torn, -⟩ := (open_exact Crc32.hash_lt .always strayByte).2 _ _ _ opened
  rw [opened]
  exact ⟨front, torn⟩

end Wal

end Vektordb
