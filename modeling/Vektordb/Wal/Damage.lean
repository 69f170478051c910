import Vektordb.Wal.Log

/-!
Damage in the middle of the log. The checksum does not cover the length field, so the walk
refuses a damaged frame exactly when its length field still ends inside the file; a length that
points past the end passes for the torn tail of the last write.
-/

namespace Vektordb

open LittleEndian

namespace Wal

variable {hash : Bytes → Nat}

def lenField (frame : Bytes) : Nat := decode (frame.take 4)

def crcField (frame : Bytes) : Nat := decode ((frame.drop 4).take 4)

theorem frame_eq_of_fields {bytes body : Bytes} (long : 8 ≤ bytes.length)
    (len : lenField bytes = body.length) (crc : crcField bytes = hash body)
    (rest : bytes.drop 8 = body) :
    bytes = encode 4 body.length ++ (encode 4 (hash body) ++ body) := by
  have first : encode 4 (lenField bytes) = bytes.take 4 := encode_decode_take _ _ (by omega)
  have second : encode 4 (crcField bytes) = (bytes.drop 4).take 4 :=
    encode_decode_take _ _ (by rw [List.length_drop]; omega)
  calc bytes = bytes.take 4 ++ bytes.drop 4 := (List.take_append_drop 4 bytes).symm
    _ = bytes.take 4 ++ ((bytes.drop 4).take 4 ++ (bytes.drop 4).drop 4) := by
        rw [List.take_append_drop 4 (bytes.drop 4)]
    _ = encode 4 body.length ++ (encode 4 (hash body) ++ body) := by
        rw [List.drop_drop, rest, ← first, ← second, len, crc]

/-- How the walk classifies a damaged frame with something behind it. -/
theorem readRecord_damaged {entry : Nat × WalOp} {damaged rest : Bytes} (pos : Nat)
    (sameLength : damaged.length = (frame hash entry.1 entry.2).length)
    (different : damaged ≠ frame hash entry.1 entry.2) (followed : rest ≠ [])
    (unforgeable : ∀ bytes, bytes ≠ payload entry.1 entry.2 → hash bytes ≠ crcField damaged) :
    (pos + (damaged ++ rest).length < pos + 8 + lenField damaged →
      readRecord hash (damaged ++ rest) (pos + (damaged ++ rest).length) pos = .stopped .torn) ∧
    (pos + 8 + lenField damaged ≤ pos + (damaged ++ rest).length →
      ∃ why, readRecord hash (damaged ++ rest) (pos + (damaged ++ rest).length) pos =
        .stopped (.corrupt why)) := by
  have length := frame_length hash entry.1 entry.2
  have long := payload_long entry.1 entry.2
  have behind : 0 < rest.length := List.length_pos_iff.mpr followed
  have total : (damaged ++ rest).length = damaged.length + rest.length := List.length_append
  have front : ∀ count, count ≤ 8 → (damaged ++ rest).take count = damaged.take count :=
    fun count le => List.take_append_of_le_length (by omega)
  have len : decode ((damaged ++ rest).take 4) = lenField damaged := by
    rw [front 4 (by decide), lenField]
  have crc : decode (((damaged ++ rest).drop 4).take 4) = crcField damaged := by
    rw [crcField, List.drop_append_of_le_length (by omega),
      List.take_append_of_le_length (by rw [List.length_drop]; omega)]
  constructor
  · intro outside
    unfold readRecord
    dsimp only
    rw [if_neg (by omega), if_neg (by omega), if_neg (by omega), len, if_neg (by omega),
      if_pos outside]
  · intro inside
    unfold readRecord
    dsimp only
    rw [if_neg (by omega), if_neg (by omega), if_neg (by omega), len, crc]
    split
    · rw [if_neg (by omega)]
      exact ⟨_, rfl⟩
    · rw [if_neg (by omega), if_neg (by rw [List.length_drop]; omega), if_pos]
      · exact ⟨_, rfl⟩
      · intro accepted
        by_cases original : ((damaged ++ rest).drop 8).take (lenField damaged) =
            payload entry.1 entry.2
        · have fits : lenField damaged = (payload entry.1 entry.2).length := by
            rw [← original, List.length_take, List.length_drop]
            omega
          have body : damaged.drop 8 = payload entry.1 entry.2 := by
            have cut : (damaged.drop 8).length = lenField damaged := by
              rw [List.length_drop]
              omega
            rw [← original, List.drop_append_of_le_length (by omega), List.take_left' cut]
          refine different (frame_eq_of_fields (by omega) fits ?_ body)
          rw [← accepted, original]
        · exact unforgeable _ original accepted

theorem scan_overflow (small : ∀ bytes, hash bytes < 2 ^ 32) {before : List (Nat × WalOp)}
    (encodable : ∀ entry ∈ before, Encodable entry) (rest : Bytes)
    (exhausted : ∃ entry ∈ before, entry.1 = 2 ^ 64 - 1) :
    scan hash (frames hash before ++ rest) = .error (.corrupt "wal: LSN overflow") := by
  obtain ⟨passed, entry, later, rfl, below, last⟩ :
      ∃ passed entry later, before = passed ++ entry :: later ∧
        (∀ e ∈ passed, e.1 + 1 < 2 ^ 64) ∧ entry.1 = 2 ^ 64 - 1 := by
    induction before with
    | nil =>
        obtain ⟨entry, member, -⟩ := exhausted
        cases member
    | cons head tail ih =>
        by_cases here : head.1 = 2 ^ 64 - 1
        · exact ⟨[], head, tail, rfl, fun e member => absurd member List.not_mem_nil, here⟩
        · obtain ⟨entry, member, last⟩ := exhausted
          have inTail : entry ∈ tail := by
            rcases List.mem_cons.mp member with rfl | inTail
            · exact absurd last here
            · exact inTail
          obtain ⟨passed, found, later, same, below, lastFound⟩ :=
            ih (fun e inside => encodable e (List.mem_cons_of_mem head inside))
              ⟨entry, inTail, last⟩
          refine ⟨head :: passed, found, later, by rw [same]; rfl, fun e inside => ?_, lastFound⟩
          rcases List.mem_cons.mp inside with rfl | old
          · have bound := (encodable e (List.mem_cons_self ..)).lsn
            omega
          · exact below e old
  have parts : frames hash (passed ++ entry :: later) ++ rest =
      frames hash passed ++ (frame hash entry.1 entry.2 ++ (frames hash later ++ rest)) := by
    rw [frames_append]
    simp only [frames, List.flatMap_cons, List.append_assoc]
  have here := encodable entry (List.mem_append_right passed (List.mem_cons_self ..))
  have length := frame_length hash entry.1 entry.2
  have reads := readRecord_frame small here (frames hash later ++ rest)
    (frames hash passed ++ (frame hash entry.1 entry.2 ++ (frames hash later ++ rest))).length
    (frames hash passed).length (by
        simp only [List.length_append]
        omega)
  obtain ⟨fuel, passes⟩ := scan_frames small
    (fun e member => encodable e (List.mem_append_left _ member)) below
    (frame hash entry.1 entry.2 ++ (frames hash later ++ rest))
  rw [parts, passes, walk]
  dsimp only
  rw [List.drop_left' rfl, reads]
  dsimp only
  rw [if_pos (by omega)]

/-- Mid-log damage is reported, and the file left alone, exactly when the damaged length field
still ends inside the file; before that only an exhausted LSN is reported. -/
theorem open_damaged_iff (small : ∀ bytes, hash bytes < 2 ^ 32)
    {before after : List (Nat × WalOp)} {entry : Nat × WalOp} {damaged : Bytes}
    (encodable : ∀ e ∈ before ++ entry :: after, Encodable e) (followed : after ≠ [])
    (sameLength : damaged.length = (frame hash entry.1 entry.2).length)
    (different : damaged ≠ frame hash entry.1 entry.2)
    (unforgeable : ∀ bytes, bytes ≠ payload entry.1 entry.2 → hash bytes ≠ crcField damaged)
    (policy : SyncPolicy) :
    ((∃ e, (Wal.open hash policy (frames hash before ++ (damaged ++ frames hash after))).1 =
        .error e) ∧
      (Wal.open hash policy (frames hash before ++ (damaged ++ frames hash after))).2 =
        frames hash before ++ (damaged ++ frames hash after)) ↔
    (∃ e ∈ before, e.1 = 2 ^ 64 - 1) ∨
      (frames hash before).length + 8 + lenField damaged ≤
        (frames hash before ++ (damaged ++ frames hash after)).length := by
  have encodableBefore : ∀ e ∈ before, Encodable e := fun e member =>
    encodable e (List.mem_append_left _ member)
  by_cases exhausted : ∃ e ∈ before, e.1 = 2 ^ 64 - 1
  · refine iff_of_true ?_ (.inl exhausted)
    have overflows := scan_overflow small encodableBefore (damaged ++ frames hash after) exhausted
    simp only [Wal.open, overflows]
    exact ⟨⟨_, rfl⟩, trivial⟩
  · simp only [exhausted, false_or]
    have lsns : ∀ e ∈ before, e.1 + 1 < 2 ^ 64 := by
      intro e member
      have bound := (encodableBefore e member).lsn
      have notLast : e.1 ≠ 2 ^ 64 - 1 := fun last => exhausted ⟨e, member, last⟩
      omega
    have behind : frames hash after ≠ [] := by
      have one := length_le_frames hash after
      have some := List.length_pos_iff.mpr followed
      exact List.length_pos_iff.mp (by omega)
    obtain ⟨fuel, passes⟩ := scan_frames small encodableBefore lsns (damaged ++ frames hash after)
    obtain ⟨torn, corrupt⟩ := readRecord_damaged (frames hash before).length sameLength
      different behind unforgeable
    rw [walk] at passes
    dsimp only at passes
    rw [List.drop_left' rfl, List.length_append] at passes
    rw [@List.length_append _ (frames hash before)]
    by_cases inside : (frames hash before).length + 8 + lenField damaged ≤
        (frames hash before).length + (damaged ++ frames hash after).length
    · obtain ⟨why, reads⟩ := corrupt inside
      rw [reads] at passes
      dsimp only at passes
      refine iff_of_true ?_ inside
      simp only [Wal.open, passes]
      exact ⟨⟨_, rfl⟩, trivial⟩
    · rw [torn (by omega)] at passes
      dsimp only at passes
      refine iff_of_false ?_ inside
      rintro ⟨⟨e, fails⟩, -⟩
      simp only [Wal.open, passes] at fails
      cases fails

/-! ### Two records -/

def firstOp : WalOp := .insert 0 [F32.ofNat 0x3F800000]

def secondOp : WalOp := .insert 1 [F32.ofNat 0x40000000]

/-- CRC-32, except that no other string has the checksum of one of the two payloads. -/
def twoRecordHash (bytes : Bytes) : Nat :=
  if bytes = payload 0 firstOp ∨ bytes = payload 1 secondOp then Crc32.hash bytes
  else if Crc32.hash bytes = Crc32.hash (payload 0 firstOp) ∨
    Crc32.hash bytes = Crc32.hash (payload 1 secondOp) then 0
  else Crc32.hash bytes

theorem twoRecordHash_lt (bytes : Bytes) : twoRecordHash bytes < 2 ^ 32 := by
  unfold twoRecordHash
  split
  · exact Crc32.hash_lt bytes
  · split
    · decide
    · exact Crc32.hash_lt bytes

theorem twoRecordHash_payloads : Crc32.hash (payload 0 firstOp) ≠ 0 ∧
    Crc32.hash (payload 1 secondOp) ≠ 0 ∧
    Crc32.hash (payload 0 firstOp) ≠ Crc32.hash (payload 1 secondOp) := by decide +kernel

theorem twoRecordHash_unforgeable (bytes : Bytes) :
    (bytes ≠ payload 0 firstOp → twoRecordHash bytes ≠ twoRecordHash (payload 0 firstOp)) ∧
    (bytes ≠ payload 1 secondOp → twoRecordHash bytes ≠ twoRecordHash (payload 1 secondOp)) := by
  obtain ⟨first, second, apart⟩ := twoRecordHash_payloads
  have atFirst : twoRecordHash (payload 0 firstOp) = Crc32.hash (payload 0 firstOp) := by
    unfold twoRecordHash
    rw [if_pos (.inl rfl)]
  have atSecond : twoRecordHash (payload 1 secondOp) = Crc32.hash (payload 1 secondOp) := by
    unfold twoRecordHash
    rw [if_pos (.inr rfl)]
  rw [atFirst, atSecond]
  unfold twoRecordHash
  split
  · rename_i known
    rcases known with rfl | rfl
    · exact ⟨fun other => absurd rfl other, fun _ => apart⟩
    · exact ⟨fun _ => apart.symm, fun other => absurd rfl other⟩
  · split
    · exact ⟨fun _ => first.symm, fun _ => second.symm⟩
    · rename_i neither
      exact ⟨fun _ same => neither (.inl same), fun _ same => neither (.inr same)⟩

def flippedFrame : Bytes := (frame twoRecordHash 0 firstOp).set 8 7

def longerFrame : Bytes := (frame twoRecordHash 0 firstOp).set 3 1

theorem crcField_frame (small : ∀ bytes, hash bytes < 2 ^ 32) (front : Bytes)
    (four : front.length = 4) (body rest : Bytes) :
    crcField (front ++ (encode 4 (hash body) ++ rest)) = hash body := by
  unfold crcField
  rw [List.drop_left' four]
  exact decode_take_encode_append (small body) rest

theorem encodable_two : ∀ e ∈ [(0, firstOp), (1, secondOp)], Encodable e := by
  intro e member
  simp only [List.mem_cons, List.not_mem_nil, or_false] at member
  rcases member with rfl | rfl
  · exact ⟨by decide, fun id vector same => by cases same; decide, by decide⟩
  · exact ⟨by decide, fun id vector same => by cases same; decide, by decide⟩

theorem open_damaged_iff_flipped :
    (∃ e, (Wal.open twoRecordHash .always (flippedFrame ++ frame twoRecordHash 1 secondOp)).1 =
      .error e) ∧
    (Wal.open twoRecordHash .always (flippedFrame ++ frame twoRecordHash 1 secondOp)).2 =
      flippedFrame ++ frame twoRecordHash 1 secondOp := by
  have crc : crcField flippedFrame = twoRecordHash (payload 0 firstOp) :=
    crcField_frame twoRecordHash_lt (encode 4 25) rfl (payload 0 firstOp)
      ((payload 0 firstOp).set 0 7)
  have different : flippedFrame ≠ frame twoRecordHash 0 firstOp := fun same => by
    have byte : (7 : UInt8) = 0 := Option.some.inj (congrArg (fun bytes => bytes[8]?) same)
    exact absurd byte (by decide)
  have second : frames twoRecordHash [(1, secondOp)] = frame twoRecordHash 1 secondOp :=
    List.append_nil _
  have reported := (@open_damaged_iff _ twoRecordHash_lt [] [(1, secondOp)] (0, firstOp) flippedFrame
    encodable_two (List.cons_ne_nil _ _)
    (List.length_set ..) different
    (fun bytes other => crc ▸ (twoRecordHash_unforgeable bytes).1 other) .always).mpr
    (.inr (by decide))
  rw [second] at reported
  exact reported

/-- One damaged byte in the length field of the first of two records: the log opens as an empty
one, and both records are cut off. -/
theorem open_longer_truncates :
    longerFrame.length = (frame twoRecordHash 0 firstOp).length ∧
    longerFrame ≠ frame twoRecordHash 0 firstOp ∧
    (∀ bytes, bytes ≠ payload 0 firstOp → twoRecordHash bytes ≠ crcField longerFrame) ∧
    (∀ bytes, bytes ≠ payload 1 secondOp →
      twoRecordHash bytes ≠ crcField (frame twoRecordHash 1 secondOp)) ∧
    Wal.open twoRecordHash .always (longerFrame ++ frame twoRecordHash 1 secondOp) =
      (.ok (⟨.always, 0, false⟩, []), []) := by
  have crc : crcField longerFrame = twoRecordHash (payload 0 firstOp) :=
    crcField_frame twoRecordHash_lt [25, 0, 0, 1] rfl (payload 0 firstOp) (payload 0 firstOp)
  have crcSecond : crcField (frame twoRecordHash 1 secondOp) =
      twoRecordHash (payload 1 secondOp) :=
    crcField_frame twoRecordHash_lt (encode 4 25) rfl (payload 1 secondOp) (payload 1 secondOp)
  have different : longerFrame ≠ frame twoRecordHash 0 firstOp := fun same => by
    have byte : (1 : UInt8) = 0 := Option.some.inj (congrArg (fun bytes => bytes[3]?) same)
    exact absurd byte (by decide)
  exact ⟨List.length_set .., different,
    fun bytes other => crc ▸ (twoRecordHash_unforgeable bytes).1 other,
    fun bytes other => crcSecond ▸ (twoRecordHash_unforgeable bytes).2 other, rfl⟩

end Wal

end Vektordb
