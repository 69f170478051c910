import Vektordb.Basic
import Vektordb.Codec.Crc32

/-!
The write-ahead log. A record is framed by its length and a checksum, and recovery walks the
frames until it has to decide whether what it cannot read is the torn end of the last write or
damage to a record that may have been acknowledged.
-/

namespace Vektordb

open LittleEndian

inductive SyncPolicy where
  | always
  | never
  deriving DecidableEq, Repr

inductive WalOp where
  | insert (id : Nat) (vector : Row)
  deriving DecidableEq, Repr

namespace Wal

def OP_INSERT : UInt8 := 1

/-! ### Frames -/

def opBytes : WalOp → Bytes
  | .insert id vector =>
      OP_INSERT :: (encode 8 id ++ (encode 4 vector.length ++ vector.toLeBytes))

def payload (lsn : Nat) (op : WalOp) : Bytes := encode 8 lsn ++ opBytes op

def frame (hash : Bytes → Nat) (lsn : Nat) (op : WalOp) : Bytes :=
  encode 4 (payload lsn op).length ++ (encode 4 (hash (payload lsn op)) ++ payload lsn op)

/-- Why the recovery walk stopped. -/
inductive Stop where
  | eof
  | torn
  | corrupt (why : String)
  deriving DecidableEq, Repr

inductive Step where
  | record (consumed lsn : Nat) (op : WalOp)
  | stopped (stop : Stop)
  deriving DecidableEq, Repr

def readOp (payload : Bytes) : Except String (Nat × WalOp) :=
  if (payload.drop 8).head? = some OP_INSERT then
    if payload.length < 21 then .error "insert record too short"
    else
      let dim := decode ((payload.drop 17).take 4)
      if payload.length ≠ 21 + dim * 4 then .error "insert record length disagrees with its dim"
      else .ok (decode (payload.take 8),
        .insert (decode ((payload.drop 9).take 8)) (Row.ofLeBytes dim (payload.drop 21)))
  else .error "unknown op tag"

/-- Read one record starting at `pos`, where `reader` holds the bytes from there on. -/
def readRecord (hash : Bytes → Nat) (reader : Bytes) (fileLen pos : Nat) : Step :=
  if pos = fileLen then .stopped .eof
  else if fileLen < pos + 8 then .stopped .torn
  else if reader.length < 8 then .stopped .torn
  else
    let len := decode (reader.take 4)
    let crc := decode ((reader.drop 4).take 4)
    if len < 9 then
      .stopped (if pos + 8 = fileLen then .torn else .corrupt "impossible record length")
    else if fileLen < pos + 8 + len then .stopped .torn
    else if (reader.drop 8).length < len then .stopped .torn
    else
      let payload := (reader.drop 8).take len
      if hash payload ≠ crc then .stopped (.corrupt "checksum mismatch")
      else match readOp payload with
        | .error why => .stopped (.corrupt why)
        | .ok (lsn, op) => .record (8 + len) lsn op

structure Scan where
  goodEnd : Nat
  nextLsn : Nat
  records : List (Nat × WalOp)
  deriving DecidableEq, Repr

def refuses (why : String) (goodEnd records : Nat) : Error :=
  .corrupt ("wal: " ++ why ++ " at byte offset " ++ toString goodEnd ++ ", after " ++
    toString records ++ " intact record(s); the frame is complete but invalid and may have " ++
    "been acknowledged. Refusing to truncate.")

/-- The recovery walk. Every record takes at least one byte, so a bound above the length of the
file is never used up. -/
def walk (hash : Bytes → Nat) (file : Bytes) : Nat → Scan → Result Scan
  | 0, scan => .ok scan
  | fuel + 1, scan =>
      match readRecord hash (file.drop scan.goodEnd) file.length scan.goodEnd with
      | .record consumed lsn op =>
          if 2 ^ 64 ≤ lsn + 1 then .error (.corrupt "wal: LSN overflow")
          else walk hash file fuel
            ⟨scan.goodEnd + consumed, max scan.nextLsn (lsn + 1), scan.records ++ [(lsn, op)]⟩
      | .stopped .eof => .ok scan
      | .stopped .torn => .ok scan
      | .stopped (.corrupt why) => .error (refuses why scan.goodEnd scan.records.length)

def scan (hash : Bytes → Nat) (file : Bytes) : Result Scan :=
  walk hash file (file.length + 1) ⟨0, 0, []⟩

end Wal

structure Wal where
  policy : SyncPolicy
  nextLsn : Nat
  poisoned : Bool
  deriving DecidableEq, Repr

/-- Scan the log and cut off a torn tail. The last component is the file afterwards. -/
def Wal.open (hash : Bytes → Nat) (policy : SyncPolicy) (file : Bytes) :
    Result (Wal × List (Nat × WalOp)) × Bytes :=
  match Wal.scan hash file with
  | .error e => (.error e, file)
  | .ok found => (.ok (⟨policy, found.nextLsn, false⟩, found.records), file.take found.goodEnd)

namespace Wal

def ensureHealthy (wal : Wal) : Result Unit :=
  if wal.poisoned then
    .error (.corrupt "WAL is unavailable after an I/O failure; reopen the database")
  else .ok ()

def ensureLsnAtLeast (wal : Wal) (min : Nat) : Wal := { wal with nextLsn := max wal.nextLsn min }

/-- How the operating system treats one write. -/
inductive Fault where
  | none
  | write (written : Nat) (message : String)
  | sync (message : String)

def append (hash : Bytes → Nat) (fault : Fault) (wal : Wal) (op : WalOp) (file : Bytes) :
    Result Nat × Wal × Bytes :=
  match wal.ensureHealthy with
  | .error e => (.error e, wal, file)
  | .ok () =>
      let .insert _ vector := op
      if 2 ^ 32 ≤ vector.length then
        (.error (.invalidArgument "WAL vector is too large"), wal, file)
      else if 2 ^ 32 ≤ (payload wal.nextLsn op).length then
        (.error (.invalidArgument "WAL record is too large"), wal, file)
      else
        let bytes := frame hash wal.nextLsn op
        let written := (.ok wal.nextLsn, { wal with nextLsn := (wal.nextLsn + 1) % 2 ^ 64 },
          file ++ bytes)
        match fault with
        | .none => written
        | .write count message =>
            (.error (.io message), { wal with poisoned := true }, file ++ bytes.take count)
        | .sync message =>
            if wal.policy = .always then
              (.error (.io message), { wal with poisoned := true }, file ++ bytes)
            else written

/-- Discard all records; the LSNs keep counting. A failure comes before the file is cut or in the
sync after it. -/
def reset (fault : Fault) (wal : Wal) (file : Bytes) : Result Unit × Wal × Bytes :=
  match wal.ensureHealthy with
  | .error e => (.error e, wal, file)
  | .ok () =>
      match fault with
      | .none => (.ok (), wal, [])
      | .write _ message => (.error (.io message), { wal with poisoned := true }, file)
      | .sync message => (.error (.io message), { wal with poisoned := true }, [])

/-! ### Reading what was written -/

structure Encodable (entry : Nat × WalOp) : Prop where
  lsn : entry.1 < 2 ^ 64
  id : ∀ id vector, entry.2 = .insert id vector → id < 2 ^ 64
  size : (payload entry.1 entry.2).length < 2 ^ 32

theorem payload_length (lsn id : Nat) (vector : Row) :
    (payload lsn (.insert id vector)).length = 21 + 4 * vector.length := by
  simp only [payload, opBytes, List.length_append, encode_length, List.length_cons,
    Row.toLeBytes_length]
  omega

theorem payload_long (lsn : Nat) (op : WalOp) : 21 ≤ (payload lsn op).length := by
  obtain ⟨id, vector⟩ := op
  rw [payload_length]
  omega

theorem frame_length (hash : Bytes → Nat) (lsn : Nat) (op : WalOp) :
    (frame hash lsn op).length = 8 + (payload lsn op).length := by
  simp only [frame, List.length_append, encode_length]
  omega

theorem readOp_payload {entry : Nat × WalOp} (encodable : Encodable entry) :
    readOp (payload entry.1 entry.2) = .ok entry := by
  obtain ⟨lsn, ⟨id, vector⟩⟩ := entry
  have length := payload_length lsn id vector
  have small : lsn < 256 ^ 8 := encodable.lsn
  have smallId : id < 256 ^ 8 := encodable.id id vector rfl
  have size := encodable.size
  have dim : vector.length < 256 ^ 4 := by
    dsimp only at size
    omega
  have afterLsn : (payload lsn (.insert id vector)).drop 8 = opBytes (.insert id vector) :=
    List.drop_left' (encode_length 8 lsn)
  have afterTag : (payload lsn (.insert id vector)).drop 9 =
      encode 8 id ++ (encode 4 vector.length ++ vector.toLeBytes) := by
    rw [show 9 = 8 + 1 from rfl, ← List.drop_drop, afterLsn]
    rfl
  have afterId : (payload lsn (.insert id vector)).drop 17 =
      encode 4 vector.length ++ vector.toLeBytes := by
    rw [show 17 = 9 + 8 from rfl, ← List.drop_drop, afterTag]
    exact List.drop_left' (encode_length 8 id)
  have afterDim : (payload lsn (.insert id vector)).drop 21 = vector.toLeBytes := by
    rw [show 21 = 17 + 4 from rfl, ← List.drop_drop, afterId]
    exact List.drop_left' (encode_length 4 vector.length)
  have tag : (opBytes (.insert id vector)).head? = some OP_INSERT := rfl
  unfold readOp
  dsimp only
  rw [afterLsn, if_pos tag, if_neg (by omega), afterId, decode_take_encode_append dim,
    if_neg (by omega), afterTag, decode_take_encode_append smallId, afterDim,
    Row.ofLeBytes_toLeBytes]
  have first : (payload lsn (.insert id vector)).take 8 = encode 8 lsn :=
    List.take_left' (encode_length 8 lsn)
  rw [first, decode_encode_of_lt small]

variable {hash : Bytes → Nat}

theorem readRecord_frame (small : ∀ bytes, hash bytes < 2 ^ 32) {entry : Nat × WalOp}
    (encodable : Encodable entry) (rest : Bytes) (fileLen pos : Nat)
    (inside : pos + (frame hash entry.1 entry.2).length ≤ fileLen) :
    readRecord hash (frame hash entry.1 entry.2 ++ rest) fileLen pos =
      .record (frame hash entry.1 entry.2).length entry.1 entry.2 := by
  have length := frame_length hash entry.1 entry.2
  have long := payload_long entry.1 entry.2
  have size : (payload entry.1 entry.2).length < 256 ^ 4 := encodable.size
  have crc : hash (payload entry.1 entry.2) < 256 ^ 4 := small _
  have parts : frame hash entry.1 entry.2 ++ rest =
      encode 4 (payload entry.1 entry.2).length ++
        (encode 4 (hash (payload entry.1 entry.2)) ++ (payload entry.1 entry.2 ++ rest)) := by
    simp only [frame, List.append_assoc]
  have afterLen : (frame hash entry.1 entry.2 ++ rest).drop 4 =
      encode 4 (hash (payload entry.1 entry.2)) ++ (payload entry.1 entry.2 ++ rest) := by
    rw [parts]
    exact List.drop_left' (encode_length 4 _)
  have afterCrc : (frame hash entry.1 entry.2 ++ rest).drop 8 =
      payload entry.1 entry.2 ++ rest := by
    rw [show 8 = 4 + 4 from rfl, ← List.drop_drop, afterLen]
    exact List.drop_left' (encode_length 4 _)
  have lenField : decode ((frame hash entry.1 entry.2 ++ rest).take 4) =
      (payload entry.1 entry.2).length := by
    rw [parts, decode_take_encode_append size]
  unfold readRecord
  dsimp only
  rw [if_neg (by omega), if_neg (by omega),
    if_neg (by rw [List.length_append]; omega), lenField, if_neg (by omega), if_neg (by omega),
    afterCrc, if_neg (by rw [List.length_append]; omega), List.take_left' rfl, afterLen,
    decode_take_encode_append crc, if_neg (not_not.mpr rfl), readOp_payload encodable, ← length]

theorem readRecord_torn {entry : Nat × WalOp} (encodable : Encodable entry) (pos : Nat)
    {count : Nat} (part : count < (frame hash entry.1 entry.2).length) :
    readRecord hash ((frame hash entry.1 entry.2).take count) (pos + count) pos =
      .stopped (if count = 0 then .eof else .torn) := by
  have length := frame_length hash entry.1 entry.2
  have long := payload_long entry.1 entry.2
  unfold readRecord
  by_cases empty : count = 0
  · rw [if_pos (by omega), if_pos empty]
  · rw [if_neg (by omega), if_neg empty]
    by_cases header : count < 8
    · rw [if_pos (by omega)]
    · have size : (payload entry.1 entry.2).length < 256 ^ 4 := encodable.size
      have lenField : decode (((frame hash entry.1 entry.2).take count).take 4) =
          (payload entry.1 entry.2).length := by
        rw [List.take_take, Nat.min_eq_left (by omega)]
        exact decode_take_encode_append size _
      dsimp only
      rw [if_neg (by omega), if_neg (by rw [List.length_take]; omega), lenField,
        if_neg (by omega), if_pos (by omega)]

def frames (hash : Bytes → Nat) (entries : List (Nat × WalOp)) : Bytes :=
  entries.flatMap fun entry => frame hash entry.1 entry.2

theorem frames_append (left right : List (Nat × WalOp)) :
    frames hash (left ++ right) = frames hash left ++ frames hash right :=
  List.flatMap_append

theorem length_le_frames (hash : Bytes → Nat) (entries : List (Nat × WalOp)) :
    entries.length ≤ (frames hash entries).length := by
  induction entries with
  | nil => exact Nat.zero_le _
  | cons entry tail ih =>
      have one := frame_length hash entry.1 entry.2
      simp only [frames, List.flatMap_cons, List.length_append, List.length_cons] at ih ⊢
      omega

/-- The LSN counter after reading some records. -/
def nextAfter (next : Nat) (entries : List (Nat × WalOp)) : Nat :=
  entries.foldl (fun n entry => max n (entry.1 + 1)) next

theorem walk_frames (small : ∀ bytes, hash bytes < 2 ^ 32) {entries : List (Nat × WalOp)}
    (encodable : ∀ entry ∈ entries, Encodable entry)
    (lsns : ∀ entry ∈ entries, entry.1 + 1 < 2 ^ 64) (before rest : Bytes) (fuel : Nat)
    (enough : entries.length ≤ fuel) (next : Nat) (records : List (Nat × WalOp)) :
    walk hash (before ++ (frames hash entries ++ rest)) fuel ⟨before.length, next, records⟩ =
      walk hash (before ++ (frames hash entries ++ rest)) (fuel - entries.length)
        ⟨before.length + (frames hash entries).length, nextAfter next entries,
          records ++ entries⟩ := by
  induction entries generalizing before fuel next records with
  | nil => simp only [frames, List.flatMap_nil, List.length_nil, Nat.add_zero, Nat.sub_zero,
      nextAfter, List.foldl_nil, List.append_nil]
  | cons entry tail ih =>
      cases fuel with
      | zero => cases enough
      | succ fuel =>
          have here := encodable entry (List.mem_cons_self ..)
          have bound := lsns entry (List.mem_cons_self ..)
          have parts : frames hash (entry :: tail) ++ rest =
              frame hash entry.1 entry.2 ++ (frames hash tail ++ rest) := by
            simp only [frames, List.flatMap_cons, List.append_assoc]
          have reads := readRecord_frame small here (frames hash tail ++ rest)
            (before ++ (frames hash (entry :: tail) ++ rest)).length before.length (by
              rw [parts]
              simp only [List.length_append]
              omega)
          have later := ih (fun e member => encodable e (List.mem_cons_of_mem entry member))
            (fun e member => lsns e (List.mem_cons_of_mem entry member))
            (before ++ frame hash entry.1 entry.2) fuel
            (Nat.le_of_succ_le_succ enough) (max next (entry.1 + 1)) (records ++ [entry])
          rw [walk, List.drop_left' rfl, parts]
          dsimp only
          rw [parts] at reads
          rw [reads]
          dsimp only
          rw [if_neg (by omega)]
          rw [List.append_assoc, List.length_append] at later
          rw [later, List.length_cons, Nat.succ_sub_succ, List.append_assoc]
          simp only [nextAfter, List.foldl_cons, frames, List.flatMap_cons, List.length_append,
            List.singleton_append, Nat.add_assoc]

theorem scan_frames (small : ∀ bytes, hash bytes < 2 ^ 32) {entries : List (Nat × WalOp)}
    (encodable : ∀ entry ∈ entries, Encodable entry)
    (lsns : ∀ entry ∈ entries, entry.1 + 1 < 2 ^ 64) (rest : Bytes) :
    ∃ fuel, scan hash (frames hash entries ++ rest) =
      walk hash (frames hash entries ++ rest) (fuel + 1)
        ⟨(frames hash entries).length, nextAfter 0 entries, entries⟩ := by
  have many := length_le_frames hash entries
  have passes := walk_frames small encodable lsns [] rest
    ((frames hash entries ++ rest).length + 1)
    (by rw [List.length_append]; omega) 0 []
  simp only [List.nil_append, List.length_nil, Nat.zero_add] at passes
  refine ⟨(frames hash entries ++ rest).length - entries.length, ?_⟩
  unfold scan
  rw [passes, Nat.sub_add_comm (by rw [List.length_append]; omega)]

end Wal

end Vektordb
