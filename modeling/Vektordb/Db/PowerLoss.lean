import Vektordb.Db.Refusal

/-!
Power losses inside a flush. The count has gone into the mapped header, and every page of the
mapping may have been written back or not. What decides whether the log still brings back the rows
is whether each row that the header on the disk counts is on the disk as well.
-/

namespace Vektordb

open Interaction LittleEndian VectorStore

/-- The unit in which a mapping is written back. -/
def PAGE : Nat := 4096

/-- The file after a power loss: the pages written back as they were in memory, the others as of
the last completed flush. -/
def StoreFile.persist (file : StoreFile) (written : Nat → Bool) : StoreFile where
  len := file.len
  image address := if written (address / PAGE) then file.image address else file.device address
  device address := if written (address / PAGE) then file.image address else file.device address

theorem StoreFile.persist_mixes (file : StoreFile) (written : Nat → Bool) :
    Image.Mixes (file.persist written).image file.image file.device := by
  intro address
  unfold StoreFile.persist
  dsimp only
  by_cases back : written (address / PAGE) = true
  · exact .inl (if_pos back)
  · exact .inr (if_neg back)

theorem StoreFile.persist_header (file : StoreFile) (written : Nat → Bool) (dim : Nat) :
    SameRows dim 0 file.image (file.persist written).image ∨
      SameRows dim 0 file.device (file.persist written).image := by
  have first : ∀ address < HEADER_SIZE + 0 * strideFor dim, address / PAGE = 0 := by
    intro address below
    rw [Nat.zero_mul] at below
    exact Nat.div_eq_of_lt below
  by_cases back : written 0 = true
  · left
    intro address below
    unfold StoreFile.persist
    dsimp only
    rw [first address below, if_pos back]
  · right
    intro address below
    unfold StoreFile.persist
    dsimp only
    rw [first address below, if_neg back]

namespace Db

variable {env : Env} {config : HnswConfig} {dim : Nat} {halts : Bool} {rows present : List Row}
  {w : World} {dir : Directory}

/-- What a power loss leaves that comes while the store of `w` is being flushed: the count is in
the mapped header, and these pages have been written back. -/
def World.lost (w : World) (written : Nat → Bool) : Directory :=
  w.dir.refile ((w.store.storeCount w.file).persist written)

/-- Every row that the header counts is there. -/
def Complete (dim : Nat) (image : Image) (rows : List Row) : Prop :=
  Holds dim image (rows.take (headerCount image))

/-! ### Rows of a mixed image -/

theorem rowAt_mixes {image left right : Image} (mixes : Image.Mixes image left right) {id : Nat}
    (same : rowAt dim left id = rowAt dim right id) : rowAt dim image id = rowAt dim left id := by
  have length (other : Image) :
      (other.read (HEADER_SIZE + id * strideFor dim) (dim * 4)).length = 4 * dim := by
    rw [Image.read_length, Nat.mul_comm]
  have bytes := congrArg Row.toLeBytes same
  unfold rowAt at bytes
  rw [Row.toLeBytes_ofLeBytes (length left), Row.toLeBytes_ofLeBytes (length right)] at bytes
  unfold rowAt
  rw [mixes.read bytes]

/-- The rows that are on file below the header's count, and the given ones behind them. -/
def overlaid (dim : Nat) (image : Image) (rows : List Row) : List Row :=
  (List.range (headerCount image)).map (rowAt dim image) ++ rows.drop (headerCount image)

section Overlaid

variable {image : Image}

theorem overlaid_length (below : headerCount image ≤ rows.length) :
    (overlaid dim image rows).length = rows.length := by
  unfold overlaid
  rw [List.length_append, List.length_map, List.length_range, List.length_drop]
  omega

theorem overlaid_file {id : Nat} (counted : id < headerCount image) :
    (overlaid dim image rows)[id]? = some (rowAt dim image id) := by
  unfold overlaid
  rw [List.getElem?_append_left (by rw [List.length_map, List.length_range]; exact counted),
    List.getElem?_map, List.getElem?_range counted]
  rfl

theorem overlaid_rest {id : Nat} (behind : headerCount image ≤ id) :
    (overlaid dim image rows)[id]? = rows[id]? := by
  unfold overlaid
  rw [List.getElem?_append_right (by rw [List.length_map, List.length_range]; exact behind),
    List.length_map, List.length_range, List.getElem?_drop, Nat.add_sub_cancel' behind]

theorem overlaid_holds (rows : List Row) :
    Holds dim image ((overlaid dim image rows).take (headerCount image)) := by
  intro id row at_
  have counted : id < headerCount image := by
    have inside := (List.getElem?_eq_some_iff.mp at_).1
    rw [List.length_take] at inside
    omega
  rw [List.getElem?_take_of_lt counted, overlaid_file counted] at at_
  exact Option.some.inj at_

theorem overlaid_lengths (lengths : ∀ row ∈ rows, row.length = dim) :
    ∀ row ∈ overlaid dim image rows, row.length = dim := by
  intro row member
  rcases List.mem_append.mp member with onFile | behind
  · obtain ⟨id, -, rfl⟩ := List.mem_map.mp onFile
    exact Row.ofLeBytes_length _ _
  · exact lengths row (List.mem_of_mem_drop behind)

theorem complete_iff {front : List Row} (below : headerCount image ≤ front.length)
    (prefixes : front <+: rows) :
    Complete dim image front ↔ front <+: overlaid dim image rows := by
  have inside := prefixes.length_le
  have agree (id : Nat) (within : id < front.length) : rows[id]? = some front[id] :=
    (List.prefix_iff_getElem?.mp prefixes id within)
  rw [List.prefix_iff_getElem?]
  constructor
  case mp =>
      intro complete id within
      have here : front[id]? = some front[id] := List.getElem?_eq_getElem within
      by_cases counted : id < headerCount image
      · have taken := (List.getElem?_take_of_lt counted).trans here
        rw [overlaid_file counted, complete id _ taken]
      · rw [overlaid_rest (Nat.le_of_not_lt counted)]
        exact agree id within
  case mpr =>
      intro same id row at_
      have counted : id < headerCount image := by
        have inside := (List.getElem?_eq_some_iff.mp at_).1
        rw [List.length_take] at inside
        omega
      have here := same id (counted.trans_le below)
      rw [List.getElem?_take_of_lt counted, List.getElem?_eq_getElem (counted.trans_le below)] at at_
      rw [overlaid_file counted] at here
      exact (Option.some.inj here).trans (Option.some.inj at_)

end Overlaid

/-! ### Opening after a power loss -/

structure Lost (dim : Nat) (rows present : List Row) (linked : Nat) (file : StoreFile) : Prop where
  formatted : Formatted dim file.image
  least : linked ≤ headerCount file.image
  most : headerCount file.image ≤ present.length
  covered : ∀ id < linked, rows[id]? = some (rowAt dim file.image id)
  same : file.device = file.image

theorem Flushing.lost {locks : Lock → Holders} {index : Hnsw} {t : World} {replayFrom : Nat}
    {entries : List (Nat × WalOp)}
    (flushing : Flushing env config dim locks true w t rows present)
    (recoverable : Recoverable env config dim (t.dir.refile w.file) rows index replayFrom entries)
    (front : present <+: rows) (unsynced : t.file.device = w.file.device) (written : Nat → Bool) :
    Lost dim rows present index.len (t.file.persist written) := by
  have stored := recoverable.stored
  have image := flushing.image
  have device : Counts dim t.file.device rows index.len := by
    rw [unsynced]
    exact stored.device
  have synced : headerCount t.file.device ≤ present.length := by
    rw [unsynced]
    exact stored.synced.trans flushing.header
  have least : index.len ≤ present.length := stored.image.least.trans flushing.header
  have header := StoreFile.persist_header t.file written dim
  constructor
  case formatted =>
      rcases header with mapped | old
      · exact mapped.formatted image.formatted
      · exact old.formatted device.formatted
  case least =>
      rcases header with mapped | old
      · rw [← mapped.header, image.header]
        exact least
      · rw [← old.header]
        exact device.least
  case most =>
      rcases header with mapped | old
      · rw [← mapped.header, image.header]
      · rw [← old.header]
        exact synced
  case covered =>
      intro id below
      have within : id < present.length := below.trans_le least
      have row : rows[id]? = some present[id] := List.prefix_iff_getElem?.mp front id within
      have inMemory : rowAt dim t.file.image id = present[id] := by
        apply image.holds
        rw [image.header, List.take_length, List.getElem?_eq_getElem within]
      have onDevice : rowAt dim t.file.device id = present[id] := by
        apply device.holds
        rw [List.getElem?_take_of_lt (below.trans_le device.least), row]
      have mixed := rowAt_mixes (t.file.persist_mixes written) (inMemory.trans onDevice.symm)
      rw [row, mixed, inMemory]
  case same => rfl

theorem Lost.restores {file : StoreFile} {index : Hnsw} {replayFrom : Nat}
    {entries : List (Nat × WalOp)} {start : StoreFile}
    (recoverable : Recoverable env config dim (dir.refile start) rows index replayFrom entries)
    (levels : ∀ id, env.level config.m id ≤ 63) (front : present <+: rows)
    (lost : Lost dim rows present index.len file) (reaches : Reaches dim rows.length file) :
    Restores env config dim (dir.refile file) (overlaid dim file.image rows) rows.length index
      replayFrom entries := by
  have below : headerCount file.image ≤ rows.length := lost.most.trans front.length_le
  have length : (overlaid dim file.image rows).length = rows.length := overlaid_length below
  have covered : index.len ≤ rows.length := lost.least.trans below
  have inside : index.len ≤ SegVec.CAPACITY := by
    rw [← CAPACITY_eq]
    exact covered.trans reaches.capacity
  have same : Hnsw.AgreeBelow index.len (distancesOf env config.metric rows)
      (distancesOf env config.metric (overlaid dim file.image rows)) := by
    apply distancesOf_agree
    intro id linked
    rw [lost.covered id linked, overlaid_file (linked.trans_le lost.least)]
  constructor
  case isStored => rfl
  case counts =>
      constructor
      case formatted => exact lost.formatted
      case least => exact lost.least
      case most =>
          rw [length]
          exact below
      case holds => exact overlaid_holds rows
  case reaches =>
      rw [length]
      exact reaches
  case lengths => exact overlaid_lengths recoverable.lengths
  case loads => exact recoverable.loads
  case sound => exact recoverable.sound.congr inside (small_levels levels) same
  case logs => exact recoverable.logs
  case ordered => exact recoverable.ordered
  case agree =>
      intro lsn id vector member
      have at_ := recoverable.present lsn id vector member
      constructor
      · exact (List.getElem?_eq_some_iff.mp at_).1
      · intro behind
        change headerCount file.image ≤ id at behind
        rw [overlaid_rest behind]
        exact at_
  case logged => exact recoverable.logged
  case covered => exact covered
  case length =>
      rw [length]
      exact (Nat.max_eq_right below).symm
  case codebook => exact recoverable.codebook

theorem Lost.recovers {file : StoreFile} {index : Hnsw} {replayFrom : Nat}
    {entries : List (Nat × WalOp)} {start : StoreFile}
    (recoverable : Recoverable env config dim (dir.refile start) rows index replayFrom entries)
    (front : present <+: rows) (lost : Lost dim rows present index.len file)
    (reaches : Reaches dim rows.length file) (complete : Complete dim file.image present) :
    Recovers env config dim rows (dir.refile file) := by
  have taken : present.take (headerCount file.image) = rows.take (headerCount file.image) := by
    rw [List.prefix_iff_eq_take.mp front, List.take_take, Nat.min_eq_left lost.most]
  have image : Counts dim file.image rows index.len := by
    refine ⟨lost.formatted, lost.least, lost.most.trans front.length_le, ?_⟩
    rw [← taken]
    exact complete
  have device : Counts dim file.device rows index.len := by
    rw [lost.same]
    exact image
  have synced : headerCount file.device ≤ headerCount file.image := by
    rw [lost.same]
  exact ⟨index, replayFrom, entries, recoverable.refile ⟨image, device, synced, reaches⟩⟩

/-- A power loss inside the flush of a checkpoint with a log: the next process finds every
acknowledged row bit for bit if and only if every row that the header on the disk counts is on the
disk as well. -/
theorem power_loss_recovers_iff (usable : Usable env config)
    (history : History env config dim halts (.session w present) rows)
    (durable : w.db.durable = true) (clean : ∀ row ∈ rows, row.hasNan = false)
    (written : Nat → Bool) (opts : DbOptions) (sameConfig : opts.config = config)
    (scratch : Nat → VisitedSet) :
    (∃ t, (Db.open env opts scratch dim).run (handle env) 0 (World.start (World.lost w written)) =
        .done t (.ok ()) ∧ present <+: t.rows) ↔
      Complete dim (World.lost w written).file.image present := by
  have session : Session env config dim (fun _ => Holders.free) w.db.durable present.length w rows
      present := history.sane usable
  rw [durable] at session
  have front := session.comparable rfl
  have flushing := session.storeCount (w := w) rfl rfl
  obtain ⟨index, replayFrom, entries, recoverable, -⟩ := flushing.kept
  have lost := flushing.lost recoverable front rfl written
  have reaches : Reaches dim rows.length ((w.store.storeCount w.file).persist written) :=
    recoverable.stored.reaches.longer le_rfl id
  change _ ↔ Complete dim ((w.store.storeCount w.file).persist written).image present
  constructor
  case mp =>
      rintro ⟨t, ran, recovered⟩
      have ends := ((lost.restores recoverable usable.levels front reaches).open usable.levels opts
        sameConfig scratch).run_post ran
      generalize answer : (Except.ok () : Result Unit) = result at ends
      cases ends with
      | opened _ _ final =>
          rw [final.live.rows_eq] at recovered
          exact (complete_iff lost.most front).mpr recovered
      | mismatch => cases answer
      | disagreement => cases answer
  case mpr =>
      intro complete
      have recovers : Recovers env config dim rows (World.lost w written) :=
        lost.recovers recoverable front reaches complete
      obtain ⟨t, ran, same⟩ := recovers.reopens usable.levels clean opts scratch sameConfig
      rw [← same] at front
      exact ⟨t, ran, front⟩

/-! ### An example: one insert with a log, and a power loss inside the flush after it -/

/-- The page of the row has been written back, alone or with the header. -/
theorem power_loss_recovers_iff_part :
    (∃ t, plainOpen true (World.lost (plainFilled [F32.ofNat 1]) fun page => decide (page = 1)) =
      .done t (.ok ()) ∧ [[F32.ofNat 1]] <+: t.rows) ∧
    ∃ t, plainOpen true (World.lost (plainFilled [F32.ofNat 1]) fun page => decide (page ≤ 1)) =
      .done t (.ok ()) ∧ [[F32.ofNat 1]] <+: t.rows := by
  obtain ⟨inserted, -, -, durable⟩ := plain_first
  constructor
  · apply (power_loss_recovers_iff plain_usable (@plain_filled false _ inserted) durable (by decide) _
      (plainOptions true) rfl fun _ => VisitedSet.new).mpr
    have header : headerCount (World.lost (plainFilled [F32.ofNat 1])
        fun page => decide (page = 1)).file.image = 0 := by decide +kernel
    unfold Complete
    rw [header]
    exact nofun
  · apply (power_loss_recovers_iff plain_usable (@plain_filled false _ inserted) durable (by decide) _
      (plainOptions true) rfl fun _ => VisitedSet.new).mpr
    have header : headerCount (World.lost (plainFilled [F32.ofNat 1])
        fun page => decide (page ≤ 1)).file.image = 1 := by decide +kernel
    have stored : rowAt 1 (World.lost (plainFilled [F32.ofNat 1])
        fun page => decide (page ≤ 1)).file.image 0 = [F32.ofNat 1] := by decide +kernel
    unfold Complete
    rw [header]
    intro id row at_
    cases id with
    | zero =>
        cases at_
        exact stored
    | succ id => cases at_

theorem power_loss_disagrees :
    History plain plainConfig 1 false (.session (plainFilled [F32.ofNat 1]) [[F32.ofNat 1]])
      [[F32.ofNat 1]] ∧
    (plainFilled [F32.ofNat 1]).db.durable = true ∧
    (plainOpen true (World.lost (plainFilled [F32.ofNat 1]) fun page => decide (page = 0))).answer =
      some (.error (.corrupt "WAL vector 0 disagrees with vector store")) := by
  obtain ⟨inserted, -, -, durable⟩ := plain_first
  exact ⟨plain_filled inserted, durable, by decide +kernel⟩

end Db

end Vektordb
