import Vektordb.Storage.Store
import Vektordb.Hnsw.Graph

/-!
What the operations of the store do to the file. A row lies behind the header at a multiple of
the stride; growing the file, appending a row and storing the count leave every counted row as
it was.
-/

namespace Vektordb

open LittleEndian

namespace VectorStore

/-! ### Geometry -/

theorem strideFor_bounds (dim : Nat) : dim * 4 ≤ strideFor dim ∧ strideFor dim % ROW_ALIGN = 0 ∧
    strideFor dim < dim * 4 + 64 := by
  unfold strideFor ROW_ALIGN
  omega

theorem CAPACITY_eq : CAPACITY = SegVec.CAPACITY := rfl

def segEnd (rowStride seg : Nat) : Nat :=
  HEADER_SIZE + Doubling.start BASE_ROWS (seg + 1) * rowStride

theorem segEnd_eq (rowStride seg : Nat) : segEnd rowStride seg =
    HEADER_SIZE + BASE_ROWS * (2 ^ seg - 1) * rowStride + segRows seg * rowStride := by
  unfold segEnd segRows
  rw [Doubling.start_succ, Nat.add_mul, ← Nat.add_assoc]
  rfl

theorem segEnd_mono {rowStride left right : Nat} (le : left ≤ right) :
    segEnd rowStride left ≤ segEnd rowStride right :=
  Nat.add_le_add_left (Nat.mul_le_mul_right _ (Doubling.start_mono (Nat.succ_le_succ le))) _

theorem rowAddress_eq (rowStride id : Nat) :
    rowAddress rowStride id = HEADER_SIZE + id * rowStride := by
  have whole := Doubling.start_add BASE_ROWS id
  unfold rowAddress
  rw [Nat.add_assoc, ← Nat.add_mul]
  exact congrArg (fun rows => HEADER_SIZE + rows * rowStride) whole

theorem row_le_segEnd (rowStride id : Nat) :
    HEADER_SIZE + (id + 1) * rowStride ≤ segEnd rowStride (locate id).1 :=
  Nat.add_le_add_left
    (Nat.mul_le_mul_right _ (Doubling.index_lt_next (by decide : 0 < BASE_ROWS) id)) _

theorem locate_lt_iff (id : Nat) : (locate id).1 < MAX_SEGMENTS ↔ id < CAPACITY :=
  Doubling.segment_lt_iff (by decide) id MAX_SEGMENTS

theorem locate_mono {left right : Nat} (le : left ≤ right) : (locate left).1 ≤ (locate right).1 :=
  Doubling.segment_mono (by decide) le

/-! ### Growing the file -/

/-- Nothing but the length has changed below the old length. -/
structure Grown (file after : StoreFile) : Prop where
  len : file.len ≤ after.len
  small : file.len < 2 ^ 64 → after.len < 2 ^ 64
  image : ∀ address < file.len, after.image address = file.image address
  device : ∀ address < file.len, after.device address = file.device address

theorem Grown.refl (file : StoreFile) : Grown file file :=
  ⟨le_rfl, id, fun _ _ => rfl, fun _ _ => rfl⟩

theorem Grown.trans {file middle after : StoreFile} (first : Grown file middle)
    (second : Grown middle after) : Grown file after :=
  ⟨first.len.trans second.len, fun small => second.small (first.small small),
    fun address below =>
      (second.image address (below.trans_le first.len)).trans (first.image address below),
    fun address below =>
      (second.device address (below.trans_le first.len)).trans (first.device address below)⟩

theorem grown_setLen {file : StoreFile} {len : Nat} (longer : file.len ≤ len)
    (small : len < 2 ^ 64) : Grown file (file.setLen len) :=
  ⟨longer, fun _ => small, fun _ below => if_pos below, fun _ below => if_pos below⟩

theorem checked_bind {α : Type} (value : Nat) (next : Nat → Result α) :
    (checked value >>= next) =
      if 2 ^ 64 ≤ value then .error (.corrupt "store geometry overflows") else next value := by
  unfold checked
  split
  · rw [if_neg (by omega)]; rfl
  · rw [if_pos (by omega)]; rfl

theorem segByteOffset_eq {rowStride : Nat} (positive : 0 < rowStride) (seg : Nat) :
    segByteOffset rowStride seg =
      if 2 ^ 64 ≤ HEADER_SIZE + BASE_ROWS * (2 ^ seg - 1) * rowStride then
        .error (.corrupt "store geometry overflows")
      else .ok (HEADER_SIZE + BASE_ROWS * (2 ^ seg - 1) * rowStride) := by
  have rowsFit : BASE_ROWS * (2 ^ seg - 1) ≤ BASE_ROWS * (2 ^ seg - 1) * rowStride :=
    Nat.le_mul_of_pos_right _ positive
  unfold segByteOffset
  simp only [checked_bind]
  unfold checked
  split_ifs <;> first | rfl | omega

theorem mapSegment_eq {rowStride : Nat} (positive : 0 < rowStride) (file : StoreFile) (seg : Nat)
    (extend : Bool) :
    (segByteOffset rowStride seg >>= fun offset =>
      mapSegment file offset (segRows seg) rowStride extend) =
    if 2 ^ 64 ≤ segEnd rowStride seg then .error (.corrupt "store geometry overflows")
    else if file.len < segEnd rowStride seg then
      if extend then .ok (file.setLen (segEnd rowStride seg))
      else .error (.corrupt "vector store is truncated")
    else .ok file := by
  rw [segByteOffset_eq positive, segEnd_eq]
  by_cases offsetFits : 2 ^ 64 ≤ HEADER_SIZE + BASE_ROWS * (2 ^ seg - 1) * rowStride
  · rw [if_pos offsetFits, if_pos (by omega)]
    rfl
  · rw [if_neg offsetFits]
    show mapSegment file _ (segRows seg) rowStride extend = _
    unfold mapSegment
    simp only [checked_bind]
    split_ifs <;> first | rfl | omega

theorem mapSegments_ok (extend : Bool) (store : VectorStore) {file : StoreFile} {count : Nat}
    (positive : 0 < store.rowStride) (small : file.len < 2 ^ 64)
    (inside : ∀ seg < store.mapped + count, segEnd store.rowStride seg ≤ file.len) :
    mapSegments extend (List.range' store.mapped count) store file =
      (.ok (), { store with mapped := store.mapped + count }, file) := by
  induction count generalizing store with
  | zero => rfl
  | succ count ih =>
      have here := inside store.mapped (by omega)
      have later := ih { store with mapped := store.mapped + 1 } positive
        fun seg below => inside seg (by dsimp only at below; omega)
      rw [List.range'_succ, mapSegments, mapSegment_eq positive, if_neg (by omega),
        if_neg (by omega)]
      dsimp only at later ⊢
      rw [later, Nat.add_assoc, Nat.add_comm 1]

/-- All that mapping with `extend` does, up to the segment at which it fails. -/
theorem mapSegments_grown (store : VectorStore) {store' : VectorStore} {file file' : StoreFile} {count : Nat}
    {result : Result Unit} (positive : 0 < store.rowStride)
    (done : mapSegments true (List.range' store.mapped count) store file = (result, store', file')) :
    ∃ mapped, store' = { store with mapped := mapped } ∧ store.mapped ≤ mapped ∧
      mapped ≤ store.mapped + count ∧ Grown file file' ∧
      (∀ seg, store.mapped ≤ seg → seg < mapped → segEnd store.rowStride seg ≤ file'.len) ∧
      (result = .ok () → mapped = store.mapped + count) := by
  induction count generalizing store file with
  | zero =>
      simp only [List.range'_zero, mapSegments, Prod.mk.injEq] at done
      obtain ⟨rfl, rfl, rfl⟩ := done
      exact ⟨store.mapped, rfl, le_rfl, le_rfl, Grown.refl file,
        fun seg low high => by omega, fun _ => rfl⟩
  | succ count ih =>
      rw [List.range'_succ, mapSegments, mapSegment_eq positive] at done
      by_cases overflows : 2 ^ 64 ≤ segEnd store.rowStride store.mapped
      · simp only [if_pos overflows, Prod.mk.injEq] at done
        obtain ⟨rfl, rfl, rfl⟩ := done
        exact ⟨store.mapped, rfl, le_rfl, by omega, Grown.refl file,
          fun seg low high => by omega, fun same => by cases same⟩
      · rw [if_neg overflows] at done
        have grows : ∃ grown, Grown file grown ∧ segEnd store.rowStride store.mapped ≤ grown.len ∧
            mapSegments true (List.range' (store.mapped + 1) count)
              { store with mapped := store.mapped + 1 } grown = (result, store', file') := by
          by_cases longer : file.len < segEnd store.rowStride store.mapped
          · rw [if_pos longer] at done
            exact ⟨_, grown_setLen longer.le (Nat.lt_of_not_le overflows), le_rfl, done⟩
          · rw [if_neg longer] at done
            exact ⟨file, Grown.refl file, by omega, done⟩
        obtain ⟨grown, growth, reached, later⟩ := grows
        obtain ⟨mapped, same, low, high, more, ends, all⟩ :=
          ih { store with mapped := store.mapped + 1 } positive later
        dsimp only at same low high ends all
        refine ⟨mapped, same, by omega, by omega, growth.trans more, fun seg least below => ?_,
          fun ok => (all ok).trans (by omega)⟩
        rcases Nat.eq_or_lt_of_le least with first | further
        · rw [← first]
          exact reached.trans more.len
        · exact ends seg further below

theorem mapSegments_extends {segs : List Nat} (store : VectorStore) {store' : VectorStore}
    {file file' : StoreFile} {result : Result Unit} (positive : 0 < store.rowStride)
    (fits : ∀ seg ∈ segs, segEnd store.rowStride seg < 2 ^ 64)
    (done : mapSegments true segs store file = (result, store', file')) : result = .ok () := by
  induction segs generalizing store file with
  | nil =>
      cases done
      rfl
  | cons seg rest ih =>
      have here := fits seg (List.mem_cons_self ..)
      have later : ∀ other ∈ rest, segEnd store.rowStride other < 2 ^ 64 := fun other member =>
        fits other (List.mem_cons_of_mem seg member)
      rw [mapSegments, mapSegment_eq positive, if_neg (Nat.not_le.mpr here)] at done
      by_cases longer : file.len < segEnd store.rowStride seg
      · rw [if_pos longer] at done
        exact ih { store with mapped := seg + 1 } positive later done
      · rw [if_neg longer] at done
        exact ih { store with mapped := seg + 1 } positive later done

/-! ### The open store and its file -/

/-- The handle fits the file: the mapped segments lie inside it, and the counted rows on them. -/
structure Attached (store : VectorStore) (file : StoreFile) : Prop where
  dim_pos : 0 < store.dim
  stride : store.rowStride = strideFor store.dim
  first : 0 < store.mapped
  mapped_le : store.mapped ≤ MAX_SEGMENTS
  mapped : ∀ seg < store.mapped, segEnd store.rowStride seg ≤ file.len
  small : file.len < 2 ^ 64
  counted : ∀ id < store.count, (locate id).1 < store.mapped

theorem Attached.stride_pos {store : VectorStore} {file : StoreFile}
    (attached : Attached store file) : 0 < store.rowStride := by
  have bounds := strideFor_bounds store.dim
  have positive := attached.dim_pos
  rw [attached.stride]
  omega

theorem Attached.count_le {store : VectorStore} {file : StoreFile}
    (attached : Attached store file) : store.count ≤ CAPACITY := by
  by_contra more
  have below := attached.counted CAPACITY (by omega)
  have outside := (locate_lt_iff CAPACITY).not.mpr (Nat.lt_irrefl _)
  have le := attached.mapped_le
  omega

theorem Attached.grown {store : VectorStore} {file after : StoreFile}
    (attached : Attached store file) (growth : Grown file after) : Attached store after :=
  { attached with
    mapped := fun seg below => (attached.mapped seg below).trans growth.len
    small := growth.small attached.small }

theorem Attached.write {store : VectorStore} {file : StoreFile} (attached : Attached store file)
    (offset : Nat) (bytes : Bytes) : Attached store (file.write offset bytes) :=
  { attached with mapped := attached.mapped, small := attached.small }

theorem Attached.sync {store : VectorStore} {file : StoreFile} (attached : Attached store file)
    (limit : Nat) : Attached store (file.sync limit) :=
  { attached with mapped := attached.mapped, small := attached.small }

theorem Attached.recount {store : VectorStore} {file : StoreFile} (attached : Attached store file)
    {count : Nat} (le : count ≤ store.count) : Attached { store with count := count } file :=
  { attached with counted := fun id below => attached.counted id (below.trans_le le) }

theorem append_cases {store store' : VectorStore} {file file' : StoreFile} {vector : Row}
    {result : Result Nat} (attached : Attached store file)
    (done : store.append file vector = (result, store', file')) :
    ∃ grown mapped, Grown file grown ∧ Attached { store with mapped := mapped } grown ∧
      ((∃ e, result = .error e ∧ store' = { store with mapped := mapped } ∧ file' = grown) ∨
        (result = .ok store.count ∧ vector.length = store.dim ∧
          store' = { store with count := store.count + 1, mapped := mapped } ∧
          (locate store.count).1 < mapped ∧
          file' = grown.write (rowAddress store.rowStride store.count) vector.toLeBytes)) := by
  unfold append at done
  split at done
  · cases done
    exact ⟨file, store.mapped, Grown.refl file, attached, .inl ⟨_, rfl, rfl, rfl⟩⟩
  · rename_i sameLength
    dsimp only at done
    unfold ensureMapped at done
    by_cases full : MAX_SEGMENTS < (locate store.count).1 + 1
    · rw [if_pos full] at done
      cases done
      exact ⟨file, store.mapped, Grown.refl file, attached, .inl ⟨_, rfl, rfl, rfl⟩⟩
    · rw [if_neg full] at done
      obtain ⟨outcome, mappedStore, grown, mapping⟩ :
          ∃ outcome mappedStore grown, mapSegments true (List.range' store.mapped
            ((locate store.count).1 + 1 - store.mapped)) store file =
              (outcome, mappedStore, grown) := ⟨_, _, _, rfl⟩
      obtain ⟨mapped, rfl, low, high, growth, ends, all⟩ :=
        mapSegments_grown store attached.stride_pos mapping
      have bound := attached.mapped_le
      have attachedAfter : Attached { store with mapped := mapped } grown :=
        { dim_pos := attached.dim_pos
          stride := attached.stride
          first := attached.first.trans_le low
          mapped_le := by
            show mapped ≤ MAX_SEGMENTS
            omega
          mapped := fun seg below => by
            by_cases old : seg < store.mapped
            · exact (attached.mapped seg old).trans growth.len
            · exact ends seg (by omega) below
          small := growth.small attached.small
          counted := fun id below => (attached.counted id below).trans_le low }
      rw [mapping] at done
      refine ⟨grown, mapped, growth, attachedAfter, ?_⟩
      cases outcome with
      | error e =>
          cases done
          exact .inl ⟨e, rfl, rfl, rfl⟩
      | ok value =>
          cases done
          have whole := all rfl
          exact .inr ⟨rfl, not_not.mp sameLength, rfl, by omega, rfl⟩

/-- Where the system refuses the segment, the store is as it was and the file at most longer. -/
theorem appendUnmapped_cases {store next : VectorStore} {file after : StoreFile} {vector : Row}
    {extended : Bool} {result : Result Nat} (attached : Attached store file)
    (done : store.appendUnmapped file vector extended = (result, next, after)) :
    store.append file vector = (result, next, after) ∨
      (∃ e, result = .error e) ∧ next = store ∧ Grown file after := by
  unfold appendUnmapped at done
  split at done
  · right
    rw [mapSegment_eq attached.stride_pos] at done
    by_cases overflows : 2 ^ 64 ≤ segEnd store.rowStride store.mapped
    · rw [if_pos overflows] at done
      cases done
      exact ⟨⟨_, rfl⟩, rfl, Grown.refl file⟩
    · rw [if_neg overflows] at done
      by_cases longer : file.len < segEnd store.rowStride store.mapped
      · rw [if_pos longer] at done
        cases done
        cases extended with
        | true => exact ⟨⟨_, rfl⟩, rfl, grown_setLen longer.le (Nat.lt_of_not_le overflows)⟩
        | false => exact ⟨⟨_, rfl⟩, rfl, Grown.refl file⟩
      · rw [if_neg longer] at done
        cases done
        exact ⟨⟨_, rfl⟩, rfl, by rw [ite_self]; exact Grown.refl file⟩
  · exact .inl done

theorem append_ok {store : VectorStore} {file : StoreFile} {vector : Row}
    (attached : Attached store file) (sameLength : vector.length = store.dim)
    (inside : store.count < CAPACITY)
    (room : segEnd store.rowStride (locate store.count).1 ≤ file.len) :
    ∃ mapped, store.append file vector = (.ok store.count,
        { store with count := store.count + 1, mapped := mapped },
        file.write (rowAddress store.rowStride store.count) vector.toLeBytes) ∧
      Attached { store with count := store.count + 1, mapped := mapped } file := by
  have segment := (locate_lt_iff store.count).mpr inside
  have bound := attached.mapped_le
  have inFile : ∀ seg < store.mapped + ((locate store.count).1 + 1 - store.mapped),
      segEnd store.rowStride seg ≤ file.len := by
    intro seg below
    by_cases old : seg < store.mapped
    · exact attached.mapped seg old
    · exact (segEnd_mono (by omega)).trans room
  refine ⟨store.mapped + ((locate store.count).1 + 1 - store.mapped), ?_, ?_⟩
  · unfold append ensureMapped
    dsimp only
    rw [if_neg (not_not.mpr sameLength), if_neg (by omega),
      mapSegments_ok true store attached.stride_pos attached.small inFile]
  · refine ⟨attached.dim_pos, attached.stride, by have := attached.first; dsimp only; omega,
      by dsimp only; omega, inFile, attached.small, fun id below => ?_⟩
    have order := locate_mono (Nat.le_of_lt_succ below)
    dsimp only
    omega

/-! ### Rows and header -/

/-- What the header page of a store for vectors of a dimension says, apart from the count. -/
structure Formatted (dim : Nat) (image : Image) : Prop where
  dim_pos : 0 < dim
  dim_lt : dim < 2 ^ 32
  magic : decode (image.read OFF_MAGIC 4) = MAGIC
  version : decode (image.read OFF_VERSION 4) = VERSION
  dimField : decode (image.read OFF_DIM 4) = dim
  strideField : decode (image.read OFF_STRIDE 8) = strideFor dim

def headerCount (image : Image) : Nat := decode (image.read OFF_COUNT 8)

def rowAt (dim : Nat) (image : Image) (id : Nat) : Row :=
  Row.ofLeBytes dim (image.read (HEADER_SIZE + id * strideFor dim) (dim * 4))

theorem headerCount_lt (image : Image) : headerCount image < 2 ^ 64 := by
  have bound := decode_lt (image.read OFF_COUNT 8)
  rwa [Image.read_length] at bound

theorem getUnchecked_eq {store : VectorStore} (stride : store.rowStride = strideFor store.dim)
    (file : StoreFile) (id : Nat) :
    store.getUnchecked file id = rowAt store.dim file.image id := by
  unfold getUnchecked rowAt
  rw [rowAddress_eq, stride]

def SameRows (dim n : Nat) (image other : Image) : Prop :=
  ∀ address < HEADER_SIZE + n * strideFor dim, image address = other address

theorem SameRows.header {dim n : Nat} {image other : Image} (same : SameRows dim n image other) :
    headerCount image = headerCount other := by
  unfold headerCount
  rw [Image.read_congr fun address _ high =>
    same address (by unfold OFF_COUNT at high; unfold HEADER_SIZE; omega)]

theorem SameRows.formatted {dim n : Nat} {image other : Image} (same : SameRows dim n image other)
    (formatted : Formatted dim image) : Formatted dim other := by
  have reads : ∀ {offset count}, offset + count ≤ HEADER_SIZE →
      other.read offset count = image.read offset count := fun inside =>
    Image.read_congr fun address _ high => (same address (by omega)).symm
  refine ⟨formatted.dim_pos, formatted.dim_lt, ?_, ?_, ?_, ?_⟩
  · rw [reads (by decide), formatted.magic]
  · rw [reads (by decide), formatted.version]
  · rw [reads (by decide), formatted.dimField]
  · rw [reads (by decide), formatted.strideField]

theorem SameRows.rowAt {dim n id : Nat} {image other : Image} (same : SameRows dim n image other)
    (below : id < n) : rowAt dim image id = rowAt dim other id := by
  have bounds := strideFor_bounds dim
  have inside : (id + 1) * strideFor dim ≤ n * strideFor dim := Nat.mul_le_mul_right _ below
  rw [Nat.succ_mul] at inside
  unfold VectorStore.rowAt
  rw [Image.read_congr fun address _ high => same address (by omega)]

theorem Grown.sameRows {dim n : Nat} {file after : StoreFile} (growth : Grown file after)
    (inside : HEADER_SIZE + n * strideFor dim ≤ file.len) :
    SameRows dim n file.image after.image :=
  fun address below => (growth.image address (by omega)).symm

theorem sameRows_write {dim n offset : Nat} (image : Image) (bytes : Bytes)
    (behind : HEADER_SIZE + n * strideFor dim ≤ offset) :
    SameRows dim n image (image.write offset bytes) :=
  fun _ below => (Image.write_apart image (.inl (by omega))).symm

theorem rowAt_write_same {dim id : Nat} (image : Image) {vector : Row}
    (sameLength : vector.length = dim) :
    rowAt dim (image.write (HEADER_SIZE + id * strideFor dim) vector.toLeBytes) id = vector := by
  have length : vector.toLeBytes.length = dim * 4 := by
    rw [Row.toLeBytes_length, sameLength, Nat.mul_comm]
  have bytes := Image.read_write_same image (HEADER_SIZE + id * strideFor dim) vector.toLeBytes
  rw [length] at bytes
  unfold rowAt
  rw [bytes, ← sameLength, Row.ofLeBytes_toLeBytes]

def Holds (dim : Nat) (image : Image) (rows : List Row) : Prop :=
  ∀ (id : Nat) (row : Row), rows[id]? = some row → rowAt dim image id = row

theorem Holds.same {dim : Nat} {image other : Image} {rows : List Row}
    (holds : Holds dim image rows) (same : SameRows dim rows.length image other) :
    Holds dim other rows := fun id row at_ => by
  have below : id < rows.length := (List.getElem?_eq_some_iff.mp at_).1
  rw [← same.rowAt below]
  exact holds id row at_

theorem Holds.front {dim : Nat} {image : Image} {rows more : List Row}
    (holds : Holds dim image more) (front : rows <+: more) : Holds dim image rows :=
  fun id row at_ => holds id row (by
    have below : id < rows.length := (List.getElem?_eq_some_iff.mp at_).1
    rw [← at_, List.prefix_iff_getElem?.mp front id below, List.getElem?_eq_getElem below])

theorem Holds.push {dim : Nat} {image : Image} {rows : List Row} {vector : Row}
    (holds : Holds dim image rows) (sameLength : vector.length = dim) :
    Holds dim (image.write (HEADER_SIZE + rows.length * strideFor dim) vector.toLeBytes)
      (rows ++ [vector]) := by
  intro id row at_
  by_cases old : id < rows.length
  · rw [List.getElem?_append_left old] at at_
    rw [← (sameRows_write image vector.toLeBytes le_rfl).rowAt old]
    exact holds id row at_
  · have new : id = rows.length := by
      have below := (List.getElem?_eq_some_iff.mp at_).1
      rw [List.length_append, List.length_singleton] at below
      omega
    subst new
    rw [List.getElem?_append_right le_rfl, Nat.sub_self] at at_
    cases at_
    exact rowAt_write_same image sameLength

/-! ### The header count -/

theorem storeCount_spec {dim : Nat} {store : VectorStore} {file : StoreFile}
    (formatted : Formatted dim file.image) (small : store.count < 2 ^ 64) :
    Formatted dim (store.storeCount file).image ∧
      headerCount (store.storeCount file).image = store.count ∧
      ∀ id, rowAt dim (store.storeCount file).image id = rowAt dim file.image id := by
  have reads : ∀ {offset count}, offset + count ≤ OFF_COUNT ∨ OFF_COUNT + 8 ≤ offset →
      (store.storeCount file).image.read offset count = file.image.read offset count := by
    intro offset count apart
    exact Image.read_write_apart file.image (by rw [encode_length]; exact apart)
  refine ⟨⟨formatted.dim_pos, formatted.dim_lt, ?_, ?_, ?_, ?_⟩, ?_, fun id => ?_⟩
  · rw [reads (by decide), formatted.magic]
  · rw [reads (by decide), formatted.version]
  · rw [reads (by decide), formatted.dimField]
  · rw [reads (by decide), formatted.strideField]
  · have bytes := Image.read_write_same file.image OFF_COUNT (encode 8 store.count)
    rw [encode_length] at bytes
    unfold headerCount
    rw [show (store.storeCount file).image.read OFF_COUNT 8 = encode 8 store.count from bytes,
      decode_encode_of_lt small]
  · unfold rowAt
    rw [reads (.inr (by unfold OFF_COUNT HEADER_SIZE; omega))]

/-! ### Opening -/

/-- The file reaches the end of the segment of its last row. -/
structure Reaches (dim n : Nat) (file : StoreFile) : Prop where
  capacity : n ≤ CAPACITY
  len : segEnd (strideFor dim) (locate (n - 1)).1 ≤ file.len
  small : file.len < 2 ^ 64

theorem Reaches.mono {dim m n : Nat} {file : StoreFile} (reaches : Reaches dim n file)
    (le : m ≤ n) : Reaches dim m file :=
  ⟨le.trans reaches.capacity, (segEnd_mono (locate_mono (by omega))).trans reaches.len,
    reaches.small⟩

theorem Reaches.rows {dim n : Nat} {file : StoreFile} (reaches : Reaches dim n file) :
    HEADER_SIZE + n * strideFor dim ≤ file.len := by
  have last := row_le_segEnd (strideFor dim) (n - 1)
  have le : n * strideFor dim ≤ (n - 1 + 1) * strideFor dim := Nat.mul_le_mul_right _ (by omega)
  have len := reaches.len
  omega

theorem Attached.reaches {store : VectorStore} {file : StoreFile}
    (attached : Attached store file) : Reaches store.dim store.count file := by
  refine ⟨attached.count_le, ?_, attached.small⟩
  rw [← attached.stride]
  refine attached.mapped _ ?_
  by_cases empty : store.count = 0
  · rw [empty]
    exact attached.first
  · exact attached.counted (store.count - 1) (by omega)

theorem open_ok {dim : Nat} {file : StoreFile} (formatted : Formatted dim file.image)
    (reaches : Reaches dim (headerCount file.image) file) :
    ∃ mapped, VectorStore.open file =
        .ok ⟨dim, strideFor dim, headerCount file.image, mapped⟩ ∧
      Attached ⟨dim, strideFor dim, headerCount file.image, mapped⟩ file := by
  have bounds := strideFor_bounds dim
  have positive := formatted.dim_pos
  have capacity := reaches.capacity
  have rows := reaches.rows
  have segment : (locate (headerCount file.image - 1)).1 < MAX_SEGMENTS := by
    refine (locate_lt_iff _).mpr ?_
    have some : 0 < CAPACITY := by decide
    omega
  have needed : (if headerCount file.image = 0 then 1
      else (locate (headerCount file.image - 1)).1 + 1) =
        (locate (headerCount file.image - 1)).1 + 1 := by
    split
    · rename_i empty
      rw [empty]
      rfl
    · rfl
  have inFile : ∀ seg < 0 + ((locate (headerCount file.image - 1)).1 + 1),
      segEnd (strideFor dim) seg ≤ file.len := fun seg below =>
    (segEnd_mono (by omega)).trans reaches.len
  have maps := mapSegments_ok false ⟨dim, strideFor dim, headerCount file.image, 0⟩
    (by dsimp only; omega) reaches.small inFile
  refine ⟨0 + ((locate (headerCount file.image - 1)).1 + 1), ?_, positive, rfl, Nat.succ_pos _,
    by dsimp only; omega, inFile, reaches.small, fun id below => ?_⟩
  · unfold VectorStore.open ensureMapped
    dsimp only
    rw [formatted.dimField, formatted.strideField, formatted.magic, formatted.version]
    rw [show decode (file.image.read OFF_COUNT 8) = headerCount file.image from rfl, needed,
      if_neg (by omega), if_neg (not_not.mpr rfl), if_neg (not_not.mpr rfl),
      if_neg (by omega), if_neg (by omega), Nat.sub_zero]
    rw [maps]
  · have order := locate_mono (Nat.le_sub_one_of_lt below)
    dsimp only at order ⊢
    omega

/-! ### Creating -/

theorem headerBytes_spec {dim : Nat} (positive : 0 < dim) (small : dim < 2 ^ 32) (image : Image) :
    Formatted dim (image.write 0 (headerBytes dim (strideFor dim))) ∧
      headerCount (image.write 0 (headerBytes dim (strideFor dim))) = 0 := by
  have bounds := strideFor_bounds dim
  have length : (headerBytes dim (strideFor dim)).length = 32 := by
    simp only [headerBytes, List.length_append, encode_length]
  have reads : ∀ {start count}, start + count ≤ 32 →
      (image.write 0 (headerBytes dim (strideFor dim))).read start count =
        ((headerBytes dim (strideFor dim)).drop start).take count := fun {start count} inside => by
    have part := image.read_write_inside 0 (inside.trans length.ge)
    rwa [Nat.zero_add] at part
  have after4 : (headerBytes dim (strideFor dim)).drop 4 =
      encode 4 VERSION ++ (encode 4 dim ++ (encode 4 0 ++ (encode 8 0 ++
        encode 8 (strideFor dim)))) := List.drop_left' (encode_length 4 _)
  have after8 : (headerBytes dim (strideFor dim)).drop 8 =
      encode 4 dim ++ (encode 4 0 ++ (encode 8 0 ++ encode 8 (strideFor dim))) := by
    rw [show 8 = 4 + 4 from rfl, ← List.drop_drop, after4]
    exact List.drop_left' (encode_length 4 _)
  have after16 : (headerBytes dim (strideFor dim)).drop 16 =
      encode 8 0 ++ encode 8 (strideFor dim) := by
    rw [show 16 = 8 + 4 + 4 from rfl, ← List.drop_drop, ← List.drop_drop, after8,
      List.drop_left' (encode_length 4 _), List.drop_left' (encode_length 4 _)]
  have after24 : (headerBytes dim (strideFor dim)).drop 24 = encode 8 (strideFor dim) := by
    rw [show 24 = 16 + 8 from rfl, ← List.drop_drop, after16]
    exact List.drop_left' (encode_length 8 _)
  refine ⟨⟨positive, small, ?_, ?_, ?_, ?_⟩, ?_⟩
  · rw [reads (by decide)]
    exact decode_take_encode_append (by decide) _
  · rw [reads (by decide)]
    unfold OFF_VERSION
    rw [after4, decode_take_encode_append (by decide)]
  · rw [reads (by decide)]
    unfold OFF_DIM
    rw [after8, decode_take_encode_append (show dim < 256 ^ 4 from small)]
  · rw [reads (by decide)]
    unfold OFF_STRIDE
    rw [after24, List.take_of_length_le (by rw [encode_length]), decode_encode_of_lt (by omega)]
  · unfold headerCount
    rw [reads (by decide)]
    unfold OFF_COUNT
    rw [after16, decode_take_encode_append (by decide)]

theorem create_ok {dim : Nat} (positive : 0 < dim) (small : dim < 2 ^ 32) :
    ∃ store file, create dim = .ok (store, file) ∧ store.dim = dim ∧ store.count = 0 ∧
      Attached store file ∧ Formatted dim file.image ∧ headerCount file.image = 0 ∧
      Formatted dim file.device ∧ headerCount file.device = 0 := by
  have bounds := strideFor_bounds dim
  let blankFile : StoreFile := ⟨0, Image.blank, Image.blank⟩
  let header := (blankFile.setLen HEADER_SIZE).write 0 (headerBytes dim (strideFor dim))
  have first : segEnd (strideFor dim) 0 = HEADER_SIZE + 1024 * strideFor dim := by
    show HEADER_SIZE + 1024 * (2 ^ (0 + 1) - 1) * strideFor dim = _
    rw [show (2 : Nat) ^ (0 + 1) - 1 = 1 from rfl, Nat.mul_one]
  have fits : segEnd (strideFor dim) 0 < 2 ^ 64 := by
    rw [first]
    unfold HEADER_SIZE
    omega
  have synced : (header.sync HEADER_SIZE).len = HEADER_SIZE := rfl
  have shorter : (header.sync HEADER_SIZE).len < segEnd (strideFor dim) 0 := by
    rw [synced, first]
    omega
  have mapping : mapSegments true (List.range' 0 1) ⟨dim, strideFor dim, 0, 0⟩
      (header.sync HEADER_SIZE) = (.ok (), ⟨dim, strideFor dim, 0, 1⟩,
        (header.sync HEADER_SIZE).setLen (segEnd (strideFor dim) 0)) := by
    have stride : 0 < (⟨dim, strideFor dim, 0, 0⟩ : VectorStore).rowStride := by
      dsimp only
      omega
    rw [List.range'_succ, mapSegments, mapSegment_eq stride, if_neg (Nat.not_le.mpr fits),
      if_pos shorter]
    rfl
  obtain ⟨formatted, count⟩ := headerBytes_spec positive small (blankFile.setLen HEADER_SIZE).image
  -- The header page is on the device before the first segment is mapped.
  have pages : SameRows dim 0 header.image
        ((header.sync HEADER_SIZE).setLen (segEnd (strideFor dim) 0)).image ∧
      SameRows dim 0 header.image
        ((header.sync HEADER_SIZE).setLen (segEnd (strideFor dim) 0)).device := by
    refine ⟨fun address below => ?_, fun address below => ?_⟩
    · rw [Nat.zero_mul, Nat.add_zero] at below
      exact (if_pos below).symm
    · rw [Nat.zero_mul, Nat.add_zero] at below
      exact ((if_pos below).trans (if_pos below)).symm
  refine ⟨⟨dim, strideFor dim, 0, 1⟩,
    (header.sync HEADER_SIZE).setLen (segEnd (strideFor dim) 0), ?_, rfl, rfl,
    ⟨positive, rfl, Nat.one_pos, (by decide : 1 ≤ MAX_SEGMENTS), fun seg below => ?_, fits, fun id below => ?_⟩,
    pages.1.formatted formatted, pages.1.header.symm.trans count,
    pages.2.formatted formatted, pages.2.header.symm.trans count⟩
  · unfold create ensureMapped
    rw [if_neg (by omega)]
    dsimp only
    rw [if_neg (by decide), Nat.sub_zero]
    rw [show mapSegments true (List.range' 0 1) ⟨dim, strideFor dim, 0, 0⟩
      ((((⟨0, Image.blank, Image.blank⟩ : StoreFile).setLen HEADER_SIZE).write 0
        (headerBytes dim (strideFor dim))).sync HEADER_SIZE) = _ from mapping]
  · obtain rfl : seg = 0 := Nat.lt_one_iff.mp below
    exact le_rfl
  · exact absurd below (Nat.not_lt_zero id)

end VectorStore

end Vektordb
