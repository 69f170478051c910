import Vektordb.Storage.Rows
import Vektordb.Numeric.Word

/-!
The store with the arithmetic of a 64-bit machine. Every operation that may wrap, panic or leave a
mapping is one in `Option`; the system may refuse to extend the file or to map a segment of it.
Opened on any file whatever, the store never does any of these.
-/

namespace Vektordb

open LittleEndian

namespace VectorStore

namespace Machine

structure Mapping where
  offset : Nat
  len : Nat
  deriving DecidableEq, Repr

/-- The open store with its mappings, `segments[0..mapped]`. -/
structure Opened where
  store : VectorStore
  segments : List Mapping
  deriving DecidableEq, Repr

/-- What the system refuses at a segment. -/
inductive Refusal where
  | setLen
  | map
  deriving DecidableEq, Repr

/-- `locate(id)` -/
def locate (id : Nat) : Option (Nat × Nat) := do
  let quotient ← Word.add 64 (id / BASE_ROWS) 1
  let seg ← Word.log2 quotient
  let power ← Word.shiftLeft 64 1 seg
  let before ← Word.sub power 1
  let segStart ← Word.mul 64 BASE_ROWS before
  let row ← Word.sub id segStart
  pure (seg, row)

def segRows (seg : Nat) : Option Nat := Word.shiftLeft 64 BASE_ROWS seg

def segByteOffset (rowStride seg : Nat) : Option (Result Nat) := do
  let power ← Word.shiftLeft 64 1 seg
  let before ← Word.sub power 1
  pure do
    let rowsBefore ← checked (BASE_ROWS * before)
    let bytesBefore ← checked (rowsBefore * rowStride)
    checked (HEADER_SIZE + bytesBefore)

def mapSegment (refusal : Option Refusal) (file : StoreFile) (byteOffset rows stride : Nat)
    (extend : Bool) : Result Mapping × StoreFile :=
  match checked (rows * stride) with
  | .error e => (.error e, file)
  | .ok len =>
      match checked (byteOffset + len) with
      | .error e => (.error e, file)
      | .ok stop =>
          if file.len < stop ∧ extend = false then
            (.error (.corrupt "vector store is truncated"), file)
          else if file.len < stop ∧ refusal = some .setLen then
            (.error (.io "cannot extend the file"), file)
          else
            let file := if file.len < stop then file.setLen stop else file
            if refusal = some .map then (.error (.io "cannot map segment"), file)
            else (.ok ⟨byteOffset, len⟩, file)

/-- The loop of `ensure_mapped_locked`. It would panic if a segment were mapped twice or there were
no slot for it. -/
def mapSegments (refuses : Nat → Option Refusal) (extend : Bool) :
    List Nat → Opened → StoreFile → Option (Result Unit × Opened × StoreFile)
  | [], opened, file => some (.ok (), opened, file)
  | seg :: rest, opened, file => do
      match ← segByteOffset opened.store.rowStride seg with
      | .error e => pure (.error e, opened, file)
      | .ok offset =>
          let rows ← segRows seg
          match mapSegment (refuses seg) file offset rows opened.store.rowStride extend with
          | (.error e, file) => pure (.error e, opened, file)
          | (.ok map, file) =>
              if seg = opened.segments.length ∧ seg < MAX_SEGMENTS then
                mapSegments refuses extend rest
                  ⟨{ opened.store with mapped := seg + 1 }, opened.segments ++ [map]⟩ file
              else none

def ensureMapped (refuses : Nat → Option Refusal) (opened : Opened) (file : StoreFile) (upto : Nat)
    (extend : Bool) : Option (Result Unit × Opened × StoreFile) :=
  if MAX_SEGMENTS < upto then
    some (.error (.corrupt "store exceeds maximum size"), opened, file)
  else
    mapSegments refuses extend
      (List.range' opened.store.mapped (upto - opened.store.mapped)) opened file

def needed (count lastSeg : Nat) : Option Nat :=
  if count = 0 then some 1 else Word.add 64 lastSeg 1

def «open» (refuses : Nat → Option Refusal) (file : StoreFile) : Option (Result Opened) :=
  if file.len < HEADER_SIZE then some (.error (.corrupt "file smaller than header"))
  else if decode (file.image.read OFF_MAGIC 4) ≠ MAGIC then some (.error (.corrupt "bad magic"))
  else if decode (file.image.read OFF_VERSION 4) ≠ VERSION then
    some (.error (.corrupt "unsupported version"))
  else
    let dim := decode (file.image.read OFF_DIM 4)
    let rowStride := decode (file.image.read OFF_STRIDE 8)
    let count := decode (file.image.read OFF_COUNT 8)
    if 2 ^ 64 ≤ dim * 4 then some (.error (.corrupt "inconsistent header geometry"))
    else if dim = 0 ∨ rowStride < dim * 4 ∨ rowStride % ROW_ALIGN ≠ 0 then
      some (.error (.corrupt "inconsistent header geometry"))
    else do
      -- `count.saturating_sub(1)`
      let (lastSeg, _) ← locate (count - 1)
      let upto ← needed count lastSeg
      match ← ensureMapped refuses ⟨⟨dim, rowStride, count, 0⟩, []⟩ file upto false with
      | (.error e, _, _) => pure (.error e)
      | (.ok (), opened, _) => pure (.ok opened)

/-- Where in the file the row of an id lies, if the whole row lies in a mapped segment. -/
def place (opened : Opened) (id : Nat) : Option Nat := do
  let (seg, row) ← locate id
  let map ← opened.segments[seg]?
  let off ← Word.mul 64 row opened.store.rowStride
  let bytes ← Word.mul 64 opened.store.dim 4
  if off + bytes ≤ map.len then pure (map.offset + off) else none

def getUnchecked (opened : Opened) (file : StoreFile) (id : Nat) : Option Row := do
  let address ← place opened id
  pure (Row.ofLeBytes opened.store.dim (file.image.read address (opened.store.dim * 4)))

def get (opened : Opened) (file : StoreFile) (id : Nat) : Option (Result Row) :=
  if opened.store.count ≤ id then some (.error (.idOutOfRange id))
  else (getUnchecked opened file id).map .ok

def append (refuses : Nat → Option Refusal) (opened : Opened) (file : StoreFile) (vector : Row) :
    Option (Result Nat × Opened × StoreFile) :=
  if vector.length ≠ opened.store.dim then
    some (.error (.dimensionMismatch opened.store.dim vector.length), opened, file)
  else do
    let id := opened.store.count
    let (seg, _) ← locate id
    let upto ← Word.add 64 seg 1
    match ← ensureMapped refuses opened file upto true with
    | (.error e, opened, file) => pure (.error e, opened, file)
    | (.ok (), opened, file) =>
        let address ← place opened id
        let count ← Word.add 64 id 1
        pure (.ok id, { opened with store := { opened.store with count := count } },
          file.write address vector.toLeBytes)

/-! ### Arithmetic -/

theorem locate_eq {id : Nat} (small : id < 2 ^ 64) : locate id = some (VectorStore.locate id) := by
  have quotient : id / BASE_ROWS + 1 ≤ 2 ^ 54 := by
    unfold BASE_ROWS
    omega
  have power : 2 ^ (id / BASE_ROWS + 1).log2 ≤ id / BASE_ROWS + 1 :=
    Nat.log2_self_le (Nat.succ_ne_zero _)
  have positive := Nat.two_pow_pos (id / BASE_ROWS + 1).log2
  have start : BASE_ROWS * (2 ^ (id / BASE_ROWS + 1).log2 - 1) ≤ id :=
    Doubling.start_le_index BASE_ROWS id
  have bit : Word.shiftLeft 64 1 (id / BASE_ROWS + 1).log2 =
      some (2 ^ (id / BASE_ROWS + 1).log2) := by
    rw [Word.shiftLeft_some Nat.one_pos (by omega), Nat.one_mul]
  unfold locate
  rw [Word.add_some (by omega), Option.bind_eq_bind, Option.bind_some,
    Word.log2_some (Nat.succ_ne_zero _), Option.bind_some, bit, Option.bind_some,
    Word.sub_some positive, Option.bind_some, Word.mul_some (start.trans_lt small),
    Option.bind_some, Word.sub_some start]
  rfl

theorem segment_small {id : Nat} (small : id < 2 ^ 64) : (VectorStore.locate id).1 < 64 := by
  have quotient : id / BASE_ROWS + 1 < 2 ^ 64 := by
    unfold BASE_ROWS
    omega
  exact (Nat.log2_lt (Nat.succ_ne_zero _)).mpr quotient

theorem two_pow_small {seg : Nat} (below : seg < MAX_SEGMENTS) : 2 ^ seg ≤ 2 ^ 39 :=
  Nat.pow_le_pow_right (by decide) (Nat.le_of_lt_succ below)

theorem segRows_eq {seg : Nat} (below : seg < MAX_SEGMENTS) :
    segRows seg = some (VectorStore.segRows seg) := by
  have power := two_pow_small below
  unfold segRows
  rw [Word.shiftLeft_some (by decide) (by unfold BASE_ROWS; omega)]
  rfl

theorem segByteOffset_eq (rowStride : Nat) {seg : Nat} (below : seg < MAX_SEGMENTS) :
    segByteOffset rowStride seg = some (VectorStore.segByteOffset rowStride seg) := by
  have power := two_pow_small below
  have positive := Nat.two_pow_pos seg
  unfold segByteOffset
  rw [Word.shiftLeft_some Nat.one_pos (by omega), Nat.one_mul, Option.bind_eq_bind,
    Option.bind_some, Word.sub_some positive]
  rfl

/-! ### Mapping -/

theorem checked_fits {value : Nat} (fits : value < 2 ^ 64) : checked value = .ok value :=
  if_pos fits

theorem checked_overflows {value : Nat} (overflows : ¬ value < 2 ^ 64) :
    checked value = .error (.corrupt "store geometry overflows") := if_neg overflows

theorem mapSegment_spec {refusal : Option Refusal} {file after : StoreFile}
    {byteOffset rows stride : Nat} {extend : Bool} {result : Result Mapping}
    (done : mapSegment refusal file byteOffset rows stride extend = (result, after)) :
    Grown file after ∧ (extend = false → after = file) ∧
      ∀ map, result = .ok map → map = ⟨byteOffset, rows * stride⟩ ∧
        byteOffset + rows * stride < 2 ^ 64 ∧ byteOffset + rows * stride ≤ after.len := by
  unfold mapSegment at done
  by_cases lenFits : rows * stride < 2 ^ 64
  · rw [checked_fits lenFits] at done
    dsimp only at done
    by_cases stopFits : byteOffset + rows * stride < 2 ^ 64
    · rw [checked_fits stopFits] at done
      dsimp only at done
      by_cases longer : file.len < byteOffset + rows * stride
      · have growth := grown_setLen longer.le stopFits
        by_cases reading : extend = false
        · rw [if_pos ⟨longer, reading⟩] at done
          cases done
          exact ⟨Grown.refl file, fun _ => rfl, nofun⟩
        · rw [if_neg (not_and_of_not_right _ reading), if_pos longer] at done
          by_cases kept : refusal = some .setLen
          · rw [if_pos ⟨longer, kept⟩] at done
            cases done
            exact ⟨Grown.refl file, fun _ => rfl, nofun⟩
          · rw [if_neg (not_and_of_not_right _ kept)] at done
            by_cases refused : refusal = some .map
            · rw [if_pos refused] at done
              cases done
              exact ⟨growth, fun off => absurd off reading, nofun⟩
            · rw [if_neg refused] at done
              cases done
              refine ⟨growth, fun off => absurd off reading, ?_⟩
              intro map same
              cases same
              exact ⟨rfl, stopFits, le_rfl⟩
      · rw [if_neg (not_and_of_not_left _ longer), if_neg (not_and_of_not_left _ longer),
          if_neg longer] at done
        by_cases refused : refusal = some .map
        · rw [if_pos refused] at done
          cases done
          exact ⟨Grown.refl file, fun _ => rfl, nofun⟩
        · rw [if_neg refused] at done
          cases done
          refine ⟨Grown.refl file, fun _ => rfl, ?_⟩
          intro map same
          cases same
          exact ⟨rfl, stopFits, not_lt.mp longer⟩
    · rw [checked_overflows stopFits] at done
      cases done
      exact ⟨Grown.refl file, fun _ => rfl, nofun⟩
  · rw [checked_overflows lenFits] at done
    cases done
    exact ⟨Grown.refl file, fun _ => rfl, nofun⟩

def mappings (rowStride n : Nat) : List Mapping :=
  (List.range n).map fun seg =>
    ⟨HEADER_SIZE + BASE_ROWS * (2 ^ seg - 1) * rowStride, VectorStore.segRows seg * rowStride⟩

structure Mapped (opened : Opened) (file : StoreFile) : Prop where
  dim_lt : opened.store.dim < 2 ^ 32
  dim_pos : 0 < opened.store.dim
  row_le : opened.store.dim * 4 ≤ opened.store.rowStride
  segments : opened.segments = mappings opened.store.rowStride opened.store.mapped
  mapped_le : opened.store.mapped ≤ MAX_SEGMENTS
  inside : ∀ seg < opened.store.mapped, segEnd opened.store.rowStride seg < 2 ^ 64 ∧
    segEnd opened.store.rowStride seg ≤ file.len

variable {opened : Opened} {file : StoreFile}

theorem Mapped.length (mapped : Mapped opened file) :
    opened.segments.length = opened.store.mapped := by
  rw [mapped.segments, mappings, List.length_map, List.length_range]

theorem Mapped.grown (mapped : Mapped opened file) {after : StoreFile} (growth : Grown file after) :
    Mapped opened after :=
  { mapped with
    inside := fun seg below => ⟨(mapped.inside seg below).1,
      (mapped.inside seg below).2.trans growth.len⟩ }

theorem Mapped.next (mapped : Mapped opened file) {offset : Nat} {map : Mapping}
    (more : opened.store.mapped < MAX_SEGMENTS)
    (at_ : VectorStore.segByteOffset opened.store.rowStride opened.store.mapped = .ok offset)
    (shows : map = ⟨offset, VectorStore.segRows opened.store.mapped * opened.store.rowStride⟩)
    (fits : offset + VectorStore.segRows opened.store.mapped * opened.store.rowStride < 2 ^ 64)
    (within : offset + VectorStore.segRows opened.store.mapped * opened.store.rowStride ≤
      file.len) :
    Mapped ⟨{ opened.store with mapped := opened.store.mapped + 1 }, opened.segments ++ [map]⟩
      file := by
  have positive : 0 < opened.store.rowStride := by
    have first := mapped.dim_pos
    have row := mapped.row_le
    omega
  rw [VectorStore.segByteOffset_eq positive] at at_
  have here : offset = HEADER_SIZE + BASE_ROWS * (2 ^ opened.store.mapped - 1) *
      opened.store.rowStride := by
    split at at_
    · cases at_
    · cases at_
      rfl
  constructor
  · exact mapped.dim_lt
  · exact mapped.dim_pos
  · exact mapped.row_le
  · rw [shows, here, mapped.segments]
    unfold mappings
    rw [List.range_succ, List.map_append, List.map_singleton]
  · exact more
  · intro seg below
    by_cases old : seg < opened.store.mapped
    · exact mapped.inside seg old
    · have last : seg = opened.store.mapped := by
        dsimp only at below
        omega
      dsimp only
      rw [last, segEnd_eq, ← here]
      exact ⟨fits, within⟩

theorem mapSegments_mapped (refuses : Nat → Option Refusal) (extend : Bool) (count : Nat)
    (mapped : Mapped opened file) (room : opened.store.mapped + count ≤ MAX_SEGMENTS) :
    ∃ result last segments after, mapSegments refuses extend
        (List.range' opened.store.mapped count) opened file =
          some (result, ⟨{ opened.store with mapped := last }, segments⟩, after) ∧
      Mapped ⟨{ opened.store with mapped := last }, segments⟩ after ∧ Grown file after ∧
      (extend = false → after = file) ∧ opened.store.mapped ≤ last ∧
      (result = .ok () → last = opened.store.mapped + count) := by
  induction count generalizing opened file with
  | zero =>
      exact ⟨.ok (), opened.store.mapped, opened.segments, file, rfl, mapped, Grown.refl file,
        fun _ => rfl, le_rfl, fun _ => rfl⟩
  | succ count ih =>
      have below : opened.store.mapped < MAX_SEGMENTS := by omega
      rw [List.range'_succ, mapSegments, segByteOffset_eq _ below, Option.bind_eq_bind,
        Option.bind_some]
      cases at_ : VectorStore.segByteOffset opened.store.rowStride opened.store.mapped with
      | error e =>
          exact ⟨.error e, opened.store.mapped, opened.segments, file, rfl, mapped,
            Grown.refl file, fun _ => rfl, le_rfl, nofun⟩
      | ok offset =>
          dsimp only
          rw [segRows_eq below, Option.bind_eq_bind, Option.bind_some]
          have ⟨outcome, middle, done⟩ : ∃ outcome middle, mapSegment
              (refuses opened.store.mapped) file offset (VectorStore.segRows opened.store.mapped)
              opened.store.rowStride extend = (outcome, middle) := ⟨_, _, rfl⟩
          have ⟨growth, same, maps⟩ := mapSegment_spec done
          rw [done]
          cases outcome with
          | error e =>
              exact ⟨.error e, opened.store.mapped, opened.segments, middle, rfl,
                mapped.grown growth, growth, same, le_rfl, nofun⟩
          | ok map =>
              have ⟨shows, fits, within⟩ := maps map rfl
              have ⟨result, last, segments, after, ran, mappedAfter, grownAfter, sameAfter, least,
                all⟩ := ih ((mapped.grown growth).next below at_ shows fits within)
                  (by dsimp only; omega)
              dsimp only at ran least all ⊢
              rw [if_pos ⟨mapped.length.symm, below⟩]
              refine ⟨result, last, segments, after, ran, mappedAfter, growth.trans grownAfter, ?_,
                by omega, fun ok => (all ok).trans (by omega)⟩
              intro reading
              rw [sameAfter reading, same reading]

/-! ### Rows -/

theorem Mapped.row (mapped : Mapped opened file) {id : Nat}
    (below : (VectorStore.locate id).1 < opened.store.mapped) :
    ∃ map, opened.segments[(VectorStore.locate id).1]? = some map ∧
      (VectorStore.locate id).2 * opened.store.rowStride + opened.store.dim * 4 ≤ map.len ∧
      map.offset + map.len ≤ file.len ∧ map.offset + map.len < 2 ^ 64 ∧
      map.offset + (VectorStore.locate id).2 * opened.store.rowStride =
        HEADER_SIZE + id * opened.store.rowStride := by
  have position : (VectorStore.locate id).2 < VectorStore.segRows (VectorStore.locate id).1 :=
    Doubling.position_lt (by decide) id
  have inSegment := Nat.mul_le_mul_right opened.store.rowStride (Nat.succ_le_of_lt position)
  rw [Nat.succ_mul] at inSegment
  have row := mapped.row_le
  have ⟨fits, within⟩ := mapped.inside _ below
  rw [segEnd_eq] at fits within
  refine ⟨⟨HEADER_SIZE + BASE_ROWS * (2 ^ (VectorStore.locate id).1 - 1) * opened.store.rowStride,
    VectorStore.segRows (VectorStore.locate id).1 * opened.store.rowStride⟩, ?_, ?_, ?_, ?_, ?_⟩
  · rw [mapped.segments, mappings, List.getElem?_map, List.getElem?_range below]
    rfl
  · dsimp only
    omega
  · exact within
  · exact fits
  · exact rowAddress_eq opened.store.rowStride id

theorem Mapped.place_eq (mapped : Mapped opened file) {id : Nat} (small : id < 2 ^ 64)
    (below : (VectorStore.locate id).1 < opened.store.mapped) :
    place opened id = some (HEADER_SIZE + id * opened.store.rowStride) := by
  have ⟨map, shown, inside, _, fits, address⟩ := mapped.row below
  have narrow := mapped.dim_lt
  unfold place
  rw [locate_eq small, Option.bind_eq_bind, Option.bind_some]
  dsimp only
  rw [shown, Option.bind_eq_bind, Option.bind_some, Word.mul_some (by omega),
    Option.bind_eq_bind, Option.bind_some, Word.mul_some (by omega), Option.bind_some,
    if_pos inside, address]
  rfl

theorem Mapped.getUnchecked_eq (mapped : Mapped opened file) {id : Nat} (small : id < 2 ^ 64)
    (below : (VectorStore.locate id).1 < opened.store.mapped) :
    getUnchecked opened file id = some (Row.ofLeBytes opened.store.dim
      (file.image.read (HEADER_SIZE + id * opened.store.rowStride) (opened.store.dim * 4))) := by
  unfold getUnchecked
  rw [mapped.place_eq small below]
  rfl

/-- The rows below the count lie in mapped segments, inside the file and apart from each other, and
reading one of them never leaves its mapping. -/
structure InBounds (opened : Opened) (file : StoreFile) : Prop where
  row : ∀ id < opened.store.count, ∃ seg row map, locate id = some (seg, row) ∧
    opened.segments[seg]? = some map ∧
    row * opened.store.rowStride + opened.store.dim * 4 ≤ map.len ∧
    map.offset + map.len ≤ file.len
  get : ∀ id, ∃ answer, get opened file id = some answer
  getUnchecked : ∀ id < opened.store.count, ∃ vector, getUnchecked opened file id = some vector
  apart : ∀ id other here there, id < opened.store.count → other < opened.store.count →
    id ≠ other → place opened id = some here → place opened other = some there →
    here + opened.store.dim * 4 ≤ there ∨ there + opened.store.dim * 4 ≤ here

structure Counted (store : VectorStore) : Prop where
  small : store.count < 2 ^ 64
  segment : ∀ id < store.count, (VectorStore.locate id).1 < store.mapped

theorem rows_apart {stride width id other : Nat} (row : width ≤ stride) (less : id < other) :
    HEADER_SIZE + id * stride + width ≤ HEADER_SIZE + other * stride := by
  have next := Nat.mul_le_mul_right stride (Nat.succ_le_of_lt less)
  rw [Nat.succ_mul] at next
  omega

theorem Mapped.inBounds (mapped : Mapped opened file) (counted : Counted opened.store) :
    InBounds opened file := by
  have placed {id : Nat} (below : id < opened.store.count) :
      place opened id = some (HEADER_SIZE + id * opened.store.rowStride) :=
    mapped.place_eq (below.trans counted.small) (counted.segment id below)
  have reads {id : Nat} (below : id < opened.store.count) :
      ∃ vector, getUnchecked opened file id = some vector :=
    ⟨_, mapped.getUnchecked_eq (below.trans counted.small) (counted.segment id below)⟩
  constructor
  · intro id below
    have ⟨map, shown, inside, within, _, _⟩ := mapped.row (counted.segment id below)
    exact ⟨_, _, map, locate_eq (below.trans counted.small), shown, inside, within⟩
  · intro id
    unfold get
    by_cases out : opened.store.count ≤ id
    · rw [if_pos out]
      exact ⟨_, rfl⟩
    · have ⟨vector, read⟩ := reads (not_le.mp out)
      rw [if_neg out, read]
      exact ⟨_, rfl⟩
  · intro id below
    exact reads below
  · intro id other here there below belowOther different at_ atOther
    rw [placed below] at at_
    rw [placed belowOther] at atOther
    cases at_
    cases atOther
    rcases Nat.lt_or_gt_of_ne different with less | greater
    · exact .inl (rows_apart mapped.row_le less)
    · exact .inr (rows_apart mapped.row_le greater)

/-! ### Opening -/

theorem open_mapped (refuses : Nat → Option Refusal) (file : StoreFile) :
    ∃ result, Machine.open refuses file = some result ∧ ∀ opened, result = .ok opened →
      Mapped opened file ∧ Counted opened.store := by
  unfold Machine.open
  by_cases short : file.len < HEADER_SIZE
  · rw [if_pos short]
    exact ⟨_, rfl, nofun⟩
  rw [if_neg short]
  by_cases magic : decode (file.image.read OFF_MAGIC 4) ≠ MAGIC
  · rw [if_pos magic]
    exact ⟨_, rfl, nofun⟩
  rw [if_neg magic]
  by_cases version : decode (file.image.read OFF_VERSION 4) ≠ VERSION
  · rw [if_pos version]
    exact ⟨_, rfl, nofun⟩
  rw [if_neg version]
  dsimp only
  have narrow : decode (file.image.read OFF_DIM 4) < 2 ^ 32 := by
    have bound := decode_lt (file.image.read OFF_DIM 4)
    rwa [Image.read_length] at bound
  have small : decode (file.image.read OFF_COUNT 8) < 2 ^ 64 := headerCount_lt file.image
  rw [if_neg (by omega)]
  generalize decode (file.image.read OFF_DIM 4) = dim at narrow
  generalize decode (file.image.read OFF_STRIDE 8) = rowStride
  generalize decode (file.image.read OFF_COUNT 8) = count at small
  by_cases geometry : dim = 0 ∨ rowStride < dim * 4 ∨ rowStride % ROW_ALIGN ≠ 0
  · rw [if_pos geometry]
    exact ⟨_, rfl, nofun⟩
  rw [if_neg geometry, locate_eq (by omega), Option.bind_eq_bind, Option.bind_some]
  have few : (VectorStore.locate (count - 1)).1 < 64 := segment_small (by omega)
  have upto : needed count (VectorStore.locate (count - 1)).1 =
      some ((VectorStore.locate (count - 1)).1 + 1) := by
    unfold needed
    by_cases empty : count = 0
    · rw [if_pos empty, empty]
      rfl
    · rw [if_neg empty, Word.add_some (by omega)]
  rw [upto, Option.bind_eq_bind, Option.bind_some]
  unfold ensureMapped
  by_cases full : MAX_SEGMENTS < (VectorStore.locate (count - 1)).1 + 1
  · rw [if_pos full]
    exact ⟨_, rfl, nofun⟩
  rw [if_neg full, Nat.sub_zero]
  have empty : Mapped ⟨⟨dim, rowStride, count, 0⟩, []⟩ file := by
    constructor
    · exact narrow
    · dsimp only
      omega
    · dsimp only
      omega
    · rfl
    · exact Nat.zero_le _
    · nofun
  have ⟨result, last, segments, after, ran, mapped, _, same, _, all⟩ :=
    mapSegments_mapped refuses false ((VectorStore.locate (count - 1)).1 + 1) empty
      (by dsimp only; omega)
  dsimp only at ran all
  rw [ran, Option.bind_eq_bind, Option.bind_some]
  cases result with
  | error e => exact ⟨_, rfl, nofun⟩
  | ok value =>
      refine ⟨_, rfl, ?_⟩
      intro opened returned
      cases returned
      rw [same rfl] at mapped
      refine ⟨mapped, small, ?_⟩
      intro id below
      have order := locate_mono (Nat.le_sub_one_of_lt below)
      have whole := all rfl
      dsimp only at order ⊢
      omega

/-! ### Appending -/

structure Appends (opened : Opened) (file : StoreFile) (vector : Row) (answer : Result Nat)
    (after : Opened) (grown : StoreFile) : Prop where
  inBounds : InBounds after grown
  rows : ∀ id < opened.store.count, getUnchecked after grown id = getUnchecked opened file id
  ends : (∃ e, answer = .error e ∧ after.store.count = opened.store.count ∧
      ∀ address < file.len, grown.image address = file.image address) ∨
    (answer = .ok opened.store.count ∧ after.store.count = opened.store.count + 1 ∧
      ∃ seg row map, locate opened.store.count = some (seg, row) ∧
        after.segments[seg]? = some map ∧
        row * opened.store.rowStride + opened.store.dim * 4 ≤ map.len ∧
        map.offset + map.len ≤ grown.len ∧
        getUnchecked after grown opened.store.count = some vector ∧
        ∀ address < file.len, (address < map.offset + row * opened.store.rowStride ∨
          map.offset + row * opened.store.rowStride + opened.store.dim * 4 ≤ address) →
          grown.image address = file.image address)

theorem Mapped.rows_same {other : Opened} {after : StoreFile} (mapped : Mapped opened file)
    (later : Mapped other after) (counted : Counted opened.store)
    (dim : other.store.dim = opened.store.dim) (stride : other.store.rowStride = opened.store.rowStride)
    (least : opened.store.mapped ≤ other.store.mapped)
    (same : ∀ address < file.len, address < HEADER_SIZE + opened.store.count * opened.store.rowStride →
      after.image address = file.image address) {id : Nat} (below : id < opened.store.count) :
    getUnchecked other after id = getUnchecked opened file id := by
  have segment := counted.segment id below
  have small := below.trans counted.small
  have ⟨map, _, inside, within, _, address⟩ := mapped.row segment
  have apart := rows_apart mapped.row_le below
  rw [mapped.getUnchecked_eq small segment, later.getUnchecked_eq small (segment.trans_le least),
    dim, stride, Image.read_congr]
  intro place _ high
  exact same place (by omega) (by omega)

theorem append_safe (refuses : Nat → Option Refusal) (mapped : Mapped opened file)
    (counted : Counted opened.store) (vector : Row) :
    ∃ answer after grown, Machine.append refuses opened file vector =
      some (answer, after, grown) ∧ Appends opened file vector answer after grown := by
  have untouched {e : Error} : Appends opened file vector (.error e) opened file :=
    ⟨mapped.inBounds counted, fun _ _ => rfl, .inl ⟨e, rfl, rfl, fun _ _ => rfl⟩⟩
  unfold Machine.append
  by_cases mismatch : vector.length ≠ opened.store.dim
  · rw [if_pos mismatch]
    exact ⟨_, _, _, rfl, untouched⟩
  have few := segment_small counted.small
  rw [if_neg mismatch]
  dsimp only
  rw [locate_eq counted.small, Option.bind_eq_bind, Option.bind_some, Word.add_some (by omega),
    Option.bind_eq_bind, Option.bind_some]
  unfold ensureMapped
  by_cases full : MAX_SEGMENTS < (VectorStore.locate opened.store.count).1 + 1
  · rw [if_pos full]
    exact ⟨_, _, _, rfl, untouched⟩
  have bound := mapped.mapped_le
  have ⟨result, last, segments, after, ran, later, growth, _, least, all⟩ :=
    mapSegments_mapped refuses true
      ((VectorStore.locate opened.store.count).1 + 1 - opened.store.mapped) mapped (by omega)
  have countedLater : Counted { opened.store with mapped := last } :=
    ⟨counted.small, fun id below => (counted.segment id below).trans_le least⟩
  rw [if_neg full, ran, Option.bind_eq_bind, Option.bind_some]
  cases result with
  | error e =>
      refine ⟨_, _, _, rfl, later.inBounds countedLater, ?_, .inl ⟨e, rfl, rfl, growth.image⟩⟩
      intro id below
      apply mapped.rows_same later counted rfl rfl least _ below
      intro address old _
      exact growth.image address old
  | ok value =>
      have whole := all rfl
      have lastLe := later.mapped_le
      dsimp only at lastLe
      have segment : (VectorStore.locate opened.store.count).1 < last := by omega
      have room : opened.store.count < CAPACITY := (locate_lt_iff _).mp (by omega)
      have capacity : CAPACITY < 2 ^ 60 := by decide
      have placed := later.place_eq counted.small segment
      have ⟨map, shown, inside, within, _, address⟩ := later.row segment
      have length : vector.toLeBytes.length = opened.store.dim * 4 := by
        rw [Row.toLeBytes_length, not_not.mp mismatch, Nat.mul_comm]
      let final : Opened := ⟨{ opened.store with count := opened.store.count + 1, mapped := last },
        segments⟩
      let written : StoreFile := after.write (HEADER_SIZE + opened.store.count *
        opened.store.rowStride) vector.toLeBytes
      have mappedFinal : Mapped final written := { later with }
      have countedFinal : Counted final.store := by
        refine ⟨?_, ?_⟩
        · change opened.store.count + 1 < 2 ^ 64
          omega
        · intro id below
          rcases Nat.lt_succ_iff_lt_or_eq.mp below with old | new
          · exact (counted.segment id old).trans_le least
          · rw [new]
            exact segment
      refine ⟨.ok opened.store.count, final, written, ?_, mappedFinal.inBounds countedFinal, ?_,
        .inr ⟨rfl, rfl, _, _, map, locate_eq counted.small, shown, inside, within, ?_, ?_⟩⟩
      · dsimp only
        rw [placed, Option.bind_some, Word.add_some (by omega)]
        rfl
      · intro id below
        apply mapped.rows_same mappedFinal counted rfl rfl least _ below
        intro place old front
        rw [← growth.image place old]
        exact Image.write_apart _ (.inl front)
      · rw [mappedFinal.getUnchecked_eq counted.small segment]
        have bytes := Image.read_write_same after.image (HEADER_SIZE + opened.store.count *
          opened.store.rowStride) vector.toLeBytes
        rw [length] at bytes
        change some (Row.ofLeBytes opened.store.dim ((after.image.write _ _).read _ _)) = _
        rw [bytes, ← not_not.mp mismatch, Row.ofLeBytes_toLeBytes]
      · intro place old outside
        rw [← growth.image place old]
        apply Image.write_apart
        rcases outside with before | behind
        · exact .inl (before.trans_eq address)
        · right
          rw [length]
          exact (Nat.add_le_add_right address.ge _).trans behind

/-- Whatever a store file holds, opening it fails or gives a store whose counted rows lie in mapped
segments and whose next append fails or writes one more such row; no arithmetic wraps and nothing
panics on the way. -/
theorem open_safe (refuses : Nat → Option Refusal) (file : StoreFile) :
    ∃ result, Machine.open refuses file = some result ∧ ∀ opened, result = .ok opened →
      InBounds opened file ∧ ∀ (refusesLater : Nat → Option Refusal) (vector : Row),
        ∃ answer after grown, Machine.append refusesLater opened file vector =
          some (answer, after, grown) ∧ Appends opened file vector answer after grown := by
  have ⟨result, ran, safe⟩ := open_mapped refuses file
  refine ⟨result, ran, ?_⟩
  intro opened returned
  have ⟨mapped, counted⟩ := safe opened returned
  exact ⟨mapped.inBounds counted, fun refusesLater => append_safe refusesLater mapped counted⟩

/-! ### The model without the machine

As long as the system refuses nothing, the operations are those of the store. -/

theorem mapSegment_eq (file : StoreFile) (byteOffset rows stride : Nat) (extend : Bool) :
    mapSegment none file byteOffset rows stride extend =
      match VectorStore.mapSegment file byteOffset rows stride extend with
      | .error e => (.error e, file)
      | .ok grown => (.ok ⟨byteOffset, rows * stride⟩, grown) := by
  unfold mapSegment VectorStore.mapSegment
  simp only [checked_bind]
  by_cases lenFits : rows * stride < 2 ^ 64
  · rw [checked_fits lenFits, if_neg (not_le.mpr lenFits)]
    dsimp only
    by_cases stopFits : byteOffset + rows * stride < 2 ^ 64
    · rw [checked_fits stopFits, if_neg (not_le.mpr stopFits)]
      dsimp only
      by_cases longer : file.len < byteOffset + rows * stride
      · cases extend with
        | false => simp only [longer, if_true, true_and, Bool.false_eq_true, if_false]
        | true =>
            simp only [longer, if_true, true_and, Bool.true_eq_false, reduceCtorEq, if_false]
            rfl
      · simp only [longer, if_false, false_and, reduceCtorEq]
        rfl
    · rw [checked_overflows stopFits, if_pos (not_lt.mp stopFits)]
  · rw [checked_overflows lenFits, if_pos (not_lt.mp lenFits)]

/-- What the machine does, seen without its mappings. -/
def forget {α : Type} : Result α × Opened × StoreFile → Result α × VectorStore × StoreFile
  | (result, opened, file) => (result, opened.store, file)

theorem mapSegments_eq (opened : Opened) (file : StoreFile) (extend : Bool) (count : Nat)
    (length : opened.segments.length = opened.store.mapped)
    (room : opened.store.mapped + count ≤ MAX_SEGMENTS) :
    (mapSegments (fun _ => none) extend (List.range' opened.store.mapped count) opened file).map
        forget =
      some (VectorStore.mapSegments extend (List.range' opened.store.mapped count) opened.store
        file) := by
  induction count generalizing opened file with
  | zero => rfl
  | succ count ih =>
      have below : opened.store.mapped < MAX_SEGMENTS := by omega
      rw [List.range'_succ, mapSegments, VectorStore.mapSegments, segByteOffset_eq _ below,
        Option.bind_eq_bind, Option.bind_some]
      cases at_ : VectorStore.segByteOffset opened.store.rowStride opened.store.mapped with
      | error e => rfl
      | ok offset =>
          dsimp only
          rw [segRows_eq below, Option.bind_eq_bind, Option.bind_some, mapSegment_eq]
          change Option.map forget _ = some (match VectorStore.mapSegment file offset
              (VectorStore.segRows opened.store.mapped) opened.store.rowStride extend with
            | .error e => _
            | .ok grown => _)
          cases done : VectorStore.mapSegment file offset
              (VectorStore.segRows opened.store.mapped) opened.store.rowStride extend with
          | error e => rfl
          | ok grown =>
              dsimp only
              rw [if_pos ⟨length.symm, below⟩]
              let next : Opened := ⟨{ opened.store with mapped := opened.store.mapped + 1 },
                opened.segments ++
                  [⟨offset, VectorStore.segRows opened.store.mapped * opened.store.rowStride⟩]⟩
              have longer : next.segments.length = next.store.mapped := by
                change (opened.segments ++ [_]).length = opened.store.mapped + 1
                rw [List.length_append, length, List.length_singleton]
              apply ih next grown longer
              change opened.store.mapped + 1 + count ≤ MAX_SEGMENTS
              omega

theorem ensureMapped_eq (opened : Opened) (file : StoreFile) (upto : Nat) (extend : Bool)
    (length : opened.segments.length = opened.store.mapped)
    (bound : opened.store.mapped ≤ MAX_SEGMENTS) :
    ∃ result after grown, ensureMapped (fun _ => none) opened file upto extend =
        some (result, after, grown) ∧
      VectorStore.ensureMapped opened.store file upto extend = (result, after.store, grown) := by
  unfold ensureMapped VectorStore.ensureMapped
  by_cases full : MAX_SEGMENTS < upto
  · rw [if_pos full, if_pos full]
    exact ⟨_, _, _, rfl, rfl⟩
  · rw [if_neg full, if_neg full]
    have ⟨⟨result, after, grown⟩, ran, same⟩ := Option.map_eq_some_iff.mp
      (mapSegments_eq opened file extend (upto - opened.store.mapped) length (by omega))
    exact ⟨result, after, grown, ran, same.symm⟩

theorem open_eq (file : StoreFile) :
    (Machine.open (fun _ => none) file).map (Except.map Opened.store) =
      some (VectorStore.open file) := by
  unfold Machine.open VectorStore.open
  by_cases short : file.len < HEADER_SIZE
  · rw [if_pos short, if_pos short]
    rfl
  rw [if_neg short, if_neg short]
  by_cases magic : decode (file.image.read OFF_MAGIC 4) ≠ MAGIC
  · rw [if_pos magic, if_pos magic]
    rfl
  rw [if_neg magic, if_neg magic]
  by_cases version : decode (file.image.read OFF_VERSION 4) ≠ VERSION
  · rw [if_pos version, if_pos version]
    rfl
  rw [if_neg version, if_neg version]
  dsimp only
  have narrow : decode (file.image.read OFF_DIM 4) < 2 ^ 32 := by
    have bound := decode_lt (file.image.read OFF_DIM 4)
    rwa [Image.read_length] at bound
  have small : decode (file.image.read OFF_COUNT 8) < 2 ^ 64 := headerCount_lt file.image
  rw [if_neg (by omega)]
  generalize decode (file.image.read OFF_DIM 4) = dim
  generalize decode (file.image.read OFF_STRIDE 8) = rowStride
  generalize decode (file.image.read OFF_COUNT 8) = count at small
  by_cases geometry : dim = 0 ∨ rowStride < dim * 4 ∨ rowStride % ROW_ALIGN ≠ 0
  · rw [if_pos geometry, if_pos geometry]
    rfl
  rw [if_neg geometry, if_neg geometry, locate_eq (by omega), Option.bind_eq_bind,
    Option.bind_some]
  have few := segment_small (small.trans_le' (Nat.sub_le count 1))
  have upto : needed count (VectorStore.locate (count - 1)).1 =
      some (if count = 0 then 1 else (VectorStore.locate (count - 1)).1 + 1) := by
    unfold needed
    split
    · rfl
    · exact Word.add_some (by omega)
  have ⟨result, after, grown, ran, same⟩ := ensureMapped_eq
    ⟨⟨dim, rowStride, count, 0⟩, []⟩ file
    (if count = 0 then 1 else (VectorStore.locate (count - 1)).1 + 1) false rfl (Nat.zero_le _)
  rw [upto, Option.bind_eq_bind, Option.bind_some, ran, Option.bind_eq_bind, Option.bind_some, same]
  cases result with
  | error e => rfl
  | ok value => rfl

theorem append_eq (mapped : Mapped opened file) (counted : Counted opened.store) (vector : Row) :
    (Machine.append (fun _ => none) opened file vector).map forget =
      some (opened.store.append file vector) := by
  unfold Machine.append VectorStore.append
  by_cases mismatch : vector.length ≠ opened.store.dim
  · rw [if_pos mismatch, if_pos mismatch]
    rfl
  have few := segment_small counted.small
  rw [if_neg mismatch, if_neg mismatch]
  dsimp only
  rw [locate_eq counted.small, Option.bind_eq_bind, Option.bind_some, Word.add_some (by omega),
    Option.bind_eq_bind, Option.bind_some]
  unfold ensureMapped VectorStore.ensureMapped
  by_cases full : MAX_SEGMENTS < (VectorStore.locate opened.store.count).1 + 1
  · rw [if_pos full, if_pos full]
    rfl
  have bound := mapped.mapped_le
  have ⟨result, last, segments, after, ran, later, _, _, least, all⟩ :=
    mapSegments_mapped (fun _ => none) true
      ((VectorStore.locate opened.store.count).1 + 1 - opened.store.mapped) mapped (by omega)
  have maps := mapSegments_eq opened file true
    ((VectorStore.locate opened.store.count).1 + 1 - opened.store.mapped) mapped.length (by omega)
  rw [ran, Option.map_some] at maps
  rw [if_neg full, if_neg full, ran, Option.bind_eq_bind, Option.bind_some,
    ← Option.some.inj maps]
  cases result with
  | error e => rfl
  | ok value =>
      have whole := all rfl
      have lastLe := later.mapped_le
      dsimp only at lastLe
      have room : opened.store.count < CAPACITY := (locate_lt_iff _).mp (by omega)
      have capacity : CAPACITY < 2 ^ 60 := by decide
      have placed := later.place_eq counted.small (by dsimp only; omega)
      dsimp only [forget]
      rw [placed, Option.bind_some, Word.add_some (by omega), rowAddress_eq]
      rfl

theorem open_safe_created : ∃ store file opened, create 1 = .ok (store, file) ∧
    Machine.open (fun _ => none) file = some (.ok opened) ∧ InBounds opened file := by
  have ⟨store, file, created, dim, count, attached, formatted, header, _⟩ :=
    create_ok (by decide : 0 < 1) (by decide)
  have reaches := attached.reaches
  rw [dim, count, ← header] at reaches
  have ⟨last, opens, _⟩ := open_ok formatted reaches
  have ⟨result, ran, safe⟩ := open_safe (fun _ => none) file
  have same := open_eq file
  rw [ran, opens, Option.map_some] at same
  cases result with
  | error e => cases same
  | ok opened => exact ⟨store, file, opened, created, ran, (safe opened rfl).1⟩

end Machine

end VectorStore

end Vektordb
