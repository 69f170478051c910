import Vektordb.Basic
import Vektordb.Codec.Doubling
import Vektordb.Codec.Image

/-!
The memory-mapped vector store: a header page and segments of doubling size behind it. The
handle keeps the count of rows that readers may see, and the header on file keeps the count at
the last flush, so the rows in between are on file but not yet counted there.
-/

namespace Vektordb

open LittleEndian

/-- `image` is what every mapping and every reader sees, `device` what has been synced of it. -/
structure StoreFile where
  len : Nat
  image : Image
  device : Image

namespace StoreFile

/-- `set_len`; what a file gains is zero. -/
def setLen (file : StoreFile) (len : Nat) : StoreFile where
  len := len
  image address := if address < file.len then file.image address else 0
  device address := if address < file.len then file.device address else 0

def write (file : StoreFile) (offset : Nat) (bytes : Bytes) : StoreFile :=
  { file with image := file.image.write offset bytes }

/-- `msync` of everything below an address. -/
def sync (file : StoreFile) (limit : Nat) : StoreFile :=
  { file with device := fun address =>
      if address < limit then file.image address else file.device address }

end StoreFile

structure VectorStore where
  dim : Nat
  rowStride : Nat
  count : Nat
  /-- Segments `0..mapped` are mapped. -/
  mapped : Nat
  deriving DecidableEq, Repr

namespace VectorStore

def MAGIC : Nat := 0x564B4442
def VERSION : Nat := 2
def HEADER_SIZE : Nat := 4096
def BASE_ROWS : Nat := 1024
def MAX_SEGMENTS : Nat := 40
def ROW_ALIGN : Nat := 64

def OFF_MAGIC : Nat := 0
def OFF_VERSION : Nat := 4
def OFF_DIM : Nat := 8
def OFF_COUNT : Nat := 16
def OFF_STRIDE : Nat := 24

def locate (id : Nat) : Nat × Nat := Doubling.locate BASE_ROWS id

def segRows (seg : Nat) : Nat := Doubling.size BASE_ROWS seg

def CAPACITY : Nat := Doubling.start BASE_ROWS MAX_SEGMENTS

def checked (value : Nat) : Result Nat :=
  if value < 2 ^ 64 then .ok value else .error (.corrupt "store geometry overflows")

def segByteOffset (rowStride seg : Nat) : Result Nat := do
  let rowsBefore ← checked (BASE_ROWS * (2 ^ seg - 1))
  let bytesBefore ← checked (rowsBefore * rowStride)
  checked (HEADER_SIZE + bytesBefore)

def mapSegment (file : StoreFile) (byteOffset rows stride : Nat) (extend : Bool) :
    Result StoreFile := do
  let len ← checked (rows * stride)
  let stop ← checked (byteOffset + len)
  if file.len < stop then
    if extend then pure (file.setLen stop) else .error (.corrupt "vector store is truncated")
  else pure file

/-- The loop of `ensure_mapped_locked`; what was mapped before a failure stays mapped. -/
def mapSegments (extend : Bool) :
    List Nat → VectorStore → StoreFile → Result Unit × VectorStore × StoreFile
  | [], store, file => (.ok (), store, file)
  | seg :: rest, store, file =>
      match segByteOffset store.rowStride seg >>= fun offset =>
          mapSegment file offset (segRows seg) store.rowStride extend with
      | .error e => (.error e, store, file)
      | .ok grown => mapSegments extend rest { store with mapped := seg + 1 } grown

def ensureMapped (store : VectorStore) (file : StoreFile) (upto : Nat) (extend : Bool) :
    Result Unit × VectorStore × StoreFile :=
  if MAX_SEGMENTS < upto then (.error (.corrupt "store exceeds maximum size"), store, file)
  else mapSegments extend (List.range' store.mapped (upto - store.mapped)) store file

/-- `dim * 4` rounded up to a multiple of 64. -/
def strideFor (dim : Nat) : Nat := (dim * 4 + (ROW_ALIGN - 1)) / ROW_ALIGN * ROW_ALIGN

def headerBytes (dim rowStride : Nat) : Bytes :=
  encode 4 MAGIC ++ (encode 4 VERSION ++ (encode 4 dim ++ (encode 4 0 ++ (encode 8 0 ++
    encode 8 rowStride))))

def create (dim : Nat) : Result (VectorStore × StoreFile) :=
  if dim = 0 ∨ 2 ^ 32 ≤ dim then
    .error (.invalidArgument "dimension must be in 1..=u32::MAX")
  else
    let empty : StoreFile := ⟨0, Image.blank, Image.blank⟩
    let header := (empty.setLen HEADER_SIZE).write 0 (headerBytes dim (strideFor dim))
    match ensureMapped ⟨dim, strideFor dim, 0, 0⟩ (header.sync HEADER_SIZE) 1 true with
    | (.error e, _, _) => .error e
    | (.ok (), store, file) => .ok (store, file)

end VectorStore

def VectorStore.open (file : StoreFile) : Result VectorStore :=
  if file.len < HEADER_SIZE then .error (.corrupt "file smaller than header")
  else if decode (file.image.read OFF_MAGIC 4) ≠ MAGIC then .error (.corrupt "bad magic")
  else if decode (file.image.read OFF_VERSION 4) ≠ VERSION then
    .error (.corrupt "unsupported version")
  else
    let dim := decode (file.image.read OFF_DIM 4)
    let rowStride := decode (file.image.read OFF_STRIDE 8)
    let count := decode (file.image.read OFF_COUNT 8)
    if dim = 0 ∨ rowStride < dim * 4 ∨ rowStride % ROW_ALIGN ≠ 0 then
      .error (.corrupt "inconsistent header geometry")
    else
      -- Map every segment that contains existing rows, plus segment 0.
      let needed := if count = 0 then 1 else (locate (count - 1)).1 + 1
      match ensureMapped ⟨dim, rowStride, count, 0⟩ file needed false with
      | (.error e, _, _) => .error e
      | (.ok (), store, _) => .ok store

namespace VectorStore

def rowAddress (rowStride id : Nat) : Nat :=
  HEADER_SIZE + BASE_ROWS * (2 ^ (locate id).1 - 1) * rowStride + (locate id).2 * rowStride

def getUnchecked (store : VectorStore) (file : StoreFile) (id : Nat) : Row :=
  Row.ofLeBytes store.dim (file.image.read (rowAddress store.rowStride id) (store.dim * 4))

def get (store : VectorStore) (file : StoreFile) (id : Nat) : Result Row :=
  if store.count ≤ id then .error (.idOutOfRange id) else .ok (store.getUnchecked file id)

def append (store : VectorStore) (file : StoreFile) (vector : Row) :
    Result Nat × VectorStore × StoreFile :=
  if vector.length ≠ store.dim then
    (.error (.dimensionMismatch store.dim vector.length), store, file)
  else
    let id := store.count
    match ensureMapped store file ((locate id).1 + 1) true with
    | (.error e, store, file) => (.error e, store, file)
    | (.ok (), store, file) =>
        (.ok id, { store with count := id + 1 },
          file.write (rowAddress store.rowStride id) vector.toLeBytes)

/-- `append` where the system refuses `set_len` or, with `extended`, the mapping after it. Only
the first segment that is still missing comes into question. -/
def appendUnmapped (store : VectorStore) (file : StoreFile) (vector : Row) (extended : Bool) :
    Result Nat × VectorStore × StoreFile :=
  if vector.length = store.dim ∧ store.mapped < (locate store.count).1 + 1 ∧
      (locate store.count).1 + 1 ≤ MAX_SEGMENTS then
    match segByteOffset store.rowStride store.mapped >>= fun offset =>
        mapSegment file offset (segRows store.mapped) store.rowStride true with
    | .error e => (.error e, store, file)
    | .ok grown => (.error (.io "cannot map segment"), store, if extended then grown else file)
  else store.append file vector

def rollbackLast (store : VectorStore) (id : Nat) : Result Unit × VectorStore :=
  if store.count ≠ id + 1 then
    (.error (.corrupt ("cannot roll back store id " ++ toString id ++ " at count " ++
      toString store.count)), store)
  else (.ok (), { store with count := id })

/-- The first half of `flush`: the count goes into the mapped header. -/
def storeCount (store : VectorStore) (file : StoreFile) : StoreFile :=
  file.write OFF_COUNT (encode 8 store.count)

/-- The second half of `flush`: `msync` of the mapped segments and of the header. -/
def syncPages (store : VectorStore) (file : StoreFile) : StoreFile :=
  file.sync (HEADER_SIZE + BASE_ROWS * (2 ^ store.mapped - 1) * store.rowStride)

end VectorStore

end Vektordb
