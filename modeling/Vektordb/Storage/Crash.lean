import Vektordb.Storage.Rows

/-!
What a stopped process leaves of the store file. The rows below the count in the header are not
written again, so whatever an open store did to the file behind them, the next process finds
them; the device holds the header and the rows of the last completed flush.
-/

namespace Vektordb

open LittleEndian

namespace VectorStore

/-- The files differ behind the first `n` rows only, and on the device behind the old end. -/
structure Frontier (dim n : Nat) (file after : StoreFile) : Prop where
  len : file.len ≤ after.len
  small : file.len < 2 ^ 64 → after.len < 2 ^ 64
  image : SameRows dim n file.image after.image
  device : ∀ address < file.len, after.device address = file.device address

theorem Frontier.refl (dim n : Nat) (file : StoreFile) : Frontier dim n file file :=
  ⟨le_rfl, id, fun _ _ => rfl, fun _ _ => rfl⟩

theorem Frontier.trans {dim n : Nat} {file middle after : StoreFile}
    (first : Frontier dim n file middle) (second : Frontier dim n middle after) :
    Frontier dim n file after where
  len := first.len.trans second.len
  small fits := second.small (first.small fits)
  image address below := (first.image address below).trans (second.image address below)
  device address below :=
    (second.device address (below.trans_le first.len)).trans (first.device address below)

theorem Frontier.mono {dim m n : Nat} {file after : StoreFile} (frontier : Frontier dim n file after)
    (le : m ≤ n) : Frontier dim m file after where
  len := frontier.len
  small := frontier.small
  image address below := by
    have rows : m * strideFor dim ≤ n * strideFor dim := Nat.mul_le_mul_right _ le
    exact frontier.image address (by omega)
  device := frontier.device

theorem Grown.frontier {dim n : Nat} {file after : StoreFile} (growth : Grown file after)
    (inside : HEADER_SIZE + n * strideFor dim ≤ file.len) : Frontier dim n file after :=
  ⟨growth.len, growth.small, growth.sameRows inside, growth.device⟩

theorem frontier_write {dim n offset : Nat} (file : StoreFile) (bytes : Bytes)
    (behind : HEADER_SIZE + n * strideFor dim ≤ offset) :
    Frontier dim n file (file.write offset bytes) :=
  ⟨le_rfl, id, sameRows_write file.image bytes behind, fun _ _ => rfl⟩

theorem rowAddress_behind {dim n : Nat} {store : VectorStore} {file : StoreFile}
    (attached : Attached store file) (sameDim : store.dim = dim) (le : n ≤ store.count) :
    HEADER_SIZE + n * strideFor dim ≤ rowAddress store.rowStride store.count := by
  rw [rowAddress_eq, attached.stride, sameDim]
  exact Nat.add_le_add_left (Nat.mul_le_mul_right _ le) _

theorem Attached.inside {dim n : Nat} {store : VectorStore} {file : StoreFile}
    (attached : Attached store file) (sameDim : store.dim = dim) (le : n ≤ store.count) :
    HEADER_SIZE + n * strideFor dim ≤ file.len := by
  have reaches := attached.reaches
  rw [sameDim] at reaches
  exact (reaches.mono le).rows

theorem append_frontier {dim n : Nat} {store next : VectorStore} {file after : StoreFile}
    {vector : Row} {result : Result Nat} (attached : Attached store file)
    (sameDim : store.dim = dim) (le : n ≤ store.count)
    (done : store.append file vector = (result, next, after)) : Frontier dim n file after := by
  obtain ⟨grown, mapped, growth, attachedAfter, outcome⟩ := append_cases attached done
  have first := growth.frontier (attached.inside sameDim le)
  rcases outcome with ⟨e, -, -, rfl⟩ | ⟨-, -, -, -, rfl⟩
  · exact first
  · exact first.trans (frontier_write grown _ (rowAddress_behind attached sameDim le))

/-- An append that was stopped between growing the file and counting the row. -/
theorem torn_append_frontier {dim n : Nat} {store next : VectorStore} {file grown : StoreFile}
    (attached : Attached store file) (sameDim : store.dim = dim) (le : n ≤ store.count)
    (mapping : store.ensureMapped file ((locate store.count).1 + 1) true = (.ok (), next, grown))
    (bytes : Bytes) :
    Frontier dim n file (grown.write (rowAddress next.rowStride next.count) bytes) := by
  unfold ensureMapped at mapping
  split at mapping
  · cases mapping
  · obtain ⟨mapped, rfl, -, -, growth, -⟩ := mapSegments_grown store attached.stride_pos mapping
    have behind := rowAddress_behind attached sameDim le
    exact (growth.frontier (attached.inside sameDim le)).trans (frontier_write grown bytes behind)

structure Counts (dim : Nat) (image : Image) (rows : List Row) (least : Nat) : Prop where
  formatted : Formatted dim image
  least : least ≤ headerCount image
  most : headerCount image ≤ rows.length
  holds : Holds dim image (rows.take (headerCount image))

theorem Counts.same {dim least : Nat} {image other : Image} {rows : List Row}
    (counts : Counts dim image rows least) (same : SameRows dim (headerCount image) image other) :
    Counts dim other rows least := by
  have taken : (rows.take (headerCount image)).length = headerCount image :=
    List.length_take_of_le counts.most
  refine ⟨same.formatted counts.formatted, ?_, ?_, ?_⟩
  · rw [← same.header]
    exact counts.least
  · rw [← same.header]
    exact counts.most
  · rw [← same.header]
    apply counts.holds.same
    rw [taken]
    exact same

theorem Counts.header {dim : Nat} {image : Image} {rows : List Row}
    (counts : Counts dim image rows rows.length) : headerCount image = rows.length :=
  Nat.le_antisymm counts.most counts.least

theorem Counts.extend {dim least : Nat} {image : Image} {rows more : List Row}
    (counts : Counts dim image rows least) (front : rows <+: more) : Counts dim image more least := by
  obtain ⟨rest, rfl⟩ := front
  refine ⟨counts.formatted, counts.least, counts.most.trans (List.prefix_append _ _).length_le, ?_⟩
  rw [List.take_append_of_le_length counts.most]
  exact counts.holds

/-- The file of a database that is to come back with the given rows, of which a snapshot may have
covered the first `least`. -/
structure Stored (dim : Nat) (file : StoreFile) (rows : List Row) (least : Nat) : Prop where
  image : Counts dim file.image rows least
  device : Counts dim file.device rows least
  synced : headerCount file.device ≤ headerCount file.image
  reaches : Reaches dim rows.length file

theorem Reaches.longer {dim n : Nat} {file after : StoreFile} (reaches : Reaches dim n file)
    (len : file.len ≤ after.len) (small : file.len < 2 ^ 64 → after.len < 2 ^ 64) :
    Reaches dim n after :=
  ⟨reaches.capacity, reaches.len.trans len, small reaches.small⟩

theorem Stored.frontier {dim least : Nat} {file after : StoreFile} {rows : List Row}
    (stored : Stored dim file rows least)
    (frontier : Frontier dim (headerCount file.image) file after) : Stored dim after rows least := by
  have inside := stored.reaches.rows
  have below : headerCount file.device * strideFor dim ≤ rows.length * strideFor dim :=
    Nat.mul_le_mul_right _ stored.device.most
  have kept : SameRows dim (headerCount file.device) file.device after.device := by
    intro address counted
    exact (frontier.device address (by omega)).symm
  constructor
  case image => exact stored.image.same frontier.image
  case device => exact stored.device.same kept
  case synced =>
      rw [← kept.header, ← frontier.image.header]
      exact stored.synced
  case reaches => exact stored.reaches.longer frontier.len frontier.small

theorem Stored.extend {dim least : Nat} {file : StoreFile} {rows more : List Row}
    (stored : Stored dim file rows least) (front : rows <+: more)
    (reaches : Reaches dim more.length file) : Stored dim file more least :=
  ⟨stored.image.extend front, stored.device.extend front, stored.synced, reaches⟩

theorem sameRows_sync {dim : Nat} {store : VectorStore} {file : StoreFile}
    (attached : Attached store file) (sameDim : store.dim = dim) :
    SameRows dim store.count file.image (store.syncPages file).device := by
  intro address below
  have within : address < HEADER_SIZE + BASE_ROWS * (2 ^ store.mapped - 1) * store.rowStride := by
    rw [attached.stride, sameDim]
    by_cases empty : store.count = 0
    · rw [empty, Nat.zero_mul] at below
      exact below.trans_le (Nat.le_add_right _ _)
    · have last := attached.counted (store.count - 1) (by omega)
      have segment := row_le_segEnd (strideFor dim) (store.count - 1)
      have order : segEnd (strideFor dim) (locate (store.count - 1)).1 ≤
          segEnd (strideFor dim) (store.mapped - 1) := segEnd_mono (by omega)
      have whole : segEnd (strideFor dim) (store.mapped - 1) =
          HEADER_SIZE + BASE_ROWS * (2 ^ store.mapped - 1) * strideFor dim := by
        unfold segEnd Doubling.start
        rw [Nat.sub_add_cancel attached.first]
      rw [Nat.sub_add_cancel (by omega)] at segment
      omega
  exact (if_pos within).symm

end VectorStore

end Vektordb
