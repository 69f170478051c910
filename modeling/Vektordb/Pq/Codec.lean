import Vektordb.Pq.Codebook

/-!
The codebook file read back. Reading is repeated here with every slice checked, so that `none`
is a panic; what it accepts is the file of the quantizer that it returns, and every access of
that quantizer is inside.
-/

namespace Vektordb

open Checked LittleEndian Pq

namespace ProductQuantizer

theorem checkedMul_some {left right value : Nat} (product : checkedMul left right = some value) :
    left * right = value := by
  unfold checkedMul at product
  split at product
  · exact Option.some.inj product
  · cases product

theorem bodySize_some {m subDim size : Nat}
    (sized : (do checkedMul (← checkedMul (← checkedMul m K) subDim) 4) = some size) :
    m * K * subDim * 4 = size := by
  obtain ⟨rows, rowsEq, sized⟩ := Option.bind_eq_some_iff.mp sized
  obtain ⟨floats, floatsEq, sized⟩ := Option.bind_eq_some_iff.mp sized
  rw [checkedMul_some rowsEq, checkedMul_some floatsEq, checkedMul_some sized]

/-- `u32_at` -/
def u32At (head : Bytes) (i : Nat) : Option Nat := (slice head i 4).map decode

/-- The checks on the three fields and on the length of the body. -/
def assemble (dim m subDim : Nat) (body : Bytes) : Option ProductQuantizer :=
  if known : 0 < m ∧ 0 < subDim ∧ checkedMul subDim m = some dim then
    if sized : (do checkedMul (← checkedMul (← checkedMul m K) subDim) 4) = some body.length then
      some {
        dim := dim
        m := m
        subDim := subDim
        centroids := Row.ofLeBytes (body.length / 4) body
        m_pos := known.1
        subDim_pos := known.2.1
        pieces := checkedMul_some known.2.2
        size := by
          have length := bodySize_some sized
          rw [Row.ofLeBytes_length]
          omega }
    else none
  else none

def fromBytesChecked (data : Bytes) : Option (Option ProductQuantizer) :=
  if data.length < 12 then some none
  else do
    let head ← slice data 0 12
    let dim ← u32At head 0
    let m ← u32At head 4
    let subDim ← u32At head 8
    let body ← slice data 12 (data.length - 12)
    return assemble dim m subDim body

theorem u32At_inside {head : Bytes} {i : Nat} (inside : i + 4 ≤ head.length) :
    u32At head i = some (decode ((head.drop i).take 4)) := by
  unfold u32At
  rw [slice_inside inside]
  rfl

theorem u32At_front (data : Bytes) {front i : Nat} (long : front ≤ data.length)
    (inside : i + 4 ≤ front) : u32At (data.take front) i = some (decode ((data.drop i).take 4)) := by
  rw [u32At_inside (by rwa [List.length_take, Nat.min_eq_left long]), List.drop_take,
    List.take_take, Nat.min_eq_left (by omega)]

theorem slice_rest (data : Bytes) {start : Nat} (long : start ≤ data.length) :
    slice data start (data.length - start) = some (data.drop start) := by
  rw [slice_inside (by omega), List.take_of_length_le (by rw [List.length_drop])]

theorem slice_front (data : Bytes) {len : Nat} (long : len ≤ data.length) :
    slice data 0 len = some (data.take len) := by
  rw [slice_inside (by omega), List.drop_zero]

theorem fromBytesChecked_eq (data : Bytes) : fromBytesChecked data = some (fromBytes data) := by
  unfold fromBytesChecked fromBytes
  by_cases short : data.length < 12
  · rw [if_pos short, if_pos short]
  · have long := Nat.le_of_not_lt short
    rw [if_neg short, if_neg short, slice_front data long]
    change (u32At (data.take 12) 0 >>= fun dim => u32At (data.take 12) 4 >>= fun m =>
      u32At (data.take 12) 8 >>= fun subDim => slice data 12 (data.length - 12) >>= fun body =>
        some (assemble dim m subDim body)) = _
    rw [u32At_front data long (by decide), u32At_front data long (by decide),
      u32At_front data long (by decide), slice_rest data long]
    rfl

theorem toBytes_fromBytes {data : Bytes} {pq : ProductQuantizer}
    (accepted : fromBytes data = some pq) : pq.toBytes = data ∧ pq.dim < 2 ^ 32 := by
  unfold fromBytes at accepted
  by_cases short : data.length < 12
  · rw [if_pos short] at accepted
    cases accepted
  · rw [if_neg short] at accepted
    dsimp only at accepted
    split at accepted
    · rename_i known
      split at accepted
      · rename_i sized
        cases accepted
        have size := bodySize_some sized
        refine ⟨?_, decode_take_lt 4 data⟩
        change LittleEndian.encode 4 (decode (data.take 4)) ++
          (LittleEndian.encode 4 (decode ((data.drop 4).take 4)) ++
            (LittleEndian.encode 4 (decode ((data.drop 8).take 4)) ++
              (Row.ofLeBytes ((data.drop 12).length / 4) (data.drop 12)).toLeBytes)) = data
        rw [Row.toLeBytes_ofLeBytes (by omega), encode_decode_take 4 data (by omega),
          encode_decode_take 4 (data.drop 4) (by rw [List.length_drop]; omega),
          encode_decode_take 4 (data.drop 8) (by rw [List.length_drop]; omega)]
        have last : (data.drop 8).take 4 ++ data.drop 12 = data.drop 8 := by
          rw [show 12 = 8 + 4 from rfl, ← List.drop_drop, List.take_append_drop]
        have middle : (data.drop 4).take 4 ++ data.drop 8 = data.drop 4 := by
          rw [show 8 = 4 + 4 from rfl, ← List.drop_drop, List.take_append_drop]
        rw [last, middle, List.take_append_drop]
      · cases accepted
    · cases accepted

end ProductQuantizer

namespace Pq

def loadCodebookChecked (hash : Bytes → Nat) (raw : Bytes) : Option (Result ProductQuantizer) :=
  if raw.length < 16 then some (.error (.corrupt "pq.codebook truncated"))
  else do
    let payload ← slice raw 0 (raw.length - 4)
    let crcBytes ← slice raw (raw.length - 4) 4
    if hash payload ≠ decode crcBytes then
      return .error (.corrupt "pq.codebook checksum mismatch")
    else if (← ProductQuantizer.u32At payload 0) ≠ PQ_MAGIC then
      return .error (.corrupt "pq.codebook bad magic")
    else
      let version ← ProductQuantizer.u32At payload 4
      if version ≠ PQ_VERSION then
        return .error (.corrupt ("pq.codebook version " ++ toString version ++ ", expected 1"))
      else
        let body ← slice payload 8 (payload.length - 8)
        match ← ProductQuantizer.fromBytesChecked body with
        | some pq => return .ok pq
        | none => return .error (.corrupt "pq.codebook malformed")

theorem loadCodebookChecked_eq (hash : Bytes → Nat) (raw : Bytes) :
    loadCodebookChecked hash raw = some (loadCodebook hash raw) := by
  unfold loadCodebookChecked loadCodebook
  by_cases short : raw.length < 16
  · rw [if_pos short, if_pos short]
  · have payload : slice raw 0 (raw.length - 4) = some (raw.take (raw.length - 4)) :=
      ProductQuantizer.slice_front raw (by omega)
    have crcBytes : slice raw (raw.length - 4) 4 = some (raw.drop (raw.length - 4)) := by
      rw [slice_inside (by omega), List.take_of_length_le (by rw [List.length_drop]; omega)]
    have long : 12 ≤ (raw.take (raw.length - 4)).length := by
      rw [List.length_take]
      omega
    have magic := ProductQuantizer.u32At_inside (i := 0) (Nat.le_trans (by decide) long)
    have version := ProductQuantizer.u32At_inside (i := 4) (Nat.le_trans (by decide) long)
    have body := ProductQuantizer.slice_rest _ (Nat.le_trans (by decide : 8 ≤ 12) long)
    rw [if_neg short, if_neg short, payload]
    change (slice raw (raw.length - 4) 4 >>= fun crcBytes => _) = _
    rw [crcBytes, Option.bind_eq_bind, Option.bind_some]
    generalize raw.take (raw.length - 4) = payload at magic version body
    generalize raw.drop (raw.length - 4) = crcBytes
    by_cases checked : hash payload ≠ decode crcBytes
    · simp only [if_pos checked]
      rfl
    · simp only [if_neg checked, magic, version, body, ProductQuantizer.fromBytesChecked_eq,
        Option.bind_eq_bind, Option.bind_some, List.drop_zero]
      split_ifs
      · rfl
      · rfl
      · cases ProductQuantizer.fromBytes (payload.drop 8) <;> rfl

/-- Encoding, decoding and the lookups stay inside the codebook and the table. -/
structure Inside (arith : Arithmetic) (pq : ProductQuantizer) : Prop where
  encode : ∀ v : Row, v.length = pq.dim → ∃ code,
    pq.codebook.encode (ProductQuantizer.kernel arith) F32.lt F32.infinity v = some code ∧
      code.length = pq.m
  decode : ∀ code : Bytes, code.length = pq.m → ∃ v,
    pq.codebook.decode code = some v ∧ v.length = pq.dim
  lookup : ∀ query : Row, query.length = pq.dim → ∃ table,
    pq.codebook.adcTable (ProductQuantizer.kernel arith) query = some table ∧
      table.length = pq.m * K ∧ ∀ code : Bytes, code.length = pq.m →
        (Codebook.adcDistance arith.add (F32.ofNat 0) table code).isSome

theorem inside (arith : Arithmetic) (pq : ProductQuantizer) : Inside arith pq where
  encode v length :=
    ⟨pq.encode arith v, ProductQuantizer.codebook_encode arith pq length,
      ProductQuantizer.encode_length arith pq v⟩
  decode code length :=
    ⟨pq.codebook.reconstruct code, Codebook.decode_eq length, Codebook.reconstruct_length code⟩
  lookup query length := by
    have sized : (pq.adcTable arith query).length = pq.m * K := Codebook.rows_length _ pq.m
    refine ⟨_, ProductQuantizer.codebook_adcTable arith pq length, sized, ?_⟩
    intro code codeLength
    exact Codebook.adcDistance_inside _ _ (codeLength ▸ sized)

/-- A quantizer survives its bytes and its file; and whatever bytes are read, nothing panics, and
what is accepted is the encoding of the quantizer it gives. -/
theorem codebook_codec (arith : Arithmetic) :
    (∀ pq : ProductQuantizer, pq.dim < 2 ^ 32 →
      ProductQuantizer.fromBytesChecked pq.toBytes = some (some pq) ∧
      loadCodebookChecked Crc32.hash (saveCodebook Crc32.hash pq) = some (.ok pq)) ∧
    ∀ data : Bytes, (loadCodebookChecked Crc32.hash data).isSome ∧
      ∃ read, ProductQuantizer.fromBytesChecked data = some read ∧ ∀ pq, read = some pq →
        pq.toBytes = data ∧ (0 < pq.m ∧ 0 < pq.subDim ∧ pq.subDim * pq.m = pq.dim) ∧
          (pq.dim < 2 ^ 32 ∧ pq.m < 2 ^ 32 ∧ pq.subDim < 2 ^ 32) ∧
          pq.centroids.length = pq.m * 256 * pq.subDim ∧ Inside arith pq := by
  constructor
  · intro pq small
    rw [ProductQuantizer.fromBytesChecked_eq, ProductQuantizer.fromBytes_toBytes small,
      loadCodebookChecked_eq, loadCodebook_saveCodebook Crc32.hash_lt small]
    exact ⟨rfl, rfl⟩
  · intro data
    rw [loadCodebookChecked_eq]
    refine ⟨rfl, _, ProductQuantizer.fromBytesChecked_eq data, ?_⟩
    intro pq accepted
    have ⟨bytes, small⟩ := ProductQuantizer.toBytes_fromBytes accepted
    have mLe : pq.m ≤ pq.dim := pq.pieces ▸ Nat.le_mul_of_pos_left pq.m pq.subDim_pos
    have subDimLe : pq.subDim ≤ pq.dim := pq.pieces ▸ Nat.le_mul_of_pos_right pq.subDim pq.m_pos
    exact ⟨bytes, ⟨pq.m_pos, pq.subDim_pos, pq.pieces⟩, ⟨small, by omega, by omega⟩, pq.size,
      inside arith pq⟩

end Pq

end Vektordb
