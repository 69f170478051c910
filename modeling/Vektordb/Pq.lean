import Vektordb.Basic
import Vektordb.Codec.Crc32

/-!
Product quantization. A vector is cut into `m` pieces and each piece is replaced by the number
of its nearest centroid, one byte per piece. Arithmetic on components is a parameter; the
codebook file and the codes are computed as in the code.
-/

namespace Vektordb

open LittleEndian

namespace Pq

def K : Nat := 256

/-- `l2` is the squared distance of two pieces, `add` the addition of table entries, and
`kmeans` trains the centroids of one subspace. -/
structure Arithmetic where
  l2 : Row → Row → F32
  add : F32 → F32 → F32
  kmeans : (points : Row) → (n d iters seed : Nat) → {centroids : Row // centroids.length = K * d}

end Pq

open Pq

structure ProductQuantizer where
  dim : Nat
  m : Nat
  subDim : Nat
  centroids : Row
  m_pos : 0 < m
  subDim_pos : 0 < subDim
  pieces : subDim * m = dim
  size : centroids.length = m * K * subDim
  deriving DecidableEq

namespace ProductQuantizer

/-- `row[from..][..len]` -/
def piece (row : Row) (start len : Nat) : Row := (row.drop start).take len

def centroid (pq : ProductQuantizer) (sub k : Nat) : Row :=
  piece pq.centroids ((sub * K + k) * pq.subDim) pq.subDim

def train (arith : Arithmetic) (samples : Row) (dim m iters : Nat) (seeds : Nat → Nat) :
    Result ProductQuantizer :=
  if known : dim = 0 ∨ m = 0 ∨ dim % m ≠ 0 then
    .error (.invalidArgument ("PQ m must be a non-zero divisor of dimension " ++ toString dim))
  else if samples = [] ∨ samples.length % dim ≠ 0 then
    .error (.invalidArgument "PQ samples must contain complete, non-empty rows")
  else
    let n := samples.length / dim
    if n < K then
      .error (.invalidArgument ("need at least 256 training vectors, got " ++ toString n))
    else
      let subDim := dim / m
      let points sub := (List.range n).flatMap fun i => piece samples (i * dim + sub * subDim) subDim
      have divides : m ∣ dim := Nat.dvd_of_mod_eq_zero (by omega)
      .ok {
        dim := dim
        m := m
        subDim := subDim
        centroids := (List.range m).flatMap fun sub =>
          (arith.kmeans (points sub) n subDim iters (seeds sub)).val
        m_pos := by omega
        subDim_pos := Nat.div_pos (Nat.le_of_dvd (by omega) divides) (by omega)
        pieces := Nat.div_mul_cancel divides
        size := by
          rw [List.length_flatMap, List.map_congr_left (g := fun _ => K * subDim)
            fun sub _ => (arith.kmeans (points sub) n subDim iters (seeds sub)).property]
          rw [List.map_const', List.sum_replicate, List.length_range, smul_eq_mul,
            Nat.mul_assoc] }

/-- The number of the nearest centroid of one piece, the first of them if there are several. -/
def nearest (arith : Arithmetic) (pq : ProductQuantizer) (x : Row) (sub : Nat) : Nat :=
  ((List.range K).foldl (fun best k =>
    let d := arith.l2 x (pq.centroid sub k)
    if d.lt best.2 then (k, d) else best) ((0, F32.infinity) : Nat × F32)).1

/-- Quantize a vector into `m` bytes. -/
def encode (arith : Arithmetic) (pq : ProductQuantizer) (v : Row) : Bytes :=
  (List.range pq.m).map fun sub =>
    UInt8.ofNat (pq.nearest arith (piece v (sub * pq.subDim) pq.subDim) sub)

@[simp] theorem encode_length (arith : Arithmetic) (pq : ProductQuantizer) (v : Row) :
    (pq.encode arith v).length = pq.m := by
  simp only [encode, List.length_map, List.length_range]

/-- The per-query table: `m * K` exact subspace distances. -/
def adcTable (arith : Arithmetic) (pq : ProductQuantizer) (query : Row) : List F32 :=
  (List.range pq.m).flatMap fun sub => (List.range K).map fun k =>
    arith.l2 (piece query (sub * pq.subDim) pq.subDim) (pq.centroid sub k)

/-- The distance of one code against a query table, with four accumulators. -/
def adcDistance (arith : Arithmetic) (table : List F32) (code : Bytes) : F32 :=
  let entry sub := table.getD (sub * K + (code.getD sub 0).toNat) (F32.ofNat 0)
  let quads := code.length / 4
  let acc lane := (List.range quads).foldl
    (fun sum quad => arith.add sum (entry (4 * quad + lane))) (F32.ofNat 0)
  let sum := arith.add (arith.add (acc 0) (acc 1)) (arith.add (acc 2) (acc 3))
  (List.range' (4 * quads) (code.length % 4)).foldl (fun sum sub => arith.add sum (entry sub)) sum

/-! ### The codebook file -/

def toBytes (pq : ProductQuantizer) : Bytes :=
  LittleEndian.encode 4 pq.dim ++ (LittleEndian.encode 4 pq.m ++
    (LittleEndian.encode 4 pq.subDim ++ pq.centroids.toLeBytes))

def checkedMul (left right : Nat) : Option Nat :=
  if left * right < 2 ^ 64 then some (left * right) else none

def fromBytes (data : Bytes) : Option ProductQuantizer :=
  if data.length < 12 then none
  else
    let dim := decode (data.take 4)
    let m := decode ((data.drop 4).take 4)
    let subDim := decode ((data.drop 8).take 4)
    let body := data.drop 12
    let centroids := Row.ofLeBytes (body.length / 4) body
    if known : 0 < m ∧ 0 < subDim ∧ checkedMul subDim m = some dim then
      if sized : (do checkedMul (← checkedMul (← checkedMul m K) subDim) 4) = some body.length then
        some {
          dim := dim
          m := m
          subDim := subDim
          centroids := centroids
          m_pos := known.1
          subDim_pos := known.2.1
          pieces := by
            have product := known.2.2
            unfold checkedMul at product
            split at product
            · exact Option.some.inj product
            · cases product
          size := by
            rw [Row.ofLeBytes_length]
            unfold checkedMul at sized
            simp only [Option.bind_eq_bind] at sized
            split at sized
            · simp only [Option.bind_some] at sized
              split at sized
              · simp only [Option.bind_some] at sized
                split at sized
                · have length := Option.some.inj sized
                  omega
                · cases sized
              · cases sized
            · cases sized }
      else none
    else none

theorem checkedMul_eq {left right : Nat} (value : Nat) (product : left * right = value)
    (small : value < 2 ^ 64) : checkedMul left right = some value := by
  unfold checkedMul
  rw [product, if_pos small]

theorem fromBytes_toBytes {pq : ProductQuantizer} (small : pq.dim < 2 ^ 32) :
    fromBytes pq.toBytes = some pq := by
  obtain ⟨dim, m, subDim, centroids, mPos, subDimPos, pieces, size⟩ := pq
  dsimp only at small
  have mLe : m ≤ dim := pieces ▸ Nat.le_mul_of_pos_left m subDimPos
  have subDimLe : subDim ≤ dim := pieces ▸ Nat.le_mul_of_pos_right subDim mPos
  have floats : centroids.length = K * dim := by
    rw [size, ← pieces, Nat.mul_comm m K, Nat.mul_assoc, Nat.mul_comm m]
  have length : centroids.toLeBytes.length = 4 * (K * dim) := by
    rw [Row.toLeBytes_length, floats]
  have kilo : K = 256 := rfl
  have dimField : decode ((toBytes ⟨dim, m, subDim, centroids, mPos, subDimPos, pieces,
      size⟩).take 4) = dim := decode_take_encode_append (show dim < 256 ^ 4 by omega) _
  have mField : decode (((toBytes ⟨dim, m, subDim, centroids, mPos, subDimPos, pieces,
      size⟩).drop 4).take 4) = m := by
    unfold toBytes
    rw [List.drop_left' (LittleEndian.encode_length 4 _)]
    exact decode_take_encode_append (show m < 256 ^ 4 by omega) _
  have afterM : (toBytes ⟨dim, m, subDim, centroids, mPos, subDimPos, pieces, size⟩).drop 8 =
      LittleEndian.encode 4 subDim ++ centroids.toLeBytes := by
    rw [show 8 = 4 + 4 from rfl, ← List.drop_drop]
    unfold toBytes
    rw [List.drop_left' (LittleEndian.encode_length 4 _),
      List.drop_left' (LittleEndian.encode_length 4 _)]
  have body : (toBytes ⟨dim, m, subDim, centroids, mPos, subDimPos, pieces, size⟩).drop 12 =
      centroids.toLeBytes := by
    rw [show 12 = 8 + 4 from rfl, ← List.drop_drop, afterM,
      List.drop_left' (LittleEndian.encode_length 4 _)]
  have whole : (toBytes ⟨dim, m, subDim, centroids, mPos, subDimPos, pieces, size⟩).length =
      12 + centroids.toLeBytes.length := by
    simp only [toBytes, List.length_append, LittleEndian.encode_length]
    omega
  unfold fromBytes
  dsimp only
  simp only [dimField, mField, afterM, body, whole, length,
    decode_take_encode_append (show subDim < 256 ^ 4 by omega) centroids.toLeBytes]
  rw [if_neg (by omega), dif_pos ⟨mPos, subDimPos, checkedMul_eq _ pieces (by omega)⟩, dif_pos]
  · have count : 4 * (K * dim) / 4 = centroids.length := by omega
    simp only [count, Row.ofLeBytes_toLeBytes]
  · rw [checkedMul_eq (m * K) rfl (by rw [kilo]; omega)]
    simp only [Option.bind_eq_bind, Option.bind_some]
    rw [checkedMul_eq (K * dim) (by rw [← floats, size]) (by rw [kilo]; omega)]
    simp only [Option.bind_some]
    exact checkedMul_eq _ (Nat.mul_comm _ 4) (by rw [kilo]; omega)

end ProductQuantizer

namespace Pq

def PQ_MAGIC : Nat := 0x564B5051
def PQ_VERSION : Nat := 1

def codebookPayload (pq : ProductQuantizer) : Bytes :=
  encode 4 PQ_MAGIC ++ (encode 4 PQ_VERSION ++ pq.toBytes)

def saveCodebook (hash : Bytes → Nat) (pq : ProductQuantizer) : Bytes :=
  codebookPayload pq ++ encode 4 (hash (codebookPayload pq))

def loadCodebook (hash : Bytes → Nat) (raw : Bytes) : Result ProductQuantizer :=
  if raw.length < 16 then .error (.corrupt "pq.codebook truncated")
  else
    let payload := raw.take (raw.length - 4)
    if hash payload ≠ decode (raw.drop (raw.length - 4)) then
      .error (.corrupt "pq.codebook checksum mismatch")
    else if decode (payload.take 4) ≠ PQ_MAGIC then .error (.corrupt "pq.codebook bad magic")
    else
      let version := decode ((payload.drop 4).take 4)
      if version ≠ PQ_VERSION then
        .error (.corrupt ("pq.codebook version " ++ toString version ++ ", expected 1"))
      else match ProductQuantizer.fromBytes (payload.drop 8) with
        | some pq => .ok pq
        | none => .error (.corrupt "pq.codebook malformed")

theorem loadCodebook_saveCodebook {hash : Bytes → Nat} (bounded : ∀ bytes, hash bytes < 2 ^ 32)
    {pq : ProductQuantizer} (small : pq.dim < 2 ^ 32) :
    loadCodebook hash (saveCodebook hash pq) = .ok pq := by
  have header : 12 ≤ pq.toBytes.length := by
    simp only [ProductQuantizer.toBytes, List.length_append, encode_length]
    omega
  have payload : (codebookPayload pq).length = 8 + pq.toBytes.length := by
    simp only [codebookPayload, List.length_append, encode_length]
    omega
  have length : (saveCodebook hash pq).length = (codebookPayload pq).length + 4 := by
    simp only [saveCodebook, List.length_append, encode_length]
  have front : (saveCodebook hash pq).take ((codebookPayload pq).length) = codebookPayload pq :=
    List.take_left
  have back : (saveCodebook hash pq).drop ((codebookPayload pq).length) =
      encode 4 (hash (codebookPayload pq)) := List.drop_left
  have afterMagic : (codebookPayload pq).drop 4 = encode 4 PQ_VERSION ++ pq.toBytes :=
    List.drop_left' (encode_length 4 _)
  have afterVersion : (codebookPayload pq).drop 8 = pq.toBytes := by
    rw [show 8 = 4 + 4 from rfl, ← List.drop_drop, afterMagic]
    exact List.drop_left' (encode_length 4 _)
  unfold loadCodebook
  dsimp only
  rw [length, Nat.add_sub_cancel, front, back, decode_encode_of_lt (bounded _),
    if_neg (by omega), if_neg (not_not.mpr rfl), if_neg, afterMagic,
    decode_take_encode_append (by decide), if_neg (not_not.mpr rfl), afterVersion,
    ProductQuantizer.fromBytes_toBytes small]
  rw [codebookPayload, decode_take_encode_append (by decide)]
  exact not_not.mpr rfl

end Pq

end Vektordb
