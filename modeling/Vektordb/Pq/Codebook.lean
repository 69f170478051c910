import Vektordb.Distance.Scalar
import Vektordb.Numeric.Checked
import Vektordb.Order.Argmin
import Vektordb.Pq

/-!
Quantization over any components, with every slice checked: `none` is an access outside the
codebook, the vector, the code or the table. On a codebook of the right size nothing of the kind
happens, and over `f32` the functions are those that the database uses.
-/

namespace Vektordb

open Checked LittleEndian Pq

/-- A quantizer with components in `α`. -/
structure Codebook (α : Type) where
  dim : Nat
  m : Nat
  subDim : Nat
  centroids : List α
  m_pos : 0 < m
  subDim_pos : 0 < subDim
  pieces : subDim * m = dim
  size : centroids.length = m * K * subDim

namespace Codebook

variable {α β : Type}

def centroid (book : Codebook α) (sub k : Nat) : Option (List α) :=
  slice book.centroids ((sub * K + k) * book.subDim) book.subDim

/-- The number of the nearest of `K` candidates, the first of them if there are several. -/
def nearestAmong (kernel : List α → List α → Option β) (less : β → β → Bool) (infinity : β)
    (candidate : Nat → Option (List α)) (x : List α) : Option Nat := do
  let best ← (List.range K).foldlM (fun best k => do
    let d ← kernel x (← candidate k)
    return if less d best.2 then (k, d) else best) (0, infinity)
  return best.1

section Functions

variable (kernel : List α → List α → Option β) (book : Codebook α)

def nearest (less : β → β → Bool) (infinity : β) (x : List α) (sub : Nat) : Option Nat :=
  nearestAmong kernel less infinity (book.centroid sub) x

/-- Quantize a vector into `m` bytes. -/
def encode (less : β → β → Bool) (infinity : β) (v : List α) : Option Bytes :=
  (List.range book.m).mapM fun sub => do
    let x ← slice v (sub * book.subDim) book.subDim
    return UInt8.ofNat (← book.nearest kernel less infinity x sub)

def decode (code : Bytes) : Option (List α) := do
  let front ← slice code 0 book.m
  let parts ← front.zipIdx.mapM fun (c, sub) => book.centroid sub c.toNat
  return parts.flatten

def adcTable (query : List α) : Option (List β) := do
  let rows ← (List.range book.m).mapM fun sub => do
    let q ← slice query (sub * book.subDim) book.subDim
    (List.range K).mapM fun k => do
      kernel q (← book.centroid sub k)
  return rows.flatten

end Functions

/-- `table[sub * K + code[sub] as usize]` -/
def entry (table : List β) (code : Bytes) (sub : Nat) : Option β := do
  let c ← code[sub]?
  table[sub * K + c.toNat]?

structure Accumulators (β : Type) where
  acc0 : β
  acc1 : β
  acc2 : β
  acc3 : β

def quad (add : β → β → β) (table : List β) (code : Bytes) (acc : Accumulators β) (sub : Nat) :
    Option (Accumulators β) := do
  let e0 ← entry table code sub
  let e1 ← entry table code (sub + 1)
  let e2 ← entry table code (sub + 2)
  let e3 ← entry table code (sub + 3)
  return ⟨add acc.acc0 e0, add acc.acc1 e1, add acc.acc2 e2, add acc.acc3 e3⟩

def adcDistance (add : β → β → β) (zero : β) (table : List β) (code : Bytes) : Option β := do
  let m := code.length
  let acc ← strides 4 0 m (quad add table code) ⟨zero, zero, zero, zero⟩
  let sum := add (add acc.acc0 acc.acc1) (add acc.acc2 acc.acc3)
  strides 1 (strideEnd 4 0 m) m (fun sum sub => do return add sum (← entry table code sub)) sum

theorem nearestAmong_eq {kernel : List α → List α → Option β} (less : β → β → Bool) (infinity : β)
    {candidate : Nat → Option (List α)} {x : List α} {value : Nat → β}
    (found : ∀ k, k < K → (do kernel x (← candidate k)) = some (value k)) :
    nearestAmong kernel less infinity candidate x =
      some (Argmin.scan less infinity value K).1 := by
  unfold nearestAmong
  rw [foldlM_some fun best k => if less (value k) best.2 then (k, value k) else best]
  · rfl
  · intro best k member
    have measured := found k (List.mem_range.mp member)
    cases chosen : candidate k with
    | none =>
        rw [chosen] at measured
        cases measured
    | some other =>
        rw [chosen] at measured
        change kernel x other = some (value k) at measured
        change kernel x other >>= _ = _
        rw [measured]
        rfl

/-! ### Every access is inside -/

section Inside

variable (book : Codebook α)

def word (sub k : Nat) : List α :=
  (book.centroids.drop ((sub * K + k) * book.subDim)).take book.subDim

def piece (v : List α) (sub : Nat) : List α := (v.drop (sub * book.subDim)).take book.subDim

def reconstruct (code : Bytes) : List α :=
  (List.range book.m).flatMap fun sub => book.word sub (code.getD sub 0).toNat

variable {book}

theorem centroid_inside {sub k : Nat} (subBelow : sub < book.m) (kBelow : k < K) :
    (sub * K + k) * book.subDim + book.subDim ≤ book.centroids.length := by
  have next : (sub * K + k) + 1 ≤ book.m * K := by
    calc (sub * K + k) + 1 ≤ sub * K + K := by omega
      _ = (sub + 1) * K := (Nat.succ_mul sub K).symm
      _ ≤ book.m * K := Nat.mul_le_mul_right K subBelow
  rw [book.size, ← Nat.succ_mul]
  exact Nat.mul_le_mul_right _ next

theorem piece_inside {v : List α} (length : v.length = book.dim) {sub : Nat}
    (subBelow : sub < book.m) : sub * book.subDim + book.subDim ≤ v.length := by
  rw [length, ← book.pieces, ← Nat.succ_mul, Nat.mul_comm book.subDim]
  exact Nat.mul_le_mul_right _ subBelow

theorem centroid_eq {sub k : Nat} (subBelow : sub < book.m) (kBelow : k < K) :
    book.centroid sub k = some (book.word sub k) :=
  slice_inside (centroid_inside subBelow kBelow)

theorem word_length {sub k : Nat} (subBelow : sub < book.m) (kBelow : k < K) :
    (book.word sub k).length = book.subDim :=
  slice_length (centroid_inside subBelow kBelow)

theorem piece_length {v : List α} (length : v.length = book.dim) {sub : Nat}
    (subBelow : sub < book.m) : (book.piece v sub).length = book.subDim :=
  slice_length (piece_inside length subBelow)

/-- A kernel that fails on vectors of different lengths only. -/
def Computes (kernel : List α → List α → Option β) (l2 : List α → List α → β) : Prop :=
  ∀ x y, x.length = y.length → kernel x y = some (l2 x y)

section Kernel

variable {kernel : List α → List α → Option β} {l2 : List α → List α → β}
  (computes : Computes kernel l2)
include computes

theorem measure_eq {v : List α} (length : v.length = book.dim) {sub k : Nat}
    (subBelow : sub < book.m) (kBelow : k < K) :
    kernel (book.piece v sub) (book.word sub k) = some (l2 (book.piece v sub) (book.word sub k)) :=
  computes _ _ ((piece_length length subBelow).trans (word_length subBelow kBelow).symm)

theorem nearest_eq (less : β → β → Bool) (infinity : β) {v : List α} (length : v.length = book.dim)
    {sub : Nat} (subBelow : sub < book.m) :
    book.nearest kernel less infinity (book.piece v sub) sub =
      some (Argmin.scan less infinity
        (fun k => l2 (book.piece v sub) (book.word sub k)) K).1 := by
  apply nearestAmong_eq
  intro k below
  rw [centroid_eq subBelow below]
  exact measure_eq computes length subBelow below

theorem encode_eq (less : β → β → Bool) (infinity : β) {v : List α} (length : v.length = book.dim) :
    book.encode kernel less infinity v =
      some ((List.range book.m).map fun sub => UInt8.ofNat (Argmin.scan less infinity
        (fun k => l2 (book.piece v sub) (book.word sub k)) K).1) := by
  apply mapM_some
  intro sub member
  rw [slice_inside (piece_inside length (List.mem_range.mp member))]
  change book.nearest kernel less infinity (book.piece v sub) sub >>= _ = _
  rw [nearest_eq computes less infinity length (List.mem_range.mp member)]
  rfl

theorem adcTable_eq {query : List α} (length : query.length = book.dim) :
    book.adcTable kernel query = some ((List.range book.m).flatMap fun sub =>
      (List.range K).map fun k => l2 (book.piece query sub) (book.word sub k)) := by
  have rows : ((List.range book.m).mapM fun sub => do
      let q ← slice query (sub * book.subDim) book.subDim
      (List.range K).mapM fun k => do
        kernel q (← book.centroid sub k)) = some ((List.range book.m).map fun sub =>
          (List.range K).map fun k => l2 (book.piece query sub) (book.word sub k)) := by
    apply mapM_some
    intro sub member
    rw [slice_inside (piece_inside length (List.mem_range.mp member))]
    apply mapM_some
    intro k kMember
    rw [centroid_eq (List.mem_range.mp member) (List.mem_range.mp kMember)]
    exact measure_eq computes length (List.mem_range.mp member) (List.mem_range.mp kMember)
  unfold adcTable
  rw [rows]
  rfl

end Kernel

theorem byte_lt (code : Bytes) (sub : Nat) : (code.getD sub 0).toNat < K := UInt8.toNat_lt _

theorem decode_eq {code : Bytes} (length : code.length = book.m) :
    book.decode code = some (book.reconstruct code) := by
  have parts : code.zipIdx.mapM (fun pair => book.centroid pair.2 pair.1.toNat) =
      some (code.zipIdx.map fun pair => book.word pair.2 pair.1.toNat) := by
    apply mapM_some
    intro pair member
    have below := (List.mem_zipIdx' member).1
    exact centroid_eq (length ▸ below) (UInt8.toNat_lt _)
  have listed : code.zipIdx.map (fun pair => book.word pair.2 pair.1.toNat) =
      (List.range book.m).map fun sub => book.word sub (code.getD sub 0).toNat := by
    apply List.ext_getElem
    · rw [List.length_map, List.length_zipIdx, List.length_map, List.length_range, length]
    · intro i left right
      rw [List.length_map, List.length_zipIdx] at left
      rw [List.getElem_map, List.getElem_map, List.getElem_zipIdx, List.getElem_range,
        List.getD_eq_getElem code 0 left, Nat.zero_add]
  have front : slice code 0 book.m = some code := by
    rw [slice_inside (by omega), List.drop_zero, List.take_of_length_le (by omega)]
  unfold decode
  rw [front]
  change (code.zipIdx.mapM fun pair => book.centroid pair.2 pair.1.toNat) >>= _ = _
  rw [parts, listed]
  rfl

theorem reconstruct_length (code : Bytes) : (book.reconstruct code).length = book.dim := by
  unfold reconstruct
  rw [List.length_flatMap, List.map_congr_left (g := fun _ => book.subDim) fun sub member =>
    word_length (List.mem_range.mp member) (byte_lt code sub)]
  rw [List.map_const', List.sum_replicate, List.length_range, smul_eq_mul, Nat.mul_comm,
    book.pieces]

theorem pieces_flatMap (book : Codebook α) {v : List α} (length : v.length = book.dim) :
    (List.range book.m).flatMap (book.piece v) = v := by
  have front (count : Nat) : (List.range count).flatMap (book.piece v) =
      v.take (count * book.subDim) := by
    induction count with
    | zero => rw [Nat.zero_mul, List.take_zero]; rfl
    | succ count ih =>
        rw [List.range_succ, List.flatMap_append, ih, List.flatMap_singleton, Nat.succ_mul,
          List.take_add]
        rfl
  rw [front, Nat.mul_comm, book.pieces, List.take_of_length_le (by omega)]

end Inside

/-! ### The table lookups -/

theorem rows_length (value : Nat → Nat → β) (m : Nat) :
    ((List.range m).flatMap fun sub => (List.range K).map (value sub)).length = m * K := by
  rw [List.length_flatMap, List.map_congr_left (g := fun _ => K) fun sub _ => by
    rw [List.length_map, List.length_range]]
  rw [List.map_const', List.sum_replicate, List.length_range, smul_eq_mul]

theorem rows_get (value : Nat → Nat → β) {m sub k : Nat} (subBelow : sub < m) (kBelow : k < K) :
    ((List.range m).flatMap fun sub => (List.range K).map (value sub))[sub * K + k]? =
      some (value sub k) := by
  induction m with
  | zero => cases subBelow
  | succ m ih =>
      rw [List.range_succ, List.flatMap_append, List.flatMap_singleton]
      rcases Nat.lt_succ_iff_lt_or_eq.mp subBelow with before | here
      · have next : sub * K + k < m * K := by
          calc sub * K + k < sub * K + K := by omega
            _ = (sub + 1) * K := (Nat.succ_mul sub K).symm
            _ ≤ m * K := Nat.mul_le_mul_right K before
        rw [List.getElem?_append_left (by rwa [rows_length])]
        exact ih before
      · subst here
        rw [List.getElem?_append_right (by rw [rows_length]; omega), rows_length,
          Nat.add_sub_cancel_left, List.getElem?_map, List.getElem?_range kBelow]
        rfl

theorem entry_inside {table : List β} (code : Bytes) {m : Nat} (sized : table.length = m * K)
    {sub : Nat} (subBelow : sub < m) :
    sub * K + (code.getD sub 0).toNat < table.length := by
  have below := byte_lt code sub
  rw [sized]
  calc sub * K + (code.getD sub 0).toNat < sub * K + K := by omega
    _ = (sub + 1) * K := (Nat.succ_mul sub K).symm
    _ ≤ m * K := Nat.mul_le_mul_right K subBelow

theorem entry_eq (table : List β) {code : Bytes} {sub : Nat} (below : sub < code.length) :
    entry table code sub = table[sub * K + (code.getD sub 0).toNat]? := by
  unfold entry
  rw [List.getD_eq_getElem code 0 below, List.getElem?_eq_getElem below]
  rfl

section Lookup

variable {add : β → β → β} {zero : β} {table : List β} {code : Bytes} {value : Nat → β}
  (found : ∀ sub, sub < code.length → entry table code sub = some (value sub))
include found

theorem quad_eq {sub : Nat} (inside : sub + 4 ≤ code.length) (acc : Accumulators β) :
    quad add table code acc sub = some ⟨add acc.acc0 (value sub), add acc.acc1 (value (sub + 1)),
      add acc.acc2 (value (sub + 2)), add acc.acc3 (value (sub + 3))⟩ := by
  unfold quad
  rw [found sub (by omega), found (sub + 1) (by omega), found (sub + 2) (by omega),
    found (sub + 3) (by omega)]
  rfl

/-- The accumulators of the unrolled loop, then its sum, then the rest of the code. -/
theorem adcDistance_eq : adcDistance add zero table code =
    let quads := code.length / 4
    let acc lane := (List.range quads).foldl (fun sum quad => add sum (value (4 * quad + lane))) zero
    some ((List.range' (4 * quads) (code.length % 4)).foldl (fun sum sub => add sum (value sub))
      (add (add (acc 0) (acc 1)) (add (acc 2) (acc 3)))) := by
  let acc (quads lane : Nat) :=
    (List.range quads).foldl (fun sum quad => add sum (value (4 * quad + lane))) zero
  have grows (quads lane : Nat) : acc (quads + 1) lane = add (acc quads lane)
      (value (4 * quads + lane)) := by
    change List.foldl _ _ _ = _
    rw [List.range_succ, List.foldl_append]
    rfl
  have ⟨last, ran, quads, ends, held⟩ := strides_rule
    (fun i (state : Accumulators β) => ∃ quads, i = 4 * quads ∧
      state = ⟨acc quads 0, acc quads 1, acc quads 2, acc quads 3⟩)
    (quad add table code) code.length (by decide : 0 < 4) (by
      intro i state kept inside
      have ⟨quads, here, held⟩ := kept
      refine ⟨_, quad_eq found inside state, quads + 1, by omega, ?_⟩
      rw [here, held, grows, grows, grows, grows]
      rfl) (⟨0, rfl, rfl⟩ : ∃ quads, 0 = 4 * quads ∧ (⟨zero, zero, zero, zero⟩ : Accumulators β) =
        ⟨acc quads 0, acc quads 1, acc quads 2, acc quads 3⟩)
  have stop : strideEnd 4 0 code.length = 4 * (code.length / 4) := by
    unfold strideEnd
    rw [Nat.sub_zero, Nat.zero_add, Nat.mul_comm]
  have turns : (code.length - 4 * (code.length / 4)) / 1 = code.length % 4 := by omega
  have same : quads = code.length / 4 := by omega
  unfold adcDistance
  dsimp only
  rw [ran, held, stop, same]
  unfold strides
  rw [turns]
  apply foldlM_some
  intro sum sub member
  rw [found sub (by have := List.mem_range'_1.mp member; omega)]
  rfl

end Lookup

theorem adcDistance_inside (add : β → β → β) (zero : β) {table : List β} {code : Bytes}
    (sized : table.length = code.length * K) : (adcDistance add zero table code).isSome := by
  have found : ∀ sub, sub < code.length → entry table code sub =
      some (table.getD (sub * K + (code.getD sub 0).toNat) zero) := by
    intro sub below
    have inside := entry_inside code sized below
    rw [entry_eq table below, List.getD_eq_getElem table zero inside,
      List.getElem?_eq_getElem inside]
  rw [adcDistance_eq found]
  rfl

end Codebook

/-! ### Over `f32` -/

namespace ProductQuantizer

def codebook (pq : ProductQuantizer) : Codebook F32 where
  dim := pq.dim
  m := pq.m
  subDim := pq.subDim
  centroids := pq.centroids
  m_pos := pq.m_pos
  subDim_pos := pq.subDim_pos
  pieces := pq.pieces
  size := pq.size

/-- `l2_squared` with its assertion. -/
def kernel (arith : Arithmetic) (x y : Row) : Option F32 := Scalar.asserted x y (arith.l2 x y)

theorem kernel_computes (arith : Arithmetic) : Codebook.Computes (kernel arith) arith.l2 :=
  fun _ _ same => if_pos same

theorem codebook_encode (arith : Arithmetic) (pq : ProductQuantizer) {v : Row}
    (length : v.length = pq.dim) :
    pq.codebook.encode (kernel arith) F32.lt F32.infinity v = some (pq.encode arith v) :=
  Codebook.encode_eq (kernel_computes arith) F32.lt F32.infinity length

theorem codebook_adcTable (arith : Arithmetic) (pq : ProductQuantizer) {query : Row}
    (length : query.length = pq.dim) :
    pq.codebook.adcTable (kernel arith) query = some (pq.adcTable arith query) :=
  Codebook.adcTable_eq (kernel_computes arith) length

theorem codebook_adcDistance (arith : Arithmetic) {table : List F32} {code : Bytes}
    (sized : table.length = code.length * K) :
    Codebook.adcDistance arith.add (F32.ofNat 0) table code =
      some (adcDistance arith table code) := by
  apply Codebook.adcDistance_eq
  intro sub below
  have inside := Codebook.entry_inside code sized below
  rw [Codebook.entry_eq table below, List.getD_eq_getElem table _ inside,
    List.getElem?_eq_getElem inside]

end ProductQuantizer

end Vektordb
