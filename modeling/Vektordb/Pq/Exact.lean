import Vektordb.Pq.Codebook

/-!
Quantization in exact arithmetic. The squared distance is a sum over the subspaces, so the table
lookups add up to the distance to the reconstruction, and the nearest centroid of each piece gives
the nearest code.
-/

namespace Vektordb

open Checked LittleEndian Pq Scalar

namespace Codebook

section Sums

variable {α : Type} [AddCommMonoid α]

theorem foldl_range' (value : Nat → α) (start count : Nat) (init : α) :
    (List.range' start count).foldl (fun sum i => sum + value i) init =
      init + ∑ j ∈ Finset.range count, value (start + j) := by
  induction count with
  | zero => rw [Finset.sum_range_zero, add_zero]; rfl
  | succ count ih =>
      rw [List.range'_concat, List.foldl_append, ih, Finset.sum_range_succ, Nat.one_mul, ← add_assoc]
      rfl

theorem sum_quads (value : Nat → α) (quads : Nat) :
    (∑ quad ∈ Finset.range quads, value (4 * quad) +
      ∑ quad ∈ Finset.range quads, value (4 * quad + 1)) +
      (∑ quad ∈ Finset.range quads, value (4 * quad + 2) +
        ∑ quad ∈ Finset.range quads, value (4 * quad + 3)) =
      ∑ i ∈ Finset.range (4 * quads), value i := by
  induction quads with
  | zero => simp only [Nat.mul_zero, Finset.sum_range_zero, add_zero]
  | succ quads ih =>
      rw [Nat.mul_succ, show 4 * quads + 4 = 4 * quads + 1 + 1 + 1 + 1 from rfl]
      simp only [Finset.sum_range_succ]
      rw [← ih]
      ac_rfl

/-- The unrolled loop and the tail loop together add every lookup once. -/
theorem adcDistance_sum {table : List α} {code : Bytes} {value : Nat → α}
    (found : ∀ sub, sub < code.length → entry table code sub = some (value sub)) :
    adcDistance (· + ·) 0 table code = some (∑ sub ∈ Finset.range code.length, value sub) := by
  have whole : code.length = 4 * (code.length / 4) + code.length % 4 :=
    (Nat.div_add_mod code.length 4).symm
  rw [adcDistance_eq found]
  simp only [List.range_eq_range', foldl_range', zero_add, Nat.add_zero]
  rw [sum_quads]
  conv_rhs => rw [whole, Finset.sum_range_add]

end Sums

section Distance

variable {α : Type} [CommRing α]

theorem distance_computes : Computes (Scalar.l2Squared (α := α)) distance :=
  fun _ _ same => Scalar.l2Squared_eq same

theorem distance_flatMap {left right : Nat → List α} {count : Nat}
    (same : ∀ sub, sub < count → (left sub).length = (right sub).length) :
    distance ((List.range count).flatMap left) ((List.range count).flatMap right) =
      ∑ sub ∈ Finset.range count, distance (left sub) (right sub) := by
  induction count with
  | zero => rfl
  | succ count ih =>
      have fronts : ((List.range count).flatMap left).length =
          ((List.range count).flatMap right).length := by
        rw [List.length_flatMap, List.length_flatMap]
        congr 1
        apply List.map_congr_left
        intro sub member
        exact same sub (Nat.lt_succ_of_lt (List.mem_range.mp member))
      rw [List.range_succ, List.flatMap_append, List.flatMap_append, List.flatMap_singleton,
        List.flatMap_singleton, Finset.sum_range_succ]
      unfold distance
      rw [Scalar.total_append _ fronts]
      congr 1
      exact ih fun sub below => same sub (Nat.lt_succ_of_lt below)

variable {book : Codebook α}

theorem distance_reconstruct {v : List α} (length : v.length = book.dim) (code : Bytes) :
    distance v (book.reconstruct code) =
      ∑ sub ∈ Finset.range book.m,
        distance (book.piece v sub) (book.word sub (code.getD sub 0).toNat) := by
  conv_lhs => rw [← pieces_flatMap book length]
  apply distance_flatMap
  intro sub below
  rw [piece_length length below, word_length below (byte_lt code sub)]

theorem adcDistance_reconstruct {query : List α} (length : query.length = book.dim) {code : Bytes}
    (codeLength : code.length = book.m) : ∃ table,
    book.adcTable Scalar.l2Squared query = some table ∧
      adcDistance (· + ·) 0 table code = some (distance query (book.reconstruct code)) := by
  have found : ∀ sub, sub < code.length → entry ((List.range book.m).flatMap fun sub =>
      (List.range K).map fun k => distance (book.piece query sub) (book.word sub k)) code sub =
        some (distance (book.piece query sub) (book.word sub (code.getD sub 0).toNat)) := by
    intro sub below
    rw [entry_eq _ below]
    exact rows_get _ (codeLength ▸ below) (byte_lt code sub)
  have lookups := adcDistance_sum found
  rw [codeLength, ← distance_reconstruct length] at lookups
  exact ⟨_, adcTable_eq distance_computes length, lookups⟩

end Distance

/-- In exact arithmetic a table lookup gives the squared distance to the decoded code. -/
theorem adcDistance_adcTable (book : Codebook ℚ) (query : List ℚ) (code : Bytes)
    (length : query.length = book.dim) (codeLength : code.length = book.m) :
    ∃ d, (do adcDistance (· + ·) 0 (← book.adcTable Scalar.l2Squared query) code) = some d ∧
      (do Scalar.l2Squared query (← book.decode code)) = some d := by
  have ⟨table, filled, looked⟩ := adcDistance_reconstruct length codeLength
  refine ⟨distance query (book.reconstruct code), ?_, ?_⟩
  · rw [filled]
    exact looked
  · rw [decode_eq codeLength]
    exact distance_computes _ _ (length.trans (reconstruct_length code).symm)

def stepped : Codebook ℚ where
  dim := 5
  m := 5
  subDim := 1
  centroids := (List.range 1280).map fun i => ((i % 256 : Nat) : ℚ)
  m_pos := by decide
  subDim_pos := by decide
  pieces := rfl
  size := by
    rw [List.length_map, List.length_range]
    rfl

theorem adcDistance_adcTable_stepped :
    (do
      let table ← stepped.adcTable Scalar.l2Squared [1, 2, 3, 4, 5]
      adcDistance (· + ·) 0 table [7, 0, 255, 1, 2]) = some 63562 := by
  have decoded : (do Scalar.l2Squared [1, 2, 3, 4, 5] (← stepped.decode [7, 0, 255, 1, 2])) =
      some 63562 := by decide +kernel
  obtain ⟨d, looked, same⟩ :=
    adcDistance_adcTable stepped [1, 2, 3, 4, 5] [7, 0, 255, 1, 2] rfl rfl
  rw [decoded] at same
  cases same
  exact looked

/-! ### Encoding -/

def kernelTop (x y : List ℚ) : Option (WithTop ℚ) := (Scalar.l2Squared x y).map WithTop.some

theorem kernelTop_computes : Computes kernelTop fun x y => WithTop.some (distance x y) := by
  intro x y same
  unfold kernelTop
  rw [distance_computes x y same]
  rfl

def encodeExact (book : Codebook ℚ) (v : List ℚ) : Option Bytes :=
  book.encode kernelTop (fun x y => decide (x < y)) ⊤ v

variable {book : Codebook ℚ} {v : List ℚ}

theorem encodeExact_first (length : v.length = book.dim) : ∃ code,
    book.encodeExact v = some code ∧ code.length = book.m ∧ ∀ sub, sub < book.m →
      Argmin.First (fun k => distance (book.piece v sub) (book.word sub k)) K
        (code.getD sub 0).toNat := by
  refine ⟨_, encode_eq kernelTop_computes _ ⊤ length, ?_, ?_⟩
  · rw [List.length_map, List.length_range]
  · intro sub below
    have ⟨first, _⟩ := Argmin.scan_first (β := WithTop ℚ) (by decide : 0 < K) fun k _ =>
      WithTop.coe_lt_top (distance (book.piece v sub) (book.word sub k))
    rw [List.getD_eq_getElem _ _ (by rwa [List.length_map, List.length_range]), List.getElem_map,
      List.getElem_range, UInt8.toNat_ofNat', Nat.mod_eq_of_lt (show _ < 2 ^ 8 from first.lt)]
    exact ⟨first.lt, fun k kBelow => WithTop.coe_le_coe.mp (first.least k kBelow),
      fun k before => WithTop.coe_lt_coe.mp (first.earliest k before)⟩

def distanceTo (book : Codebook ℚ) (v : List ℚ) (code : Bytes) : Option ℚ := do
  Scalar.l2Squared v (← book.decode code)

theorem distanceTo_eq (length : v.length = book.dim) {code : Bytes}
    (codeLength : code.length = book.m) : book.distanceTo v code =
      some (∑ sub ∈ Finset.range book.m,
        distance (book.piece v sub) (book.word sub (code.getD sub 0).toNat)) := by
  unfold distanceTo
  rw [decode_eq codeLength]
  change Scalar.l2Squared v (book.reconstruct code) = _
  rw [distance_computes _ _ (length.trans (reconstruct_length code).symm),
    distance_reconstruct length]

/-- The code of a vector is a nearest one, and of all the nearest ones the one with the smallest
bytes. -/
theorem encodeExact_optimal (length : v.length = book.dim) : ∃ code best,
    book.encodeExact v = some code ∧ code.length = book.m ∧ book.distanceTo v code = some best ∧
      ∀ other : Bytes, other.length = book.m → ∃ d, book.distanceTo v other = some d ∧ best ≤ d ∧
        (d = best → ∀ sub, sub < book.m → code.getD sub 0 ≤ other.getD sub 0) := by
  have ⟨code, encoded, codeLength, first⟩ := encodeExact_first length
  refine ⟨code, _, encoded, codeLength, distanceTo_eq length codeLength, ?_⟩
  intro other otherLength
  have least (sub : Nat) (member : sub ∈ Finset.range book.m) :
      distance (book.piece v sub) (book.word sub (code.getD sub 0).toNat) ≤
        distance (book.piece v sub) (book.word sub (other.getD sub 0).toNat) :=
    (first sub (Finset.mem_range.mp member)).least _ (byte_lt other sub)
  refine ⟨_, distanceTo_eq length otherLength, Finset.sum_le_sum least, ?_⟩
  intro equal sub below
  have same := (Finset.sum_eq_sum_iff_of_le least).mp equal.symm sub (Finset.mem_range.mpr below)
  rw [UInt8.le_iff_toNat_le]
  by_contra before
  have less := (first sub below).earliest _ (Nat.lt_of_not_le before)
  rw [same] at less
  exact lt_irrefl _ less

theorem decode_encodeExact {code : Bytes} (codeLength : code.length = book.m) : ∃ v again,
    book.decode code = some v ∧ book.encodeExact v = some again ∧ book.decode again = some v := by
  have length : (book.reconstruct code).length = book.dim := reconstruct_length code
  have ⟨again, best, encoded, againLength, reached, optimal⟩ := encodeExact_optimal length
  refine ⟨book.reconstruct code, again, decode_eq codeLength, encoded, ?_⟩
  have ⟨d, reachedCode, below, _⟩ := optimal code codeLength
  have toCode : book.distanceTo (book.reconstruct code) code = some 0 := by
    unfold distanceTo
    rw [decode_eq codeLength]
    exact (distance_computes _ _ rfl).trans (congrArg some (distance_self _))
  have toAgain : book.distanceTo (book.reconstruct code) again =
      some (distance (book.reconstruct code) (book.reconstruct again)) := by
    unfold distanceTo
    rw [decode_eq againLength]
    exact distance_computes _ _ (length.trans (reconstruct_length again).symm)
  rw [toCode] at reachedCode
  rw [toAgain] at reached
  have zero : distance (book.reconstruct code) (book.reconstruct again) = 0 := by
    apply le_antisymm _ (distance_nonneg _ _)
    rw [Option.some.inj reached, Option.some.inj reachedCode]
    exact below
  rw [decode_eq againLength, eq_of_distance (length.trans (reconstruct_length again).symm) zero]

/-- `encode` gives the optimal code, and decoding undoes it on what can be decoded. -/
theorem encode_optimal (book : Codebook ℚ) (v : List ℚ) (length : v.length = book.dim) :
    (∃ code best, book.encodeExact v = some code ∧ code.length = book.m ∧
      book.distanceTo v code = some best ∧
      ∀ other : Bytes, other.length = book.m → ∃ d, book.distanceTo v other = some d ∧ best ≤ d ∧
        (d = best → ∀ sub, sub < book.m → code.getD sub 0 ≤ other.getD sub 0)) ∧
    ∀ code : Bytes, code.length = book.m → ∃ v again, book.decode code = some v ∧
      book.encodeExact v = some again ∧ book.decode again = some v :=
  ⟨encodeExact_optimal length, fun _ codeLength => decode_encodeExact codeLength⟩

theorem encode_optimal_stepped :
    (∃ code best, stepped.encodeExact [1, 3 / 2, 250, 1000, -7] = some code ∧
      stepped.distanceTo [1, 3 / 2, 250, 1000, -7] code = some best ∧
      best ≤ 1 / 4 + 745 ^ 2 + 7 ^ 2) ∧
    ∃ again, stepped.encodeExact [7, 0, 255, 1, 2] = some again ∧
      stepped.decode again = some [7, 0, 255, 1, 2] := by
  obtain ⟨⟨code, best, found, -, reached, optimal⟩, roundTrip⟩ :=
    encode_optimal stepped [1, 3 / 2, 250, 1000, -7] rfl
  have near : stepped.distanceTo [1, 3 / 2, 250, 1000, -7] [1, 1, 250, 255, 0] =
      some (1 / 4 + 745 ^ 2 + 7 ^ 2) := by decide +kernel
  have decoded : stepped.decode [7, 0, 255, 1, 2] = some [7, 0, 255, 1, 2] := by decide +kernel
  constructor
  · obtain ⟨d, there, le, -⟩ := optimal [1, 1, 250, 255, 0] rfl
    rw [near] at there
    cases there
    exact ⟨code, best, found, reached, le⟩
  · obtain ⟨v, again, same, encoded, back⟩ := roundTrip [7, 0, 255, 1, 2] rfl
    rw [decoded] at same
    cases same
    exact ⟨again, encoded, back⟩

end Codebook

end Vektordb
