import Vektordb.Distance.Scalar
import Vektordb.Hnsw.Graph
import Vektordb.Numeric.Checked

/-!
The AVX2 kernels, with every intrinsic a lane-wise operation. A load outside the slice is `none`,
and the indexes that were read are logged, so that what is proved says which elements a kernel
touches and how often.
-/

namespace Vektordb

open Checked

namespace Avx2

variable {α : Type}

/-- `__m256` -/
abbrev M256 (α : Type) := Fin 8 → α

/-- `__m128` -/
abbrev M128 (α : Type) := Fin 4 → α

inductive Side where
  | a
  | b
  deriving DecidableEq

/-- `as_ptr` of one of the two vectors. -/
structure Pointer (α : Type) where
  side : Side
  row : List α

/-- The elements read so far. -/
abbrev Log := List (Side × Nat)

abbrev Reading := StateT Log Option

section Intrinsics

variable [Zero α] [Add α] [Sub α] [Mul α]

def mm256SetzeroPs : M256 α := fun _ => 0

def mm256AddPs (x y : M256 α) : M256 α := fun lane => x lane + y lane

def mm256SubPs (x y : M256 α) : M256 α := fun lane => x lane - y lane

/-- `x * y + acc` -/
def mm256FmaddPs (x y acc : M256 α) : M256 α := fun lane => x lane * y lane + acc lane

def mm256Extractf128Ps (x : M256 α) (imm : Nat) : M128 α :=
  fun lane => x (Fin.ofNat 8 (4 * (imm % 2) + lane))

def mm256Castps256Ps128 (x : M256 α) : M128 α := fun lane => x (Fin.castLE (by decide) lane)

def mmAddPs (x y : M128 α) : M128 α := fun lane => x lane + y lane

/-- The upper half of `y`, then the upper half of `x`. -/
def mmMovehlPs (x y : M128 α) : M128 α
  | 0 => y 2
  | 1 => y 3
  | 2 => x 2
  | 3 => x 3

/-- Two lanes of `x` and two of `y`, selected by the bit pairs of `imm`. -/
def mmShufflePs (x y : M128 α) (imm : Nat) : M128 α
  | 0 => x (Fin.ofNat 4 imm)
  | 1 => x (Fin.ofNat 4 (imm / 4))
  | 2 => y (Fin.ofNat 4 (imm / 16))
  | 3 => y (Fin.ofNat 4 (imm / 64))

/-- The sum in lane 0; the others are those of `x`. -/
def mmAddSs (x y : M128 α) : M128 α
  | 0 => x 0 + y 0
  | lane => x lane

def mmCvtssF32 (x : M128 α) : α := x 0

/-- Eight elements from `row.add(i)` on. -/
def mm256LoaduPs (row : Pointer α) (i : Nat) : Reading (M256 α) := fun log =>
  if i + 8 ≤ row.row.length then
    some (fun lane => row.row.getD (i + lane) 0, log ++ (List.range' i 8).map (row.side, ·))
  else none

/-- `*row.add(i)` -/
def deref (row : Pointer α) (i : Nat) : Reading α := fun log =>
  if i < row.row.length then some (row.row.getD i 0, log ++ [(row.side, i)]) else none

end Intrinsics

section Kernels

variable [Zero α] [One α] [Add α] [Sub α] [Mul α] [Div α] [DecidableEq α]

def hsum256 (v : M256 α) : α :=
  let hi := mm256Extractf128Ps v 1
  let lo := mm256Castps256Ps128 v
  let s := mmAddPs lo hi
  let s := mmAddPs s (mmMovehlPs s s)
  let s := mmAddSs s (mmShufflePs s s 1)
  mmCvtssF32 s

/-- `acc0` to `acc3` -/
structure Accumulators (α : Type) where
  acc0 : M256 α
  acc1 : M256 α
  acc2 : M256 α
  acc3 : M256 α

def l2Squared (a b : List α) : Reading α := do
  let n := a.length
  let pa := Pointer.mk .a a
  let pb := Pointer.mk .b b
  let acc ← strides 32 0 n (fun (acc : Accumulators α) i => do
    let d0 := mm256SubPs (← mm256LoaduPs pa i) (← mm256LoaduPs pb i)
    let d1 := mm256SubPs (← mm256LoaduPs pa (i + 8)) (← mm256LoaduPs pb (i + 8))
    let d2 := mm256SubPs (← mm256LoaduPs pa (i + 16)) (← mm256LoaduPs pb (i + 16))
    let d3 := mm256SubPs (← mm256LoaduPs pa (i + 24)) (← mm256LoaduPs pb (i + 24))
    return ⟨mm256FmaddPs d0 d0 acc.acc0, mm256FmaddPs d1 d1 acc.acc1,
      mm256FmaddPs d2 d2 acc.acc2, mm256FmaddPs d3 d3 acc.acc3⟩)
    ⟨mm256SetzeroPs, mm256SetzeroPs, mm256SetzeroPs, mm256SetzeroPs⟩
  let i := strideEnd 32 0 n
  let acc0 ← strides 8 i n (fun acc0 i => do
    let d := mm256SubPs (← mm256LoaduPs pa i) (← mm256LoaduPs pb i)
    return mm256FmaddPs d d acc0) acc.acc0
  let i := strideEnd 8 i n
  let sum := hsum256 (mm256AddPs (mm256AddPs acc0 acc.acc1) (mm256AddPs acc.acc2 acc.acc3))
  strides 1 i n (fun sum i => do
    let d := (← deref pa i) - (← deref pb i)
    return sum + d * d) sum

def dot (a b : List α) : Reading α := do
  let n := a.length
  let pa := Pointer.mk .a a
  let pb := Pointer.mk .b b
  let acc ← strides 32 0 n (fun (acc : Accumulators α) i => do
    let acc0 := mm256FmaddPs (← mm256LoaduPs pa i) (← mm256LoaduPs pb i) acc.acc0
    let acc1 := mm256FmaddPs (← mm256LoaduPs pa (i + 8)) (← mm256LoaduPs pb (i + 8)) acc.acc1
    let acc2 := mm256FmaddPs (← mm256LoaduPs pa (i + 16)) (← mm256LoaduPs pb (i + 16)) acc.acc2
    let acc3 := mm256FmaddPs (← mm256LoaduPs pa (i + 24)) (← mm256LoaduPs pb (i + 24)) acc.acc3
    return ⟨acc0, acc1, acc2, acc3⟩)
    ⟨mm256SetzeroPs, mm256SetzeroPs, mm256SetzeroPs, mm256SetzeroPs⟩
  let i := strideEnd 32 0 n
  let acc0 ← strides 8 i n (fun acc0 i => do
    return mm256FmaddPs (← mm256LoaduPs pa i) (← mm256LoaduPs pb i) acc0) acc.acc0
  let i := strideEnd 8 i n
  let sum := hsum256 (mm256AddPs (mm256AddPs acc0 acc.acc1) (mm256AddPs acc.acc2 acc.acc3))
  strides 1 i n (fun sum i => do
    return sum + (← deref pa i) * (← deref pb i)) sum

/-- The sums `ab`, `aa` and `bb`, each in lanes or as one number. -/
structure Triple (β : Type) where
  ab : β
  aa : β
  bb : β

def cosineSums (a b : List α) : Reading (α × α × α) := do
  let n := a.length
  let pa := Pointer.mk .a a
  let pb := Pointer.mk .b b
  let zeros : Triple (M256 α) := ⟨mm256SetzeroPs, mm256SetzeroPs, mm256SetzeroPs⟩
  let acc ← strides 16 0 n (fun ((acc0, acc1) : Triple (M256 α) × Triple (M256 α)) i => do
    let x0 ← mm256LoaduPs pa i
    let y0 ← mm256LoaduPs pb i
    let x1 ← mm256LoaduPs pa (i + 8)
    let y1 ← mm256LoaduPs pb (i + 8)
    return (⟨mm256FmaddPs x0 y0 acc0.ab, mm256FmaddPs x0 x0 acc0.aa, mm256FmaddPs y0 y0 acc0.bb⟩,
      ⟨mm256FmaddPs x1 y1 acc1.ab, mm256FmaddPs x1 x1 acc1.aa, mm256FmaddPs y1 y1 acc1.bb⟩))
    (zeros, zeros)
  let i := strideEnd 16 0 n
  let acc0 ← strides 8 i n (fun (acc0 : Triple (M256 α)) i => do
    let x ← mm256LoaduPs pa i
    let y ← mm256LoaduPs pb i
    return ⟨mm256FmaddPs x y acc0.ab, mm256FmaddPs x x acc0.aa, mm256FmaddPs y y acc0.bb⟩) acc.1
  let i := strideEnd 8 i n
  let ab := hsum256 (mm256AddPs acc0.ab acc.2.ab)
  let aa := hsum256 (mm256AddPs acc0.aa acc.2.aa)
  let bb := hsum256 (mm256AddPs acc0.bb acc.2.bb)
  strides 1 i n (fun ((ab, aa, bb) : α × α × α) i => do
    let x ← deref pa i
    let y ← deref pb i
    return (ab + x * y, aa + x * x, bb + y * y)) (ab, aa, bb)

def cosine (sqrt : α → α) (a b : List α) : Reading α := do
  return Scalar.cosineOf sqrt (← cosineSums a b)

end Kernels

/-! ### One turn -/

section Lanes

variable [CommRing α]

def lanes (v : M256 α) : α := ∑ lane, v lane

theorem lanes_setzero : lanes (mm256SetzeroPs : M256 α) = 0 := Finset.sum_const_zero

theorem lanes_add (x y : M256 α) : lanes (mm256AddPs x y) = lanes x + lanes y :=
  Finset.sum_add_distrib

theorem lanes_fmadd (x y acc : M256 α) :
    lanes (mm256FmaddPs x y acc) = lanes acc + ∑ lane, x lane * y lane := by
  unfold lanes mm256FmaddPs
  rw [Finset.sum_add_distrib, add_comm]

theorem hsum256_eq [DecidableEq α] (v : M256 α) : hsum256 v = lanes v := by
  change v 0 + v 4 + (v 2 + v 6) + (v 1 + v 5 + (v 3 + v 7)) = lanes v
  unfold lanes
  rw [Fin.sum_univ_eight]
  ring

end Lanes

section Below

variable {β : Type} [AddCommGroup β]

/-- The sum of the terms below `i`. -/
def below (term : Nat → β) (i : Nat) : β := ∑ j ∈ Finset.range i, term j

theorem below_one (term : Nat → β) (i : Nat) : below term (i + 1) = below term i + term i :=
  Finset.sum_range_succ term i

theorem below_eight (term : Nat → β) (i : Nat) :
    below term (i + 8) = below term i + ∑ lane : Fin 8, term (i + lane) := by
  unfold below
  rw [Finset.sum_range_add]
  exact congrArg _ (Finset.sum_range fun lane => term (i + lane))

end Below

/-- Every element below `i` of both vectors has been read once, and no other. -/
def Seen (i : Nat) (log : Log) : Prop := ∀ side j, log.count (side, j) = if j < i then 1 else 0

def octetLog (i : Nat) : Log :=
  (List.range' i 8).map (Side.a, ·) ++ (List.range' i 8).map (Side.b, ·)

theorem count_octet (side : Side) (i : Nat) (other : Side) (j : Nat) :
    ((List.range' i 8).map (side, ·)).count (other, j) =
      if side = other ∧ i ≤ j ∧ j < i + 8 then 1 else 0 := by
  by_cases same : side = other
  · subst same
    rw [List.count_map_of_injective _ _ fun x y equal => (Prod.mk.inj equal).2,
      List.Nodup.count List.nodup_range']
    simp only [List.mem_range'_1, true_and]
  · rw [if_neg fun both => same both.1]
    apply List.count_eq_zero_of_not_mem
    intro member
    obtain ⟨index, _, equal⟩ := List.mem_map.mp member
    exact same (Prod.mk.inj equal).1

theorem Seen.octet {i : Nat} {log : Log} (seen : Seen i log) : Seen (i + 8) (log ++ octetLog i) := by
  intro side j
  unfold octetLog
  rw [List.count_append, List.count_append, seen side j, count_octet, count_octet]
  cases side <;> simp only [reduceCtorEq, true_and, false_and, if_false] <;> split_ifs <;> omega

theorem Seen.one {i : Nat} {log : Log} (seen : Seen i log) :
    Seen (i + 1) (log ++ [(Side.a, i), (Side.b, i)]) := by
  intro side j
  rw [List.count_append, seen side j, List.count_cons, List.count_singleton]
  cases side <;> simp only [beq_iff_eq, Prod.mk.injEq, reduceCtorEq, true_and, false_and,
    if_false] <;> split_ifs <;> omega

section Loads

variable {β : Type} [Zero α] {a b : List α} {i : Nat}

def octet (row : List α) (i : Nat) : M256 α := fun lane => row.getD (i + lane) 0

theorem loads_run (same : a.length = b.length) (inside : i + 8 ≤ a.length) (log : Log)
    (next : M256 α → M256 α → Reading β) :
    (mm256LoaduPs ⟨.a, a⟩ i >>= fun x => mm256LoaduPs ⟨.b, b⟩ i >>= fun y => next x y).run log =
      (next (octet a i) (octet b i)).run (log ++ octetLog i) := by
  have loadA : mm256LoaduPs ⟨.a, a⟩ i log =
      some (octet a i, log ++ (List.range' i 8).map (Side.a, ·)) := if_pos inside
  have loadB (log : Log) : mm256LoaduPs ⟨.b, b⟩ i log =
      some (octet b i, log ++ (List.range' i 8).map (Side.b, ·)) := if_pos (same ▸ inside)
  rw [StateT.run_bind]
  change mm256LoaduPs ⟨.a, a⟩ i log >>= _ = _
  rw [loadA]
  change mm256LoaduPs ⟨.b, b⟩ i _ >>= _ = _
  rw [loadB, List.append_assoc]
  rfl

theorem derefs_run (same : a.length = b.length) (inside : i + 1 ≤ a.length) (log : Log)
    (next : α → α → Reading β) :
    (deref ⟨.a, a⟩ i >>= fun x => deref ⟨.b, b⟩ i >>= fun y => next x y).run log =
      (next (a.getD i 0) (b.getD i 0)).run (log ++ [(Side.a, i), (Side.b, i)]) := by
  have loadA : deref ⟨.a, a⟩ i log = some (a.getD i 0, log ++ [(Side.a, i)]) := if_pos inside
  have loadB (log : Log) : deref ⟨.b, b⟩ i log = some (b.getD i 0, log ++ [(Side.b, i)]) :=
    if_pos (same ▸ inside)
  rw [StateT.run_bind]
  change deref ⟨.a, a⟩ i log >>= _ = _
  rw [loadA]
  change deref ⟨.b, b⟩ i _ >>= _ = _
  rw [loadB, List.append_assoc]
  rfl

end Loads

/-! ### Whole kernels -/

/-- The kernel stays inside both vectors, reads each of their elements once, and its value is the
one of the scalar kernel. -/
def Agrees {β : Type} (n : Nat) (simd : Reading β) (scalar : Option β) : Prop :=
  ∃ value log, simd.run [] = some (value, log) ∧ scalar = some value ∧ Seen n log

section Sweep

variable {β σ τ : Type} [AddCommGroup β] {n : Nat}

/-- The three loops of a kernel, one after the other; `finish` is what the accumulators hold. Each
turn adds the terms that it has read. -/
theorem sweep {stride : Nat} (positive : 0 < stride) (term : Nat → β)
    {wide : σ → Nat → Reading σ} {narrow : τ → Nat → Reading τ} {single : β → Nat → Reading β}
    {start : σ} (front : σ → τ) (finish : σ → τ → β) (zero : finish start (front start) = 0)
    (wideTurn : ∀ i acc log, Seen i log → i + stride ≤ n → ∃ next after,
      (wide acc i).run log = some (next, after) ∧ Seen (i + stride) after ∧
        finish next (front next) + below term i =
          finish acc (front acc) + below term (i + stride))
    (narrowTurn : ∀ i acc acc0 log, Seen i log → i + 8 ≤ n → ∃ next after,
      (narrow acc0 i).run log = some (next, after) ∧ Seen (i + 8) after ∧
        finish acc next + below term i = finish acc acc0 + below term (i + 8))
    (singleTurn : ∀ i sum log, Seen i log → i + 1 ≤ n → ∃ after,
      (single sum i).run log = some (sum + term i, after) ∧ Seen (i + 1) after) :
    ∃ log, (do
      let acc ← strides stride 0 n wide start
      let acc0 ← strides 8 (strideEnd stride 0 n) n narrow (front acc)
      strides 1 (strideEnd 8 (strideEnd stride 0 n) n) n single
        (finish acc acc0) : Reading β).run [] = some (below term n, log) ∧ Seen n log := by
  have carried {before after low high : β} (moved : after + low = before + high)
      (kept : before = low) : after = high := by
    rw [kept, add_comm] at moved
    exact add_left_cancel moved
  have ⟨acc, wideLog, ranWide, seenWide, sumWide⟩ := strides_log_rule
    (fun i acc log => Seen i log ∧ finish acc (front acc) = below term i)
    wide n positive (by
      intro i acc log kept inside
      have ⟨next, after, ran, seen, sum⟩ := wideTurn i acc log kept.1 inside
      exact ⟨next, after, ran, seen, carried sum kept.2⟩)
    [] (⟨fun side j => rfl, zero⟩ : Seen 0 [] ∧ finish start (front start) = 0)
  have ⟨acc0, narrowLog, ranNarrow, seenNarrow, sumNarrow⟩ := strides_log_rule
    (fun i acc0 log => Seen i log ∧ finish acc acc0 = below term i)
    narrow n (by decide : 0 < 8) (by
      intro i acc0 log kept inside
      have ⟨next, after, ran, seen, sum⟩ := narrowTurn i acc acc0 log kept.1 inside
      exact ⟨next, after, ran, seen, carried sum kept.2⟩)
    wideLog ⟨seenWide, sumWide⟩
  have ⟨sum, log, ranSingle, seenSingle, sumSingle⟩ := strides_log_rule
    (fun i sum log => Seen i log ∧ sum = below term i)
    single n (by decide : 0 < 1) (by
      intro i sum log kept inside
      have ⟨after, ran, seen⟩ := singleTurn i sum log kept.1 inside
      exact ⟨_, after, ran, seen, by rw [below_one, kept.2]⟩)
    narrowLog ⟨seenNarrow, sumNarrow⟩
  have ends : strideEnd 8 (strideEnd stride 0 n) n ≤ n :=
    strideEnd_le (strideEnd_le (Nat.zero_le n))
  rw [strideEnd_one ends] at seenSingle sumSingle
  refine ⟨log, ?_, seenSingle⟩
  simp only [StateT.run_bind, ranWide, ranNarrow, Option.bind_eq_bind, Option.bind_some]
  rw [← sumSingle]
  exact ranSingle

end Sweep

section Agreement

variable [Field α] [DecidableEq α] {a b : List α}

theorem lanes_accumulators (acc : Accumulators α) (acc0 : M256 α) :
    hsum256 (mm256AddPs (mm256AddPs acc0 acc.acc1) (mm256AddPs acc.acc2 acc.acc3)) =
      lanes acc0 + lanes acc.acc1 + (lanes acc.acc2 + lanes acc.acc3) := by
  rw [hsum256_eq, lanes_add, lanes_add, lanes_add]

theorem l2Squared_run (same : a.length = b.length) : ∃ log, (l2Squared a b).run [] =
    some (below (fun j => (a.getD j 0 - b.getD j 0) * (a.getD j 0 - b.getD j 0)) a.length, log) ∧
      Seen a.length log := by
  unfold l2Squared
  dsimp only
  apply sweep (by decide : 0 < 32) _ Accumulators.acc0
  · rw [lanes_accumulators]
    simp only [lanes_setzero, add_zero]
  · intro i acc log seen inside
    rw [loads_run same (by omega), loads_run same (by omega), loads_run same (by omega),
      loads_run same (by omega)]
    refine ⟨_, _, rfl, seen.octet.octet.octet.octet, ?_⟩
    rw [show i + 32 = i + 8 + 8 + 8 + 8 from rfl, below_eight, below_eight, below_eight, below_eight,
      lanes_accumulators, lanes_accumulators]
    simp only [lanes_fmadd]
    unfold mm256SubPs octet
    ring
  · intro i acc acc0 log seen inside
    rw [loads_run same inside]
    refine ⟨_, _, rfl, seen.octet, ?_⟩
    rw [below_eight, lanes_accumulators, lanes_accumulators, lanes_fmadd]
    unfold mm256SubPs octet
    ring
  · intro i sum log seen inside
    rw [derefs_run same inside]
    exact ⟨_, rfl, seen.one⟩

theorem dot_run (same : a.length = b.length) : ∃ log, (dot a b).run [] =
    some (below (fun j => a.getD j 0 * b.getD j 0) a.length, log) ∧ Seen a.length log := by
  unfold dot
  dsimp only
  apply sweep (by decide : 0 < 32) _ Accumulators.acc0
  · rw [lanes_accumulators]
    simp only [lanes_setzero, add_zero]
  · intro i acc log seen inside
    rw [loads_run same (by omega), loads_run same (by omega), loads_run same (by omega),
      loads_run same (by omega)]
    refine ⟨_, _, rfl, seen.octet.octet.octet.octet, ?_⟩
    rw [show i + 32 = i + 8 + 8 + 8 + 8 from rfl, below_eight, below_eight, below_eight, below_eight,
      lanes_accumulators, lanes_accumulators]
    simp only [lanes_fmadd]
    unfold octet
    ring
  · intro i acc acc0 log seen inside
    rw [loads_run same inside]
    refine ⟨_, _, rfl, seen.octet, ?_⟩
    rw [below_eight, lanes_accumulators, lanes_accumulators, lanes_fmadd]
    unfold octet
    ring
  · intro i sum log seen inside
    rw [derefs_run same inside]
    exact ⟨_, rfl, seen.one⟩

/-- The three terms that an index adds to the sums of `cosine`. -/
def cosineTerm (a b : List α) (j : Nat) : α × α × α :=
  (a.getD j 0 * b.getD j 0, a.getD j 0 * a.getD j 0, b.getD j 0 * b.getD j 0)

theorem cosineSums_run (same : a.length = b.length) : ∃ log, (cosineSums a b).run [] =
    some (below (cosineTerm a b) a.length, log) ∧ Seen a.length log := by
  unfold cosineSums
  dsimp only
  apply sweep (by decide : 0 < 16) (cosineTerm a b)
    (fun acc : Triple (M256 α) × Triple (M256 α) => acc.1)
    (fun acc (acc0 : Triple (M256 α)) => (hsum256 (mm256AddPs acc0.ab acc.2.ab),
      hsum256 (mm256AddPs acc0.aa acc.2.aa), hsum256 (mm256AddPs acc0.bb acc.2.bb)))
  · simp only [hsum256_eq, lanes_add, lanes_setzero, add_zero]
    rfl
  · intro i acc log seen inside
    rw [loads_run same (by omega), loads_run same (by omega)]
    refine ⟨_, _, rfl, seen.octet.octet, ?_⟩
    rw [show i + 16 = i + 8 + 8 from rfl, below_eight, below_eight]
    simp only [hsum256_eq, lanes_add, lanes_fmadd]
    unfold octet cosineTerm
    apply Prod.ext_iff.mpr ⟨?_, Prod.ext_iff.mpr ⟨?_, ?_⟩⟩ <;>
      simp only [Prod.fst_add, Prod.snd_add, Prod.fst_sum, Prod.snd_sum] <;> ring
  · intro i acc acc0 log seen inside
    rw [loads_run same inside]
    refine ⟨_, _, rfl, seen.octet, ?_⟩
    rw [below_eight]
    simp only [hsum256_eq, lanes_add, lanes_fmadd]
    unfold octet cosineTerm
    apply Prod.ext_iff.mpr ⟨?_, Prod.ext_iff.mpr ⟨?_, ?_⟩⟩ <;>
      simp only [Prod.fst_add, Prod.snd_add, Prod.fst_sum, Prod.snd_sum] <;> ring
  · intro i sum log seen inside
    rw [derefs_run same inside]
    exact ⟨_, rfl, seen.one⟩

theorem l2Squared_agrees (same : a.length = b.length) :
    Agrees a.length (l2Squared a b) (Scalar.l2Squared a b) := by
  have ⟨log, ran, seen⟩ := l2Squared_run same
  refine ⟨_, log, ran, ?_, seen⟩
  rw [Scalar.l2Squared_eq same, Scalar.distance, Scalar.total_eq_sum _ same 0]
  rfl

theorem dot_agrees (same : a.length = b.length) :
    Agrees a.length (dot a b) (Scalar.dot a b) := by
  have ⟨log, ran, seen⟩ := dot_run same
  refine ⟨_, log, ran, ?_, seen⟩
  rw [Scalar.dot_eq same, Scalar.total_eq_sum _ same 0]
  rfl

theorem cosineSums_agrees (same : a.length = b.length) :
    Agrees a.length (cosineSums a b) (Scalar.cosineSums a b) := by
  have ⟨log, ran, seen⟩ := cosineSums_run same
  refine ⟨_, log, ran, ?_, seen⟩
  rw [Scalar.cosineSums_eq same, Scalar.total_eq_sum _ same 0]
  rfl

theorem cosine_agrees (sqrt : α → α) (same : a.length = b.length) :
    Agrees a.length (cosine sqrt a b) (Scalar.cosine sqrt a b) := by
  have ⟨sums, log, ran, scalar, seen⟩ := cosineSums_agrees same
  refine ⟨Scalar.cosineOf sqrt sums, log, ?_, ?_, seen⟩
  · unfold cosine
    rw [StateT.run_bind, ran]
    rfl
  · unfold Scalar.cosine
    rw [scalar]
    rfl

/-- On vectors of one length every kernel stays inside them, takes each element in once, and
computes what its scalar counterpart computes. -/
theorem kernels_agree (sqrt : α → α) (same : a.length = b.length) :
    Agrees a.length (l2Squared a b) (Scalar.l2Squared a b) ∧
      Agrees a.length (dot a b) (Scalar.dot a b) ∧
      Agrees a.length (cosineSums a b) (Scalar.cosineSums a b) ∧
      Agrees a.length (cosine sqrt a b) (Scalar.cosine sqrt a b) :=
  ⟨l2Squared_agrees same, dot_agrees same, cosineSums_agrees same, cosine_agrees sqrt same⟩

def root (x : ℚ) : ℚ := Nat.sqrt x.num.toNat

/-- The numbers from 0 to 40 and back, which go through every loop. -/
theorem kernels_agree_mixed :
    let a : List ℚ := (List.range 41).map fun k => (k : ℚ)
    Agrees 41 (l2Squared a a.reverse) (Scalar.l2Squared a a.reverse) ∧
      Agrees 41 (dot a a.reverse) (Scalar.dot a a.reverse) ∧
      Agrees 41 (cosineSums a a.reverse) (some (10660, 22140, 22140)) ∧
      root (22140 * 22140) = 22140 ∧ Agrees 41 (cosine root a a.reverse) (some (14 / 27)) := by
  intro a
  have sums : Scalar.cosineSums a a.reverse = some (10660, 22140, 22140) := by decide +kernel
  have value : Scalar.cosine root a a.reverse = some (14 / 27) := by decide +kernel
  have same : a.length = a.reverse.length := by rw [List.length_reverse]
  obtain ⟨l2, inner, all, angle⟩ := kernels_agree root same
  rw [sums] at all
  rw [value] at angle
  exact ⟨l2, inner, all, by decide +kernel, angle⟩

end Agreement

end Avx2

/-! ### Dispatch -/

namespace Metric

variable {α : Type}

section Kernel

variable [Zero α] [One α] [Add α] [Sub α] [Mul α] [Div α] [Neg α] [DecidableEq α]

def dotDistanceScalar (a b : List α) : Option α := (Scalar.dot a b).map Neg.neg

def guarded (simd : Avx2.Reading α) (a b : List α) : Option α :=
  if a.length = b.length then (simd.run []).map Prod.fst else none

def l2Avx2 (a b : List α) : Option α := guarded (Avx2.l2Squared a b) a b

def dotDistanceAvx2 (a b : List α) : Option α := (guarded (Avx2.dot a b) a b).map Neg.neg

def cosineAvx2 (sqrt : α → α) (a b : List α) : Option α := guarded (Avx2.cosine sqrt a b) a b

def kernel (haveAvx2 : Bool) (sqrt : α → α) : Metric → List α → List α → Option α
  | .l2 => if haveAvx2 then l2Avx2 else Scalar.l2Squared
  | .dot => if haveAvx2 then dotDistanceAvx2 else dotDistanceScalar
  | .cosine => if haveAvx2 then cosineAvx2 sqrt else Scalar.cosine sqrt

end Kernel

theorem guarded_eq [Zero α] {simd : Avx2.Reading α} {scalar : Option α} {a b : List α}
    (agrees : a.length = b.length → Avx2.Agrees a.length simd scalar)
    (asserts : a.length ≠ b.length → scalar = none) : guarded simd a b = scalar := by
  unfold guarded
  by_cases same : a.length = b.length
  · have ⟨value, log, ran, given, _⟩ := agrees same
    rw [if_pos same, ran, given]
    rfl
  · rw [if_neg same, asserts same]

theorem kernel_eq [Field α] [DecidableEq α] (haveAvx2 : Bool) (sqrt : α → α) (metric : Metric)
    (a b : List α) : kernel haveAvx2 sqrt metric a b = kernel false sqrt metric a b := by
  cases haveAvx2 with
  | false => rfl
  | true =>
      cases metric with
      | l2 => exact guarded_eq Avx2.l2Squared_agrees fun differ => if_neg differ
      | dot =>
          exact congrArg (Option.map Neg.neg)
            (guarded_eq Avx2.dot_agrees fun differ => if_neg differ)
      | cosine =>
          apply guarded_eq (Avx2.cosine_agrees sqrt)
          intro differ
          unfold Scalar.cosine Scalar.cosineSums Scalar.asserted
          rw [if_neg differ]
          rfl

end Metric

end Vektordb
