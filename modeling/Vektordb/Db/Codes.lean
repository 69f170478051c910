import Vektordb.Codec.Window
import Vektordb.Db.World

/-!
The codes of the rows, side by side in one byte string. A code is written over the place of its id,
after zeros have made room for it, and this leaves the codes of the other ids as they were.
-/

namespace Vektordb

open Interaction LittleEndian

namespace World

theorem resize_length (codes : Bytes) (len : Nat) : (resize codes len).length = len := by
  unfold resize
  rw [List.length_append, List.length_take, List.length_replicate]
  omega

theorem resize_getElem? {codes : Bytes} {len x : Nat} (inside : x < codes.length) (room : x < len) :
    (resize codes len)[x]? = codes[x]? := by
  unfold resize
  rw [List.getElem?_append_left (by rw [List.length_take]; omega), List.getElem?_take, if_pos room]

theorem overwrite_length {codes code : Bytes} {start : Nat}
    (inside : start + code.length ≤ codes.length) :
    (overwrite codes start code).length = codes.length := by
  unfold overwrite
  rw [List.length_append, List.length_append, List.length_take, List.length_drop]
  omega

theorem overwrite_getElem? {codes code : Bytes} {start x : Nat}
    (inside : start + code.length ≤ codes.length) (outside : x < start ∨ start + code.length ≤ x) :
    (overwrite codes start code)[x]? = codes[x]? := by
  have front : (codes.take start).length = start := by
    rw [List.length_take]
    omega
  unfold overwrite
  rcases outside with before | after
  · rw [List.getElem?_append_left (front.symm ▸ before), List.getElem?_take, if_pos before]
  · rw [List.getElem?_append_right (by omega), List.getElem?_append_right (by omega),
      List.getElem?_drop, front]
    congr 1
    omega

theorem overwrite_same {codes code : Bytes} {start x : Nat}
    (inside : start + code.length ≤ codes.length) (below : x < code.length) :
    (overwrite codes start code)[start + x]? = code[x]? := by
  have front : (codes.take start).length = start := by
    rw [List.length_take]
    omega
  unfold overwrite
  rw [List.getElem?_append_right (by omega), front, Nat.add_sub_cancel_left,
    List.getElem?_append_left below]

end World

namespace Db

/-- The code of an id is there and is the encoding of a row. -/
def HasCode (env : Env) (state : PqState) (id : Nat) (row : Row) : Prop :=
  id * state.pq.m + state.pq.m ≤ state.codes.length ∧
    window state.codes (id * state.pq.m) state.pq.m = state.pq.encode env.pq row

/-- The codes end with a row that has one. -/
structure Coded (env : Env) (rows : Nat → Row) (count : Nat) (uncoded : Nat → Prop)
    (state : PqState) : Prop where
  length : ∃ top ≤ count, state.codes.length ≤ top * state.pq.m ∧
    (top = 0 ∨ ¬ uncoded (top - 1))
  codes : ∀ x < count, ¬ uncoded x → HasCode env state x (rows x)

variable {env : Env} {state : PqState} {rows : Nat → Row} {count : Nat} {uncoded : Nat → Prop}

theorem Coded.exact_length (coded : Coded env rows count uncoded state)
    (complete : ∀ x, ¬ uncoded x) : state.codes.length = count * state.pq.m := by
  obtain ⟨top, le, short, -⟩ := coded.length
  apply le_antisymm
  · exact short.trans (Nat.mul_le_mul_right _ le)
  · by_cases empty : count = 0
    · rw [empty, Nat.zero_mul]
      exact Nat.zero_le _
    · have last := (coded.codes (count - 1) (by omega) (complete _)).1
      rwa [← Nat.succ_mul, Nat.succ_eq_add_one, Nat.sub_add_cancel (by omega)] at last

theorem Coded.exact (coded : Coded env rows count uncoded state) (complete : ∀ x, ¬ uncoded x) :
    state.codes = (List.range count).flatMap fun id => state.pq.encode env.pq (rows id) := by
  have widths := fun id => ProductQuantizer.encode_length env.pq state.pq (rows id)
  apply eq_of_windows (coded.exact_length complete) (flatMap_length widths)
  intro k below
  rw [window_flatMap widths below]
  exact (coded.codes k below (complete k)).2

theorem HasCode.congr {codes : Bytes} {id : Nat} {row : Row} (has : HasCode env state id row)
    (longer : state.codes.length ≤ codes.length)
    (same : ∀ x, id * state.pq.m ≤ x → x < id * state.pq.m + state.pq.m →
      codes[x]? = state.codes[x]?) :
    HasCode env { state with codes := codes } id row := by
  refine ⟨has.1.trans longer, ?_⟩
  exact (window_congr same).trans has.2

theorem coded_all (env : Env) (rows : Nat → Row) (count : Nat) (pq : ProductQuantizer)
    (complete : ∀ x, ¬ uncoded x) : Coded env rows count uncoded
      ⟨pq, (List.range count).flatMap fun id => pq.encode env.pq (rows id)⟩ := by
  have widths := fun id => ProductQuantizer.encode_length env.pq pq (rows id)
  have length := flatMap_length (n := count) widths
  constructor
  case length => exact ⟨count, le_rfl, length.le, .inr (complete _)⟩
  case codes =>
      intro x below _
      refine ⟨?_, window_flatMap widths below⟩
      change x * pq.m + pq.m ≤ List.length _
      rw [length, ← Nat.succ_mul]
      exact Nat.mul_le_mul_right pq.m below

theorem apart_of_ne {m id x at_ : Nat} (different : x ≠ id) (low : x * m ≤ at_)
    (high : at_ < x * m + m) : at_ < id * m ∨ id * m + m ≤ at_ := by
  rcases Nat.lt_or_gt_of_ne different with less | more
  · have step := Nat.mul_le_mul_right m less
    rw [Nat.succ_eq_add_one, Nat.succ_mul] at step
    exact .inl (high.trans_le step)
  · have step := Nat.mul_le_mul_right m more
    rw [Nat.succ_eq_add_one, Nat.succ_mul] at step
    exact .inr (step.trans low)

/-- The codes after `insert` has written one. -/
def withCode (env : Env) (state : PqState) (id : Nat) (vector : Row) : Bytes :=
  World.overwrite (if state.codes.length < (id + 1) * state.pq.m then
    World.resize state.codes ((id + 1) * state.pq.m) else state.codes) (id * state.pq.m)
    (state.pq.encode env.pq vector)

theorem Coded.withCode (coded : Coded env rows count uncoded state) {id : Nat} (below : id < count) :
    Coded env rows count (fun x => x ≠ id ∧ uncoded x)
      { state with codes := Db.withCode env state id (rows id) } := by
  obtain ⟨pq, codes⟩ := state
  have size := ProductQuantizer.encode_length env.pq pq (rows id)
  unfold Db.withCode
  dsimp only
  generalize wide : (if codes.length < (id + 1) * pq.m then
    World.resize codes ((id + 1) * pq.m) else codes) = room
  have length : room.length = max codes.length ((id + 1) * pq.m) := by
    subst wide
    split
    · rw [World.resize_length]
      omega
    · omega
  have old : ∀ x < codes.length, room[x]? = codes[x]? := by
    intro x inside
    subst wide
    split
    · exact World.resize_getElem? inside (by omega)
    · rfl
  have inside : id * pq.m + (pq.encode env.pq (rows id)).length ≤ room.length := by
    rw [size, length, ← Nat.succ_mul]
    exact le_max_right _ _
  have after := World.overwrite_length inside
  constructor
  case length =>
      obtain ⟨top, le, short, ends⟩ := coded.length
      change ∃ top ≤ count, (World.overwrite room (id * pq.m) _).length ≤ top * pq.m ∧ _
      rw [after, length]
      by_cases low : top ≤ id
      · refine ⟨id + 1, below, max_le (short.trans ?_) le_rfl, .inr ?_⟩
        · exact Nat.mul_le_mul_right _ (by omega)
        · exact fun uncoded => uncoded.1 (Nat.add_sub_cancel id 1)
      · refine ⟨top, le, max_le short (Nat.mul_le_mul_right _ (by omega)), .inr ?_⟩
        exact fun uncoded => ends.elim (by omega) fun coded => coded uncoded.2
  case codes =>
      intro x inStore settled
      by_cases same : x = id
      · subst same
        refine ⟨?_, ?_⟩
        · change x * pq.m + pq.m ≤ (World.overwrite room (x * pq.m) _).length
          rw [after]
          rwa [size] at inside
        · change window (World.overwrite room (x * pq.m) _) (x * pq.m) pq.m = _
          apply List.ext_getElem?
          intro y
          rw [window_getElem?]
          by_cases short : y < pq.m
          · rw [if_pos short, World.overwrite_same inside (size.symm ▸ short)]
          · rw [if_neg short, List.getElem?_eq_none (by rw [size]; omega)]
      · have has := coded.codes x inStore fun uncoded => settled ⟨same, uncoded⟩
        apply has.congr
        · change codes.length ≤ (World.overwrite room (id * pq.m) _).length
          rw [after, length]
          exact le_max_left _ _
        · intro y low high
          have whole : x * pq.m + pq.m ≤ codes.length := has.1
          have apart := apart_of_ne same low high
          rw [World.overwrite_getElem? inside (by rwa [size])]
          exact old y (high.trans_le whole)

/-- The codes after a batch has written its own. -/
def withBatch (env : Env) (state : PqState) (rows : Nat → Row) (base n : Nat) : Bytes :=
  World.overwrite (World.resize state.codes ((base + n) * state.pq.m)) (base * state.pq.m)
    ((List.range n).flatMap fun k => state.pq.encode env.pq (rows (base + k)))

theorem Coded.withBatch {base n : Nat} (coded : Coded env rows (base + n) uncoded state)
    (others : ∀ x < base, ¬ uncoded x) :
    Coded env rows (base + n) (fun x => ¬ (base ≤ x ∧ x < base + n) ∧ uncoded x)
      { state with codes := Db.withBatch env state rows base n } := by
  obtain ⟨pq, codes⟩ := state
  have sizes := fun k => ProductQuantizer.encode_length env.pq pq (rows (base + k))
  have size := flatMap_length (n := n) sizes
  unfold Db.withBatch
  dsimp only
  generalize isBatch : ((List.range n).flatMap fun k => pq.encode env.pq (rows (base + k))) = batch
    at size
  generalize wide : World.resize codes ((base + n) * pq.m) = room
  have length : room.length = (base + n) * pq.m := by
    rw [← wide, World.resize_length]
  have split : (base + n) * pq.m = base * pq.m + n * pq.m := Nat.add_mul ..
  have inside : base * pq.m + batch.length ≤ room.length := by
    rw [size, length, split]
  have after := World.overwrite_length inside
  have order : ∀ {x}, x < base + n → x * pq.m + pq.m ≤ (base + n) * pq.m := by
    intro x below
    rw [← Nat.succ_mul]
    exact Nat.mul_le_mul_right _ below
  constructor
  case length =>
      refine ⟨base + n, le_rfl, ?_, ?_⟩
      · change (World.overwrite room (base * pq.m) batch).length ≤ (base + n) * pq.m
        rw [after, length]
      · by_cases empty : base + n = 0
        · exact .inl empty
        · right
          rintro ⟨outside, uncoded⟩
          exact others _ (by omega) uncoded
  case codes =>
      intro x inStore settled
      by_cases inBatch : base ≤ x
      · obtain ⟨k, rfl⟩ := Nat.exists_eq_add_of_le inBatch
        have below : k < n := by omega
        have room' : k * pq.m + pq.m ≤ n * pq.m := by
          rw [← Nat.succ_mul]
          exact Nat.mul_le_mul_right _ below
        refine ⟨?_, ?_⟩
        · change (base + k) * pq.m + pq.m ≤ (World.overwrite room (base * pq.m) batch).length
          rw [after, length]
          exact order inStore
        · change window (World.overwrite room (base * pq.m) batch) ((base + k) * pq.m) pq.m = _
          have piece := window_flatMap sizes below
          rw [isBatch] at piece
          rw [← piece]
          apply List.ext_getElem?
          intro y
          rw [window_getElem?, window_getElem?]
          by_cases short : y < pq.m
          · rw [if_pos short, if_pos short, Nat.add_mul, Nat.add_assoc,
              World.overwrite_same inside (by rw [size]; omega)]
          · rw [if_neg short, if_neg short]
      · have has := coded.codes x inStore (others x (by omega))
        have whole : x * pq.m + pq.m ≤ codes.length := has.1
        have before : x * pq.m + pq.m ≤ base * pq.m := by
          rw [← Nat.succ_mul]
          exact Nat.mul_le_mul_right _ (by omega)
        have reach := order inStore
        refine ⟨?_, ?_⟩
        · change x * pq.m + pq.m ≤ (World.overwrite room (base * pq.m) batch).length
          rw [after, length]
          exact reach
        · refine Eq.trans (window_congr ?_) has.2
          intro y _ high
          change y < x * pq.m + pq.m at high
          change (World.overwrite room (base * pq.m) batch)[y]? = codes[y]?
          rw [World.overwrite_getElem? inside (.inl (by omega)), ← wide]
          exact World.resize_getElem? (by omega) (by omega)

end Db

end Vektordb
