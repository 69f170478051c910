import Vektordb.Codec.LittleEndian

/-!
Values shared by every component: `f32` bit patterns with their comparisons, scored
candidates, bounded heaps of them, and the error type.
-/

namespace Vektordb

open LittleEndian

/-! ### Errors -/

inductive Error where
  | io (message : String)
  | corrupt (message : String)
  | dimensionMismatch (expected got : Nat)
  | idOutOfRange (id : Nat)
  | invalidArgument (message : String)
  deriving DecidableEq, Repr

abbrev Result (α : Type) := Except Error α

instance decidableEqExcept {ε α : Type} [DecidableEq ε] [DecidableEq α] : DecidableEq (Except ε α)
  | .ok left, .ok right => decidable_of_iff (left = right) (Except.ok.injEq left right).symm.to_iff
  | .error left, .error right =>
      decidable_of_iff (left = right) (Except.error.injEq left right).symm.to_iff
  | .ok _, .error _ => .isFalse nofun
  | .error _, .ok _ => .isFalse nofun

/-! ### Floating-point values -/

/-- An `f32`, known by its bit pattern. Arithmetic on it is a parameter of the model; the
comparisons below are those of the bit pattern. -/
structure F32 where
  bits : UInt32
  deriving DecidableEq, Repr

namespace F32

def magnitude (x : F32) : Nat := x.bits.toNat % 2 ^ 31

def negative (x : F32) : Bool := decide (2 ^ 31 ≤ x.bits.toNat)

def isNan (x : F32) : Bool := decide (0x7F800000 < x.magnitude)

def infinity : F32 := ⟨0x7F800000⟩

/-- The order of the non-NaN values; both zeros are mapped to 0. -/
def signed (x : F32) : Int := if x.negative then -x.magnitude else x.magnitude

/-- `x < y`, false as soon as one side is a NaN. -/
def lt (x y : F32) : Bool := !x.isNan && !y.isNan && decide (x.signed < y.signed)

def eq (x y : F32) : Bool := !x.isNan && !y.isNan && decide (x.signed = y.signed)

/-- The key by which `total_cmp` orders bit patterns. -/
def totalKey (x : F32) : Int := if x.negative then -1 - x.magnitude else x.magnitude

theorem totalKey_injective : Function.Injective totalKey := by
  intro x y same
  have boundX : x.bits.toNat < 2 ^ 32 := x.bits.toNat_lt
  have boundY : y.bits.toNat < 2 ^ 32 := y.bits.toNat_lt
  have sameBits : x.bits.toNat = y.bits.toNat := by
    simp only [totalKey, negative, magnitude, decide_eq_true_eq] at same
    split at same <;> split at same <;> omega
  obtain ⟨bits⟩ := x
  obtain ⟨other⟩ := y
  exact congrArg F32.mk (UInt32.toNat_inj.mp sameBits)

theorem eq_self (x : F32) : x.eq x = !x.isNan := by
  simp only [eq, decide_true, Bool.and_true, Bool.and_self]

theorem lt_signed {x y : F32} (less : x.lt y = true) : x.signed < y.signed := by
  simp only [lt, Bool.and_eq_true, decide_eq_true_eq] at less
  exact less.2

theorem lt_trans {x y z : F32} (first : x.lt y = true) (second : y.lt z = true) :
    x.lt z = true := by
  have less := (lt_signed first).trans (lt_signed second)
  simp only [lt, Bool.and_eq_true, decide_eq_true_eq] at first second ⊢
  exact ⟨⟨first.1.1, second.1.2⟩, less⟩

theorem signed_bound (x : F32) : -(2 ^ 31 : Int) ≤ x.signed ∧ x.signed ≤ 2 ^ 31 := by
  have bound : x.magnitude < 2 ^ 31 := Nat.mod_lt _ (by decide)
  unfold signed
  split <;> omega

def toLeBytes (x : F32) : Bytes := encode 4 x.bits.toNat

def ofNat (value : Nat) : F32 := ⟨UInt32.ofNat value⟩

@[simp] theorem ofNat_toNat (x : F32) : ofNat x.bits.toNat = x := by
  simp only [ofNat, UInt32.ofNat_toNat]

theorem toNat_lt (x : F32) : x.bits.toNat < 256 ^ 4 := x.bits.toNat_lt

end F32

abbrev Row := List F32

namespace Row

def eq (left right : Row) : Bool :=
  decide (left.length = right.length) && (left.zip right).all fun pair => pair.1.eq pair.2

def hasNan (row : Row) : Bool := row.any F32.isNan

theorem eq_self (row : Row) : row.eq row = !row.hasNan := by
  have pairs : (row.zip row).all (fun pair => pair.1.eq pair.2) = !row.any F32.isNan := by
    induction row with
    | nil => rfl
    | cons head tail ih =>
        simp only [List.zip_cons_cons, List.all_cons, List.any_cons, F32.eq_self, ih,
          Bool.not_or]
  simp only [eq, decide_true, Bool.true_and, pairs, hasNan]

def toLeBytes (row : Row) : Bytes := encodeAll 4 (row.map fun x => x.bits.toNat)

def ofLeBytes (dim : Nat) (bytes : Bytes) : Row := (decodeAll 4 dim bytes).map F32.ofNat

@[simp] theorem toLeBytes_length (row : Row) : (toLeBytes row).length = 4 * row.length := by
  simp only [toLeBytes, encodeAll_length, List.length_map]

@[simp] theorem ofLeBytes_length (dim : Nat) (bytes : Bytes) :
    (ofLeBytes dim bytes).length = dim := by
  simp only [ofLeBytes, List.length_map, decodeAll_length]

theorem ofLeBytes_append (row : Row) (rest : Bytes) :
    ofLeBytes row.length (toLeBytes row ++ rest) = row := by
  have small : ∀ value ∈ row.map (fun x => x.bits.toNat), value < 256 ^ 4 := by
    intro value member
    obtain ⟨x, -, rfl⟩ := List.mem_map.mp member
    exact x.toNat_lt
  have decoded := decodeAll_encodeAll small rest
  rw [List.length_map] at decoded
  simp only [ofLeBytes, toLeBytes, decoded, List.map_map]
  calc row.map (F32.ofNat ∘ fun x => x.bits.toNat) = row.map id :=
        List.map_congr_left fun x _ => F32.ofNat_toNat x
    _ = row := List.map_id row

theorem ofLeBytes_toLeBytes (row : Row) : ofLeBytes row.length (toLeBytes row) = row := by
  simpa only [List.append_nil] using ofLeBytes_append row []

theorem toLeBytes_ofLeBytes {dim : Nat} {bytes : Bytes} (enough : bytes.length = 4 * dim) :
    toLeBytes (ofLeBytes dim bytes) = bytes := by
  have same : (decodeAll 4 dim bytes).map (fun value => (F32.ofNat value).bits.toNat) =
      decodeAll 4 dim bytes := by
    calc (decodeAll 4 dim bytes).map (fun value => (F32.ofNat value).bits.toNat)
        = (decodeAll 4 dim bytes).map id := List.map_congr_left fun value member => by
          have small : value < 2 ^ 32 := decodeAll_lt member
          simp only [F32.ofNat, UInt32.toNat_ofNat', id]
          exact Nat.mod_eq_of_lt small
      _ = decodeAll 4 dim bytes := List.map_id _
  unfold toLeBytes ofLeBytes
  rw [List.map_map]
  exact (congrArg (encodeAll 4) same).trans (encodeAll_decodeAll enough)

end Row

/-! ### Scored candidates -/

structure Neighbor where
  id : Nat
  distance : F32
  deriving DecidableEq, Repr

namespace Neighbor

/-- Ordered by `total_cmp` of the distance, ties broken by id. -/
def key (n : Neighbor) : ℤ ×ₗ ℕ := toLex (n.distance.totalKey, n.id)

theorem key_injective : Function.Injective key := by
  intro left right same
  have pair := congrArg ofLex same
  simp only [key, ofLex_toLex, Prod.mk.injEq] at pair
  obtain ⟨id, distance⟩ := left
  obtain ⟨id', distance'⟩ := right
  obtain ⟨sameKey, sameId⟩ := pair
  cases F32.totalKey_injective sameKey
  cases sameId
  rfl

instance : LinearOrder Neighbor := LinearOrder.lift' key key_injective

end Neighbor

/-! ### Heaps

Two candidates that compare equal are equal, so what a binary heap yields is determined by
its contents; it is kept as the ascending list of them. -/

abbrev Heap := List Neighbor

namespace Heap

def push (heap : Heap) (item : Neighbor) : Heap := heap.orderedInsert (· ≤ ·) item

def worst (heap : Heap) : F32 := (heap.getLast?.map Neighbor.distance).getD F32.infinity

/-- Push into a heap bounded to `k` elements. -/
def pushBounded (heap : Heap) (item : Neighbor) (k : Nat) : Heap :=
  if heap.length < k then push heap item
  else match heap.getLast? with
    | some worst => if item < worst then push heap.dropLast item else heap
    | none => heap

theorem mem_push {heap : Heap} {item n : Neighbor} :
    n ∈ push heap item ↔ n = item ∨ n ∈ heap := by
  unfold push
  exact List.mem_orderedInsert (· ≤ ·)

@[simp] theorem length_push (heap : Heap) (item : Neighbor) :
    (push heap item).length = heap.length + 1 := by
  unfold push
  exact List.orderedInsert_length (· ≤ ·) heap item

theorem mem_pushBounded {heap : Heap} {item n : Neighbor} {k : Nat}
    (member : n ∈ pushBounded heap item k) : n = item ∨ n ∈ heap := by
  unfold pushBounded at member
  split at member
  · exact mem_push.mp member
  · split at member
    · split at member
      · exact (mem_push.mp member).imp id List.mem_of_mem_dropLast
      · exact .inr member
    · exact .inr member

theorem nodup_push {heap : Heap} {item : Neighbor}
    (distinct : (heap.map Neighbor.id).Nodup) (fresh : ∀ n ∈ heap, n.id ≠ item.id) :
    ((push heap item).map Neighbor.id).Nodup := by
  have reordered : (push heap item).Perm (item :: heap) := List.perm_orderedInsert _ item heap
  rw [(reordered.map Neighbor.id).nodup_iff, List.map_cons, List.nodup_cons]
  refine ⟨fun member => ?_, distinct⟩
  obtain ⟨n, present, same⟩ := List.mem_map.mp member
  exact fresh n present same

theorem nodup_pushBounded {heap : Heap} {item : Neighbor} {k : Nat}
    (distinct : (heap.map Neighbor.id).Nodup) (fresh : ∀ n ∈ heap, n.id ≠ item.id) :
    ((pushBounded heap item k).map Neighbor.id).Nodup := by
  unfold pushBounded
  split
  · exact nodup_push distinct fresh
  · split
    · split
      · refine nodup_push (distinct.sublist ?_) fun n member => fresh n (List.mem_of_mem_dropLast member)
        exact (List.dropLast_sublist heap).map Neighbor.id
      · exact distinct
    · exact distinct

end Heap

end Vektordb
