import Vektordb.Hnsw.Scratch

/-!
The visited set on its own words: 32-bit stamps, a generation that wraps, and accesses that panic
behind the end of the vector. Over any sequence of calls it behaves as a set that every pass
empties, however many passes there were and whatever sizes they announced.
-/

namespace Vektordb

/-- The longest vector of 4-byte values that can be allocated. -/
def MAX_STAMPS : Nat := (2 ^ 63 - 1) / 4

structure Stamps where
  stamps : List UInt32
  generation : UInt32

inductive PassCall where
  | beginPass (n : Nat)
  | mark (id : Nat)

namespace Stamps

/-- `Vec::resize` with zeros. -/
def resize (stamps : List UInt32) (len : Nat) : Option (List UInt32) :=
  if MAX_STAMPS < len then none
  else some (stamps.take len ++ List.replicate (len - stamps.length) 0)

def new : Stamps := ⟨[], 0⟩

/-- Room for the size that a pass announces. -/
def announce (stamps : List UInt32) (n : Nat) : Option (List UInt32) :=
  if stamps.length < n then resize stamps n else some stamps

/-- Start a new traversal over a graph of `n` nodes. -/
def beginPass (v : Stamps) (n : Nat) : Option Stamps :=
  (announce v.stamps n).bind fun stamps =>
    if v.generation + 1 = 0 then some ⟨List.replicate stamps.length 0, 1⟩
    else some ⟨stamps, v.generation + 1⟩

/-- Room for an id, on demand; `id as usize + 1` wraps in a release build. -/
def roomFor (stamps : List UInt32) (id : Nat) : Option (List UInt32) :=
  if stamps.length ≤ id then resize stamps ((id + 1) % 2 ^ 64) else some stamps

/-- Mark `id` visited. Returns `true` if it was already visited this pass. -/
def mark (v : Stamps) (id : Nat) : Option (Bool × Stamps) :=
  (roomFor v.stamps id).bind fun stamps => stamps[id]?.bind fun slot =>
    if slot = v.generation then some (true, ⟨stamps, v.generation⟩)
    else some (false, ⟨stamps.set id v.generation, v.generation⟩)

def call (v : Stamps) : PassCall → Option Stamps
  | .beginPass n => v.beginPass n
  | .mark id => (v.mark id).map Prod.snd

def run (v : Stamps) : List PassCall → Option Stamps
  | [] => some v
  | next :: rest => (v.call next).bind fun after => run after rest

def of (v : VisitedSet) : Stamps := ⟨v.stamps.map UInt32.ofNat, UInt32.ofNat v.generation⟩

end Stamps

namespace PassCall

def Fits : PassCall → Prop
  | .beginPass n => n ≤ MAX_STAMPS
  | .mark id => id < MAX_STAMPS

/-! ### The set -/

def apply (marked : Set Nat) : PassCall → Set Nat
  | .beginPass _ => ∅
  | .mark id => insert id marked

/-- The ids that were marked since the last pass began. -/
def marked (calls : List PassCall) : Set Nat := calls.foldl apply ∅

end PassCall

/-! ### The words of a visited set -/

namespace Stamps

theorem resize_grow (stamps : List Nat) {len : Nat} (longer : stamps.length ≤ len)
    (fits : len ≤ MAX_STAMPS) :
    resize (stamps.map UInt32.ofNat) len = some ((VisitedSet.grow stamps len).map UInt32.ofNat) := by
  unfold resize VisitedSet.grow
  rw [if_neg (Nat.not_lt.mpr fits), List.take_of_length_le (by rw [List.length_map]; exact longer),
    List.map_append, List.map_replicate, List.length_map]
  rfl

theorem ofNat_generation {v : VisitedSet} (stamp : Nat) (below : stamp < 2 ^ 32) :
    UInt32.ofNat stamp = UInt32.ofNat v.generation ↔ stamp = v.generation := by
  constructor
  · intro same
    have values := congrArg UInt32.toNat same
    rwa [UInt32.toNat_ofNat_of_lt' below, UInt32.toNat_ofNat_of_lt' v.generation_lt] at values
  · intro same
    rw [same]

theorem announce_grow (v : VisitedSet) {n : Nat} (fits : n ≤ MAX_STAMPS) :
    announce (of v).stamps n = some ((VisitedSet.grow v.stamps n).map UInt32.ofNat) := by
  have length : (of v).stamps.length = v.stamps.length := List.length_map _
  unfold announce
  rw [length]
  by_cases longer : v.stamps.length < n
  · rw [if_pos longer]
    exact resize_grow v.stamps longer.le fits
  · rw [if_neg longer]
    unfold VisitedSet.grow
    rw [Nat.sub_eq_zero_of_le (Nat.le_of_not_lt longer), List.replicate_zero, List.append_nil]
    rfl

theorem beginPass_of (v : VisitedSet) {n : Nat} (fits : n ≤ MAX_STAMPS) :
    (of v).beginPass n = some (of (v.beginPass n)) := by
  have next : (of v).generation + 1 = UInt32.ofNat (v.generation + 1) := by
    rw [UInt32.ofNat_add]
    rfl
  unfold beginPass
  rw [announce_grow v fits, Option.bind_some, next]
  unfold VisitedSet.beginPass
  by_cases wraps : v.generation + 1 = 2 ^ 32
  · rw [dif_pos wraps, wraps, if_pos (by rfl), List.length_map]
    unfold of
    rw [List.map_replicate]
    rfl
  · have bound := v.generation_lt
    have positive : ¬ UInt32.ofNat (v.generation + 1) = 0 := by
      intro zero
      have value := congrArg UInt32.toNat zero
      rw [UInt32.toNat_ofNat_of_lt' (by change v.generation + 1 < 2 ^ 32; omega)] at value
      exact Nat.succ_ne_zero _ value
    rw [dif_neg wraps, if_neg positive]
    rfl

theorem roomFor_of (v : VisitedSet) {id : Nat} (fits : id < MAX_STAMPS) :
    roomFor (of v).stamps id = some ((VisitedSet.roomFor v.stamps id).map UInt32.ofNat) := by
  have length : (of v).stamps.length = v.stamps.length := List.length_map _
  have small : (id + 1) % 2 ^ 64 = id + 1 := by
    apply Nat.mod_eq_of_lt
    unfold MAX_STAMPS at fits
    omega
  unfold roomFor VisitedSet.roomFor
  rw [length, small]
  by_cases outside : v.stamps.length ≤ id
  · rw [if_pos outside, if_pos outside]
    exact resize_grow v.stamps (by omega) fits
  · rw [if_neg outside, if_neg outside]
    rfl

theorem mark_of (v : VisitedSet) {id : Nat} (fits : id < MAX_STAMPS) :
    (of v).mark id = some ((v.mark id).1, of (v.mark id).2) := by
  obtain ⟨stamp, at_⟩ : ∃ stamp, (VisitedSet.roomFor v.stamps id)[id]? = some stamp :=
    ⟨_, List.getElem?_eq_getElem (VisitedSet.lt_length_roomFor v.stamps id)⟩
  have below : stamp < 2 ^ 32 :=
    (VisitedSet.roomFor_le v.stamps_le stamp (List.mem_of_getElem? at_)).trans_lt v.generation_lt
  unfold mark
  rw [roomFor_of v fits, Option.bind_some, List.getElem?_map, at_, Option.map_some,
    Option.bind_some]
  change (if UInt32.ofNat stamp = UInt32.ofNat v.generation then _ else _) = _
  unfold VisitedSet.mark
  by_cases seen : stamp = v.generation
  · rw [if_pos ((ofNat_generation stamp below).mpr seen), if_pos (by rw [at_, seen])]
    rfl
  · have fresh : ¬ (VisitedSet.roomFor v.stamps id)[id]? = some v.generation := by
      rw [at_]
      exact fun same => seen (Option.some.inj same)
    rw [if_neg fun same => seen ((ofNat_generation stamp below).mp same), if_neg fresh]
    unfold of
    rw [List.map_set]

/-! ### Runs -/

/-- The words are those of a visited set with exactly these marks. -/
def Represents (v : Stamps) (marked : Set Nat) : Prop :=
  ∃ set : VisitedSet, v = of set ∧ set.Active ∧ ∀ id, set.marked id ↔ id ∈ marked

theorem begins (set : VisitedSet) {n : Nat} (fits : n ≤ MAX_STAMPS) :
    ∃ after, (of set).beginPass n = some after ∧ after.Represents ∅ := by
  refine ⟨of (set.beginPass n), beginPass_of set fits, set.beginPass n, rfl,
    VisitedSet.beginPass_active set n, ?_⟩
  intro id
  exact iff_of_false (VisitedSet.beginPass_marked set n id) (Set.notMem_empty id)

theorem Represents.mark {v : Stamps} {marked : Set Nat} (represents : v.Represents marked) {id : Nat}
    (fits : id < MAX_STAMPS) : ∃ answer after, v.mark id = some (answer, after) ∧
      (answer = true ↔ id ∈ marked) ∧ after.Represents (insert id marked) := by
  obtain ⟨set, rfl, active, marks⟩ := represents
  refine ⟨_, _, mark_of set fits, ?_, _, rfl, VisitedSet.mark_active active id, ?_⟩
  · rw [VisitedSet.mark_fst active, decide_eq_true_iff]
    exact marks id
  · intro other
    rw [VisitedSet.mark_marked active, marks other]
    exact Set.mem_insert_iff.symm

theorem Represents.call {v : Stamps} {marked : Set Nat} (represents : v.Represents marked)
    {next : PassCall} (fits : next.Fits) :
    ∃ after, v.call next = some after ∧ after.Represents (PassCall.apply marked next) := by
  cases next with
  | beginPass n =>
      obtain ⟨set, rfl, -, -⟩ := represents
      exact begins set fits
  | mark id =>
      obtain ⟨answer, after, marks, -, holds⟩ := represents.mark fits
      refine ⟨after, ?_, holds⟩
      change (v.mark id).map Prod.snd = some after
      rw [marks]
      rfl

theorem Represents.run {calls : List PassCall} {v : Stamps} {marked : Set Nat}
    (represents : v.Represents marked) (fits : ∀ next ∈ calls, next.Fits) :
    ∃ after, v.run calls = some after ∧ after.Represents (calls.foldl PassCall.apply marked) := by
  induction calls generalizing v marked with
  | nil => exact ⟨v, rfl, represents⟩
  | cons next rest ih =>
      obtain ⟨middle, called, holds⟩ := represents.call (fits next (List.mem_cons_self ..))
      obtain ⟨after, ran, ends⟩ := ih holds fun later member =>
        fits later (List.mem_cons_of_mem next member)
      refine ⟨after, ?_, ends⟩
      unfold Stamps.run
      rw [called]
      exact ran

/-- The stamps are a set: after any calls that begin with a pass, marking an id succeeds and tells
whether it has been marked since the last pass began. -/
theorem stamps_refine_set {n : Nat} {calls : List PassCall}
    (fits : ∀ next ∈ PassCall.beginPass n :: calls, next.Fits) :
    ∃ v, new.run (.beginPass n :: calls) = some v ∧ ∀ id < MAX_STAMPS, ∃ answer after,
      v.mark id = some (answer, after) ∧
        (answer = true ↔ id ∈ PassCall.marked (.beginPass n :: calls)) := by
  have first : n ≤ MAX_STAMPS := fits _ (List.mem_cons_self ..)
  obtain ⟨begun, called, empty⟩ := begins VisitedSet.new first
  obtain ⟨v, ran, represents⟩ := empty.run fun next member =>
    fits next (List.mem_cons_of_mem _ member)
  refine ⟨v, ?_, ?_⟩
  · change ((of VisitedSet.new).beginPass n).bind _ = _
    rw [called]
    exact ran
  · intro id inside
    obtain ⟨answer, after, marks, told, -⟩ := represents.mark inside
    exact ⟨answer, after, marks, told⟩

theorem stamps_refine_set_twice :
    ∃ v, new.run [.beginPass 2, .mark 1, .beginPass 1, .mark 5] = some v ∧
      ∀ id < MAX_STAMPS, ∃ answer after, v.mark id = some (answer, after) ∧
        (answer = true ↔ id ∈ PassCall.marked [.beginPass 2, .mark 1, .beginPass 1, .mark 5]) :=
  stamps_refine_set (by
    intro next member
    simp only [List.mem_cons, List.not_mem_nil, or_false] at member
    rcases member with rfl | rfl | rfl | rfl
    · change 2 ≤ MAX_STAMPS
      decide
    · change 1 < MAX_STAMPS
      decide
    · change 1 ≤ MAX_STAMPS
      decide
    · change 5 < MAX_STAMPS
      decide)

end Stamps

end Vektordb
