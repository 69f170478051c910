import Vektordb.Codec.LittleEndian

/-!
Memory images: a byte at every address, read and written in runs. A device that has taken over
only some pages of an image holds a mixture of two of them.
-/

namespace LittleEndian

abbrev Image := Nat → UInt8

namespace Image

def blank : Image := fun _ => 0

def read (image : Image) (offset count : Nat) : Bytes := (List.range' offset count).map image

def write (image : Image) (offset : Nat) (bytes : Bytes) : Image := fun address =>
  if offset ≤ address then (bytes[address - offset]?).getD (image address) else image address

@[simp] theorem read_length (image : Image) (offset count : Nat) :
    (image.read offset count).length = count := by
  simp only [read, List.length_map, List.length_range']

theorem read_congr {image other : Image} {offset count : Nat}
    (same : ∀ address, offset ≤ address → address < offset + count → image address = other address) :
    image.read offset count = other.read offset count := by
  refine List.map_congr_left fun address member => ?_
  rw [List.mem_range'_1] at member
  exact same address member.1 member.2

theorem read_eq_iff {image other : Image} {offset count : Nat} :
    image.read offset count = other.read offset count ↔
      ∀ address, offset ≤ address → address < offset + count → image address = other address := by
  unfold read
  rw [List.map_inj_left]
  exact ⟨fun all address low high => all address (List.mem_range'_1.mpr ⟨low, high⟩),
    fun all address member => all address (List.mem_range'_1.mp member).1
      (List.mem_range'_1.mp member).2⟩

/-- Every byte is that of one of two images. -/
def Mixes (image left right : Image) : Prop :=
  ∀ address, image address = left address ∨ image address = right address

theorem Mixes.read {image left right : Image} (mixes : Mixes image left right) {offset count : Nat}
    (agree : left.read offset count = right.read offset count) :
    image.read offset count = left.read offset count := by
  have same := read_eq_iff.mp agree
  apply read_congr
  intro address low high
  rcases mixes address with one | other
  · exact one
  · exact other.trans (same address low high).symm

theorem write_apart (image : Image) {offset address : Nat} {bytes : Bytes}
    (apart : address < offset ∨ offset + bytes.length ≤ address) :
    image.write offset bytes address = image address := by
  unfold write
  split
  · rw [List.getElem?_eq_none (by omega)]
    rfl
  · rfl

theorem read_write_apart (image : Image) {offset start count : Nat} {bytes : Bytes}
    (apart : start + count ≤ offset ∨ offset + bytes.length ≤ start) :
    (image.write offset bytes).read start count = image.read start count :=
  read_congr fun address low high => write_apart image (by omega)

theorem read_write_same (image : Image) (offset : Nat) (bytes : Bytes) :
    (image.write offset bytes).read offset bytes.length = bytes := by
  refine List.ext_getElem (read_length ..) fun i inside below => ?_
  simp only [read, List.getElem_map, List.getElem_range', Nat.one_mul]
  unfold write
  rw [if_pos (Nat.le_add_right _ _), Nat.add_sub_cancel_left, List.getElem?_eq_getElem below]
  rfl

theorem read_write_inside (image : Image) (offset : Nat) {start count : Nat} {bytes : Bytes}
    (inside : start + count ≤ bytes.length) :
    (image.write offset bytes).read (offset + start) count = (bytes.drop start).take count := by
  refine List.ext_getElem ?_ fun i left right => ?_
  · rw [read_length, List.length_take, List.length_drop]
    omega
  · rw [read_length] at left
    simp only [read, List.getElem_map, List.getElem_range', Nat.one_mul, List.getElem_take,
      List.getElem_drop]
    unfold write
    rw [if_pos (by omega), show offset + start + i - offset = start + i by omega,
      List.getElem?_eq_getElem (by omega)]
    rfl

end Image

end LittleEndian
