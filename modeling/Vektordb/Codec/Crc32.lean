import Vektordb.Codec.LittleEndian

/-!
CRC-32 with the reflected polynomial `0xEDB88320`, bit by bit.
-/

namespace Crc32

open LittleEndian

def shift (crc : Nat) : Nat := if crc % 2 = 1 then crc / 2 ^^^ 0xEDB88320 else crc / 2

def update (crc : Nat) (byte : UInt8) : Nat := shift^[8] (crc ^^^ byte.toNat)

def hash (bytes : Bytes) : Nat := bytes.foldl update 0xFFFFFFFF ^^^ 0xFFFFFFFF

theorem shift_lt {crc : Nat} (small : crc < 2 ^ 32) : shift crc < 2 ^ 32 := by
  unfold shift
  split
  · exact Nat.xor_lt_two_pow (by omega) (by decide)
  · omega

theorem update_lt {crc : Nat} (small : crc < 2 ^ 32) (byte : UInt8) : update crc byte < 2 ^ 32 := by
  have mixed : crc ^^^ byte.toNat < 2 ^ 32 :=
    Nat.xor_lt_two_pow small (Nat.lt_trans byte.toNat_lt (by decide))
  have steps : ∀ count value, value < 2 ^ 32 → shift^[count] value < 2 ^ 32 := by
    intro count
    induction count with
    | zero => exact fun _ bound => bound
    | succ count ih => exact fun value bound => ih (shift value) (shift_lt bound)
  exact steps 8 _ mixed

theorem hash_lt (bytes : Bytes) : hash bytes < 2 ^ 32 := by
  have state : ∀ start, start < 2 ^ 32 → bytes.foldl update start < 2 ^ 32 := by
    induction bytes with
    | nil => exact fun _ bound => bound
    | cons byte rest ih => exact fun start bound => ih (update start byte) (update_lt bound byte)
  exact Nat.xor_lt_two_pow (state 0xFFFFFFFF (by decide)) (by decide)

/-- The check value of the algorithm, on the digits one to nine. -/
example : hash [49, 50, 51, 52, 53, 54, 55, 56, 57] = 0xCBF43926 := by decide +kernel

end Crc32
