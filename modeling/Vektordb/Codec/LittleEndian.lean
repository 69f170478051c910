import Mathlib

/-!
Fixed-width little-endian numbers as lists of bytes, and their concatenation into arrays.
-/

namespace LittleEndian

abbrev Bytes := List UInt8

/-- The `width` low bytes of a number, least significant first. -/
def encode : Nat → Nat → Bytes
  | 0, _ => []
  | width + 1, value => UInt8.ofNat value :: encode width (value / 256)

def decode : Bytes → Nat
  | [] => 0
  | byte :: rest => byte.toNat + 256 * decode rest

@[simp] theorem encode_length (width value : Nat) : (encode width value).length = width := by
  induction width generalizing value with
  | zero => rfl
  | succ width ih => simp only [encode, List.length_cons, ih]

theorem decode_lt (bytes : Bytes) : decode bytes < 256 ^ bytes.length := by
  induction bytes with
  | nil => decide
  | cons byte rest ih =>
      have small : byte.toNat < 256 := byte.toNat_lt
      simp only [decode, List.length_cons, Nat.pow_succ]
      omega

theorem encode_decode (bytes : Bytes) : encode bytes.length (decode bytes) = bytes := by
  induction bytes with
  | nil => rfl
  | cons byte rest ih =>
      have small : byte.toNat < 256 := byte.toNat_lt
      have high : (byte.toNat + 256 * decode rest) / 256 = decode rest := by omega
      have low : UInt8.ofNat (byte.toNat + 256 * decode rest) = byte := by
        apply UInt8.toNat_inj.mp
        rw [UInt8.toNat_ofNat']
        omega
      simp only [List.length_cons, decode, encode, high, low, ih]

theorem decode_take_lt (width : Nat) (bytes : Bytes) : decode (bytes.take width) < 256 ^ width :=
  (decode_lt (bytes.take width)).trans_le
    (Nat.pow_le_pow_right (by decide) (by rw [List.length_take]; exact Nat.min_le_left ..))

theorem encode_decode_take (width : Nat) (bytes : Bytes) (long : width ≤ bytes.length) :
    encode width (decode (bytes.take width)) = bytes.take width := by
  have whole := encode_decode (bytes.take width)
  rwa [List.length_take, Nat.min_eq_left long] at whole

theorem decode_encode (width value : Nat) : decode (encode width value) = value % 256 ^ width := by
  induction width generalizing value with
  | zero => simp only [encode, decode, Nat.pow_zero, Nat.mod_one]
  | succ width ih =>
      have low : (UInt8.ofNat value).toNat = value % 256 := UInt8.toNat_ofNat'
      simp only [encode, decode, ih, low, Nat.pow_succ, Nat.mul_comm (256 ^ width) 256,
        Nat.mod_mul]

theorem decode_encode_of_lt {width value : Nat} (small : value < 256 ^ width) :
    decode (encode width value) = value := by
  rw [decode_encode, Nat.mod_eq_of_lt small]

theorem decode_take_encode_append {width value : Nat} (small : value < 256 ^ width)
    (rest : Bytes) : decode ((encode width value ++ rest).take width) = value := by
  rw [List.take_left' (encode_length width value), decode_encode_of_lt small]

/-! ### Arrays of numbers -/

def encodeAll (width : Nat) (values : List Nat) : Bytes := values.flatMap (encode width)

def decodeAll (width : Nat) : Nat → Bytes → List Nat
  | 0, _ => []
  | count + 1, bytes => decode (bytes.take width) :: decodeAll width count (bytes.drop width)

@[simp] theorem encodeAll_cons (width value : Nat) (values : List Nat) :
    encodeAll width (value :: values) = encode width value ++ encodeAll width values := rfl

@[simp] theorem encodeAll_length (width : Nat) (values : List Nat) :
    (encodeAll width values).length = width * values.length := by
  induction values with
  | nil => rfl
  | cons value rest ih =>
      simp only [encodeAll_cons, List.length_append, encode_length, ih, List.length_cons,
        Nat.mul_succ]
      omega

@[simp] theorem decodeAll_length (width count : Nat) (bytes : Bytes) :
    (decodeAll width count bytes).length = count := by
  induction count generalizing bytes with
  | zero => rfl
  | succ count ih => simp only [decodeAll, List.length_cons, ih]

theorem decodeAll_encodeAll {width : Nat} {values : List Nat}
    (small : ∀ value ∈ values, value < 256 ^ width) (rest : Bytes) :
    decodeAll width values.length (encodeAll width values ++ rest) = values := by
  induction values with
  | nil => rfl
  | cons value tail ih =>
      have head := decode_take_encode_append (small value (List.mem_cons_self ..))
        (encodeAll width tail ++ rest)
      have after : (encode width value ++ (encodeAll width tail ++ rest)).drop width =
          encodeAll width tail ++ rest := List.drop_left' (encode_length width value)
      simp only [List.length_cons, encodeAll_cons, List.append_assoc, decodeAll, head, after,
        ih fun other member => small other (List.mem_cons_of_mem value member)]

theorem decodeAll_lt {width count value : Nat} {bytes : Bytes}
    (member : value ∈ decodeAll width count bytes) : value < 256 ^ width := by
  induction count generalizing bytes with
  | zero => cases member
  | succ count ih =>
      rcases List.mem_cons.mp member with rfl | later
      · exact decode_take_lt width bytes
      · exact ih later

theorem encodeAll_decodeAll {width : Nat} {count : Nat} {bytes : Bytes}
    (enough : bytes.length = width * count) :
    encodeAll width (decodeAll width count bytes) = bytes := by
  induction count generalizing bytes with
  | zero =>
      have empty : bytes = [] := List.length_eq_zero_iff.mp (by simpa using enough)
      rw [empty]
      rfl
  | succ count ih =>
      rw [Nat.mul_succ] at enough
      have back : (bytes.drop width).length = width * count := by
        rw [List.length_drop]
        omega
      rw [decodeAll, encodeAll_cons, ih back, encode_decode_take _ _ (by omega),
        List.take_append_drop]

end LittleEndian
