import Mathlib.Data.List.Induction
import XrpLedger.Bytes

/-!
# Big-endian numbers and their bytes

`BigEndian.encode` and `BigEndian.value` are inverse: a number below `256 ^ width` is read back from
its `width` bytes, and a byte string is written again from the number it spells. So a number that is
taken from a fixed count of bytes stands for exactly these bytes.
-/

set_option autoImplicit false

namespace XrpLedger

namespace BigEndian

/-- The last byte of a string is the lowest digit of its number. -/
theorem value_concat (bytes : Bytes) (byte : UInt8) :
    value (bytes ++ [byte]) = value bytes * 256 + byte.toNat := by
  simp [value]

/-- The number of a byte string has no more digits than the string has bytes. -/
theorem value_lt (bytes : Bytes) : value bytes < 256 ^ bytes.length := by
  induction bytes using List.reverseRecOn with
  | nil => simp [value]
  | append_singleton bytes byte ih =>
    have hbyte := byte.toNat_lt
    rw [value_concat, List.length_append, List.length_singleton, Nat.pow_succ]
    omega

/-- Reading what was written gives the number, up to the digits that did not fit. -/
theorem value_encode (width n : Nat) : value (encode width n) = n % 256 ^ width := by
  induction width generalizing n with
  | zero => simp [encode, value, Nat.mod_one]
  | succ width ih =>
    rw [Nat.pow_succ, Nat.mul_comm (256 ^ width) 256, Nat.mod_mul, encode, value_concat, ih,
      UInt8.toNat_ofNat']
    omega

/-- A number that fits its width is the number that its bytes spell. -/
theorem value_encode_of_lt {width n : Nat} (h : n < 256 ^ width) : value (encode width n) = n := by
  rw [value_encode, Nat.mod_eq_of_lt h]

/-- Bytes are the number that they spell, written in as many bytes. -/
theorem encode_value (bytes : Bytes) : encode bytes.length (value bytes) = bytes := by
  induction bytes using List.reverseRecOn with
  | nil => rfl
  | append_singleton bytes byte ih =>
    have hbyte := byte.toNat_lt
    have hhigh : (value bytes * 256 + byte.toNat) / 256 = value bytes := by omega
    have hlow : UInt8.ofNat (value bytes * 256 + byte.toNat) = byte := by
      apply UInt8.toNat_inj.mp
      rw [UInt8.toNat_ofNat']
      omega
    rw [List.length_append, List.length_singleton, value_concat, encode, hhigh, hlow, ih]

/-- The bytes of a number in a width are the ones of that length that spell it. -/
theorem eq_encode_iff {width n : Nat} {bytes : Bytes} (hn : n < 256 ^ width) :
    bytes = encode width n ↔ bytes.length = width ∧ value bytes = n := by
  constructor
  · rintro rfl
    exact ⟨length_encode width n, value_encode_of_lt hn⟩
  · rintro ⟨rfl, rfl⟩
    exact (encode_value bytes).symm

end BigEndian

namespace FixedBytes

variable {n : Nat}

/-- Bytes of a fixed length spell a number below the power of 256 of that length. -/
theorem toNat_lt (bytes : FixedBytes n) : bytes.toNat < 256 ^ n := by
  have h := BigEndian.value_lt bytes.toList
  rwa [bytes.length_toList] at h

/-- Bytes of a fixed length are the number that they spell, written in that width. -/
theorem encode_toNat (bytes : FixedBytes n) : BigEndian.encode n bytes.toNat = bytes.toList := by
  have h := BigEndian.encode_value bytes.toList
  rwa [bytes.length_toList] at h

/-- Bytes of one length that spell the same number are the same. -/
theorem toNat_injective {a b : FixedBytes n} (h : a.toNat = b.toNat) : a = b := by
  apply FixedBytes.ext
  rw [← encode_toNat a, h, encode_toNat]

/-- The bytes of a fixed-width byte string have its length. -/
theorem ofList?_toList (bytes : FixedBytes n) : ofList? n bytes.toList = some bytes :=
  dif_pos bytes.length_toList

/-- Fixing the length of a byte string keeps its bytes. -/
theorem toList_of_ofList? {list : Bytes} {bytes : FixedBytes n}
    (h : ofList? n list = some bytes) : bytes.toList = list := by
  unfold ofList? at h
  split at h
  · cases h
    rfl
  · cases h

end FixedBytes

end XrpLedger
