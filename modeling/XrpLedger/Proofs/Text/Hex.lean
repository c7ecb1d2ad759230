import Mathlib.Data.List.Basic
import XrpLedger.Error

/-!
# Bytes as hexadecimal text

Bytes are read back from their hexadecimal text. Reading goes over the UTF-8 bytes of a text, which
for characters of ASCII are their codes.
-/

set_option autoImplicit false

namespace XrpLedger

/-- The size of a text is the number of its UTF-8 bytes. -/
theorem utf8ByteSize_eq_length_utf8 (text : String) : text.utf8ByteSize = (utf8 text).length := by
  rw [String.utf8ByteSize, ← String.utf8Encode_toList, List.utf8Encode, utf8,
    List.size_toByteArray]

/-- Texts with the same UTF-8 bytes are the same. -/
theorem utf8_injective {a b : String} (h : utf8 a = utf8 b) : a = b := by
  have hbytes : a.toByteArray = b.toByteArray := by
    rw [← String.utf8Encode_toList, ← String.utf8Encode_toList, List.utf8Encode, List.utf8Encode]
    exact congrArg List.toByteArray h
  exact String.toByteArray_inj.mp hbytes

/-- A character of ASCII takes one byte, its code. -/
theorem utf8EncodeChar_of_lt {c : Char} (h : c.toNat < 128) :
    String.utf8EncodeChar c = [UInt8.ofNat c.toNat] :=
  if_pos (Nat.le_of_lt_succ h)

/-- A character below 128 is one byte, its code. -/
theorem utf8_ofList {cs : List Char} (h : ∀ c ∈ cs, c.toNat < 128) :
    utf8 (String.ofList cs) = cs.map fun c => UInt8.ofNat c.toNat := by
  rw [utf8, String.toList_ofList, List.map_eq_flatMap]
  exact List.flatMap_congr fun c hc => utf8EncodeChar_of_lt (h c hc)

namespace Hex

/-- Hexadecimal digits are characters below 128. -/
theorem digit_toNat_lt : ∀ n < 16, (digit n).toNat < 128 := by
  decide

/-- The byte of a hexadecimal digit has the value of that digit. -/
theorem digitValue?_digit : ∀ n < 16, digitValue? (UInt8.ofNat (digit n).toNat) = some n := by
  decide

/-- The two digits of a byte. -/
def pair (byte : UInt8) : List Char :=
  [digit (byte.toNat / 16), digit (byte.toNat % 16)]

/-- The pairs of digits of bytes hold only characters below 128. -/
theorem toNat_lt_of_mem_pairs {bytes : Bytes} {c : Char} (hc : c ∈ bytes.flatMap pair) :
    c.toNat < 128 := by
  obtain ⟨byte, -, hbyte⟩ := List.mem_flatMap.mp hc
  have hlt := byte.toNat_lt
  simp only [pair, List.mem_cons, List.not_mem_nil, or_false] at hbyte
  rcases hbyte with rfl | rfl
  · exact digit_toNat_lt _ (by omega)
  · exact digit_toNat_lt _ (by omega)

/-- Hexadecimal text has one byte for each of its digits. -/
theorem utf8_encode (bytes : Bytes) :
    utf8 (encode bytes) = (bytes.flatMap pair).map fun c => UInt8.ofNat c.toNat :=
  utf8_ofList fun _ => toNat_lt_of_mem_pairs

/-- Hexadecimal text has two bytes for each byte that it spells. -/
theorem length_utf8_encode (bytes : Bytes) : (utf8 (encode bytes)).length = bytes.length * 2 := by
  rw [utf8_encode, List.length_map, List.length_flatMap]
  simp [pair]

/-- The digits of bytes are read as the bytes behind those read before. -/
theorem decodePairs_digits (bytes done : Bytes) (position : Nat) :
    decodePairs done position (utf8 (encode bytes)) = .ok (done.reverse ++ bytes) := by
  rw [utf8_encode]
  induction bytes generalizing done position with
  | nil => simp [decodePairs]
  | cons byte bytes ih =>
    have hlt := byte.toNat_lt
    have hhigh := digitValue?_digit (byte.toNat / 16) (by omega)
    have hlow := digitValue?_digit (byte.toNat % 16) (by omega)
    -- the two halves of the byte are put together again
    have hbyte : UInt8.ofNat (byte.toNat / 16 * 16 + byte.toNat % 16) = byte := by
      rw [Nat.div_add_mod', UInt8.ofNat_toNat]
    simp only [List.flatMap_cons, pair, List.cons_append, List.nil_append, List.map_cons,
      decodePairs, hhigh, hlow, hbyte, ih, List.reverse_cons, List.append_assoc]

/-- Bytes are decoded from their hexadecimal text. -/
theorem decode_encode (bytes : Bytes) : decode (encode bytes) = .ok bytes := by
  have heven : ¬(utf8 (encode bytes)).length % 2 = 1 := by
    rw [length_utf8_encode]
    omega
  unfold decode
  rw [if_neg heven, decodePairs_digits, List.reverse_nil, List.nil_append]

/-- Bytes are read from their hexadecimal text. -/
theorem parse_encode (bytes : Bytes) : parse (encode bytes) = .ok bytes := by
  rw [parse, decode_encode]
  rfl

/-- Two digits are read as one byte. -/
theorem length_of_decodePairs {done bytes digits : Bytes} {position : Nat}
    (h : decodePairs done position digits = .ok bytes) :
    bytes.length = done.length + digits.length / 2 := by
  fun_induction decodePairs done position digits with
  | case1 => cases h
  | case2 => cases h
  | case3 done position high low rest highValue lowValue hlow hhigh ih =>
    rw [ih h, List.length_cons, List.length_cons, List.length_cons]
    omega
  | case4 digits done position hshort =>
    cases h
    have hlt : digits.length < 2 := by
      rcases digits with _ | ⟨high, _ | ⟨low, rest⟩⟩
      · simp
      · simp
      · exact (hshort high low rest rfl).elim
    rw [List.length_reverse, Nat.div_eq_of_lt hlt, Nat.add_zero]

/-- Hexadecimal text is read as half as many bytes as it has itself. -/
theorem length_of_parse {text : String} {bytes : Bytes} (h : parse text = .ok bytes) :
    bytes.length = (utf8 text).length / 2 := by
  simp only [parse, decode] at h
  split at h
  · cases h
  · cases hpairs : decodePairs [] 0 (utf8 text) with
    | error cause =>
      rw [hpairs] at h
      cases h
    | ok decoded =>
      rw [hpairs] at h
      cases h
      rw [length_of_decodePairs hpairs, List.length_nil, Nat.zero_add]

end Hex

end XrpLedger
