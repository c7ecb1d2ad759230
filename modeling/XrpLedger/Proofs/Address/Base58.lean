import XrpLedger.Address.AccountId
import XrpLedger.Proofs.BigEndian
import XrpLedger.Proofs.Outcome
import XrpLedger.Proofs.Text.Radix

/-!
# Bytes and accounts in Base58

Bytes and their Base58 digits are two spellings of one number, with as many zeros in front: either
is converted into the other and back (`Radix.convert_convert`). So each byte string has one text,
and no text is read but as the bytes that it is written for. The same holds of a payload and its
text with a checksum, whatever the digest is, with or without a version, and an account is read back
from its address.
-/

set_option autoImplicit false

namespace XrpLedger

/-- The number of bytes is the one that they spell as digits in base 256. -/
theorem BigEndian.value_eq_radix (bytes : Bytes) :
    value bytes = Radix.value 256 (bytes.map UInt8.toNat) := by
  rw [value, Radix.value, List.foldl_map]

namespace Base58

/-- The character of a digit is one of ASCII, and its place in the alphabet is the digit. -/
theorem char_spec : ∀ d < 58, (char d).toNat ≤ 127 ∧ alphabet.idxOf? (char d) = some d := by
  decide +kernel

/-- A character at a position of the alphabet is that of the digit below 58 with this position. -/
theorem char_of_idxOf? {c : Char} {d : Nat} (h : alphabet.idxOf? c = some d) :
    d < 58 ∧ char d = c := by
  obtain ⟨hlt, hplace, -⟩ := List.idxOf?_eq_some_iff.mp h
  refine ⟨hlt, ?_⟩
  rw [char, List.getD_eq_getElem?_getD, List.getElem?_eq_getElem hlt, Option.getD_some, hplace]

/-- The characters of digits are read as the digits behind those read before. -/
theorem digits_map_char {ds : List Nat} (hds : ∀ d ∈ ds, d < 58) (done : List Nat)
    (position : Nat) : digits done position (ds.map char) = .ok (done.reverse ++ ds) := by
  induction ds generalizing done position with
  | nil => simp [digits]
  | cons d ds ih =>
    rw [List.forall_mem_cons] at hds
    obtain ⟨hascii, hplace⟩ := char_spec d hds.1
    rw [List.map_cons, digits, if_neg (Nat.not_lt.mpr hascii), hplace]
    show digits (d :: done) (position + 1) (ds.map char) = _
    rw [ih hds.2, List.reverse_cons, List.append_assoc, List.singleton_append]

/-- Whatever is read as digits, behind those read before, is the characters of these digits. -/
theorem exists_of_digits_eq_ok {cs : List Char} {done ds : List Nat} {position : Nat}
    (h : digits done position cs = .ok ds) :
    ∃ found, (∀ d ∈ found, d < 58) ∧ cs = found.map char ∧ ds = done.reverse ++ found := by
  induction cs generalizing done position with
  | nil =>
    cases h
    exact ⟨[], List.forall_mem_nil _, rfl, (List.append_nil _).symm⟩
  | cons c cs ih =>
    rw [digits] at h
    split at h
    · cases h
    · split at h
      · cases h
      · next d hplace =>
        obtain ⟨hlt, hchar⟩ := char_of_idxOf? hplace
        obtain ⟨found, hfound, rfl, rfl⟩ := ih h
        refine ⟨d :: found, List.forall_mem_cons.mpr ⟨hlt, hfound⟩, ?_, ?_⟩
        · rw [List.map_cons, hchar]
        · rw [List.reverse_cons, List.append_assoc, List.singleton_append]

/-- The digits of bytes: a zero for each leading zero byte, then those of their number. -/
def digitsOfBytes (bytes : Bytes) : List Nat :=
  (bytes.takeWhile (· = 0)).map (fun _ => 0) ++ Radix.digits 58 (BigEndian.value bytes)

/-- The text of bytes is that of their digits in base 58. -/
theorem encode_eq (bytes : Bytes) :
    encode bytes = String.ofList ((digitsOfBytes bytes).map char) := by
  rw [encode, digitsOfBytes, List.map_append, List.map_map]
  rfl

/-- In front of the first element that is not zero, to map the elements is to map zero. -/
theorem map_takeWhile_zero {α β : Type} {zero : α} [DecidableEq α] (list : List α) (f : α → β) :
    (list.takeWhile (· = zero)).map (fun _ => f zero) = (list.takeWhile (· = zero)).map f := by
  refine List.map_congr_left fun a ha => ?_
  have heq : a = zero := by simpa using List.mem_takeWhile_imp ha
  rw [heq]

/-- The digits of bytes are a conversion from base 256. -/
theorem digitsOfBytes_eq (bytes : Bytes) :
    digitsOfBytes bytes = Radix.convert 256 58 (bytes.map UInt8.toNat) := by
  have hzeros : (bytes.map UInt8.toNat).takeWhile (· = 0)
      = (bytes.takeWhile (· = 0)).map UInt8.toNat := by
    rw [List.takeWhile_map]
    congr 2
    funext byte
    exact decide_eq_decide.mpr (UInt8.toNat_inj (b := 0))
  rw [Radix.convert, hzeros, ← BigEndian.value_eq_radix, ← map_takeWhile_zero]
  rfl

/-- The bytes of digits are a conversion to base 256. -/
theorem map_toNat_bytesOfDigits (ds : List Nat) :
    (bytesOfDigits ds).map UInt8.toNat = Radix.convert 58 256 ds := by
  have hback : ((Radix.digits 256 (Radix.value 58 ds)).map UInt8.ofNat).map UInt8.toNat
      = Radix.digits 256 (Radix.value 58 ds) := by
    rw [List.map_map]
    refine (List.map_congr_left fun d hd => ?_).trans (List.map_id _)
    have hlt : d < 256 := Radix.lt_of_mem_digits (by omega) hd
    exact UInt8.toNat_ofNat_of_lt' hlt
  rw [bytesOfDigits, List.map_append, hback, List.map_map]
  exact congrArg (· ++ _) ((map_takeWhile_zero ds id).trans (List.map_id _))

/-- The digits of bytes are below 58. -/
theorem lt_of_mem_digitsOfBytes {bytes : Bytes} {d : Nat} (hd : d ∈ digitsOfBytes bytes) :
    d < 58 := by
  rw [digitsOfBytes_eq] at hd
  exact Radix.lt_of_mem_convert (by omega) hd

/-- Bytes are those of their digits. -/
theorem bytesOfDigits_digitsOfBytes (bytes : Bytes) :
    bytesOfDigits (digitsOfBytes bytes) = bytes := by
  have hlt : ∀ d ∈ bytes.map UInt8.toNat, d < 256 := by
    intro d hd
    obtain ⟨byte, -, rfl⟩ := List.mem_map.mp hd
    exact byte.toNat_lt
  apply List.map_injective_iff.mpr fun a b => UInt8.toNat_inj.mp
  rw [map_toNat_bytesOfDigits, digitsOfBytes_eq, Radix.convert_convert (by omega) (by omega) hlt]

/-- Digits below 58 are those of their bytes. -/
theorem digitsOfBytes_bytesOfDigits {ds : List Nat} (hlt : ∀ d ∈ ds, d < 58) :
    digitsOfBytes (bytesOfDigits ds) = ds := by
  rw [digitsOfBytes_eq, map_toNat_bytesOfDigits, Radix.convert_convert (by omega) (by omega) hlt]

/-- A text is Base58 for some bytes exactly if they are written as it. -/
theorem decode_eq_ok_iff {text : String} {bytes : Bytes} :
    decode text = .ok bytes ↔ text = encode bytes := by
  rw [decode, map_eq_ok_iff, encode_eq]
  constructor
  · rintro ⟨ds, hdigits, rfl⟩
    obtain ⟨found, hlt, htext, rfl⟩ := exists_of_digits_eq_ok hdigits
    rw [digitsOfBytes_bytesOfDigits hlt, ← htext, String.ofList_toList]
  · rintro rfl
    refine ⟨digitsOfBytes bytes, ?_, bytesOfDigits_digitsOfBytes bytes⟩
    rw [String.toList_ofList]
    exact digits_map_char (fun _ => lt_of_mem_digitsOfBytes) [] 0

/-- Bytes are decoded from their text. -/
theorem decode_encode (bytes : Bytes) : decode (encode bytes) = .ok bytes :=
  decode_eq_ok_iff.mpr rfl

end Base58

namespace Base58Check

variable (hash : Bytes → FixedBytes 32)

/-- Every checksum has four bytes. -/
theorem length_checksum (payload : Bytes) : (checksum hash payload).length = checksumLength := by
  rw [checksum, List.length_take, FixedBytes.length_toList]
  rfl

/-- A text has a payload exactly if this payload is written as it, checksum included. -/
theorem decode_eq_ok_iff {text : String} {payload : Bytes} :
    decode hash text = .ok payload ↔ text = encode hash payload := by
  constructor
  · intro h
    unfold decode at h
    split at h
    · cases h
    · next bytes hbytes =>
      split at h
      · cases h
      · simp only at h
        split at h
        · next hchecksum =>
          cases h
          -- the payload and its checksum are all the bytes there are
          rw [encode, hchecksum, List.take_append_drop]
          exact Base58.decode_eq_ok_iff.mp hbytes
        · cases h
  · rintro rfl
    have hlength : (payload ++ checksum hash payload).length - checksumLength = payload.length := by
      rw [List.length_append, length_checksum, Nat.add_sub_cancel]
    have hlong : ¬(payload ++ checksum hash payload).length < checksumLength := by
      rw [List.length_append, length_checksum]
      omega
    simp only [decode, encode, Base58.decode_encode]
    rw [if_neg hlong, hlength, List.take_left, List.drop_left, if_pos rfl]

/-- Payloads with the same text are the same, whichever digest makes the checksum. -/
theorem encode_injective {payload other : Bytes} (h : encode hash payload = encode hash other) :
    payload = other := by
  have hpayload : decode hash (encode hash payload) = .ok payload := (decode_eq_ok_iff hash).mpr rfl
  have hother : decode hash (encode hash payload) = .ok other := (decode_eq_ok_iff hash).mpr h
  rw [hpayload] at hother
  exact Except.ok.inj hother

/-- A payload of a length is decoded from its own text only. -/
theorem decodeSized_eq_ok_iff {text : String} {payload : Bytes} {length : Nat} :
    decodeSized hash text length = .ok payload ↔
      text = encode hash payload ∧ payload.length = length := by
  simp only [decodeSized, bind_eq_ok_iff, decode_eq_ok_iff]
  constructor
  · rintro ⟨found, htext, h⟩
    split at h
    · next hlength =>
      cases h
      exact ⟨htext, hlength⟩
    · exact absurd h throw_ne_ok
  · rintro ⟨htext, hlength⟩
    exact ⟨payload, htext, if_pos hlength⟩

/-- A payload behind a version is decoded from its own text only. -/
theorem decodeVersioned_eq_ok_iff {text : String} {version payload : Bytes} {length : Nat} :
    decodeVersioned hash text version length = .ok payload ↔
      text = encodeVersioned hash version payload ∧ payload.length = length := by
  simp only [decodeVersioned, encodeVersioned, bind_eq_ok_iff, decodeSized_eq_ok_iff]
  constructor
  · rintro ⟨found, ⟨htext, hlength⟩, h⟩
    split at h
    · next hversion =>
      cases h
      obtain ⟨payload, rfl⟩ := List.isPrefixOf_iff_prefix.mp hversion
      rw [List.drop_left]
      refine ⟨htext, ?_⟩
      rw [List.length_append] at hlength
      omega
    · exact absurd h throw_ne_ok
  · rintro ⟨htext, hlength⟩
    have hversion : version.isPrefixOf (version ++ payload) = true :=
      List.isPrefixOf_iff_prefix.mpr (List.prefix_append version payload)
    refine ⟨version ++ payload, ⟨htext, by rw [List.length_append, hlength]⟩, ?_⟩
    rw [if_pos hversion, List.drop_left]
    rfl

/-- A text is the checked form of one payload at most, and of each payload one text is: whether the
length of the payload and a version in front of it are asked for or not, what is read is exactly
what is written. -/
theorem decodes_exactly_encodings (text : String) (version payload : Bytes) (length : Nat) :
    (decode hash text = .ok payload ↔ text = encode hash payload) ∧
    (decodeSized hash text length = .ok payload ↔
      text = encode hash payload ∧ payload.length = length) ∧
    (decodeVersioned hash text version length = .ok payload ↔
      text = encodeVersioned hash version payload ∧ payload.length = length) ∧
    decode hash (encode hash payload) = .ok payload ∧
    ∀ other, decode hash text = .ok payload → decode hash other = .ok payload → other = text := by
  refine ⟨decode_eq_ok_iff hash, decodeSized_eq_ok_iff hash, decodeVersioned_eq_ok_iff hash, ?_, ?_⟩
  · exact (decode_eq_ok_iff hash).mpr rfl
  · intro other htext hother
    rw [(decode_eq_ok_iff hash).mp htext, (decode_eq_ok_iff hash).mp hother]

/-- Under a digest of zeros, five times the first character is one zero byte with its checksum, or a
version of this byte with nothing behind it, and no other text is. -/
theorem decodes_exactly_encodings_zero :
    decode (fun _ => .zero 32) "rrrrr" = .ok [0] ∧
      decodeVersioned (fun _ => .zero 32) "rrrrr" [0] 0 = .ok [] ∧
      ∀ other, decode (fun _ => .zero 32) other = .ok [0] → other = "rrrrr" := by
  have htext : "rrrrr" = encode (fun _ => .zero 32) [0] := by
    have hdigits : Base58.digitsOfBytes [0, 0, 0, 0, 0] = [0, 0, 0, 0, 0] := by
      simp [Base58.digitsOfBytes, Radix.digits, Radix.digitsOnto, BigEndian.value]
    show "rrrrr" = Base58.encode [0, 0, 0, 0, 0]
    rw [Base58.encode_eq, hdigits]
    rfl
  obtain ⟨hchecked, -, -, -, hunique⟩ := decodes_exactly_encodings (fun _ => .zero 32) "rrrrr" [] [0] 0
  obtain ⟨-, -, hversioned, -, -⟩ := decodes_exactly_encodings (fun _ => .zero 32) "rrrrr" [0] [] 0
  have hread := hchecked.mpr htext
  exact ⟨hread, hversioned.mpr ⟨htext, rfl⟩, fun other hother => hunique other hread hother⟩

end Base58Check

namespace AccountId

variable {hash : Bytes → FixedBytes 32}

/-- An account is read from its own bytes only. -/
theorem ofBytes_eq_ok_iff {bytes : Bytes} {account : AccountId} :
    ofBytes bytes = .ok account ↔ account.bytes.toList = bytes := by
  unfold ofBytes
  constructor
  · intro h
    cases hf : FixedBytes.ofList? 20 bytes with
    | none => simp [hf] at h
    | some fixed =>
      simp only [hf, Except.ok.injEq] at h
      rw [← h, FixedBytes.toList_of_ofList? hf]
  · rintro rfl
    rw [FixedBytes.ofList?_toList]

/-- A text is read as an account exactly if it is the address of this account. -/
theorem parseWith_eq_ok_iff {text : String} {account : AccountId} :
    parseWith hash text = .ok account ↔ text = account.addressWith hash := by
  simp only [parseWith, addressWith, bind_eq_ok_iff, Base58Check.decodeVersioned_eq_ok_iff,
    ofBytes_eq_ok_iff]
  constructor
  · rintro ⟨_, ⟨htext, -⟩, rfl⟩
    exact htext
  · intro htext
    exact ⟨account.bytes.toList, ⟨htext, account.bytes.length_toList⟩, rfl⟩

/-- An account is read from its address. -/
theorem parse_address (account : AccountId) : parse account.address = .ok account :=
  parseWith_eq_ok_iff.mpr rfl

end AccountId

end XrpLedger
