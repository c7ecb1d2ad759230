import XrpLedger.Field.Header
import XrpLedger.Proofs.Outcome

/-!
# Headers and length markers have one form

`FieldId.decodeHeader` accepts exactly the headers that `FieldId.header` writes, for the fields
whose code is not zero: a zero code would announce a longer header. `LengthMarker.decode` accepts
exactly the markers that `LengthMarker.encode` writes, one for each length up to the greatest
(`LengthMarker.marker_unique`). Whatever follows is left as it was, and does not mend a header or a
marker that is wrong.
-/

set_option autoImplicit false

namespace XrpLedger

namespace TypeCode

/-- A type is found by its own code only. -/
theorem ofCode?_eq_some_iff {code : UInt8} {type : TypeCode} :
    ofCode? code = some type ↔ type.code = code := by
  constructor
  · intro h
    unfold ofCode? at h
    split at h
    all_goals first
      | cases h; rename_i hn; exact UInt8.toNat_inj.mp hn.symm
      | cases h
  · rintro rfl
    cases type <;> rfl

/-- Types with the same code are the same. -/
theorem code_injective {a b : TypeCode} (h : a.code = b.code) : a = b := by
  have ha := ofCode?_eq_some_iff.mpr (rfl : a.code = a.code)
  rw [h, ofCode?_eq_some_iff.mpr rfl] at ha
  exact (Option.some.inj ha).symm

/-- No type has the code zero, which announces a longer header. -/
theorem code_ne_zero (type : TypeCode) : type.code ≠ 0 := by
  cases type <;> decide

end TypeCode

namespace FieldId

/-- Two halves that were put into one byte are taken out of it again. -/
theorem nibbles {high low : UInt8} (hh : high < 16) (hl : low < 16) :
    (high * 16 + low) / 16 = high ∧ (high * 16 + low) % 16 = low := by
  have hh' : high.toNat < 16 := hh
  have hl' : low.toNat < 16 := hl
  have hbyte : (high * 16 + low).toNat = 16 * high.toNat + low.toNat := by
    rw [UInt8.toNat_add, UInt8.toNat_mul]
    change (high.toNat * 16 % 256 + low.toNat) % 256 = _
    omega
  constructor
  · refine UInt8.toNat_inj.mp ?_
    rw [UInt8.toNat_div, hbyte]
    change (16 * high.toNat + low.toNat) / 16 = _
    omega
  · refine UInt8.toNat_inj.mp ?_
    rw [UInt8.toNat_mod, hbyte]
    change (16 * high.toNat + low.toNat) % 16 = _
    omega

/-- A byte is made of its two halves, each below sixteen. -/
theorem eq_of_nibbles (byte : UInt8) :
    byte = byte / 16 * 16 + byte % 16 ∧ byte / 16 < 16 ∧ byte % 16 < 16 := by
  have hb := byte.toNat_lt
  have hhigh : (byte / 16).toNat = byte.toNat / 16 := UInt8.toNat_div ..
  have hlow : (byte % 16).toNat = byte.toNat % 16 := UInt8.toNat_mod ..
  refine ⟨?_, ?_, ?_⟩
  · refine UInt8.toNat_inj.mp ?_
    rw [UInt8.toNat_add, UInt8.toNat_mul, hhigh, hlow]
    change _ = (byte.toNat / 16 * 16 % 256 + byte.toNat % 16) % 256
    omega
  · change (byte / 16).toNat < 16
    omega
  · change (byte % 16).toNat < 16
    omega

/-- A code stands in a byte of its own exactly when it needs one. -/
theorem longCode_eq_ok_iff {what : String} {code found : UInt8} :
    longCode what code = .ok found ↔ ¬code < 16 ∧ code = found := by
  unfold longCode
  split
  · next h => simp [h]
  · next h => simp [h]

/-- A field is made of its own two codes only. -/
theorem ofCodes_eq_ok_iff {type code : UInt8} {field : FieldId} :
    ofCodes type code = .ok field ↔ field.typeCode.code = type ∧ field.fieldCode = code := by
  unfold ofCodes
  cases h : TypeCode.ofCode? type with
  | none =>
    simp only [reduceCtorEq, false_iff, not_and]
    intro htype
    rw [TypeCode.ofCode?_eq_some_iff.mpr htype] at h
    cases h
  | some typeCode =>
    have htype := TypeCode.ofCode?_eq_some_iff.mp h
    simp only [Except.ok.injEq]
    constructor
    · rintro rfl
      exact ⟨htype, rfl⟩
    · rintro ⟨hcode, rfl⟩
      rw [TypeCode.code_injective (htype.trans hcode.symm)]

/-- A header is read back, whatever follows it. -/
theorem decodeHeader_header_append {field : FieldId} (h : field.fieldCode ≠ 0) (rest : Bytes) :
    decodeHeader (field.header ++ rest) = .ok (field, rest) := by
  have htype := field.typeCode.code_ne_zero
  have hcodes : ofCodes field.typeCode.code field.fieldCode = .ok field :=
    ofCodes_eq_ok_iff.mpr ⟨rfl, rfl⟩
  unfold header
  by_cases ht : field.typeCode.code < 16 <;> by_cases hc : field.fieldCode < 16
  · obtain ⟨hhigh, hlow⟩ := nibbles ht hc
    simp [decodeHeader, ht, hc, hhigh, hlow, htype, h, hcodes, bind, Except.bind, pure, Except.pure]
  · obtain ⟨hhigh, hlow⟩ := nibbles ht (by decide : (0 : UInt8) < 16)
    rw [UInt8.add_zero] at hhigh hlow
    simp [decodeHeader, longCode, ht, hc, hhigh, hlow, htype, hcodes, bind, Except.bind, pure,
      Except.pure]
  · obtain ⟨hhigh, hlow⟩ := nibbles (by decide : (0 : UInt8) < 16) hc
    rw [UInt8.zero_mul, UInt8.zero_add] at hhigh hlow
    simp [decodeHeader, longCode, ht, hc, hhigh, hlow, h, hcodes, bind, Except.bind, pure,
      Except.pure]
  · simp [decodeHeader, longCode, ht, hc, hcodes, bind, Except.bind, pure, Except.pure]

/-- A code that needs a byte of its own is not zero. -/
theorem ne_zero_of_long {code : UInt8} (h : ¬code < 16) : code ≠ 0 := by
  rintro rfl
  exact h (by decide)

/-- What is read as a header is the header of the field, and its code is not zero. -/
theorem header_of_decodeHeader {bytes rest : Bytes} {field : FieldId}
    (h : decodeHeader bytes = .ok (field, rest)) :
    field.fieldCode ≠ 0 ∧ bytes = field.header ++ rest := by
  cases bytes with
  | nil => cases h
  | cons first tail =>
    obtain ⟨hfirst, hhigh, hlow⟩ := eq_of_nibbles first
    simp only [decodeHeader] at h
    by_cases hz : first / 16 = 0 ∧ first % 16 = 0
    · -- both codes stand in bytes of their own
      rw [if_pos hz] at h
      split at h
      · next type code tail' =>
        obtain ⟨_, hlong, h⟩ := bind_eq_ok_iff.mp h
        obtain ⟨ht, rfl⟩ := longCode_eq_ok_iff.mp hlong
        obtain ⟨_, hlong, h⟩ := bind_eq_ok_iff.mp h
        obtain ⟨hc, rfl⟩ := longCode_eq_ok_iff.mp hlong
        obtain ⟨found, hcodes, h⟩ := bind_eq_ok_iff.mp h
        cases h
        obtain ⟨rfl, rfl⟩ := ofCodes_eq_ok_iff.mp hcodes
        rw [hz.1, hz.2, UInt8.zero_mul, UInt8.zero_add] at hfirst
        exact ⟨ne_zero_of_long hc, by simp [header, ht, hc, hfirst]⟩
      · exact absurd h throw_ne_ok
    rw [if_neg hz] at h
    by_cases hhigh0 : first / 16 = 0
    · -- only the type code does
      rw [if_pos hhigh0] at h
      split at h
      · next type tail' =>
        obtain ⟨_, hlong, h⟩ := bind_eq_ok_iff.mp h
        obtain ⟨ht, rfl⟩ := longCode_eq_ok_iff.mp hlong
        obtain ⟨found, hcodes, h⟩ := bind_eq_ok_iff.mp h
        cases h
        obtain ⟨rfl, hc⟩ := ofCodes_eq_ok_iff.mp hcodes
        rw [hhigh0, UInt8.zero_mul, UInt8.zero_add, ← hc] at hfirst
        rw [← hc] at hlow hz
        exact ⟨fun h0 => hz ⟨hhigh0, h0⟩, by simp [header, ht, hlow, hfirst]⟩
      · exact absurd h throw_ne_ok
    rw [if_neg hhigh0] at h
    by_cases hlow0 : first % 16 = 0
    · -- only the field code does
      rw [if_pos hlow0] at h
      split at h
      · next code tail' =>
        obtain ⟨_, hlong, h⟩ := bind_eq_ok_iff.mp h
        obtain ⟨hc, rfl⟩ := longCode_eq_ok_iff.mp hlong
        obtain ⟨found, hcodes, h⟩ := bind_eq_ok_iff.mp h
        cases h
        obtain ⟨ht, rfl⟩ := ofCodes_eq_ok_iff.mp hcodes
        rw [hlow0, UInt8.add_zero, ← ht] at hfirst
        rw [← ht] at hhigh
        exact ⟨ne_zero_of_long hc, by simp [header, hc, hhigh, hfirst]⟩
      · exact absurd h throw_ne_ok
    -- the first byte holds both
    rw [if_neg hlow0] at h
    obtain ⟨found, hcodes, h⟩ := bind_eq_ok_iff.mp h
    cases h
    obtain ⟨ht, hc⟩ := ofCodes_eq_ok_iff.mp hcodes
    rw [← ht, ← hc] at hfirst
    rw [← ht] at hhigh
    rw [← hc] at hlow hlow0
    exact ⟨hlow0, by simp [header, hhigh, hlow, hfirst]⟩

/-- Headers are read exactly as they are written, for fields whose code is not zero. -/
theorem decodeHeader_eq_ok_iff {bytes rest : Bytes} {field : FieldId} :
    decodeHeader bytes = .ok (field, rest) ↔
      field.fieldCode ≠ 0 ∧ bytes = field.header ++ rest := by
  constructor
  · exact header_of_decodeHeader
  · rintro ⟨h, rfl⟩
    exact decodeHeader_header_append h rest

/-- A header is read back in front of any bytes exactly if the code of its field is not zero, since
a zero tells that the code stands in a byte of its own. Whatever is read as a header, the bytes that
were taken are the header of the field, and the code of the field is not zero. -/
theorem decodeHeader_exact (field : FieldId) :
    (∀ rest, decodeHeader (field.header ++ rest) = .ok (field, rest) ↔ field.fieldCode ≠ 0) ∧
      ∀ bytes rest, decodeHeader bytes = .ok (field, rest) →
        field.fieldCode ≠ 0 ∧ bytes.take (bytes.length - rest.length) = field.header ∧
          bytes.drop (bytes.length - rest.length) = rest := by
  constructor
  · intro rest
    rw [decodeHeader_eq_ok_iff]
    exact and_iff_left rfl
  · intro bytes rest h
    obtain ⟨hcode, rfl⟩ := decodeHeader_eq_ok_iff.mp h
    have htaken : (field.header ++ rest).length - rest.length = field.header.length := by
      rw [List.length_append, Nat.add_sub_cancel]
    rw [htaken]
    exact ⟨hcode, List.take_left, List.drop_left⟩

/-- The header of a digest with the code zero is cut short, and with one more byte it is the header
of another digest. -/
theorem decodeHeader_zeroCode :
    decodeHeader (FieldId.header ⟨.hash256, 0⟩) = .error (.truncated 2 1) ∧
      decodeHeader (FieldId.header ⟨.hash256, 0⟩ ++ [0x11]) = .ok (invoiceId, []) ∧
      decodeHeader (FieldId.header ⟨.hash256, 0⟩ ++ [0x11]) ≠ .ok (⟨.hash256, 0⟩, [0x11]) := by
  have hread : decodeHeader (FieldId.header ⟨.hash256, 0⟩ ++ [0x11]) = .ok (invoiceId, []) := rfl
  refine ⟨rfl, hread, ?_⟩
  rw [hread, ne_eq, Except.ok.injEq, Prod.mk.injEq]
  decide

/-- What is wrong with a header stays wrong, unless the header is not there yet. -/
theorem decodeHeader_append_of_error {bytes : Bytes} {e : CodecError}
    (h : decodeHeader bytes = .error e) (hlasting : e.isRecoverable = false) (more : Bytes) :
    decodeHeader (bytes ++ more) = .error e := by
  cases bytes with
  | nil =>
    cases h
    cases hlasting
  | cons first tail =>
    -- where all the bytes of the header are there, its fields are looked at and nothing else
    simp only [decodeHeader, List.cons_append] at h ⊢
    by_cases hz : first / 16 = 0 ∧ first % 16 = 0
    · rw [if_pos hz] at h ⊢
      rcases tail with _ | ⟨type, _ | ⟨code, tail⟩⟩
      · cases h
        cases hlasting
      · cases h
        cases hlasting
      · simp only [List.cons_append, bind_eq_error_iff, pure_ne_error] at h ⊢
        exact h
    rw [if_neg hz] at h ⊢
    by_cases hhigh : first / 16 = 0
    · rw [if_pos hhigh] at h ⊢
      rcases tail with _ | ⟨type, tail⟩
      · cases h
        cases hlasting
      · simp only [List.cons_append, bind_eq_error_iff, pure_ne_error] at h ⊢
        exact h
    rw [if_neg hhigh] at h ⊢
    by_cases hlow : first % 16 = 0
    · rw [if_pos hlow] at h ⊢
      rcases tail with _ | ⟨code, tail⟩
      · cases h
        cases hlasting
      · simp only [List.cons_append, bind_eq_error_iff, pure_ne_error] at h ⊢
        exact h
    rw [if_neg hlow] at h ⊢
    simp only [bind_eq_error_iff, pure_ne_error] at h ⊢
    exact h

/-- No further bytes mend a code that stands in a byte of its own without need. -/
theorem longCode_lasting {what : String} {code : UInt8} {e : CodecError}
    (h : longCode what code = .error e) : e.isRecoverable = false := by
  unfold longCode at h
  split at h
  · cases h
    rfl
  · cases h

/-- No further bytes mend a code that no type has. -/
theorem ofCodes_lasting {type code : UInt8} {e : CodecError}
    (h : ofCodes type code = .error e) : e.isRecoverable = false := by
  unfold ofCodes at h
  split at h
  · cases h
  · cases h
    rfl

/-- With three bytes a header is judged, whichever of the four forms it has. -/
theorem length_lt_of_recoverable {bytes : Bytes} {e : CodecError}
    (h : decodeHeader bytes = .error e) (hrecoverable : e.isRecoverable = true) :
    bytes.length < 3 := by
  rcases bytes with _ | ⟨first, _ | ⟨second, _ | ⟨third, tail⟩⟩⟩
  · simp
  · simp
  · simp
  · have hlasting : e.isRecoverable = false := by
      simp only [decodeHeader] at h
      repeat' split at h
      all_goals
        simp only [bind_eq_error_iff, pure_ne_error, and_false, exists_false, or_false] at h
      · rcases h with h | ⟨_, -, h | ⟨_, -, h⟩⟩
        · exact longCode_lasting h
        · exact longCode_lasting h
        · exact ofCodes_lasting h
      · rcases h with h | ⟨_, -, h⟩
        · exact longCode_lasting h
        · exact ofCodes_lasting h
      · rcases h with h | ⟨_, -, h⟩
        · exact longCode_lasting h
        · exact ofCodes_lasting h
      · exact ofCodes_lasting h
    rw [hlasting] at hrecoverable
    cases hrecoverable

end FieldId

namespace LengthMarker

/-- A length within the limit passes the check. -/
theorem checked_of_le {length : Nat} (h : length ≤ limit) (rest : Bytes) :
    checked length rest = .ok (length, rest) :=
  if_pos h

/-- A length that passes the check is within the limit. -/
theorem le_of_checked {n length : Nat} {rest after : Bytes}
    (h : checked n rest = .ok (length, after)) : n ≤ limit := by
  unfold checked at h
  split at h
  · assumption
  · cases h

/-- Exactly the lengths within the limit have a marker. -/
theorem encode_isOk_iff {length : Nat} : (∃ marker, encode length = .ok marker) ↔ length ≤ limit := by
  unfold encode limit
  constructor
  · rintro ⟨marker, h⟩
    repeat' split at h
    all_goals first
      | omega
      | cases h
  · intro h
    repeat' split
    all_goals exact ⟨_, rfl⟩

/-- A number below 256 is not changed by standing in a byte. -/
theorem toNat_ofNat_of_lt {n : Nat} (h : n < 256) : (UInt8.ofNat n).toNat = n := by
  rw [UInt8.toNat_ofNat', Nat.mod_eq_of_lt h]

/-- A marker is read back, whatever follows it. -/
theorem decode_append_of_encode {length : Nat} {marker : Bytes} (h : encode length = .ok marker)
    (rest : Bytes) : decode (marker ++ rest) = .ok (length, rest) := by
  have hlimit : length ≤ limit := encode_isOk_iff.mp ⟨marker, h⟩
  unfold encode at h
  split at h
  · cases h
    have hb1 : (UInt8.ofNat length).toNat = length := toNat_ofNat_of_lt (by omega)
    simp only [List.cons_append, List.nil_append, decode, hb1]
    rw [if_pos (by omega), checked_of_le hlimit]
  · split at h
    · cases h
      have hb1 : (UInt8.ofNat (193 + (length - 193) / 256)).toNat = 193 + (length - 193) / 256 :=
        toNat_ofNat_of_lt (by omega)
      have hb2 : (UInt8.ofNat ((length - 193) % 256)).toNat = (length - 193) % 256 :=
        toNat_ofNat_of_lt (by omega)
      have hlength : 193 + (193 + (length - 193) / 256 - 193) * 256 + (length - 193) % 256 = length := by
        omega
      simp only [List.cons_append, List.nil_append, decode, hb1, hb2, hlength]
      rw [if_neg (by omega), if_pos (by omega), checked_of_le hlimit]
    · cases h
      have hmax : length ≤ 918744 := hlimit
      have hb1 : (UInt8.ofNat (241 + (length - 12481) / 65536)).toNat
          = 241 + (length - 12481) / 65536 := toNat_ofNat_of_lt (by omega)
      have hb2 : (UInt8.ofNat ((length - 12481) / 256 % 256)).toNat
          = (length - 12481) / 256 % 256 := toNat_ofNat_of_lt (by omega)
      have hb3 : (UInt8.ofNat ((length - 12481) % 256)).toNat = (length - 12481) % 256 :=
        toNat_ofNat_of_lt (by omega)
      have hlength : 12481 + (241 + (length - 12481) / 65536 - 241) * 65536
          + (length - 12481) / 256 % 256 * 256 + (length - 12481) % 256 = length := by
        omega
      simp only [List.cons_append, List.nil_append, decode, hb1, hb2, hb3, hlength]
      rw [if_neg (by omega), if_neg (by omega), if_pos (by omega), checked_of_le hlimit]

/-- The first byte of a marker of one byte is the length itself. -/
theorem encode_one {b1 : UInt8} (h1 : b1.toNat ≤ 192) : encode b1.toNat = .ok [b1] := by
  rw [encode, if_pos h1, UInt8.ofNat_toNat]

/-- Two bytes are the marker of the length that they spell. -/
theorem encode_two {b1 b2 : UInt8} (h1 : ¬b1.toNat ≤ 192) (h2 : b1.toNat ≤ 240) :
    encode (193 + (b1.toNat - 193) * 256 + b2.toNat) = .ok [b1, b2] := by
  have hb2 := b2.toNat_lt
  have hhigh : 193 + (193 + (b1.toNat - 193) * 256 + b2.toNat - 193) / 256 = b1.toNat := by
    omega
  have hlow : (193 + (b1.toNat - 193) * 256 + b2.toNat - 193) % 256 = b2.toNat := by
    omega
  simp only [encode]
  rw [if_neg (by omega), if_pos (by omega), hhigh, hlow, UInt8.ofNat_toNat, UInt8.ofNat_toNat]

/-- Three bytes are the marker of the length that they spell, if it is within the limit. -/
theorem encode_three {b1 b2 b3 : UInt8} (h2 : ¬b1.toNat ≤ 240)
    (hlimit : 12481 + (b1.toNat - 241) * 65536 + b2.toNat * 256 + b3.toNat ≤ limit) :
    encode (12481 + (b1.toNat - 241) * 65536 + b2.toNat * 256 + b3.toNat) = .ok [b1, b2, b3] := by
  have hb2 := b2.toNat_lt
  have hb3 := b3.toNat_lt
  have hhigh : 241 + (12481 + (b1.toNat - 241) * 65536 + b2.toNat * 256 + b3.toNat
      - 12481) / 65536 = b1.toNat := by
    omega
  have hmiddle : (12481 + (b1.toNat - 241) * 65536 + b2.toNat * 256 + b3.toNat
      - 12481) / 256 % 256 = b2.toNat := by
    omega
  have hlow : (12481 + (b1.toNat - 241) * 65536 + b2.toNat * 256 + b3.toNat
      - 12481) % 256 = b3.toNat := by
    omega
  simp only [encode]
  rw [if_neg (by omega), if_neg (by omega), if_pos hlimit, hhigh, hmiddle, hlow,
    UInt8.ofNat_toNat, UInt8.ofNat_toNat, UInt8.ofNat_toNat]

/-- What is read as a marker is the marker of the length. -/
theorem encode_of_decode {bytes rest : Bytes} {length : Nat}
    (h : decode bytes = .ok (length, rest)) :
    ∃ marker, encode length = .ok marker ∧ bytes = marker ++ rest := by
  cases bytes with
  | nil => cases h
  | cons first tail =>
    simp only [decode] at h
    -- the first byte tells how many there are
    by_cases h1 : first.toNat ≤ 192
    · rw [if_pos h1] at h
      obtain ⟨rfl, rfl⟩ := eq_of_checked h
      exact ⟨[first], encode_one h1, rfl⟩
    rw [if_neg h1] at h
    by_cases h2 : first.toNat ≤ 240
    · rw [if_pos h2] at h
      split at h
      · next b2 tail' =>
        obtain ⟨rfl, rfl⟩ := eq_of_checked h
        exact ⟨[first, b2], encode_two h1 h2, rfl⟩
      · cases h
    rw [if_neg h2] at h
    by_cases h3 : first.toNat ≤ 254
    · rw [if_pos h3] at h
      split at h
      · next b2 b3 tail' =>
        have hlimit := le_of_checked h
        obtain ⟨rfl, rfl⟩ := eq_of_checked h
        exact ⟨[first, b2, b3], encode_three h2 hlimit, rfl⟩
      · cases h
    rw [if_neg h3] at h
    cases h

/-- Markers are read exactly as they are written. -/
theorem decode_eq_ok_iff {bytes rest : Bytes} {length : Nat} :
    decode bytes = .ok (length, rest) ↔
      ∃ marker, encode length = .ok marker ∧ bytes = marker ++ rest := by
  constructor
  · exact encode_of_decode
  · rintro ⟨marker, h, rfl⟩
    exact decode_append_of_encode h rest

/-- Two markers of one length are the same, whatever they stand in front of. -/
theorem marker_unique {length : Nat} {marker marker' rest rest' : Bytes}
    (h : decode (marker ++ rest) = .ok (length, rest))
    (h' : decode (marker' ++ rest') = .ok (length, rest')) : marker = marker' := by
  obtain ⟨written, hwritten, hbytes⟩ := decode_eq_ok_iff.mp h
  obtain ⟨written', hwritten', hbytes'⟩ := decode_eq_ok_iff.mp h'
  cases hwritten.symm.trans hwritten'
  exact (List.append_cancel_right hbytes).trans (List.append_cancel_right hbytes').symm

/-- A length up to 918744 has a marker, which is read back in front of any bytes; a greater one is
out of range. Whatever is read as the marker of a length, the bytes that were taken are the one
marker of this length. -/
theorem marker_of_length (length : Nat) :
    (length ≤ 918744 → ∃ marker, encode length = .ok marker ∧
      ∀ rest, decode (marker ++ rest) = .ok (length, rest)) ∧
    (918744 < length → encode length = .error (.range (.length length 918744))) ∧
    (∀ bytes rest, decode bytes = .ok (length, rest) →
      encode length = .ok (bytes.take (bytes.length - rest.length)) ∧
        bytes.drop (bytes.length - rest.length) = rest) ∧
    ∀ marker marker' rest rest', decode (marker ++ rest) = .ok (length, rest) →
      decode (marker' ++ rest') = .ok (length, rest') → marker = marker' := by
  refine ⟨?_, ?_, ?_, fun _ _ _ _ => marker_unique⟩
  · intro hle
    obtain ⟨marker, hmarker⟩ := encode_isOk_iff.mpr hle
    exact ⟨marker, hmarker, decode_append_of_encode hmarker⟩
  · intro hlt
    have hover : ¬length ≤ limit := Nat.not_le.mpr hlt
    rw [encode, if_neg (by omega), if_neg (by omega), if_neg hover]
    rfl
  · intro bytes rest h
    obtain ⟨marker, hmarker, rfl⟩ := decode_eq_ok_iff.mp h
    have htaken : (marker ++ rest).length - rest.length = marker.length := by
      rw [List.length_append, Nat.add_sub_cancel]
    rw [htaken, List.take_left, List.drop_left]
    exact ⟨hmarker, rfl⟩

/-- The check fails exactly for lengths beyond the limit, and names both. -/
theorem checked_eq_error_iff {length : Nat} {rest : Bytes} {e : CodecError} :
    checked length rest = .error e ↔
      ¬length ≤ limit ∧ CodecError.format (.lengthLimit length limit) = e := by
  unfold checked
  split
  · next h => simp [h]
  · next h => simp [h]

/-- A marker that is wrong stays wrong in the same way, whatever follows. -/
theorem decode_append_of_error {bytes : Bytes} {e : CodecError}
    (h : decode bytes = .error e) (hlasting : e.isRecoverable = false) (more : Bytes) :
    decode (bytes ++ more) = .error e := by
  cases bytes with
  | nil =>
    cases h
    cases hlasting
  | cons first tail =>
    simp only [decode, List.cons_append] at h ⊢
    by_cases h1 : first.toNat ≤ 192
    · rw [if_pos h1] at h ⊢
      rwa [checked_eq_error_iff] at h ⊢
    rw [if_neg h1] at h ⊢
    by_cases h2 : first.toNat ≤ 240
    · rw [if_pos h2] at h ⊢
      rcases tail with _ | ⟨b2, tail⟩
      · cases h
        cases hlasting
      · simp only [List.cons_append] at h ⊢
        rwa [checked_eq_error_iff] at h ⊢
    rw [if_neg h2] at h ⊢
    by_cases h3 : first.toNat ≤ 254
    · rw [if_pos h3] at h ⊢
      rcases tail with _ | ⟨b2, _ | ⟨b3, tail⟩⟩
      · cases h
        cases hlasting
      · cases h
        cases hlasting
      · simp only [List.cons_append] at h ⊢
        rwa [checked_eq_error_iff] at h ⊢
    rwa [if_neg h3] at h ⊢

/-- With three bytes a marker is judged, however long it is. -/
theorem length_lt_of_recoverable {bytes : Bytes} {e : CodecError}
    (h : decode bytes = .error e) (hrecoverable : e.isRecoverable = true) : bytes.length < 3 := by
  rcases bytes with _ | ⟨first, _ | ⟨second, _ | ⟨third, tail⟩⟩⟩
  · simp
  · simp
  · simp
  · have hlasting : e.isRecoverable = false := by
      simp only [decode] at h
      repeat' split at h
      all_goals first
        | obtain ⟨-, rfl⟩ := checked_eq_error_iff.mp h
          rfl
        | cases h
          rfl
    rw [hlasting] at hrecoverable
    cases hrecoverable

/-- A marker that ends too early leaves out one or two of the bytes that its first one asks for. -/
theorem recoverable_cases {first : UInt8} {tail : Bytes} {e : CodecError}
    (h : decode (first :: tail) = .error e) (hrecoverable : e.isRecoverable = true) :
    193 ≤ first.toNat ∧ first.toNat ≤ 254 ∧
      (tail = [] ∨ 241 ≤ first.toNat ∧ ∃ second, tail = [second]) := by
  have hlasting : ∀ {n : Nat} {rest : Bytes}, checked n rest ≠ .error e := by
    intro n rest hchecked
    obtain ⟨-, rfl⟩ := checked_eq_error_iff.mp hchecked
    cases hrecoverable
  simp only [decode] at h
  by_cases h1 : first.toNat ≤ 192
  · rw [if_pos h1] at h
    exact absurd h hlasting
  rw [if_neg h1] at h
  by_cases h2 : first.toNat ≤ 240
  · rw [if_pos h2] at h
    cases tail with
    | nil => exact ⟨by omega, by omega, .inl rfl⟩
    | cons second tail => exact absurd h hlasting
  rw [if_neg h2] at h
  by_cases h3 : first.toNat ≤ 254
  · rw [if_pos h3] at h
    refine ⟨by omega, h3, ?_⟩
    rcases tail with _ | ⟨second, _ | ⟨third, tail⟩⟩
    · exact .inl rfl
    · exact .inr ⟨by omega, second, rfl⟩
    · exact absurd h hlasting
  · rw [if_neg h3] at h
    cases h
    cases hrecoverable

/-- A first byte from 193 to 240 makes a marker with any second one. -/
theorem decode_two {first second : UInt8} (h1 : 193 ≤ first.toNat) (h2 : first.toNat ≤ 240) :
    decode [first, second] = .ok (193 + (first.toNat - 193) * 256 + second.toNat, []) := by
  have hsecond := second.toNat_lt
  simp only [decode]
  rw [if_neg (by omega), if_pos h2, checked_of_le (by unfold limit; omega)]

/-- A first byte from 241 to 254 makes a marker with two more, if the length is within the limit. -/
theorem decode_three_eq_ok_iff {first second third : UInt8} (h1 : 241 ≤ first.toNat)
    (h2 : first.toNat ≤ 254) {n : Nat} {tail rest : Bytes} :
    decode (first :: second :: third :: tail) = .ok (n, rest) ↔
      n = 12481 + (first.toNat - 241) * 65536 + second.toNat * 256 + third.toNat ∧ n ≤ limit ∧
        rest = tail := by
  simp only [decode]
  rw [if_neg (by omega), if_neg (by omega), if_pos h2]
  constructor
  · intro h
    have hle := le_of_checked h
    obtain ⟨rfl, rfl⟩ := eq_of_checked h
    exact ⟨rfl, hle, rfl⟩
  · rintro ⟨rfl, hle, rfl⟩
    exact checked_of_le hle rest

end LengthMarker

end XrpLedger
