import XrpLedger.Error

/-!
# Field headers and length markers

A field starts with its header: one byte that holds both codes if both are below sixteen, else a
byte with zeros in place of the larger ones, which follow it. A header has one accepted form.

A value of varying length stands behind a length marker of one to three bytes.
-/

set_option autoImplicit false

namespace XrpLedger

namespace FieldId

/-- The header of a field. -/
def header (field : FieldId) : Bytes :=
  let type := field.typeCode.code
  let code := field.fieldCode
  if type < 16 then
    if code < 16 then [type * 16 + code] else [type * 16, code]
  else if code < 16 then [code, type]
  else [0, type, code]

/-- A code that stands in a byte of its own, which must need one. -/
def longCode (what : String) (code : UInt8) : Except CodecError UInt8 :=
  if code < 16 then .error (.format (.headerForm what code)) else .ok code

/-- The field with these codes. -/
def ofCodes (type code : UInt8) : Except CodecError FieldId :=
  match TypeCode.ofCode? type with
  | some typeCode => .ok ⟨typeCode, code⟩
  | none => .error (.mismatch (.typeCode type))

/-- The field whose header stands in front, and what follows the header. -/
def decodeHeader (bytes : Bytes) : Except CodecError (FieldId × Bytes) :=
  match bytes with
  | [] => .error (.truncated 1 0)
  | first :: rest => do
    let high := first / 16
    let low := first % 16
    if high = 0 ∧ low = 0 then
      match rest with
      | type :: code :: rest =>
        let type ← longCode "type" type
        let code ← longCode "field" code
        return (← ofCodes type code, rest)
      | _ => throw (.truncated 3 bytes.length)
    else if high = 0 then
      match rest with
      | type :: rest => return (← ofCodes (← longCode "type" type) low, rest)
      | [] => throw (.truncated 2 1)
    else if low = 0 then
      match rest with
      | code :: rest => return (← ofCodes high (← longCode "field" code), rest)
      | [] => throw (.truncated 2 1)
    else return (← ofCodes high low, rest)

/-- A header takes at least one byte. -/
theorem length_lt_of_decodeHeader {bytes rest : Bytes} {field : FieldId}
    (h : decodeHeader bytes = .ok (field, rest)) : rest.length < bytes.length := by
  unfold decodeHeader at h
  split at h
  · cases h
  · next first tail =>
    simp only [bind, Except.bind, pure, Except.pure, throw, throwThe, MonadExceptOf.throw] at h
    repeat' split at h
    all_goals first
      | cases h; simp only [List.length_cons]; omega
      | cases h

end FieldId

namespace LengthMarker

/-- The greatest length a marker can tell. -/
def limit : Nat := 918744

/-- The marker of a length. -/
def encode (length : Nat) : Except CodecError Bytes :=
  if length ≤ 192 then .ok [UInt8.ofNat length]
  else if length ≤ 12480 then
    let n := length - 193
    .ok [UInt8.ofNat (193 + n / 256), UInt8.ofNat (n % 256)]
  else if length ≤ limit then
    let n := length - 12481
    .ok [UInt8.ofNat (241 + n / 65536), UInt8.ofNat (n / 256 % 256), UInt8.ofNat (n % 256)]
  else .error (.range (.length length limit))

/-- A length that a marker tells, which must not exceed the greatest. -/
def checked (length : Nat) (rest : Bytes) : Except CodecError (Nat × Bytes) :=
  if length ≤ limit then .ok (length, rest) else .error (.format (.lengthLimit length limit))

/-- The length whose marker stands in front, and what follows the marker. -/
def decode (bytes : Bytes) : Except CodecError (Nat × Bytes) :=
  match bytes with
  | [] => .error (.truncated 1 0)
  | first :: rest =>
    let b1 := first.toNat
    if b1 ≤ 192 then checked b1 rest
    else if b1 ≤ 240 then
      match rest with
      | b2 :: rest => checked (193 + (b1 - 193) * 256 + b2.toNat) rest
      | [] => .error (.truncated 2 1)
    else if b1 ≤ 254 then
      match rest with
      | b2 :: b3 :: rest =>
        checked (12481 + (b1 - 241) * 65536 + b2.toNat * 256 + b3.toNat) rest
      | _ => .error (.truncated 3 bytes.length)
    else .error (.format .lengthMarker)

/-- A length that passes the check is told as it is. -/
theorem eq_of_checked {n length : Nat} {rest after : Bytes}
    (h : checked n rest = .ok (length, after)) : length = n ∧ after = rest := by
  unfold checked at h
  split at h
  · cases h
    exact ⟨rfl, rfl⟩
  · cases h

/-- A marker takes at least one byte. -/
theorem length_lt_of_decode {bytes rest : Bytes} {length : Nat}
    (h : decode bytes = .ok (length, rest)) : rest.length < bytes.length := by
  unfold decode at h
  split at h
  · cases h
  · next first tail =>
    simp only at h
    split at h
    · obtain ⟨-, rfl⟩ := eq_of_checked h
      simp
    · split at h
      · split at h
        · obtain ⟨-, rfl⟩ := eq_of_checked h
          simp only [List.length_cons]
          omega
        · cases h
      · split at h
        · split at h
          · obtain ⟨-, rfl⟩ := eq_of_checked h
            simp only [List.length_cons]
            omega
          · cases h
        · cases h

end LengthMarker

end XrpLedger
