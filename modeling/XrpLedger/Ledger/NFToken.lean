import XrpLedger.Object.Reader
import XrpLedger.Object.Writer

/-!
# Non-fungible tokens

A token stands in an object of its own that holds its id and its URI, in this order, and nothing
else. The id is made of flags, a transfer fee, the issuer, a scrambled taxon and a sequence number.
-/

set_option autoImplicit false

namespace XrpLedger

/-- A non-fungible token. -/
structure NFToken where
  id : Hash256
  uri : Bytes
deriving DecidableEq

namespace NFToken

/-- The object that holds a token. -/
def toObject (token : NFToken) : Object :=
  ⟨[(.nfToken, .object [
    (.nfTokenId, .scalar (.hash256 token.id)),
    (.uri, .scalar (.blob token.uri))])]⟩

/-- The bytes of a token with its wrapper. -/
def toBytes (token : NFToken) : Except CodecError Bytes :=
  token.toObject.toBytes

/-- The token that the fields of a wrapper hold. -/
def ofEntry (field : FieldId) (fields : List (FieldId × Value)) : Except CodecError NFToken :=
  if field ≠ .nfToken then .error (.mismatch (.notNFToken field))
  else match fields with
    | [(first, .scalar (.hash256 id)), (second, .scalar (.blob uri))] =>
      if first = .nfTokenId ∧ second = .uri then .ok ⟨id, uri⟩
      else .error (.mismatch .nfTokenFields)
    | _ => .error (.mismatch .nfTokenFields)

/-- The token that a whole byte string holds. -/
def ofBytes (bytes : Bytes) : Except CodecError NFToken := do
  let ((field, value), rest) ← Reader.field.run bytes
  if !rest.isEmpty then throw (.mismatch (.trailing rest.length))
  else match value with
    | .object fields => ofEntry field fields
    | _ => throw (.mismatch (.notNFToken field))

/-- The number in the bytes of the id from `start` on. -/
def idPart (token : NFToken) (start count : Nat) : Nat :=
  BigEndian.value ((token.id.toList.drop start).take count)

/-- The flags of a token. -/
def flags (token : NFToken) : UInt16 :=
  UInt16.ofNat (token.idPart 0 2)

/-- The fee of a transfer in hundred-thousandths. -/
def transferFee (token : NFToken) : UInt16 :=
  UInt16.ofNat (token.idPart 2 2)

/-- The account that issued a token. -/
def issuer (token : NFToken) : AccountId :=
  ⟨⟨(token.id.toList.drop 4).take 20, by simp [token.id.length_toList]⟩⟩

/-- The number of a token among those of its issuer. -/
def sequence (token : NFToken) : UInt32 :=
  UInt32.ofNat (token.idPart 28 4)

/-- The taxon of a token, unscrambled by its sequence number. -/
def taxon (token : NFToken) : UInt32 :=
  UInt32.ofNat (token.idPart 24 4) ^^^ (384160001 * token.sequence + 2459)

end NFToken

end XrpLedger
