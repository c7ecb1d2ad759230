import XrpLedger.Ledger.NFToken
import XrpLedger.Proofs.Object.Read
import XrpLedger.Proofs.Object.Write

/-!
# Tokens have one encoding

A token is read from exactly the bytes that it is written as: the header of its wrapper, the id and
the URI behind their headers, the URI behind its length too, and the end marker, with nothing
between them and nothing else. A token is one field with all that is nested in it, so that both
directions come down to that field (`ofBytes_eq_ok_iff_field`, `toBytes_eq_ok_iff_fits`). Only a URI
whose length no marker can tell is not written.
-/

set_option autoImplicit false

namespace XrpLedger

namespace NFToken

/-- The fields in the wrapper of a token. -/
def fields (token : NFToken) : List (FieldId × Value) := [
  (.nfTokenId, .scalar (.hash256 token.id)),
  (.uri, .scalar (.blob token.uri))]

/-- A token is read from an entry exactly if the entry is wrapped as one and has the token's fields.
-/
theorem ofEntry_eq_ok_iff {field : FieldId} {found : List (FieldId × Value)} {token : NFToken} :
    ofEntry field found = .ok token ↔ field = .nfToken ∧ found = token.fields := by
  unfold ofEntry
  constructor
  · intro h
    split at h
    · cases h
    · next hfield =>
      split at h
      · split at h
        · next hnames =>
          obtain ⟨rfl, rfl⟩ := hnames
          cases h
          exact ⟨not_not.mp hfield, rfl⟩
        · cases h
      · cases h
  · rintro ⟨rfl, rfl⟩
    rfl

/-- A token is read where the whole byte string is one field that holds it. -/
theorem ofBytes_eq_ok_iff_field {bytes : Bytes} {token : NFToken} :
    ofBytes bytes = .ok token ↔
      Reader.field.run bytes = .ok ((.nfToken, .object token.fields), []) := by
  simp only [ofBytes, bind_eq_ok_iff]
  constructor
  · rintro ⟨⟨⟨field, value⟩, rest⟩, hrun, h⟩
    split at h
    · exact absurd h throw_ne_ok
    · next hleft =>
      have hrest : rest = [] := by simpa using hleft
      cases value with
      | object found =>
        obtain ⟨rfl, rfl⟩ := ofEntry_eq_ok_iff.mp h
        rw [hrun, hrest]
      | scalar value => exact absurd h throw_ne_ok
      | array entries => exact absurd h throw_ne_ok
  · intro hrun
    exact ⟨_, hrun, ofEntry_eq_ok_iff.mpr ⟨rfl, rfl⟩⟩

/-- A wrapped token is in order but for the length of its URI, so that this alone decides whether it
is written. -/
theorem toBytes_eq_ok_iff_fits {token : NFToken} {bytes : Bytes} :
    token.toBytes = .ok bytes ↔
      token.uri.length ≤ LengthMarker.limit ∧ bytes = Value.fieldBytes token.toObject.fields := by
  have hrank : FieldId.nfTokenId.rank < FieldId.uri.rank := by decide
  have hregular : Value.RegularFields token.toObject.fields ↔
      token.uri.length ≤ LengthMarker.limit := by
    simp only [toObject, Value.RegularFields, Value.Regular, Scalar.Fits]
    constructor
    · rintro ⟨-, ⟨-, -, -, -, hfits, -⟩, -⟩
      exact hfits
    · intro hfits
      exact ⟨rfl, ⟨rfl, trivial, List.forall_mem_singleton.mpr hrank, rfl, hfits,
        List.forall_mem_nil _, trivial⟩, List.forall_mem_nil _, trivial⟩
  rw [toBytes, Object.toBytes_eq_ok_iff, hregular]

/-- The bytes of a token: four headers, and between them the id and the URI behind its length. -/
theorem toBytes_eq_ok_iff_layout {token : NFToken} {bytes : Bytes} :
    token.toBytes = .ok bytes ↔
      ∃ marker, LengthMarker.encode token.uri.length = .ok marker ∧
        bytes = [0xEC, 0x5A] ++ token.id.toList ++ [0x75] ++ marker ++ token.uri ++ [0xE1] := by
  have hbytes : Value.fieldBytes token.toObject.fields
      = [0xEC, 0x5A] ++ token.id.toList ++ [0x75] ++ (Scalar.blob token.uri).payload ++ [0xE1] := by
    have hid : (Scalar.hash256 token.id).payload = token.id.toList := rfl
    simp only [toObject, Value.fieldBytes, Value.payload, hid, List.append_nil, List.append_assoc]
    rfl
  have hblob (written : Bytes) :
      token.uri.length ≤ LengthMarker.limit ∧ written = (Scalar.blob token.uri).payload ↔
        ∃ marker, LengthMarker.encode token.uri.length = .ok marker ∧
          marker ++ token.uri = written := by
    have hencode : (Scalar.blob token.uri).encode = .ok written ↔ _ := Scalar.encode_eq_ok_iff
    exact hencode.symm.trans map_eq_ok_iff
  rw [toBytes_eq_ok_iff_fits, hbytes]
  constructor
  · rintro ⟨hfits, rfl⟩
    obtain ⟨marker, hmarker, hwritten⟩ := (hblob _).mp ⟨hfits, rfl⟩
    exact ⟨marker, hmarker, by rw [← hwritten]; simp only [List.append_assoc]⟩
  · rintro ⟨marker, hmarker, rfl⟩
    obtain ⟨hfits, hwritten⟩ := (hblob _).mpr ⟨marker, hmarker, rfl⟩
    exact ⟨hfits, by rw [← hwritten]; simp only [List.append_assoc]⟩

/-- A token is read from exactly the bytes that it is written as. -/
theorem ofBytes_eq_ok_iff {bytes : Bytes} {token : NFToken} :
    ofBytes bytes = .ok token ↔ token.toBytes = .ok bytes := by
  have hproper : (Value.object token.fields).Proper :=
    ⟨by decide, trivial, by decide, trivial, trivial⟩
  have hdepth : (Value.object token.fields).depth ≤ Reader.depthLimit := by
    simp [fields, Value.depth, Value.fieldsDepth, Reader.depthLimit]
  rw [ofBytes_eq_ok_iff_field, Reader.run_field_eq_ok_iff, toBytes, Object.toBytes_eq_ok_iff]
  constructor
  · rintro ⟨-, ⟨htype, hregular, -, -⟩, hbytes⟩
    exact ⟨⟨htype, hregular, List.forall_mem_nil _, trivial⟩, hbytes⟩
  · rintro ⟨⟨htype, hregular, -, -⟩, hbytes⟩
    exact ⟨by decide, ⟨htype, hregular, hproper, hdepth⟩, hbytes⟩

/-- A token is read from exactly the bytes that it is written as. These are the header of the
wrapper, the id behind its header, the URI behind its header and its length, and the end marker, and
nothing else is a token. A token is written and read back exactly if a marker can tell the length of
its URI. -/
theorem encodings_of_token (bytes : Bytes) (token : NFToken) :
    (ofBytes bytes = .ok token ↔ token.toBytes = .ok bytes) ∧
      (ofBytes bytes = .ok token ↔
        ∃ marker, LengthMarker.encode token.uri.length = .ok marker ∧
          bytes = [0xEC, 0x5A] ++ token.id.toList ++ [0x75] ++ marker ++ token.uri ++ [0xE1]) ∧
      ((∃ written, token.toBytes = .ok written ∧ ofBytes written = .ok token) ↔
        token.uri.length ≤ 918744) := by
  refine ⟨ofBytes_eq_ok_iff, ofBytes_eq_ok_iff.trans toBytes_eq_ok_iff_layout, ?_⟩
  constructor
  · rintro ⟨written, hwritten, -⟩
    exact (toBytes_eq_ok_iff_fits.mp hwritten).1
  · intro hfits
    have hwritten := toBytes_eq_ok_iff_fits.mpr ⟨hfits, rfl⟩
    exact ⟨_, hwritten, ofBytes_eq_ok_iff.mpr hwritten⟩

end NFToken

end XrpLedger
