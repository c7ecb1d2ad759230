import XrpLedger.Proofs.Object.Read
import XrpLedger.Proofs.Object.Write

/-!
# Objects have one encoding

Reading and writing are compared with the same bytes, so that they can be compared with each other.
Whatever is read is written back byte for byte. What is written is read back exactly if the object
is well formed, which is more than a writer asks for.
-/

set_option autoImplicit false

namespace XrpLedger

namespace Object

/-- A byte string that is read as an object is what the object is written as, and the only byte
string that is read as this object. -/
theorem canonical_of_ofBytes {bytes : Bytes} {object : Object} (h : ofBytes bytes = .ok object) :
    object.toBytes = .ok bytes ∧ ∀ other, ofBytes other = .ok object → other = bytes := by
  obtain ⟨hwell, hbytes⟩ := ofBytes_eq_ok_iff.mp h
  constructor
  · exact toBytes_eq_ok_iff.mpr ⟨hwell.regular, hbytes⟩
  · intro other hother
    rw [(ofBytes_eq_ok_iff.mp hother).2, hbytes]

/-- A sequence number and an array of two memos, the second of them empty, are written back. -/
theorem canonical_of_ofBytes_memos :
    ∃ object, ofBytes [0x24, 0, 0, 0, 1, 0xF9, 0xEA, 0x7D, 1, 0xAB, 0xE1, 0xEA, 0xE1, 0xF1]
        = .ok object ∧ object.fields.length = 2 ∧
      object.toBytes
        = .ok [0x24, 0, 0, 0, 1, 0xF9, 0xEA, 0x7D, 1, 0xAB, 0xE1, 0xEA, 0xE1, 0xF1] := by
  have h : ofBytes [0x24, 0, 0, 0, 1, 0xF9, 0xEA, 0x7D, 1, 0xAB, 0xE1, 0xEA, 0xE1, 0xF1]
      = .ok ⟨[(.sequence, .scalar (.uint32 1)), (.memos, .array
        [(.memo, [(.memoData, .scalar (.blob [0xAB]))]), (.memo, [])])]⟩ := by
    refine ofBytes_eq_ok_iff.mpr ⟨⟨?_, ?_, ?_⟩, ?_⟩
    · simp [Value.RegularFields, Value.Regular, Value.RegularEntries, Scalar.Fits, Value.typeCode,
        Scalar.typeCode, LengthMarker.limit]
      decide
    · simp [Value.ProperFields, Value.Proper, Value.ProperEntries]
      decide
    · decide
    · decide
  exact ⟨_, h, rfl, (canonical_of_ofBytes h).1⟩

/-- An object is read back from what it is written as exactly if it is well formed. -/
theorem roundTrips_iff_wellFormed (object : Object) :
    (∃ bytes, object.toBytes = .ok bytes ∧ ofBytes bytes = .ok object) ↔ object.WellFormed := by
  constructor
  · rintro ⟨bytes, -, hread⟩
    exact (ofBytes_eq_ok_iff.mp hread).1
  · intro hwell
    exact ⟨Value.fieldBytes object.fields, toBytes_eq_ok_iff.mpr ⟨hwell.regular, rfl⟩,
      ofBytes_eq_ok_iff.mpr ⟨hwell, rfl⟩⟩

end Object

end XrpLedger
