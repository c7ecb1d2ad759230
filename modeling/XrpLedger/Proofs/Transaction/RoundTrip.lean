import XrpLedger.Proofs.Object.Canonical
import XrpLedger.Proofs.Transaction.Take
import XrpLedger.Transaction.Signing

/-!
# Transactions and their blobs

An object in order is read as a transaction exactly if it is the object of that transaction, up to
arrays without entries, and has no foreign field. Since a transaction writes no such arrays,
whatever is written is read back. A blob with such an array is read all the same, and loses it when
it is written again: then the transaction has another id than the blob.
-/

set_option autoImplicit false

namespace XrpLedger

namespace Transaction

variable {tx : Transaction} {object : Object} {bytes : Bytes}

/-- An object in order is read as a transaction exactly if it becomes the object of the transaction
when arrays without entries are left out, and has only fields of the type. -/
theorem ofObject_eq_ok_iff_toObject (h : Value.RegularFields object.fields) :
    ofObject object = .ok tx ↔
      tx.toObject false = .ok object.withoutEmptyArrays ∧ object.HasOnly tx.type.layout := by
  rw [ofObject_eq_ok_iff h, toObject_eq_ok_iff]
  refine and_congr_left fun honly => ?_
  have honly' : object.withoutEmptyArrays.HasOnly tx.type.layout :=
    fun entry hentry => honly entry (List.mem_of_mem_filter hentry)
  have hwritten := fun sequence fee => Slot.eq_written_arrange_iff
    (Object.ascend_withoutEmptyArrays h.ascend) tx.type.ascend_layout
    (tx.map_field_slots_perm sequence fee false)
  simp only [hwritten, honly', and_true, Object.Fills]

/-- Bytes are read as a transaction exactly if they are an object that is the one of the
transaction, up to empty arrays, and has only fields of its layout. -/
theorem ofBytes_eq_ok_iff :
    ofBytes bytes = .ok tx ↔ ∃ object, Object.ofBytes bytes = .ok object ∧
      tx.toObject false = .ok object.withoutEmptyArrays ∧ object.HasOnly tx.type.layout := by
  rw [ofBytes, bind_eq_ok_iff]
  refine exists_congr fun object => and_congr_right fun hobject => ?_
  exact ofObject_eq_ok_iff_toObject (Object.ofBytes_eq_ok_iff.mp hobject).1.regular

/-- A transaction is read from the blob that it is written as. -/
theorem ofBytes_eq_ok_of_toBytes (h : tx.toBytes = .ok bytes) : ofBytes bytes = .ok tx := by
  obtain ⟨object, hobject, hbytes⟩ := bind_eq_ok_iff.mp h
  obtain ⟨hregular, rfl⟩ := Object.toBytes_eq_ok_iff.mp hbytes
  refine ofBytes_eq_ok_iff.mpr ⟨object, ?_, ?_, ?_⟩
  · exact Object.ofBytes_eq_ok_iff.mpr ⟨wellFormed_of_toObject hobject hregular, rfl⟩
  · rw [withoutEmptyArrays_of_toObject hobject, hobject]
  · exact fun entry hentry => (shallow_of_toObject hobject entry hentry).1

/-- Transactions that are written as the same blob are the same. -/
theorem eq_of_toBytes {other : Transaction} (h : tx.toBytes = .ok bytes)
    (hother : other.toBytes = .ok bytes) : other = tx := by
  have heq := (ofBytes_eq_ok_of_toBytes hother).symm.trans (ofBytes_eq_ok_of_toBytes h)
  exact Except.ok.inj heq

/-- Two transactions that can be written have the same blob exactly if they are the same. -/
theorem blob_eq_iff {t₁ t₂ : Transaction} {b₁ b₂ : Bytes} (h₁ : t₁.toBytes = .ok b₁)
    (h₂ : t₂.toBytes = .ok b₂) : b₁ = b₂ ↔ t₁ = t₂ := by
  constructor
  · rintro rfl
    exact eq_of_toBytes h₂ h₁
  · rintro rfl
    exact Except.ok.inj (h₁.symm.trans h₂)

/-- A transaction is read from the blob that it is written as, and no other transaction is written
as that blob. -/
theorem ofBytes_of_toBytes (h : tx.toBytes = .ok bytes) :
    ofBytes bytes = .ok tx ∧ ∀ other : Transaction, other.toBytes = .ok bytes → other = tx :=
  ⟨ofBytes_eq_ok_of_toBytes h, fun _ hother => eq_of_toBytes h hother⟩

/-- The account of zeros removes its regular key, for a fee of ten drops. -/
def keyRemoval (memos : List Memo) : Transaction where
  common := { Common.ofAccount ⟨.zero 20⟩ with
    fee := some ⟨10, by decide⟩, sequence := some 1, memos := memos }
  details := .setRegularKey ⟨none⟩

/-- The blob of this removal, up to its arrays. -/
def keyRemovalBlob (arrays : Bytes) : Bytes :=
  [0x12, 0, 5, 0x24, 0, 0, 0, 1, 0x68, 0x40, 0, 0, 0, 0, 0, 0, 10, 0x73, 0, 0x81, 20]
    ++ List.replicate 20 0 ++ arrays

/-- The removal of a key with a memo is read back from its blob. -/
theorem ofBytes_of_toBytes_keyRemoval :
    (keyRemoval [⟨none, some [0xAB], none⟩]).toBytes
        = .ok (keyRemovalBlob [0xF9, 0xEA, 0x7D, 1, 0xAB, 0xE1, 0xF1]) ∧
      ofBytes (keyRemovalBlob [0xF9, 0xEA, 0x7D, 1, 0xAB, 0xE1, 0xF1])
        = .ok (keyRemoval [⟨none, some [0xAB], none⟩]) := by
  have h : (keyRemoval [⟨none, some [0xAB], none⟩]).toBytes
      = .ok (keyRemovalBlob [0xF9, 0xEA, 0x7D, 1, 0xAB, 0xE1, 0xF1]) := rfl
  exact ⟨h, (ofBytes_of_toBytes h).1⟩

/-- What is read from a blob is written as the blob without its empty arrays and has the id of that;
it is written as the blob itself exactly if there are none. -/
theorem reencoding_of_ofBytes (h : ofBytes bytes = .ok tx) :
    ∃ object blob, Object.ofBytes bytes = .ok object ∧
      object.withoutEmptyArrays.toBytes = .ok blob ∧ tx.toBytes = .ok blob ∧
      tx.hash = .ok (idOfBlob blob) ∧
      (blob = bytes ↔ ∀ entry ∈ object.fields, entry.2.isEmptyArray = false) := by
  obtain ⟨object, hobject, hwritten, -⟩ := ofBytes_eq_ok_iff.mp h
  obtain ⟨hwell, rfl⟩ := Object.ofBytes_eq_ok_iff.mp hobject
  have hregular : Value.RegularFields object.withoutEmptyArrays.fields :=
    hwell.regular.filter fun entry => !entry.2.isEmptyArray
  have hleft : Object.ofBytes (Value.fieldBytes object.withoutEmptyArrays.fields)
      = .ok object.withoutEmptyArrays :=
    Object.ofBytes_eq_ok_iff.mpr ⟨wellFormed_of_toObject hwritten hregular, rfl⟩
  have hblob := Object.toBytes_eq_ok_iff.mpr ⟨hregular, rfl⟩
  have htx : tx.toBytes = .ok (Value.fieldBytes object.withoutEmptyArrays.fields) :=
    bind_eq_ok_iff.mpr ⟨_, hwritten, hblob⟩
  -- the blob is the same exactly if the object is, since both are read back
  refine ⟨object, _, hobject, hblob, htx, bind_eq_ok_iff.mpr ⟨_, htx, rfl⟩, ?_⟩
  rw [← Object.withoutEmptyArrays_eq_self_iff]
  constructor
  · intro heq
    rw [heq] at hleft
    exact Except.ok.inj (hleft.symm.trans hobject)
  · intro heq
    rw [heq]

/-- The blob of a removal with an array of memos that has no entries. -/
def emptyMemosBlob : Bytes :=
  keyRemovalBlob [0xF9, 0xF1]

/-- An array of memos without entries is read as no memos. -/
theorem ofBytes_emptyMemosBlob : ofBytes emptyMemosBlob = .ok (keyRemoval []) := by
  refine ofBytes_eq_ok_iff.mpr ⟨⟨[
    (.transactionType, .scalar (.uint16 5)), (.sequence, .scalar (.uint32 1)),
    (.fee, .scalar (.amount (.xrp ⟨10, by decide⟩))), (.signingPubKey, .scalar (.blob [])),
    (.account, .scalar (.account ⟨.zero 20⟩)), (.memos, .array [])]⟩, ?_, rfl, by decide⟩
  refine Object.ofBytes_eq_ok_iff.mpr ⟨⟨?_, ?_, by decide⟩, by decide⟩
  · simp [Value.RegularFields, Value.Regular, Value.RegularEntries, Scalar.Fits, Value.typeCode,
      Scalar.typeCode]
    decide
  · simp [Value.ProperFields, Value.Proper, Value.ProperEntries]
    decide

/-- The array of no memos is lost. -/
theorem reencoding_of_ofBytes_emptyMemos :
    ofBytes emptyMemosBlob = .ok (keyRemoval []) ∧
      ∃ object blob, Object.ofBytes emptyMemosBlob = .ok object ∧
        object.withoutEmptyArrays.toBytes = .ok blob ∧ (keyRemoval []).toBytes = .ok blob ∧
        (keyRemoval []).hash = .ok (idOfBlob blob) ∧
        (blob = emptyMemosBlob ↔ ∀ entry ∈ object.fields, entry.2.isEmptyArray = false) :=
  ⟨ofBytes_emptyMemosBlob, reencoding_of_ofBytes ofBytes_emptyMemosBlob⟩

/-- A transaction is not always written as the blob that it was read from. -/
theorem toBytes_ne_emptyMemosBlob :
    ofBytes emptyMemosBlob = .ok (keyRemoval []) ∧
      (keyRemoval []).toBytes ≠ .ok emptyMemosBlob := by
  refine ⟨ofBytes_emptyMemosBlob, ?_⟩
  have h : (keyRemoval []).toBytes = .ok (keyRemovalBlob []) := rfl
  rw [h, ne_eq, Except.ok.injEq]
  decide

end Transaction

end XrpLedger
