import XrpLedger.Proofs.Transaction.RoundTrip

/-!
# The fields that signatures cover

What is signed is told twice: by the switch that leaves signatures out of a transaction that is
written, and by `FieldId.isSigningField`. Both tell the same. For signing, a transaction fills the
slots that it always fills, except those of the fields that no signature covers; slots keep their
places whether they are filled or not, so that what is written is the whole object without these
fields. An array that is left out goes with its entries, and the fields in the entries of the other
arrays stay, signatures or not.
-/

set_option autoImplicit false

namespace XrpLedger

namespace Slot

/-- The slot as a signature covers it: without a value if the field is not covered. -/
def covered (slot : Slot) : Slot :=
  if slot.field.isSigningField then slot else ⟨slot.field, none⟩

/-- Covering a slot keeps its field. -/
theorem field_covered (slot : Slot) : slot.covered.field = slot.field := by
  unfold covered
  split <;> rfl

/-- The slot of a field that signatures cover keeps its value. -/
theorem covered_of_isSigningField {slot : Slot} (h : slot.field.isSigningField = true) :
    slot.covered = slot :=
  if_pos h

/-- Slots are arranged by their fields only. -/
theorem arrange_map {f : Slot → Slot} (hf : ∀ slot, (f slot).field = slot.field)
    (layout : List FieldId) (slots : List Slot) :
    arrange layout (slots.map f) = (arrange layout slots).map f := by
  simp only [arrange, List.map_filterMap, List.find?_map, Function.comp_def, hf]

/-- Slots write what a signature covers of them as they write it among the rest. -/
theorem written_map_covered (slots : List Slot) :
    written (slots.map covered) = (written slots).filter fun entry => entry.1.isSigningField := by
  induction slots with
  | nil => rfl
  | cons slot rest ih =>
    obtain ⟨field, value⟩ := slot
    rw [List.map_cons]
    cases value with
    | none =>
      have hcovered : covered ⟨field, none⟩ = ⟨field, none⟩ := ite_self _
      rw [hcovered]
      exact ih
    | some value =>
      have hcons : written (⟨field, some value⟩ :: rest) = (field, value) :: written rest := rfl
      rw [hcons, List.filter_cons, ← ih]
      by_cases hfield : field.isSigningField = true
      · rw [covered_of_isSigningField hfield, if_pos hfield]
        rfl
      · have hcovered : covered ⟨field, some value⟩ = ⟨field, none⟩ := if_neg hfield
        rw [hcovered, if_neg hfield]
        rfl

end Slot

namespace Object

/-- The object with only those of its fields that a signature covers. -/
def covered (object : Object) : Object :=
  ⟨object.fields.filter fun entry => entry.1.isSigningField⟩

end Object

namespace TransactionType

/-- Signatures cover every field of the details. -/
theorem isSigningField_of_mem_ownFields {type : TransactionType} {field : FieldId}
    (h : field ∈ type.ownFields) : field.isSigningField = true := by
  have hall : ∀ field ∈ type.ownFields, field.isSigningField = true := by
    cases type <;> decide
  exact hall field h

end TransactionType

namespace Transaction

variable {tx : Transaction}

/-- Signatures cover every slot of the details. -/
theorem map_covered_details (details : Details) :
    details.slots.map Slot.covered = details.slots := by
  have hfields : details.slots.map (·.field) = details.type.ownFields := by
    cases details <;> rfl
  have hcovered : ∀ slot ∈ details.slots, slot.covered = slot := by
    intro slot hslot
    have hfield : slot.field ∈ details.type.ownFields := hfields ▸ List.mem_map_of_mem hslot
    exact Slot.covered_of_isSigningField (TransactionType.isSigningField_of_mem_ownFields hfield)
  exact (List.map_congr_left hcovered).trans (List.map_id _)

/-- The switch empties the slots that no signature covers, and no others. -/
theorem slots_true (tx : Transaction) (sequence : UInt32) (fee : XrpAmount) :
    tx.slots sequence fee true = (tx.slots sequence fee false).map Slot.covered := by
  have hcommon : tx.common.slots tx.type sequence fee true
      = (tx.common.slots tx.type sequence fee false).map Slot.covered := rfl
  rw [slots, slots, List.map_append, ← hcommon, map_covered_details]

/-- For signing, a transaction is the object that it is otherwise, as a signature covers it. -/
theorem toObject_true {object : Object} (h : tx.toObject false = .ok object) :
    tx.toObject true = .ok object.covered := by
  obtain ⟨sequence, fee, hsequence, hfee, rfl⟩ := toObject_eq_ok_iff.mp h
  refine toObject_eq_ok_iff.mpr ⟨sequence, fee, hsequence, hfee, ?_⟩
  rw [slots_true, Slot.arrange_map Slot.field_covered, Slot.written_map_covered]
  rfl

/-- A transaction that can be written can be written for signing. Both are read as objects, and the
one for signing has the fields that a signature covers, in the same order and with the same values.
-/
theorem signingFields_of_serialize {full : Bytes} (h : tx.serialize false = .ok full) :
    ∃ part whole signed, tx.serialize true = .ok part ∧ Object.ofBytes full = .ok whole ∧
      Object.ofBytes part = .ok signed ∧
      signed.fields = whole.fields.filter fun entry => entry.1.isSigningField := by
  obtain ⟨whole, hwhole, hfull⟩ := bind_eq_ok_iff.mp h
  obtain ⟨hregular, rfl⟩ := Object.toBytes_eq_ok_iff.mp hfull
  have hcovered : Value.RegularFields whole.covered.fields := hregular.filter _
  have hsigned := toObject_true hwhole
  refine ⟨Value.fieldBytes whole.covered.fields, whole, whole.covered, ?_, ?_, ?_, rfl⟩
  · exact bind_eq_ok_iff.mpr ⟨_, hsigned, Object.toBytes_eq_ok_iff.mpr ⟨hcovered, rfl⟩⟩
  · exact Object.ofBytes_eq_ok_iff.mpr ⟨wellFormed_of_toObject hwhole hregular, rfl⟩
  · exact Object.ofBytes_eq_ok_iff.mpr ⟨wellFormed_of_toObject hsigned hcovered, rfl⟩

/-- A removal with a memo, a signature and a signer is signed like the one with the memo only. -/
theorem signingFields_of_serialize_multisigned :
    ∃ full whole signed,
      ((keyRemoval [⟨none, some [0xAB], none⟩]).withSignature [] (some [1])
        [⟨⟨.zero 20⟩, [2], [3]⟩]).serialize false = .ok full ∧
      Object.ofBytes full = .ok whole ∧
      Object.ofBytes (keyRemovalBlob [0xF9, 0xEA, 0x7D, 1, 0xAB, 0xE1, 0xF1]) = .ok signed ∧
      signed.fields = whole.fields.filter fun entry => entry.1.isSigningField := by
  have hfull : ((keyRemoval [⟨none, some [0xAB], none⟩]).withSignature [] (some [1])
        [⟨⟨.zero 20⟩, [2], [3]⟩]).serialize false
      = .ok ([0x12, 0, 5, 0x24, 0, 0, 0, 1, 0x68, 0x40, 0, 0, 0, 0, 0, 0, 10, 0x73, 0, 0x74, 1, 1,
        0x81, 20] ++ List.replicate 20 0 ++ [0xF3, 0xE0, 0x10, 0x73, 1, 2, 0x74, 1, 3, 0x81, 20]
        ++ List.replicate 20 0 ++ [0xE1, 0xF1, 0xF9, 0xEA, 0x7D, 1, 0xAB, 0xE1, 0xF1]) := rfl
  obtain ⟨part, whole, signed, hpart, hwhole, hsigned, hfields⟩ := signingFields_of_serialize hfull
  have hblob : keyRemovalBlob [0xF9, 0xEA, 0x7D, 1, 0xAB, 0xE1, 0xF1] = part := Except.ok.inj hpart
  exact ⟨_, whole, signed, hfull, hwhole, hblob ▸ hsigned, hfields⟩

end Transaction

end XrpLedger
