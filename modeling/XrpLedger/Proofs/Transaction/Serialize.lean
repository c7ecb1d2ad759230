import XrpLedger.Proofs.Object.Lengths
import XrpLedger.Proofs.Transaction.Layout

/-!
# How writing a transaction fails

The object of a transaction is in order whatever the transaction holds, so its writer fails at the
first blob that is too long and with nothing else (`Transaction.serialize_of_set`). Only a few
fields of a layout hold blobs or arrays; `Transaction.writtenBlobs` are the blobs in them, in the
order in which they stand on the wire.
-/

set_option autoImplicit false

namespace XrpLedger

/-! ## Blobs -/

/-- Whether none of these blobs is longer than a length marker can tell. -/
def FitBlobs (blobs : List Bytes) : Prop :=
  ∀ blob ∈ blobs, blob.length ≤ LengthMarker.limit

/-- All blobs of two lists fit exactly if those of each do. -/
theorem fitBlobs_append {a b : List Bytes} : FitBlobs (a ++ b) ↔ FitBlobs a ∧ FitBlobs b :=
  List.forall_mem_append

/-- All blobs fit exactly if the first and all the others do. -/
theorem fitBlobs_cons {blob : Bytes} {blobs : List Bytes} :
    FitBlobs (blob :: blobs) ↔ (Scalar.blob blob).Fits ∧ FitBlobs blobs :=
  List.forall_mem_cons

/-- Where there are no blobs, all fit. -/
theorem fitBlobs_nil : FitBlobs [] := by
  intro blob hblob
  cases hblob

/-- A blob that may be missing fits if it does when it is there. -/
theorem fitBlobs_toList {blob : Option Bytes} :
    FitBlobs blob.toList ↔ ∀ b ∈ blob, (Scalar.blob b).Fits := by
  cases blob <;> simp [FitBlobs, Scalar.Fits]

/-- All blobs of some things fit exactly if those of each do. -/
theorem fitBlobs_flatMap {α : Type} {blobs : α → List Bytes} {as : List α} :
    FitBlobs (as.flatMap blobs) ↔ ∀ a ∈ as, FitBlobs (blobs a) :=
  List.forall_mem_flatMap

/-- Not all blobs fit exactly if one is longer than a marker can tell. -/
theorem not_fitBlobs_iff {blobs : List Bytes} :
    ¬FitBlobs blobs ↔ ∃ blob ∈ blobs, LengthMarker.limit < blob.length := by
  simp [FitBlobs]

/-- Fails at the first blob that is longer than a length marker can tell. -/
def checkBlobs (blobs : List Bytes) : Except CodecError Unit :=
  forM blobs fun blob => LengthMarker.check blob.length

/-- The first blob is checked before the others. -/
theorem checkBlobs_cons (blob : Bytes) (blobs : List Bytes) :
    checkBlobs (blob :: blobs) = LengthMarker.check blob.length >>= fun _ => checkBlobs blobs :=
  List.forM_cons

/-- The blobs in front are checked before those behind. -/
theorem checkBlobs_append (a b : List Bytes) :
    checkBlobs (a ++ b) = checkBlobs a >>= fun _ => checkBlobs b :=
  List.forM_append

/-- The check passes exactly if all blobs fit. -/
theorem checkBlobs_eq_ok_iff {blobs : List Bytes} : checkBlobs blobs = .ok () ↔ FitBlobs blobs := by
  induction blobs with
  | nil => exact iff_of_true rfl fitBlobs_nil
  | cons blob rest ih =>
    rw [checkBlobs_cons, fitBlobs_cons, ← ih, LengthMarker.check, Scalar.Fits]
    split
    · next hfits => exact (and_iff_right hfits).symm
    · next hlong =>
      apply iff_of_false
      · intro hok
        cases hok
      · intro hfit
        exact hlong hfit.1

/-- The check fails exactly at the first blob that is too long, and names its length. -/
theorem checkBlobs_eq_error_iff {blobs : List Bytes} {e : CodecError} :
    checkBlobs blobs = .error e ↔
      ∃ blob, blobs.find? (fun blob => LengthMarker.limit < blob.length) = some blob ∧
        e = .range (.length blob.length LengthMarker.limit) := by
  induction blobs with
  | nil =>
    apply iff_of_false
    · intro herror
      cases herror
    · rintro ⟨_, hfind, -⟩
      cases hfind
  | cons blob rest ih =>
    rw [checkBlobs_cons, LengthMarker.check, List.find?_cons]
    by_cases hfits : blob.length ≤ LengthMarker.limit
    · rw [if_pos hfits, decide_eq_false (Nat.not_lt.mpr hfits)]
      exact ih
    · rw [if_neg hfits, decide_eq_true (Nat.lt_of_not_le hfits)]
      simp [bind, Except.bind, eq_comm]

/-! ## Slots that hold payloads -/

/-- Whether a field holds payloads behind a length, or containers in which they may stand. -/
def FieldId.isMeasured (field : FieldId) : Bool :=
  field.typeCode ∈ [TypeCode.blob, .vector256, .object, .array]

namespace Slot

variable {field : FieldId} {slots : List Slot} {layout : List FieldId}

/-- A slot with a scalar is in order exactly if the scalar is of the type of the field. -/
theorem orderly_always_iff {value : Scalar} :
    (always field value).Orderly ↔ value.typeCode = field.typeCode := by
  simp [Orderly, always, Value.typeCode, Value.Orderly]

/-- A slot with a scalar or none is in order exactly if the scalar is of the type of the field. -/
theorem orderly_optional_iff {α : Type} {wrap : α → Scalar} {value : Option α} :
    (optional field wrap value).Orderly ↔ ∀ a ∈ value, (wrap a).typeCode = field.typeCode := by
  cases value <;> simp [Orderly, optional, Value.typeCode, Value.Orderly]

/-- A slot with entries is in order if these are objects whose fields are. -/
theorem orderly_entries {entries : List (FieldId × List (FieldId × Value))}
    (hfield : field.typeCode = .array)
    (h : ∀ entry ∈ entries, entry.1.typeCode = .object ∧ Value.OrderlyFields entry.2) :
    (Slot.entries field entries).Orderly := by
  intro value hvalue
  cases entries with
  | nil => cases hvalue
  | cons entry rest =>
    cases hvalue
    exact ⟨hfield.symm, Value.orderlyEntries_of_forall h⟩

/-- Of a slot with a blob, the blob is checked. -/
theorem checkLengths_blob (field : FieldId) (value : Option Bytes) :
    (optional field .blob value).checkLengths = checkBlobs value.toList := by
  cases value with
  | none => rfl
  | some blob =>
    show LengthMarker.check blob.length = checkBlobs [blob]
    rw [checkBlobs_cons]
    cases LengthMarker.check blob.length <;> rfl

/-- Of a slot with entries, the blobs of each entry are checked, one after the other. -/
theorem checkLengths_entries {α : Type} {toEntry : α → FieldId × List (FieldId × Value)}
    {blobs : α → List Bytes}
    (h : ∀ a, Value.checkFieldLengths (toEntry a).2 = checkBlobs (blobs a)) (as : List α) :
    (entries field (as.map toEntry)).checkLengths = checkBlobs (as.flatMap blobs) := by
  have hall : Value.checkEntryLengths (as.map toEntry) = checkBlobs (as.flatMap blobs) := by
    induction as with
    | nil => rfl
    | cons a rest ih =>
      rw [List.map_cons, Value.checkEntryLengths, h, ih, List.flatMap_cons, checkBlobs_append]
  rw [← hall]
  cases as <;> rfl

/-- Nothing is checked of a field that has neither length nor entries. -/
theorem checkLengths_of_not_isMeasured {slot : Slot} (h : slot.Orderly)
    (hfield : slot.field.isMeasured = false) : slot.checkLengths = .ok () := by
  unfold checkLengths
  split
  · rfl
  · next value hvalue =>
    obtain ⟨htype, -⟩ := h value hvalue
    rw [FieldId.isMeasured, ← htype] at hfield
    cases value with
    | scalar s => cases s <;> first | rfl | cases hfield
    | object fields => cases hfield
    | array entries => cases hfield

/-- Leaving out fields of arranged slots is arranging them by a layout without these fields. -/
theorem filter_arrange (keep : FieldId → Bool) (layout : List FieldId) (slots : List Slot) :
    (arrange layout slots).filter (fun slot => keep slot.field)
      = arrange (layout.filter keep) slots := by
  rw [arrange, arrange, List.filter_filterMap, List.filterMap_filter]
  congr 1
  funext field
  cases hfind : slots.find? fun slot => slot.field = field with
  | none => simp
  | some slot =>
    have hslot : slot.field = field := by simpa using List.find?_some hfind
    simp [Option.filter, hslot]

/-- Arranged slots are in order if all slots are. -/
theorem orderly_of_mem_arrange (hlayout : FieldId.Ascend layout)
    (hslots : (slots.map (·.field)).Perm layout) (h : ∀ slot ∈ slots, slot.Orderly) :
    ∀ slot ∈ arrange layout slots, slot.Orderly := by
  intro slot hslot
  have hnodup : (slots.map (·.field)).Nodup := hslots.nodup_iff.mpr hlayout.nodup
  exact h slot ((mem_arrange_iff hnodup).mp hslot).2

/-- Slots in order that are arranged by an ascending layout are written as fields in order. -/
theorem orderlyFields_arrange (hlayout : FieldId.Ascend layout)
    (hslots : (slots.map (·.field)).Perm layout) (h : ∀ slot ∈ slots, slot.Orderly) :
    Value.OrderlyFields (written (arrange layout slots)) := by
  have hfields : (arrange layout slots).map (·.field) = layout :=
    map_field_arrange fun field hfield => hslots.mem_iff.mpr hfield
  exact orderlyFields_written (hfields.symm ▸ hlayout) (orderly_of_mem_arrange hlayout hslots h)

/-- Only the fields of a layout that hold payloads can be too long. -/
theorem checkLengths_arrange (hlayout : FieldId.Ascend layout)
    (hslots : (slots.map (·.field)).Perm layout) (h : ∀ slot ∈ slots, slot.Orderly) :
    forM (arrange layout slots) checkLengths
      = forM (arrange (layout.filter FieldId.isMeasured) slots) checkLengths := by
  have horderly := orderly_of_mem_arrange hlayout hslots h
  rw [← filter_arrange]
  generalize arrange layout slots = arranged at horderly
  induction arranged with
  | nil => rfl
  | cons slot rest ih =>
    obtain ⟨hslot, hrest⟩ := List.forall_mem_cons.mp horderly
    rw [List.forM_cons, ih hrest, List.filter_cons]
    split
    · rw [List.forM_cons]
    · next hfield =>
      rw [checkLengths_of_not_isMeasured hslot (Bool.of_not_eq_true hfield)]
      rfl

end Slot

/-! ## Entries of arrays -/

/-- The texts of a memo, in the order in which they are written. -/
def Memo.blobs (memo : Memo) : List Bytes :=
  memo.memoType.toList ++ memo.memoData.toList ++ memo.memoFormat.toList

/-- The public key and the signature of a signer, in the order in which they are written. -/
def Signer.blobs (signer : Signer) : List Bytes :=
  [signer.signingPubKey, signer.txnSignature]

/-- A memo is written as an object whose fields are in order. -/
theorem Memo.orderly_toEntry (memo : Memo) :
    memo.toEntry.1.typeCode = .object ∧ Value.OrderlyFields memo.toEntry.2 := by
  have hascend : FieldId.Ascend [.memoType, .memoData, .memoFormat] := by decide
  refine ⟨rfl, Slot.orderlyFields_written hascend ?_⟩
  simp +decide [slots, Slot.orderly_optional_iff, Scalar.typeCode]

/-- A signer is written as an object whose fields are in order. -/
theorem Signer.orderly_toEntry (signer : Signer) :
    signer.toEntry.1.typeCode = .object ∧ Value.OrderlyFields signer.toEntry.2 := by
  have hascend : FieldId.Ascend [.signingPubKey, .txnSignature, .account] := by decide
  refine ⟨rfl, Slot.orderlyFields_written hascend ?_⟩
  simp +decide [slots, Slot.orderly_always_iff, Scalar.typeCode]

/-- A member of a signer list is written as an object whose fields are in order. -/
theorem SignerEntry.orderly_toEntry (member : SignerEntry) :
    member.toEntry.1.typeCode = .object ∧ Value.OrderlyFields member.toEntry.2 := by
  have hascend : FieldId.Ascend [.signerWeight, .account] := by decide
  refine ⟨rfl, Slot.orderlyFields_written hascend ?_⟩
  simp +decide [slots, Slot.orderly_always_iff, Scalar.typeCode]

/-- Of a memo, the texts are checked. -/
theorem Memo.checkFieldLengths_toEntry (memo : Memo) :
    Value.checkFieldLengths memo.toEntry.2 = checkBlobs memo.blobs := by
  rw [toEntry, Slot.checkFieldLengths_written, slots, blobs, checkBlobs_append, checkBlobs_append,
    List.forM_cons, List.forM_cons, List.forM_cons, Slot.checkLengths_blob, Slot.checkLengths_blob,
    Slot.checkLengths_blob, bind_assoc]
  cases checkBlobs memo.memoType.toList with
  | error e => rfl
  | ok _ =>
    cases checkBlobs memo.memoData.toList with
    | error e => rfl
    | ok _ => cases checkBlobs memo.memoFormat.toList <;> rfl

/-- Of a signer, public key and signature are checked. -/
theorem Signer.checkFieldLengths_toEntry (signer : Signer) :
    Value.checkFieldLengths signer.toEntry.2 = checkBlobs signer.blobs := by
  rw [toEntry, Slot.checkFieldLengths_written]
  rfl

/-- Of a member of a signer list, nothing is checked. -/
theorem SignerEntry.checkFieldLengths_toEntry (member : SignerEntry) :
    Value.checkFieldLengths member.toEntry.2 = checkBlobs [] := by
  rw [toEntry, Slot.checkFieldLengths_written]
  rfl

/-- Whether an error is one that a writer tells when its calls do not fit each other: a field or its
value stands in a wrong place, or a container is not closed as it was opened. -/
def CodecError.isMisuse : CodecError → Bool
  | .mismatch (.fieldType _ _) => true
  | .mismatch (.writeOrder _ _) => true
  | .mismatch (.arrayHolds _ _) => true
  | .mismatch (.closing _ _ _) => true
  | .mismatch (.nothingOpen _) => true
  | .mismatch (.neverClosed _ _) => true
  | _ => false

namespace Transaction

/-! ## The blobs that are written -/

/-- The blobs of the details that stand in front of the public key. -/
def Details.leadingBlobs : Details → List Bytes
  | .accountSet d => d.messageKey.toList
  | _ => []

/-- The blobs of the details that stand behind the signature. -/
def Details.trailingBlobs : Details → List Bytes
  | .accountSet d => d.domain.toList
  | _ => []

/-- The blobs of a transaction in the order in which they are written, for signing or whole. -/
def writtenBlobs (tx : Transaction) (forSigning : Bool) : List Bytes :=
  tx.details.leadingBlobs ++ (tx.common.signingPubKey ::
    ((if forSigning then none else tx.common.txnSignature).toList ++ (tx.details.trailingBlobs ++
      ((if forSigning then [] else tx.common.signers.flatMap Signer.blobs)
        ++ tx.common.memos.flatMap Memo.blobs))))

section Slots

variable (tx : Transaction) (sequence : UInt32) (fee : XrpAmount) (forSigning : Bool)

/-- Every slot of a transaction is in order. -/
theorem orderly_of_mem_slots : ∀ slot ∈ tx.slots sequence fee forSigning, slot.Orderly := by
  have hsigners : (Slot.entries .signers
      (if forSigning then [] else tx.common.signers.map Signer.toEntry)).Orderly := by
    apply Slot.orderly_entries rfl
    split
    · exact List.forall_mem_nil _
    · exact List.forall_mem_map.mpr fun signer _ => signer.orderly_toEntry
  have hmemos : (Slot.entries .memos (tx.common.memos.map Memo.toEntry)).Orderly :=
    Slot.orderly_entries rfl (List.forall_mem_map.mpr fun memo _ => memo.orderly_toEntry)
  have hcommon : ∀ slot ∈ tx.common.slots tx.type sequence fee forSigning, slot.Orderly := by
    simp +decide [Common.slots, Slot.orderly_always_iff, Slot.orderly_optional_iff, hsigners,
      hmemos, Scalar.typeCode]
  have hdetails : ∀ slot ∈ tx.details.slots, slot.Orderly := by
    cases tx.details with
    | signerListSet d =>
      have hmembers :
          (Slot.entries .signerEntries (d.signerEntries.map SignerEntry.toEntry)).Orderly :=
        Slot.orderly_entries rfl (List.forall_mem_map.mpr fun member _ => member.orderly_toEntry)
      simp +decide [Details.slots, Slot.orderly_always_iff, hmembers, Scalar.typeCode]
    | _ =>
      simp +decide [Details.slots, Slot.orderly_always_iff, Slot.orderly_optional_iff,
        Scalar.typeCode]
  exact List.forall_mem_append.mpr ⟨hcommon, hdetails⟩

/-- Of the slot of the public key, its length is checked. -/
theorem checkLengths_key (common : Common) :
    (Slot.always .signingPubKey (.blob common.signingPubKey)).checkLengths
      = LengthMarker.check common.signingPubKey.length := rfl

/-- Of the slot of the signers, their blobs are checked, unless it is left out for signing. -/
theorem checkLengths_signers (common : Common) :
    (Slot.entries .signers
      (if forSigning then [] else common.signers.map Signer.toEntry)).checkLengths
      = checkBlobs (if forSigning then [] else common.signers.flatMap Signer.blobs) := by
  cases forSigning with
  | true => rfl
  | false => exact Slot.checkLengths_entries Signer.checkFieldLengths_toEntry _

/-- Of the slot of the memos, their texts are checked. -/
theorem checkLengths_memos (common : Common) :
    (Slot.entries .memos (common.memos.map Memo.toEntry)).checkLengths
      = checkBlobs (common.memos.flatMap Memo.blobs) :=
  Slot.checkLengths_entries Memo.checkFieldLengths_toEntry _

/-- Of the slot of the members of a signer list, nothing is checked. -/
theorem checkLengths_members (members : List SignerEntry) :
    (Slot.entries .signerEntries (members.map SignerEntry.toEntry)).checkLengths = .ok () := by
  rw [Slot.checkLengths_entries SignerEntry.checkFieldLengths_toEntry]
  induction members with
  | nil => rfl
  | cons member rest ih => exact ih

/-- The fields of a transaction that hold payloads hold its blobs. -/
theorem checkLengths_slots :
    forM (Slot.arrange (tx.type.layout.filter FieldId.isMeasured)
      (tx.slots sequence fee forSigning)) Slot.checkLengths
        = checkBlobs (tx.writtenBlobs forSigning) := by
  obtain ⟨common, details⟩ := tx
  cases details with
  | accountSet d =>
    have hfields : TransactionType.accountSet.layout.filter FieldId.isMeasured
        = [.messageKey, .signingPubKey, .txnSignature, .domain, .signers, .memos] := by decide
    rw [type, Details.type, hfields]
    show forM [Slot.optional .messageKey .blob d.messageKey,
      .always .signingPubKey (.blob common.signingPubKey),
      .optional .txnSignature .blob (if forSigning then none else common.txnSignature),
      .optional .domain .blob d.domain,
      .entries .signers (if forSigning then [] else common.signers.map Signer.toEntry),
      .entries .memos (common.memos.map Memo.toEntry)] Slot.checkLengths = _
    simp only [List.forM_cons, List.forM_nil, bind_pure_unit, checkLengths_key,
      checkLengths_signers, checkLengths_memos, Slot.checkLengths_blob, writtenBlobs,
      Details.leadingBlobs, Details.trailingBlobs, checkBlobs_cons, checkBlobs_append]
  | signerListSet d =>
    have hfields : TransactionType.signerListSet.layout.filter FieldId.isMeasured
        = [.signingPubKey, .txnSignature, .signers, .signerEntries, .memos] := by decide
    rw [type, Details.type, hfields]
    show forM [Slot.always .signingPubKey (.blob common.signingPubKey),
      .optional .txnSignature .blob (if forSigning then none else common.txnSignature),
      .entries .signers (if forSigning then [] else common.signers.map Signer.toEntry),
      .entries .signerEntries (d.signerEntries.map SignerEntry.toEntry),
      .entries .memos (common.memos.map Memo.toEntry)] Slot.checkLengths = _
    simp only [List.forM_cons, List.forM_nil, bind_pure_unit, checkLengths_key,
      checkLengths_signers, checkLengths_memos, checkLengths_members, Slot.checkLengths_blob,
      writtenBlobs, Details.leadingBlobs, Details.trailingBlobs, List.nil_append, checkBlobs_cons,
      checkBlobs_append]
    rfl
  | _ =>
    -- the details have no such field, and these four are found in the common part
    show forM [Slot.always .signingPubKey (.blob common.signingPubKey),
      .optional .txnSignature .blob (if forSigning then none else common.txnSignature),
      .entries .signers (if forSigning then [] else common.signers.map Signer.toEntry),
      .entries .memos (common.memos.map Memo.toEntry)] Slot.checkLengths = _
    simp only [List.forM_cons, List.forM_nil, bind_pure_unit, checkLengths_key,
      checkLengths_signers, checkLengths_memos, Slot.checkLengths_blob, writtenBlobs,
      Details.leadingBlobs, Details.trailingBlobs, List.nil_append, checkBlobs_cons,
      checkBlobs_append]

end Slots

/-! ## What writing a transaction answers -/

section Answer

variable {tx : Transaction} {sequence : UInt32} {fee : XrpAmount} {forSigning : Bool}

/-- With sequence and fee set, a transaction is written behind the check of its blobs, as the bytes
of its slots. -/
theorem serialize_of_set (hsequence : tx.common.sequence = some sequence)
    (hfee : tx.common.fee = some fee) :
    tx.serialize forSigning = checkBlobs (tx.writtenBlobs forSigning) >>= fun _ =>
      .ok (Value.fieldBytes
        (Slot.written (Slot.arrange tx.type.layout (tx.slots sequence fee forSigning)))) := by
  have hobject : tx.toObject forSigning = .ok _ :=
    toObject_eq_ok_iff.mpr ⟨sequence, fee, hsequence, hfee, rfl⟩
  have hperm := tx.map_field_slots_perm sequence fee forSigning
  have horderly := tx.orderly_of_mem_slots sequence fee forSigning
  have hfields := Slot.orderlyFields_arrange tx.type.ascend_layout hperm horderly
  have hbytes := Object.toBytes_eq_of_orderly hfields
  rw [Slot.checkFieldLengths_written,
    Slot.checkLengths_arrange tx.type.ascend_layout hperm horderly, checkLengths_slots] at hbytes
  rw [serialize, hobject]
  exact hbytes

/-- Without a sequence, this is what is missing. -/
theorem serialize_of_sequence_unset (h : tx.common.sequence = none) :
    tx.serialize forSigning = .error (.mismatch (.missing .sequence)) := by
  rw [serialize, toObject, h]
  rfl

/-- With a sequence but no fee, the fee is what is missing. -/
theorem serialize_of_fee_unset (hsequence : tx.common.sequence = some sequence)
    (hfee : tx.common.fee = none) :
    tx.serialize forSigning = .error (.mismatch (.missing .fee)) := by
  rw [serialize, toObject, hsequence, hfee]
  rfl

/-- A transaction is written exactly if fee and sequence are set and its blobs fit. -/
theorem serialize_isOk_iff :
    (∃ bytes, tx.serialize forSigning = .ok bytes) ↔
      tx.common.fee ≠ none ∧ tx.common.sequence ≠ none ∧ FitBlobs (tx.writtenBlobs forSigning) := by
  cases hsequence : tx.common.sequence with
  | none =>
    rw [serialize_of_sequence_unset hsequence]
    simp
  | some sequence =>
    cases hfee : tx.common.fee with
    | none =>
      rw [serialize_of_fee_unset hsequence hfee]
      simp
    | some fee =>
      rw [serialize_of_set hsequence hfee, ← checkBlobs_eq_ok_iff]
      cases checkBlobs (tx.writtenBlobs forSigning) <;> simp [bind, Except.bind]

/-- Writing a transaction fails for want of a sequence, then of a fee, and then at the first blob
that is too long. -/
theorem serialize_eq_error_iff {e : CodecError} :
    tx.serialize forSigning = .error e ↔
      (tx.common.sequence = none ∧ e = .mismatch (.missing .sequence)) ∨
      (tx.common.sequence ≠ none ∧ tx.common.fee = none ∧ e = .mismatch (.missing .fee)) ∨
      (tx.common.sequence ≠ none ∧ tx.common.fee ≠ none ∧
        checkBlobs (tx.writtenBlobs forSigning) = .error e) := by
  cases hsequence : tx.common.sequence with
  | none =>
    rw [serialize_of_sequence_unset hsequence]
    simp [eq_comm]
  | some sequence =>
    cases hfee : tx.common.fee with
    | none =>
      rw [serialize_of_fee_unset hsequence hfee]
      simp [eq_comm]
    | some fee =>
      rw [serialize_of_set hsequence hfee]
      cases checkBlobs (tx.writtenBlobs forSigning) <;> simp [bind, Except.bind]

end Answer

/-- A transaction is written exactly if its fee and its sequence are set and its blobs fit.
Otherwise the sequence is asked for, or else the fee, or else the first blob that does not fit is
out of range. So the calls on the writer fit each other whatever the transaction holds. -/
theorem serialize_outcome (tx : Transaction) (forSigning : Bool) :
    ((∃ bytes, tx.serialize forSigning = .ok bytes) ↔
      tx.common.fee ≠ none ∧ tx.common.sequence ≠ none ∧ FitBlobs (tx.writtenBlobs forSigning)) ∧
    (∀ e, tx.serialize forSigning = .error e ↔
      (tx.common.sequence = none ∧ e = .mismatch (.missing .sequence)) ∨
      (tx.common.sequence ≠ none ∧ tx.common.fee = none ∧ e = .mismatch (.missing .fee)) ∨
      (tx.common.sequence ≠ none ∧ tx.common.fee ≠ none ∧
        ∃ blob, (tx.writtenBlobs forSigning).find? (fun blob => LengthMarker.limit < blob.length)
          = some blob ∧ e = .range (.length blob.length LengthMarker.limit))) ∧
    ¬∃ e, tx.serialize forSigning = .error e ∧ e.isMisuse = true := by
  refine ⟨serialize_isOk_iff, fun e => ?_, ?_⟩
  · rw [serialize_eq_error_iff, checkBlobs_eq_error_iff]
  · rintro ⟨e, herror, hmisuse⟩
    rw [serialize_eq_error_iff, checkBlobs_eq_error_iff] at herror
    rcases herror with ⟨-, rfl⟩ | ⟨-, -, rfl⟩ | ⟨-, -, blob, -, rfl⟩
    · cases hmisuse
    · cases hmisuse
    · cases hmisuse

end Transaction

end XrpLedger
