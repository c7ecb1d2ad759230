import XrpLedger.Proofs.Transaction.Inner
import XrpLedger.Transaction.Wire

/-!
# Objects of transactions

The layout of every type ascends and names exactly the fields that transactions of the type have
slots for. The object of a transaction is shallow: it holds scalars, and arrays, not empty, of
objects that hold scalars. So it is well formed as soon as it can be written.
-/

set_option autoImplicit false

namespace XrpLedger

/-! ## Layouts -/

namespace TransactionType

/-- The fields that only the details of a type have. -/
def ownFields : TransactionType → List FieldId
  | payment => [.destinationTag, .invoiceId, .amount, .sendMax, .deliverMin, .destination]
  | accountSet =>
    [.transferRate, .setFlag, .clearFlag, .emailHash, .messageKey, .domain, .tickSize]
  | setRegularKey => [.regularKey]
  | offerCreate => [.expiration, .offerSequence, .takerPays, .takerGets]
  | offerCancel => [.offerSequence]
  | signerListSet => [.signerQuorum, .signerEntries]
  | trustSet => [.qualityIn, .qualityOut, .limitAmount]
  | accountDelete => [.destinationTag, .destination]

/-- The fields of every layout ascend. -/
theorem ascend_layout (type : TransactionType) : FieldId.Ascend type.layout := by
  cases type <;> decide

/-- The fields of every layout are proper. -/
theorem isProper_of_mem_layout {type : TransactionType} {field : FieldId}
    (h : field ∈ type.layout) : field.IsProper := by
  have hall : ∀ field ∈ type.layout, field.IsProper := by
    cases type <;> decide
  exact hall field h

end TransactionType

namespace Transaction

/-- The fields of the common part. -/
def Common.fieldIds : List FieldId :=
  [.transactionType, .networkId, .flags, .sourceTag, .sequence, .lastLedgerSequence, .accountTxnId,
    .fee, .signingPubKey, .txnSignature, .account, .signers, .memos]

/-- A layout names the fields of the common part and of the details. -/
theorem perm_layout (type : TransactionType) :
    (Common.fieldIds ++ type.ownFields).Perm type.layout := by
  cases type <;> decide

/-- The slots of a transaction are those of the fields that its layout names. -/
theorem map_field_slots_perm (tx : Transaction) (sequence : UInt32) (fee : XrpAmount)
    (forSigning : Bool) :
    ((tx.slots sequence fee forSigning).map (·.field)).Perm tx.type.layout := by
  have hfields : (tx.slots sequence fee forSigning).map (·.field)
      = Common.fieldIds ++ tx.type.ownFields := by
    rw [slots, List.map_append]
    obtain ⟨common, details⟩ := tx
    cases details <;> rfl
  rw [hfields]
  exact perm_layout tx.type

/-- A transaction with sequence and fee becomes the object of its slots in the order of its layout.
-/
theorem toObject_eq_ok_iff {tx : Transaction} {forSigning : Bool} {object : Object} :
    tx.toObject forSigning = .ok object ↔
      ∃ sequence fee, tx.common.sequence = some sequence ∧ tx.common.fee = some fee ∧
        object = ⟨Slot.written
          (Slot.arrange tx.type.layout (tx.slots sequence fee forSigning))⟩ := by
  have hrequired : ∀ {α : Type} (field : FieldId) (value : Option α) (a : α),
      Taking.required field value = .ok a ↔ value = some a := by
    intro α field value a
    cases value <;> simp [Taking.required]
  simp only [toObject, bind_eq_ok_iff, pure_eq_ok_iff, hrequired]
  constructor
  · rintro ⟨sequence, hsequence, fee, hfee, rfl⟩
    exact ⟨sequence, fee, hsequence, hfee, rfl⟩
  · rintro ⟨sequence, fee, hsequence, hfee, rfl⟩
    exact ⟨sequence, hsequence, fee, hfee, rfl⟩

end Transaction

/-! ## Shallow values -/

/-- Whether an entry of an array is an object of proper fields that hold scalars. -/
def ShallowEntry (entry : FieldId × List (FieldId × Value)) : Prop :=
  entry.1.IsProper ∧ ∀ inner ∈ entry.2, inner.1.IsProper ∧ ∃ s, inner.2 = .scalar s

/-- Whether a value is a scalar or an array, not empty, of objects that hold scalars. -/
def Value.Shallow : Value → Prop
  | .scalar _ => True
  | .object _ => False
  | .array entries => entries ≠ [] ∧ ∀ entry ∈ entries, ShallowEntry entry

namespace Value

/-- Fields that hold scalars are proper when they are so themselves, and hold no containers. -/
theorem proper_of_scalars {fields : List (FieldId × Value)}
    (h : ∀ inner ∈ fields, inner.1.IsProper ∧ ∃ s, inner.2 = .scalar s) :
    ProperFields fields ∧ fieldsDepth fields = 0 := by
  induction fields with
  | nil => exact ⟨trivial, rfl⟩
  | cons inner rest ih =>
    obtain ⟨field, value⟩ := inner
    obtain ⟨hproper, s, rfl⟩ := h (field, value) List.mem_cons_self
    obtain ⟨hrest, hdepth⟩ := ih fun later hlater => h later (List.mem_cons_of_mem _ hlater)
    refine ⟨⟨hproper, trivial, hrest⟩, ?_⟩
    rw [fieldsDepth, depth, hdepth]
    rfl

/-- Shallow entries are proper, and one container each. -/
theorem proper_of_shallowEntries {entries : List (FieldId × List (FieldId × Value))}
    (h : ∀ entry ∈ entries, ShallowEntry entry) :
    ProperEntries entries ∧ entriesDepth entries ≤ 1 := by
  induction entries with
  | nil => exact ⟨trivial, Nat.zero_le _⟩
  | cons entry rest ih =>
    obtain ⟨hproper, hscalars⟩ := h entry List.mem_cons_self
    obtain ⟨hfields, hdepth⟩ := proper_of_scalars hscalars
    obtain ⟨hrest, hdepths⟩ := ih fun later hlater => h later (List.mem_cons_of_mem _ hlater)
    refine ⟨⟨hproper, hfields, hrest⟩, ?_⟩
    rw [entriesDepth, hdepth]
    exact Nat.max_le.mpr ⟨Nat.le_refl _, hdepths⟩

/-- A shallow value is proper, at most two containers deep and no array without entries. -/
theorem Shallow.proper {value : Value} (h : value.Shallow) :
    value.Proper ∧ value.depth ≤ 2 ∧ value.isEmptyArray = false := by
  cases value with
  | scalar s => exact ⟨trivial, Nat.zero_le _, rfl⟩
  | object fields => cases h
  | array entries =>
    obtain ⟨hne, hentries⟩ := h
    obtain ⟨hproper, hdepth⟩ := proper_of_shallowEntries hentries
    refine ⟨hproper, ?_, ?_⟩
    · rw [depth]
      omega
    · cases entries with
      | nil => exact absurd rfl hne
      | cons entry rest => rfl

/-- An object of proper fields with shallow values is proper, and not nested too deep. -/
theorem proper_of_shallow {fields : List (FieldId × Value)}
    (h : ∀ entry ∈ fields, entry.1.IsProper ∧ entry.2.Shallow) :
    ProperFields fields ∧ fieldsDepth fields ≤ Reader.depthLimit := by
  induction fields with
  | nil => exact ⟨trivial, Nat.zero_le _⟩
  | cons entry rest ih =>
    obtain ⟨field, value⟩ := entry
    obtain ⟨hfield, hshallow⟩ := h (field, value) List.mem_cons_self
    obtain ⟨hproper, hdepth, -⟩ := hshallow.proper
    obtain ⟨hrest, hdepths⟩ := ih fun later hlater => h later (List.mem_cons_of_mem _ hlater)
    refine ⟨⟨hfield, hproper, hrest⟩, ?_⟩
    rw [fieldsDepth]
    exact Nat.max_le.mpr ⟨Nat.le_trans hdepth (by decide), hdepths⟩

end Value

/-! ## The slots of transactions -/

namespace Slot

/-- Whether the value of a slot is shallow, if there is one. -/
def Shallow (slot : Slot) : Prop :=
  ∀ value ∈ slot.value, value.Shallow

/-- A slot with a scalar is shallow. -/
theorem shallow_always (field : FieldId) (value : Scalar) : (always field value).Shallow := by
  rintro _ ⟨⟩
  trivial

/-- A slot with a scalar or none is shallow. -/
theorem shallow_optional {α : Type} (field : FieldId) (wrap : α → Scalar) (value : Option α) :
    (optional field wrap value).Shallow := by
  intro found hfound
  obtain ⟨a, -, rfl⟩ := Option.map_eq_some_iff.mp hfound
  trivial

/-- An array of shallow entries, which is missing when it has none, is shallow. -/
theorem shallow_entries (field : FieldId) {list : List (FieldId × List (FieldId × Value))}
    (h : ∀ entry ∈ list, ShallowEntry entry) : (entries field list).Shallow := by
  intro found hfound
  cases list with
  | nil => cases hfound
  | cons entry rest =>
    cases hfound
    exact ⟨nofun, h⟩

/-- The entry of slots that hold no containers is shallow. -/
theorem shallowEntry_written {wrapper : FieldId} {slots : List Slot} (hwrapper : wrapper.IsProper)
    (hfields : ∀ field ∈ slots.map (·.field), field.IsProper)
    (hscalar : ∀ slot ∈ slots, ∀ value ∈ slot.value, ∃ s, value = .scalar s) :
    ShallowEntry (wrapper, written slots) := by
  refine ⟨hwrapper, ?_⟩
  rintro ⟨field, value⟩ hmem
  have hslot := mem_written_iff.mp hmem
  exact ⟨hfields field (List.mem_map.mpr ⟨_, hslot, rfl⟩), hscalar _ hslot value rfl⟩

end Slot

/-- A memo holds scalars under proper fields. -/
theorem Memo.shallow_toEntry (memo : Memo) : ShallowEntry memo.toEntry := by
  have hfields : memo.slots.map (·.field) = [.memoType, .memoData, .memoFormat] := rfl
  refine Slot.shallowEntry_written (by decide) (by rw [hfields]; decide) ?_
  simp [slots, Slot.optional]

/-- A signer holds scalars under proper fields. -/
theorem Signer.shallow_toEntry (signer : Signer) : ShallowEntry signer.toEntry := by
  have hfields : signer.slots.map (·.field) = [.signingPubKey, .txnSignature, .account] := rfl
  refine Slot.shallowEntry_written (by decide) (by rw [hfields]; decide) ?_
  simp [slots, Slot.always]

/-- A member of a signer list holds scalars under proper fields. -/
theorem SignerEntry.shallow_toEntry (member : SignerEntry) : ShallowEntry member.toEntry := by
  have hfields : member.slots.map (·.field) = [.signerWeight, .account] := rfl
  refine Slot.shallowEntry_written (by decide) (by rw [hfields]; decide) ?_
  simp [slots, Slot.always]

namespace Transaction

/-- Every slot of a transaction is shallow. -/
theorem shallow_of_mem_slots (tx : Transaction) (sequence : UInt32) (fee : XrpAmount)
    (forSigning : Bool) : ∀ slot ∈ tx.slots sequence fee forSigning, slot.Shallow := by
  have hentries : ∀ {α : Type} {toEntry : α → FieldId × List (FieldId × Value)} (as : List α),
      (∀ a, ShallowEntry (toEntry a)) → ∀ entry ∈ as.map toEntry, ShallowEntry entry := by
    intro α toEntry as hshallow entry hentry
    obtain ⟨a, -, rfl⟩ := List.mem_map.mp hentry
    exact hshallow a
  have hsigners : ∀ entry ∈ if forSigning then [] else tx.common.signers.map Signer.toEntry,
      ShallowEntry entry := by
    split
    · nofun
    · exact hentries _ Signer.shallow_toEntry
  have hmemos := hentries tx.common.memos Memo.shallow_toEntry
  intro slot hslot
  rcases List.mem_append.mp hslot with hcommon | hdetails
  · have hall : ∀ slot ∈ tx.common.slots tx.type sequence fee forSigning, slot.Shallow := by
      simp only [Common.slots, List.forall_mem_cons, Slot.shallow_always, Slot.shallow_optional,
        Slot.shallow_entries _ hsigners, Slot.shallow_entries _ hmemos, true_and]
      exact nofun
    exact hall slot hcommon
  · have hall : ∀ slot ∈ tx.details.slots, slot.Shallow := by
      cases tx.details with
      | signerListSet d =>
        simp only [Details.slots, List.forall_mem_cons, Slot.shallow_always,
          Slot.shallow_entries _ (hentries d.signerEntries SignerEntry.shallow_toEntry), true_and]
        exact nofun
      | _ =>
        simp only [Details.slots, List.forall_mem_cons, Slot.shallow_always, Slot.shallow_optional,
          true_and]
        exact nofun
    exact hall slot hdetails

/-- The object of a transaction has only fields of the layout, with shallow values. -/
theorem shallow_of_toObject {tx : Transaction} {forSigning : Bool} {object : Object}
    (h : tx.toObject forSigning = .ok object) :
    ∀ entry ∈ object.fields, entry.1 ∈ tx.type.layout ∧ entry.2.Shallow := by
  obtain ⟨sequence, fee, -, -, rfl⟩ := toObject_eq_ok_iff.mp h
  have hperm := tx.map_field_slots_perm sequence fee forSigning
  have hnodup := hperm.nodup_iff.mpr tx.type.ascend_layout.nodup
  rintro ⟨field, value⟩ hentry
  obtain ⟨hfield, hslot⟩ := (Slot.mem_arrange_iff hnodup).mp (Slot.mem_written_iff.mp hentry)
  exact ⟨hfield, tx.shallow_of_mem_slots sequence fee forSigning _ hslot value rfl⟩

/-- The object of a transaction is well formed if its values can be written. -/
theorem wellFormed_of_toObject {tx : Transaction} {forSigning : Bool} {object : Object}
    (h : tx.toObject forSigning = .ok object) (hregular : Value.RegularFields object.fields) :
    object.WellFormed := by
  obtain ⟨hproper, hdepth⟩ := Value.proper_of_shallow fun entry hentry =>
    have hshallow := shallow_of_toObject h entry hentry
    ⟨TransactionType.isProper_of_mem_layout hshallow.1, hshallow.2⟩
  exact ⟨hregular, hproper, hdepth⟩

/-- The object of a transaction holds no array without entries. -/
theorem withoutEmptyArrays_of_toObject {tx : Transaction} {forSigning : Bool} {object : Object}
    (h : tx.toObject forSigning = .ok object) : object.withoutEmptyArrays = object :=
  Object.withoutEmptyArrays_eq_self_iff.mpr fun entry hentry =>
    (shallow_of_toObject h entry hentry).2.proper.2.2

end Transaction

end XrpLedger
