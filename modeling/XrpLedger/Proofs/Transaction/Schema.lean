import XrpLedger.Proofs.Object.Read
import XrpLedger.Proofs.Object.Schema
import XrpLedger.Proofs.Transaction.Take

/-!
# Which blobs are transactions

`TransactionType.Admits` says of an object alone when it is a transaction of a type: it has the code
of the type, the fields that the schema of the type asks for and no others, a fee in XRP, and in
every array only entries of the kind that belongs there. An object in order is read as a transaction
exactly if some type admits it (`Transaction.ofObject_isOk_iff`), and otherwise it is a mismatch.
-/

set_option autoImplicit false

namespace XrpLedger

open Scalar (IsKind)

/-! ## The schemas -/

/-- A memo may have three texts and needs none of them. -/
def Memo.schema : Schema := ⟨[], [.memoType, .memoData, .memoFormat]⟩

/-- A signer needs a public key, a signature and an account. -/
def Signer.schema : Schema := ⟨[.signingPubKey, .txnSignature, .account], []⟩

/-- A member of a signer list needs a weight and an account. -/
def SignerEntry.schema : Schema := ⟨[.signerWeight, .account], []⟩

/-- The fields that every transaction has or may have. -/
def Transaction.Common.schema : Schema :=
  ⟨[.transactionType, .account, .sequence, .signingPubKey, .fee],
    [.networkId, .flags, .sourceTag, .lastLedgerSequence, .accountTxnId, .txnSignature, .memos,
      .signers]⟩

namespace TransactionType

/-- The fields that only transactions of a type have or may have. -/
def ownSchema : TransactionType → Schema
  | payment =>
    ⟨[.destination, .amount], [.destinationTag, .invoiceId, .sendMax, .deliverMin]⟩
  | accountSet =>
    ⟨[], [.clearFlag, .setFlag, .transferRate, .emailHash, .messageKey, .domain, .tickSize]⟩
  | setRegularKey => ⟨[], [.regularKey]⟩
  | offerCreate => ⟨[.takerPays, .takerGets], [.expiration, .offerSequence]⟩
  | offerCancel => ⟨[.offerSequence], []⟩
  | signerListSet => ⟨[.signerQuorum], [.signerEntries]⟩
  | trustSet => ⟨[.limitAmount], [.qualityIn, .qualityOut]⟩
  | accountDelete => ⟨[.destination], [.destinationTag]⟩

/-- The fields that transactions of a type have or may have. -/
def schema (type : TransactionType) : Schema :=
  ⟨Transaction.Common.schema.required ++ type.ownSchema.required,
    Transaction.Common.schema.optional ++ type.ownSchema.optional⟩

/-- Whether an object is a transaction of a type. -/
structure Admits (type : TransactionType) (object : Object) : Prop where
  code : object.get? .transactionType = some (.scalar (.uint16 type.code))
  meets : object.Meets type.schema
  fee : ∃ fee, object.get? .fee = some (.scalar (.amount (.xrp fee)))
  limit : type = .trustSet →
    ∃ limit, object.get? .limitAmount = some (.scalar (.amount (.issued limit)))
  memos : object.EntriesMeet .memos .memo Memo.schema
  signers : object.EntriesMeet .signers .signer Signer.schema
  signerEntries : object.EntriesMeet .signerEntries .signerEntry SignerEntry.schema

/-- The schema of a type names the fields of its layout. -/
theorem hasOnly_layout_iff (type : TransactionType) {object : Object} :
    object.HasOnly type.layout ↔ object.HasOnly (type.schema.required ++ type.schema.optional) := by
  cases type <;> exact Object.hasOnly_congr (by decide) (by decide)

end TransactionType

/-! ## Entries of arrays -/

variable {entry : FieldId × List (FieldId × Value)} {object : Object}

/-- Exactly the wrapped objects that meet the schema of memos are entries of memos. -/
theorem Memo.exists_toEntry_iff (h : Value.RegularFields (Object.mk entry.2).fields) :
    (∃ memo : Memo, memo.toEntry = entry) ↔
      entry.1 = .memo ∧ (Object.mk entry.2).Meets Memo.schema := by
  have hfields : ∀ memo : Memo, memo.slots.map (·.field) = [.memoType, .memoData, .memoFormat] :=
    fun _ => rfl
  have hentry : ∀ memo : Memo, memo.toEntry = entry ↔ _ := fun memo =>
    written_eq_iff h (by rw [hfields]; decide) (by rw [hfields]; decide)
  simp only [hentry, hfields]
  constructor
  · rintro ⟨memo, hwrapper, -, honly⟩
    exact ⟨hwrapper, List.forall_mem_nil _, honly⟩
  · rintro ⟨hwrapper, -, honly⟩
    obtain ⟨memoType, htype⟩ := Object.exists_fills_optional h .memoType IsKind.blob.covers
    obtain ⟨memoData, hdata⟩ := Object.exists_fills_optional h .memoData IsKind.blob.covers
    obtain ⟨memoFormat, hformat⟩ := Object.exists_fills_optional h .memoFormat IsKind.blob.covers
    refine ⟨⟨memoType, memoData, memoFormat⟩, hwrapper, ?_, honly⟩
    simp only [slots, List.forall_mem_cons]
    exact ⟨htype, hdata, hformat, List.forall_mem_nil _⟩

/-- Exactly the wrapped objects that meet the schema of signers are entries of signers. -/
theorem Signer.exists_toEntry_iff (h : Value.RegularFields (Object.mk entry.2).fields) :
    (∃ signer : Signer, signer.toEntry = entry) ↔
      entry.1 = .signer ∧ (Object.mk entry.2).Meets Signer.schema := by
  have hfields : ∀ signer : Signer,
      signer.slots.map (·.field) = [.signingPubKey, .txnSignature, .account] := fun _ => rfl
  have hentry : ∀ signer : Signer, signer.toEntry = entry ↔ _ := fun signer =>
    written_eq_iff h (by rw [hfields]; decide) (by rw [hfields]; decide)
  have hkeys := Object.exists_fills_always_iff h .signingPubKey IsKind.blob.covers
  have hsignatures := Object.exists_fills_always_iff h .txnSignature IsKind.blob.covers
  have haccounts := Object.exists_fills_always_iff h .account IsKind.account.covers
  simp only [hentry, hfields]
  constructor
  · rintro ⟨signer, hwrapper, hslots, honly⟩
    simp only [slots, List.forall_mem_cons] at hslots
    obtain ⟨hkey, hsignature, haccount, -⟩ := hslots
    refine ⟨hwrapper, ?_, honly⟩
    simp only [schema, List.forall_mem_cons, ← hkeys, ← hsignatures, ← haccounts]
    exact ⟨⟨_, hkey⟩, ⟨_, hsignature⟩, ⟨_, haccount⟩, List.forall_mem_nil _⟩
  · rintro ⟨hwrapper, hrequired, honly⟩
    simp only [schema, List.forall_mem_cons, ← hkeys, ← hsignatures, ← haccounts] at hrequired
    obtain ⟨⟨key, hkey⟩, ⟨signature, hsignature⟩, ⟨account, haccount⟩, -⟩ := hrequired
    refine ⟨⟨account, key, signature⟩, hwrapper, ?_, honly⟩
    simp only [slots, List.forall_mem_cons]
    exact ⟨hkey, hsignature, haccount, List.forall_mem_nil _⟩

/-- Exactly the wrapped objects that meet the schema of members are entries of members. -/
theorem SignerEntry.exists_toEntry_iff (h : Value.RegularFields (Object.mk entry.2).fields) :
    (∃ member : SignerEntry, member.toEntry = entry) ↔
      entry.1 = .signerEntry ∧ (Object.mk entry.2).Meets SignerEntry.schema := by
  have hfields : ∀ member : SignerEntry,
      member.slots.map (·.field) = [.signerWeight, .account] := fun _ => rfl
  have hentry : ∀ member : SignerEntry, member.toEntry = entry ↔ _ := fun member =>
    written_eq_iff h (by rw [hfields]; decide) (by rw [hfields]; decide)
  have hweights := Object.exists_fills_always_iff h .signerWeight IsKind.uint16.covers
  have haccounts := Object.exists_fills_always_iff h .account IsKind.account.covers
  simp only [hentry, hfields]
  constructor
  · rintro ⟨member, hwrapper, hslots, honly⟩
    simp only [slots, List.forall_mem_cons] at hslots
    obtain ⟨hweight, haccount, -⟩ := hslots
    refine ⟨hwrapper, ?_, honly⟩
    simp only [schema, List.forall_mem_cons, ← hweights, ← haccounts]
    exact ⟨⟨_, hweight⟩, ⟨_, haccount⟩, List.forall_mem_nil _⟩
  · rintro ⟨hwrapper, hrequired, honly⟩
    simp only [schema, List.forall_mem_cons, ← hweights, ← haccounts] at hrequired
    obtain ⟨⟨weight, hweight⟩, ⟨account, haccount⟩, -⟩ := hrequired
    refine ⟨⟨account, weight⟩, hwrapper, ?_, honly⟩
    simp only [slots, List.forall_mem_cons]
    exact ⟨hweight, haccount, List.forall_mem_nil _⟩

namespace Transaction

variable {type : TransactionType}

/-! ## The common part and the details -/

/-- Some common part fills its slots exactly if its fields are there, with a fee in XRP. -/
theorem exists_fills_common_iff (h : Value.RegularFields object.fields) :
    (∃ (common : Common) (sequence : UInt32) (fee : XrpAmount), common.sequence = some sequence ∧
      common.fee = some fee ∧ ∀ slot ∈ common.slots type sequence fee false, object.Fills slot) ↔
    object.get? .transactionType = some (.scalar (.uint16 type.code)) ∧
      (∀ field ∈ Common.schema.required, object.contains field = true) ∧
      (∃ fee, object.get? .fee = some (.scalar (.amount (.xrp fee)))) ∧
      object.EntriesMeet .memos .memo Memo.schema ∧
      object.EntriesMeet .signers .signer Signer.schema := by
  have htypes := Object.exists_fills_always_iff h .transactionType IsKind.uint16.covers
  have haccounts := Object.exists_fills_always_iff h .account IsKind.account.covers
  have hsequences := Object.exists_fills_always_iff h .sequence IsKind.uint32.covers
  have hkeys := Object.exists_fills_always_iff h .signingPubKey IsKind.blob.covers
  have hfees := Object.exists_fills_always_iff h .fee IsKind.amount.covers
  have hmemos := Object.exists_fills_entries_iff h .memos rfl fun _ => Memo.exists_toEntry_iff
  have hsigners := Object.exists_fills_entries_iff h .signers rfl fun _ => Signer.exists_toEntry_iff
  simp only [Common.slots, Common.schema, List.forall_mem_cons, ← htypes, ← haccounts, ← hsequences,
    ← hkeys, ← hfees, ← hmemos, ← hsigners, ← Object.fills_always_iff h]
  -- both sides name the same slots, the fee twice and in different orders
  constructor
  · rintro ⟨common, sequence, fee, -, -, htype, -, -, -, hsequence, -, -, hfee, hkey, -, haccount,
      hsigners, hmemos, -⟩
    exact ⟨htype, ⟨⟨_, htype⟩, ⟨_, haccount⟩, ⟨_, hsequence⟩, ⟨_, hkey⟩, ⟨_, hfee⟩,
      List.forall_mem_nil _⟩, ⟨_, hfee⟩, ⟨_, hmemos⟩, ⟨_, hsigners⟩⟩
  · rintro ⟨htype, ⟨-, ⟨account, haccount⟩, ⟨sequence, hsequence⟩, ⟨key, hkey⟩, -, -⟩, ⟨fee, hfee⟩,
      ⟨memos, hmemos⟩, ⟨signers, hsigners⟩⟩
    obtain ⟨networkId, hnetwork⟩ := Object.exists_fills_optional h .networkId IsKind.uint32.covers
    obtain ⟨flags, hflags⟩ := Object.exists_fills_optional h .flags IsKind.uint32.covers
    obtain ⟨sourceTag, hsource⟩ := Object.exists_fills_optional h .sourceTag IsKind.uint32.covers
    obtain ⟨lastLedgerSequence, hlast⟩ :=
      Object.exists_fills_optional h .lastLedgerSequence IsKind.uint32.covers
    obtain ⟨accountTxnId, htxn⟩ :=
      Object.exists_fills_optional h .accountTxnId IsKind.hash256.covers
    obtain ⟨signature, hsignature⟩ :=
      Object.exists_fills_optional h .txnSignature IsKind.blob.covers
    exact ⟨⟨account, some fee, some sequence, networkId, flags, sourceTag, lastLedgerSequence,
      accountTxnId, key, signature, memos, signers⟩, sequence, fee, rfl, rfl, htype, hnetwork,
      hflags, hsource, hsequence, hlast, htxn, hfee, hkey, hsignature, haccount, hsigners, hmemos,
      List.forall_mem_nil _⟩

/-- What an object has whose fields fill the slots of some details. -/
theorem required_of_fills_details (h : Value.RegularFields object.fields) {details : Details}
    (hslots : ∀ slot ∈ details.slots, object.Fills slot) :
    (∀ field ∈ details.type.ownSchema.required, object.contains field = true) ∧
      (details.type = .trustSet →
        ∃ limit, object.get? .limitAmount = some (.scalar (.amount (.issued limit)))) ∧
      (details.type = .signerListSet →
        object.EntriesMeet .signerEntries .signerEntry SignerEntry.schema) := by
  -- a slot that is always filled has its field; only two types ask for more than this
  cases details with
  | payment d =>
    simp only [Details.slots, List.forall_mem_cons] at hslots
    obtain ⟨-, -, hamount, -, -, hdestination, -⟩ := hslots
    refine ⟨?_, by rintro ⟨⟩, by rintro ⟨⟩⟩
    simp [Details.type, TransactionType.ownSchema, Object.contains_of_fills h hamount,
      Object.contains_of_fills h hdestination]
  | offerCreate d =>
    simp only [Details.slots, List.forall_mem_cons] at hslots
    obtain ⟨-, -, hpays, hgets, -⟩ := hslots
    refine ⟨?_, by rintro ⟨⟩, by rintro ⟨⟩⟩
    simp [Details.type, TransactionType.ownSchema, Object.contains_of_fills h hpays,
      Object.contains_of_fills h hgets]
  | offerCancel d =>
    simp only [Details.slots, List.forall_mem_cons] at hslots
    refine ⟨?_, by rintro ⟨⟩, by rintro ⟨⟩⟩
    simp [Details.type, TransactionType.ownSchema, Object.contains_of_fills h hslots.1]
  | signerListSet d =>
    simp only [Details.slots, List.forall_mem_cons] at hslots
    obtain ⟨hquorum, hmembers, -⟩ := hslots
    refine ⟨?_, by rintro ⟨⟩, fun _ => ?_⟩
    · simp [Details.type, TransactionType.ownSchema, Object.contains_of_fills h hquorum]
    · exact (Object.exists_fills_entries_iff h .signerEntries rfl
        fun _ => SignerEntry.exists_toEntry_iff).mp ⟨_, hmembers⟩
  | trustSet d =>
    simp only [Details.slots, List.forall_mem_cons] at hslots
    obtain ⟨-, -, hlimit, -⟩ := hslots
    refine ⟨?_, fun _ => ⟨_, (Object.fills_always_iff h).mp hlimit⟩, by rintro ⟨⟩⟩
    simp [Details.type, TransactionType.ownSchema, Object.contains_of_fills h hlimit]
  | accountDelete d =>
    simp only [Details.slots, List.forall_mem_cons] at hslots
    obtain ⟨-, hdestination, -⟩ := hslots
    refine ⟨?_, by rintro ⟨⟩, by rintro ⟨⟩⟩
    simp [Details.type, TransactionType.ownSchema, Object.contains_of_fills h hdestination]
  | _ => exact ⟨List.forall_mem_nil _, by rintro ⟨⟩, by rintro ⟨⟩⟩

/-- An object that has the fields that a type asks for fills the slots of some details. -/
theorem exists_fills_details (h : Value.RegularFields object.fields)
    (hrequired : ∀ field ∈ type.ownSchema.required, object.contains field = true)
    (hlimit : type = .trustSet →
      ∃ limit, object.get? .limitAmount = some (.scalar (.amount (.issued limit))))
    (hmembers : object.EntriesMeet .signerEntries .signerEntry SignerEntry.schema) :
    ∃ details : Details, details.type = type ∧ ∀ slot ∈ details.slots, object.Fills slot := by
  -- each field fills its slot of the details; the slots stand in the order of the layout
  cases type with
  | payment =>
    simp only [TransactionType.ownSchema, List.forall_mem_cons] at hrequired
    obtain ⟨account, hdestination⟩ :=
      Object.exists_fills_always h IsKind.account.covers hrequired.1
    obtain ⟨amount, hamount⟩ := Object.exists_fills_always h IsKind.amount.covers hrequired.2.1
    obtain ⟨tag, htag⟩ := Object.exists_fills_optional h .destinationTag IsKind.uint32.covers
    obtain ⟨invoice, hinvoice⟩ := Object.exists_fills_optional h .invoiceId IsKind.hash256.covers
    obtain ⟨sendMax, hmax⟩ := Object.exists_fills_optional h .sendMax IsKind.amount.covers
    obtain ⟨deliverMin, hmin⟩ := Object.exists_fills_optional h .deliverMin IsKind.amount.covers
    refine ⟨.payment ⟨account, amount, tag, invoice, sendMax, deliverMin⟩, rfl, ?_⟩
    simp only [Details.slots, List.forall_mem_cons]
    exact ⟨htag, hinvoice, hamount, hmax, hmin, hdestination, List.forall_mem_nil _⟩
  | accountSet =>
    obtain ⟨clearFlag, hclear⟩ := Object.exists_fills_optional h .clearFlag IsKind.uint32.covers
    obtain ⟨setFlag, hset⟩ := Object.exists_fills_optional h .setFlag IsKind.uint32.covers
    obtain ⟨rate, hrate⟩ := Object.exists_fills_optional h .transferRate IsKind.uint32.covers
    obtain ⟨email, hemail⟩ := Object.exists_fills_optional h .emailHash IsKind.hash128.covers
    obtain ⟨key, hkey⟩ := Object.exists_fills_optional h .messageKey IsKind.blob.covers
    obtain ⟨domain, hdomain⟩ := Object.exists_fills_optional h .domain IsKind.blob.covers
    obtain ⟨tick, htick⟩ := Object.exists_fills_optional h .tickSize IsKind.uint8.covers
    refine ⟨.accountSet ⟨clearFlag, setFlag, rate, email, key, domain, tick⟩, rfl, ?_⟩
    simp only [Details.slots, List.forall_mem_cons]
    exact ⟨hrate, hset, hclear, hemail, hkey, hdomain, htick, List.forall_mem_nil _⟩
  | setRegularKey =>
    obtain ⟨key, hkey⟩ := Object.exists_fills_optional h .regularKey IsKind.account.covers
    refine ⟨.setRegularKey ⟨key⟩, rfl, ?_⟩
    simp only [Details.slots, List.forall_mem_cons]
    exact ⟨hkey, List.forall_mem_nil _⟩
  | offerCreate =>
    simp only [TransactionType.ownSchema, List.forall_mem_cons] at hrequired
    obtain ⟨pays, hpays⟩ := Object.exists_fills_always h IsKind.amount.covers hrequired.1
    obtain ⟨gets, hgets⟩ := Object.exists_fills_always h IsKind.amount.covers hrequired.2.1
    obtain ⟨expiration, hexpiration⟩ :=
      Object.exists_fills_optional h .expiration IsKind.uint32.covers
    obtain ⟨offer, hoffer⟩ := Object.exists_fills_optional h .offerSequence IsKind.uint32.covers
    refine ⟨.offerCreate ⟨pays, gets, expiration, offer⟩, rfl, ?_⟩
    simp only [Details.slots, List.forall_mem_cons]
    exact ⟨hexpiration, hoffer, hpays, hgets, List.forall_mem_nil _⟩
  | offerCancel =>
    simp only [TransactionType.ownSchema, List.forall_mem_cons] at hrequired
    obtain ⟨offer, hoffer⟩ := Object.exists_fills_always h IsKind.uint32.covers hrequired.1
    refine ⟨.offerCancel ⟨offer⟩, rfl, ?_⟩
    simp only [Details.slots, List.forall_mem_cons]
    exact ⟨hoffer, List.forall_mem_nil _⟩
  | signerListSet =>
    simp only [TransactionType.ownSchema, List.forall_mem_cons] at hrequired
    obtain ⟨quorum, hquorum⟩ := Object.exists_fills_always h IsKind.uint32.covers hrequired.1
    obtain ⟨members, hfills⟩ := (Object.exists_fills_entries_iff h .signerEntries rfl
      fun _ => SignerEntry.exists_toEntry_iff).mpr hmembers
    refine ⟨.signerListSet ⟨quorum, members⟩, rfl, ?_⟩
    simp only [Details.slots, List.forall_mem_cons]
    exact ⟨hquorum, hfills, List.forall_mem_nil _⟩
  | trustSet =>
    obtain ⟨limit, hget⟩ := hlimit rfl
    obtain ⟨qualityIn, hin⟩ := Object.exists_fills_optional h .qualityIn IsKind.uint32.covers
    obtain ⟨qualityOut, hout⟩ := Object.exists_fills_optional h .qualityOut IsKind.uint32.covers
    refine ⟨.trustSet ⟨limit, qualityIn, qualityOut⟩, rfl, ?_⟩
    simp only [Details.slots, List.forall_mem_cons]
    exact ⟨hin, hout, (Object.fills_always_iff h).mpr hget, List.forall_mem_nil _⟩
  | accountDelete =>
    simp only [TransactionType.ownSchema, List.forall_mem_cons] at hrequired
    obtain ⟨account, hdestination⟩ :=
      Object.exists_fills_always h IsKind.account.covers hrequired.1
    obtain ⟨tag, htag⟩ := Object.exists_fills_optional h .destinationTag IsKind.uint32.covers
    refine ⟨.accountDelete ⟨account, tag⟩, rfl, ?_⟩
    simp only [Details.slots, List.forall_mem_cons]
    exact ⟨htag, hdestination, List.forall_mem_nil _⟩

/-! ## Objects that some type admits -/

/-- An object in order is a transaction exactly if some type admits it. -/
theorem ofObject_isOk_iff (h : Value.RegularFields object.fields) :
    (∃ tx, ofObject object = .ok tx) ↔ ∃ type : TransactionType, type.Admits object := by
  simp only [ofObject_eq_ok_iff h]
  constructor
  · rintro ⟨tx, ⟨sequence, fee, hsequence, hfee, hslots⟩, honly⟩
    obtain ⟨hcommon, hdetails⟩ := List.forall_mem_append.mp hslots
    obtain ⟨hcode, hrequired, hxrp, hmemos, hsigners⟩ :=
      (exists_fills_common_iff h).mp ⟨tx.common, sequence, fee, hsequence, hfee, hcommon⟩
    obtain ⟨hown, hlimit, hlist⟩ := required_of_fills_details h hdetails
    have hfields := List.forall_mem_append.mpr ⟨hrequired, hown⟩
    refine ⟨tx.type, hcode, ⟨hfields, ?_⟩, hxrp, hlimit, hmemos, hsigners, ?_⟩
    · exact tx.type.hasOnly_layout_iff.mp honly
    -- only a signer list may have members at all
    · by_cases htype : tx.type = .signerListSet
      · exact hlist htype
      · apply honly.entriesMeet
        cases htypes : tx.type with
        | signerListSet => exact absurd htypes htype
        | _ => decide
  · rintro ⟨type, hcode, ⟨hrequired, honly⟩, hxrp, hlimit, hmemos, hsigners, hlist⟩
    obtain ⟨hcommon, hown⟩ := List.forall_mem_append.mp hrequired
    obtain ⟨common, sequence, fee, hsequence, hfee, hfills⟩ :=
      (exists_fills_common_iff h).mpr ⟨hcode, hcommon, hxrp, hmemos, hsigners⟩
    obtain ⟨details, rfl, hdetails⟩ := exists_fills_details h hown hlimit hlist
    refine ⟨⟨common, details⟩, ⟨sequence, fee, hsequence, hfee, ?_⟩, ?_⟩
    · exact List.forall_mem_append.mpr ⟨hfills, hdetails⟩
    · exact details.type.hasOnly_layout_iff.mpr honly

/-! ## Objects that none admits -/

/-- A foreign wrapper is a mismatch. -/
theorem onlyMismatch_checkWrapper (found expected : FieldId) :
    OnlyMismatch (checkWrapper found expected) := by
  unfold checkWrapper
  split
  · exact onlyMismatch_ok ()
  · exact onlyMismatch_error _

/-- An entry is read behind its wrapper. -/
theorem onlyMismatch_entry {α : Type} {taking : Taking α} (h : taking.OnlyMismatch)
    (found expected : FieldId) (object : Object) :
    OnlyMismatch (checkWrapper found expected >>= fun _ => Taking.runOn object taking) :=
  (onlyMismatch_checkWrapper found expected).bind fun _ => h object

/-- Reading a memo fails with nothing but mismatches. -/
theorem onlyMismatch_memo (entry : FieldId × List (FieldId × Value)) :
    OnlyMismatch (Memo.ofEntry entry) := by
  refine onlyMismatch_entry ?_ _ _ _
  refine (Taking.onlyMismatch_scalar _).bind fun _ => ?_
  refine (Taking.onlyMismatch_scalar _).bind fun _ => ?_
  refine (Taking.onlyMismatch_scalar _).bind fun _ => ?_
  exact (Taking.onlyMismatch_finish _).bind fun _ => Taking.onlyMismatch_pure _

/-- Reading a signer fails with nothing but mismatches. -/
theorem onlyMismatch_signer (entry : FieldId × List (FieldId × Value)) :
    OnlyMismatch (Signer.ofEntry entry) := by
  refine onlyMismatch_entry ?_ _ _ _
  refine (Taking.onlyMismatch_requiredScalar _).bind fun _ => ?_
  refine (Taking.onlyMismatch_requiredScalar _).bind fun _ => ?_
  refine (Taking.onlyMismatch_requiredScalar _).bind fun _ => ?_
  exact (Taking.onlyMismatch_finish _).bind fun _ => Taking.onlyMismatch_pure _

/-- Reading a member of a signer list fails with nothing but mismatches. -/
theorem onlyMismatch_signerEntry (entry : FieldId × List (FieldId × Value)) :
    OnlyMismatch (SignerEntry.ofEntry entry) := by
  refine onlyMismatch_entry ?_ _ _ _
  refine (Taking.onlyMismatch_requiredScalar _).bind fun _ => ?_
  refine (Taking.onlyMismatch_requiredScalar _).bind fun _ => ?_
  exact (Taking.onlyMismatch_finish _).bind fun _ => Taking.onlyMismatch_pure _

/-- Taking entries fails with nothing but mismatches if reading one does. -/
theorem onlyMismatch_takeEntries {α : Type}
    {ofEntry : FieldId × List (FieldId × Value) → Except CodecError α}
    (h : ∀ entry, OnlyMismatch (ofEntry entry)) (field : FieldId) :
    (takeEntries ofEntry field).OnlyMismatch := by
  apply (Taking.onlyMismatch_viewed _).bind
  intro entries
  exact Taking.onlyMismatch_liftExcept (onlyMismatch_mapM h _)

/-- An amount that is not in XRP, or not there, is a mismatch. -/
theorem onlyMismatch_takeXrp (field : FieldId) : (takeXrp field).OnlyMismatch := by
  apply (Taking.onlyMismatch_scalar _).bind
  intro found
  cases found with
  | none => exact Taking.onlyMismatch_throw _
  | some amount =>
    apply Taking.onlyMismatch_liftExcept
    cases amount with
    | xrp amount => exact onlyMismatch_ok amount
    | issued amount => exact onlyMismatch_error _

/-- Taking the common part fails with nothing but mismatches. -/
theorem onlyMismatch_takeCommon : takeCommon.OnlyMismatch := by
  refine (onlyMismatch_takeEntries onlyMismatch_memo _).bind fun _ => ?_
  refine (onlyMismatch_takeEntries onlyMismatch_signer _).bind fun _ => ?_
  refine (Taking.onlyMismatch_requiredScalar _).bind fun _ => ?_
  refine (onlyMismatch_takeXrp _).bind fun _ => ?_
  refine (Taking.onlyMismatch_requiredScalar _).bind fun _ => ?_
  refine (Taking.onlyMismatch_scalar _).bind fun _ => ?_
  refine (Taking.onlyMismatch_scalar _).bind fun _ => ?_
  refine (Taking.onlyMismatch_scalar _).bind fun _ => ?_
  refine (Taking.onlyMismatch_scalar _).bind fun _ => ?_
  refine (Taking.onlyMismatch_scalar _).bind fun _ => ?_
  refine (Taking.onlyMismatch_requiredScalar _).bind fun _ => ?_
  exact (Taking.onlyMismatch_scalar _).bind fun _ => Taking.onlyMismatch_pure _

/-- Taking the details of a type fails with nothing but mismatches. -/
theorem onlyMismatch_takeDetails (type : TransactionType) : (takeDetails type).OnlyMismatch := by
  cases type with
  | payment =>
    refine (Taking.onlyMismatch_requiredScalar _).bind fun _ => ?_
    refine (Taking.onlyMismatch_requiredScalar _).bind fun _ => ?_
    refine (Taking.onlyMismatch_scalar _).bind fun _ => ?_
    refine (Taking.onlyMismatch_scalar _).bind fun _ => ?_
    refine (Taking.onlyMismatch_scalar _).bind fun _ => ?_
    exact (Taking.onlyMismatch_scalar _).bind fun _ => Taking.onlyMismatch_pure _
  | accountSet =>
    refine (Taking.onlyMismatch_scalar _).bind fun _ => ?_
    refine (Taking.onlyMismatch_scalar _).bind fun _ => ?_
    refine (Taking.onlyMismatch_scalar _).bind fun _ => ?_
    refine (Taking.onlyMismatch_scalar _).bind fun _ => ?_
    refine (Taking.onlyMismatch_scalar _).bind fun _ => ?_
    refine (Taking.onlyMismatch_scalar _).bind fun _ => ?_
    exact (Taking.onlyMismatch_scalar _).bind fun _ => Taking.onlyMismatch_pure _
  | setRegularKey =>
    exact (Taking.onlyMismatch_scalar _).bind fun _ => Taking.onlyMismatch_pure _
  | offerCreate =>
    refine (Taking.onlyMismatch_requiredScalar _).bind fun _ => ?_
    refine (Taking.onlyMismatch_requiredScalar _).bind fun _ => ?_
    refine (Taking.onlyMismatch_scalar _).bind fun _ => ?_
    exact (Taking.onlyMismatch_scalar _).bind fun _ => Taking.onlyMismatch_pure _
  | offerCancel =>
    refine (Taking.onlyMismatch_requiredScalar _).bind fun _ => ?_
    exact Taking.onlyMismatch_pure _
  | signerListSet =>
    refine (Taking.onlyMismatch_requiredScalar _).bind fun _ => ?_
    refine (onlyMismatch_takeEntries onlyMismatch_signerEntry _).bind fun _ => ?_
    exact Taking.onlyMismatch_pure _
  | trustSet =>
    refine (Taking.onlyMismatch_requiredScalar _).bind fun limit => ?_
    cases limit with
    | xrp amount => exact Taking.onlyMismatch_throw _
    | issued limit =>
      refine (Taking.onlyMismatch_scalar _).bind fun _ => ?_
      exact (Taking.onlyMismatch_scalar _).bind fun _ => Taking.onlyMismatch_pure _
  | accountDelete =>
    refine (Taking.onlyMismatch_requiredScalar _).bind fun _ => ?_
    exact (Taking.onlyMismatch_scalar _).bind fun _ => Taking.onlyMismatch_pure _

/-- Reading a transaction from an object fails with nothing but mismatches. -/
theorem onlyMismatch_ofObject (object : Object) : OnlyMismatch (ofObject object) := by
  suffices h : takeTransaction.OnlyMismatch from h object
  refine (Taking.onlyMismatch_requiredScalar _).bind fun code => ?_
  have hcode : OnlyMismatch (TransactionType.ofCode code) := by
    unfold TransactionType.ofCode
    split
    · exact onlyMismatch_ok _
    · exact onlyMismatch_error _
  refine (Taking.onlyMismatch_liftExcept hcode).bind fun type => ?_
  refine onlyMismatch_takeCommon.bind fun _ => ?_
  refine (onlyMismatch_takeDetails type).bind fun _ => ?_
  exact (Taking.onlyMismatch_finish _).bind fun _ => Taking.onlyMismatch_pure _

/-- A blob is a transaction exactly if it is an object that some type admits. An object that none
admits is a mismatch, and an object fails in no other way. -/
theorem ofBytes_outcome (bytes : Bytes) :
    ((∃ tx, ofBytes bytes = .ok tx) ↔
      ∃ object, Object.ofBytes bytes = .ok object ∧ ∃ type : TransactionType, type.Admits object) ∧
    ((∃ object, Object.ofBytes bytes = .ok object ∧ ¬∃ type : TransactionType, type.Admits object) ↔
      (∃ object, Object.ofBytes bytes = .ok object) ∧
        ∃ cause, ofBytes bytes = .error (.mismatch cause)) := by
  cases hobject : Object.ofBytes bytes with
  | error e =>
    have hfails : ofBytes bytes = .error e := by
      rw [ofBytes, hobject]
      rfl
    rw [hfails]
    simp
  | ok object =>
    have hread : ofBytes bytes = ofObject object := by
      rw [ofBytes, hobject]
      rfl
    have hregular := (Object.ofBytes_eq_ok_iff.mp hobject).1.regular
    simp only [hread, Except.ok.injEq, exists_eq_left', ← ofObject_isOk_iff hregular, true_and,
      exists_eq']
    have honly := onlyMismatch_ofObject object
    cases hresult : ofObject object with
    | ok tx => simp
    | error e =>
      obtain ⟨cause, rfl⟩ := honly e hresult
      simp

end Transaction

end XrpLedger
