import XrpLedger.Proofs.Json.Fields
import XrpLedger.Transaction.Json

/-!
# Transactions are read back from JSON

Every transaction is read back from its JSON form, whether or not it can be written in binary. The
common part and the details read only their own keys, which are apart from each other, so each is
read back from the entries of the whole object as it would be from its own.
-/

set_option autoImplicit false

namespace XrpLedger

open JsonFields

/-- The JSON form of a memo has the memo under its wrapper. -/
theorem Memo.exists_inner (memo : Memo) :
    ∃ inner, memo.toJson.get? "Memo" = some inner ∧ ofJson inner = .ok memo := by
  refine ⟨_, rfl, ?_⟩
  simp only [ofJson, ofJson_object, bind_eq_ok_iff, pure_eq_ok_iff]
  exact ⟨_, rfl,
    memo.memoType, bytes_eq_ok (by simp),
    memo.memoData, bytes_eq_ok (by simp),
    memo.memoFormat, bytes_eq_ok (by simp), rfl⟩

/-- The JSON form of a signer has the signer under its wrapper. -/
theorem Signer.exists_inner (signer : Signer) :
    ∃ inner, signer.toJson.get? "Signer" = some inner ∧ ofJson inner = .ok signer := by
  refine ⟨_, rfl, ?_⟩
  simp only [ofJson, ofJson_object, bind_eq_ok_iff, pure_eq_ok_iff]
  exact ⟨_, rfl,
    some signer.account, account_eq_ok (by simp), _, rfl,
    some signer.signingPubKey, bytes_eq_ok (by simp), _, rfl,
    some signer.txnSignature, bytes_eq_ok (by simp), _, rfl, rfl⟩

/-- The JSON form of a member of a signer list has the member under its wrapper. -/
theorem SignerEntry.exists_inner (member : SignerEntry) :
    ∃ inner, member.toJson.get? "SignerEntry" = some inner ∧ ofJson inner = .ok member := by
  refine ⟨_, rfl, ?_⟩
  simp only [ofJson, ofJson_object, bind_eq_ok_iff, pure_eq_ok_iff]
  exact ⟨_, rfl,
    some member.account, account_eq_ok (by simp), _, rfl,
    some member.signerWeight, uint16_eq_ok (by simp), _, rfl, rfl⟩

/-- A type is read from its name. -/
theorem TransactionType.parse_name (type : TransactionType) : parse type.name = .ok type := by
  cases type <;> rfl

/-- A digest is read from its text. -/
theorem Digest.parse_text {n : Nat} (digest : FixedBytes n) :
    parse n (text digest) = .ok digest := by
  have hsize : (text digest).utf8ByteSize = n * 2 := by
    rw [utf8ByteSize_eq_length_utf8, text, Hex.length_utf8_encode, digest.length_toList]
  rw [parse, if_pos hsize, text, Hex.parse_encode]
  show ofBytes n digest.toList = _
  rw [ofBytes, FixedBytes.ofList?_toList]

namespace Transaction

/-- A list is found under its key unless it is empty. -/
@[simp] theorem get?_jsonList {α : Type} (key name : String) (toJson : α → Json) (items : List α) :
    (Json.object (jsonList name toJson items)).get? key
      = if key = name then if items.isEmpty then none else some (.array (items.map toJson))
        else none := by
  unfold jsonList
  cases items with
  | nil => simp
  | cons a items => simp

/-- The keys of the common part. -/
def Common.keys : List String :=
  ["Account", "Fee", "Sequence", "NetworkID", "Flags", "SourceTag", "LastLedgerSequence",
    "AccountTxnID", "SigningPubKey", "TxnSignature", "Memos", "Signers"]

/-- The keys of the details of a type. -/
def Details.keys : TransactionType → List String
  | .payment =>
    ["Destination", "Amount", "DestinationTag", "InvoiceID", "SendMax", "DeliverMin"]
  | .accountSet =>
    ["ClearFlag", "SetFlag", "TransferRate", "EmailHash", "MessageKey", "Domain", "TickSize"]
  | .setRegularKey => ["RegularKey"]
  | .offerCreate => ["TakerPays", "TakerGets", "Expiration", "OfferSequence"]
  | .offerCancel => ["OfferSequence"]
  | .signerListSet => ["SignerQuorum", "SignerEntries"]
  | .trustSet => ["LimitAmount", "QualityIn", "QualityOut"]
  | .accountDelete => ["Destination", "DestinationTag"]

/-- The keys of the details are not those of the common part. -/
theorem Details.not_mem_commonKeys {type : TransactionType} :
    ∀ key ∈ keys type, key ∉ Common.keys := by
  cases type <;> decide

/-- No details are written under the key of the type. -/
theorem Details.typeKey_not_mem {type : TransactionType} : "TransactionType" ∉ keys type := by
  cases type <;> decide

/-- The common part has nothing under foreign keys. -/
theorem Common.get?_entries_eq_none (common : Common) {key : String} (h : key ∉ keys) :
    (Json.object common.entries).get? key = none := by
  simp only [keys, List.mem_cons, List.not_mem_nil, or_false, not_or] at h
  simp [entries, h]

/-- The details have nothing under keys that are not those of their type. -/
theorem Details.get?_entries_eq_none (details : Details) {key : String}
    (h : key ∉ keys details.type) : (Json.object details.entries).get? key = none := by
  cases details <;>
    · simp only [type, keys, List.mem_cons, List.not_mem_nil, or_false, not_or] at h
      simp [entries, h]

/-- The common part is the same for objects that agree on its keys. -/
theorem Common.ofFields_congr {context : String} {a b : Json}
    (h : ∀ key ∈ keys, a.get? key = b.get? key) :
    ofFields ⟨context, a⟩ = ofFields ⟨context, b⟩ := by
  simp (disch := decide) only [ofFields, feeOfFields, uint32, bytes, parsed_congr h,
    unsigned_congr h, amount_congr h, wrapped_congr h, require_congr a b]

/-- The details of a type are the same for objects that agree on its keys. -/
theorem Details.ofFields_congr {context : String} {a b : Json} (type : TransactionType)
    (h : ∀ key ∈ keys type, a.get? key = b.get? key) :
    ofFields ⟨context, a⟩ type = ofFields ⟨context, b⟩ type := by
  cases type <;>
    simp (disch := decide) only [ofFields, uint32, uint8, bytes, parsed_congr h, unsigned_congr h,
      amount_congr h, wrapped_congr h, require_congr a b]

section Entries

variable {fields : JsonFields}

/-- A number of 32 bits is read from a field that holds its JSON form. -/
theorem uint32_of_json {key : String} {value : Option UInt32}
    (h : fields.json.get? key = value.map jsonUInt32) : fields.uint32 key = .ok value :=
  uint32_eq_ok h

/-- A digest is read from a field that holds its JSON form. -/
theorem digest_of_json {n : Nat} {key : String} {value : Option (FixedBytes n)}
    (h : fields.json.get? key = value.map jsonDigest) :
    fields.parsed key (Digest.parse n) = .ok value :=
  parsed_eq_ok Digest.parse_text h

/-- A fee is read from a field that holds its JSON form. -/
theorem Common.feeOfFields_eq_ok {fee : Option XrpAmount}
    (h : fields.json.get? "Fee" = fee.map fun fee => (Amount.xrp fee).toJson) :
    feeOfFields fields = .ok fee := by
  have hamount : fields.amount "Fee" = .ok (fee.map .xrp) :=
    amount_eq_ok (by rw [h, Option.map_map]; rfl)
  rw [feeOfFields, hamount]
  cases fee <;> rfl

/-- The common part is read from its entries. -/
theorem Common.ofFields_entries (context : String) (common : Common) :
    ofFields ⟨context, .object common.entries⟩ = .ok common := by
  obtain ⟨memos, hmemos, hmemosBack⟩ :
      ∃ inners, wrapped ⟨context, .object common.entries⟩ "Memos" "Memo" = .ok inners ∧
        inners.mapM Memo.ofJson = .ok common.memos :=
    exists_wrapped_eq_ok Memo.exists_inner (by simp [entries])
  obtain ⟨signers, hsigners, hsignersBack⟩ :
      ∃ inners, wrapped ⟨context, .object common.entries⟩ "Signers" "Signer" = .ok inners ∧
        inners.mapM Signer.ofJson = .ok common.signers :=
    exists_wrapped_eq_ok Signer.exists_inner (by simp [entries])
  simp only [ofFields, bind_eq_ok_iff, pure_eq_ok_iff]
  -- The values that the fields give, in the order in which they are read.
  exact ⟨
    common.fee, feeOfFields_eq_ok (by simp [entries]),
    memos, hmemos, common.memos, hmemosBack,
    signers, hsigners, common.signers, hsignersBack,
    some common.account, account_eq_ok (by simp [entries]), common.account, rfl,
    common.sequence, uint32_of_json (by simp [entries]),
    common.networkId, uint32_of_json (by simp [entries]),
    common.flags, uint32_of_json (by simp [entries]),
    common.sourceTag, uint32_of_json (by simp [entries]),
    common.lastLedgerSequence, uint32_of_json (by simp [entries]),
    common.accountTxnId, digest_of_json (by simp [entries]),
    some common.signingPubKey, bytes_eq_ok (by simp [entries]),
    common.txnSignature, bytes_eq_ok (by simp [entries]), rfl⟩

/-- The details are read from their entries. -/
theorem Details.ofFields_entries (context : String) (details : Details) :
    ofFields ⟨context, .object details.entries⟩ details.type = .ok details := by
  cases details with
  | payment d =>
    simp only [type, ofFields, bind_eq_ok_iff, pure_eq_ok_iff]
    exact ⟨
      some d.destination, account_eq_ok (by simp [entries]), d.destination, rfl,
      some d.amount, amount_eq_ok (by simp [entries]), d.amount, rfl,
      d.destinationTag, uint32_of_json (by simp [entries]),
      d.invoiceId, digest_of_json (by simp [entries]),
      d.sendMax, amount_eq_ok (by simp [entries]),
      d.deliverMin, amount_eq_ok (by simp [entries]), rfl⟩
  | accountSet d =>
    simp only [type, ofFields, bind_eq_ok_iff, pure_eq_ok_iff]
    exact ⟨
      d.clearFlag, uint32_of_json (by simp [entries]),
      d.setFlag, uint32_of_json (by simp [entries]),
      d.transferRate, uint32_of_json (by simp [entries]),
      d.emailHash, digest_of_json (by simp [entries]),
      d.messageKey, bytes_eq_ok (by simp [entries]),
      d.domain, bytes_eq_ok (by simp [entries]),
      d.tickSize, uint8_eq_ok (by simp [entries]), rfl⟩
  | setRegularKey d =>
    simp only [type, ofFields, bind_eq_ok_iff, pure_eq_ok_iff]
    exact ⟨d.regularKey, account_eq_ok (by simp [entries]), rfl⟩
  | offerCreate d =>
    simp only [type, ofFields, bind_eq_ok_iff, pure_eq_ok_iff]
    exact ⟨
      some d.takerPays, amount_eq_ok (by simp [entries]), d.takerPays, rfl,
      some d.takerGets, amount_eq_ok (by simp [entries]), d.takerGets, rfl,
      d.expiration, uint32_of_json (by simp [entries]),
      d.offerSequence, uint32_of_json (by simp [entries]), rfl⟩
  | offerCancel d =>
    simp only [type, ofFields, bind_eq_ok_iff, pure_eq_ok_iff]
    exact ⟨some d.offerSequence, uint32_of_json (by simp [entries]), d.offerSequence, rfl, rfl⟩
  | signerListSet d =>
    simp only [type, ofFields, bind_eq_ok_iff, pure_eq_ok_iff]
    obtain ⟨members, hmembers, hmembersBack⟩ :
        ∃ inners, wrapped ⟨context, .object (entries (.signerListSet d))⟩ "SignerEntries"
            "SignerEntry" = .ok inners ∧
          inners.mapM SignerEntry.ofJson = .ok d.signerEntries :=
      exists_wrapped_eq_ok SignerEntry.exists_inner (by simp [entries])
    exact ⟨
      some d.signerQuorum, uint32_of_json (by simp [entries]), d.signerQuorum, rfl,
      members, hmembers, d.signerEntries, hmembersBack, rfl⟩
  | trustSet d =>
    simp only [type, ofFields, bind_eq_ok_iff]
    refine ⟨
      some (.issued d.limitAmount), amount_eq_ok (by simp [entries, Amount.toJson]),
      .issued d.limitAmount, rfl, ?_⟩
    -- Only for an issued limit, which is known now, are the qualities read.
    simp only [bind_eq_ok_iff, pure_eq_ok_iff]
    exact ⟨
      d.qualityIn, uint32_of_json (by simp [entries]),
      d.qualityOut, uint32_of_json (by simp [entries]), rfl⟩
  | accountDelete d =>
    simp only [type, ofFields, bind_eq_ok_iff, pure_eq_ok_iff]
    exact ⟨
      some d.destination, account_eq_ok (by simp [entries]), d.destination, rfl,
      d.destinationTag, uint32_of_json (by simp [entries]), rfl⟩

end Entries

/-- A key is found in the type, in the common part or in the details. -/
theorem get?_toJson (tx : Transaction) (key : String) :
    tx.toJson.get? key = if key = "TransactionType" then some (.string tx.type.name)
      else ((Json.object tx.common.entries).get? key).or
        ((Json.object tx.details.entries).get? key) := by
  rw [toJson, Json.get?_cons, Json.get?_append]

/-- Under the keys of the common part an object has what the common part has. -/
theorem get?_toJson_common (tx : Transaction) :
    ∀ key ∈ Common.keys, tx.toJson.get? key = (Json.object tx.common.entries).get? key := by
  intro key hkey
  have htype : key ≠ "TransactionType" := by
    rintro rfl
    exact absurd hkey (by decide)
  have hdetails : key ∉ Details.keys tx.details.type :=
    fun hmem => Details.not_mem_commonKeys key hmem hkey
  rw [get?_toJson, if_neg htype, Details.get?_entries_eq_none _ hdetails, Option.or_none]

/-- Under the keys of its details, a transaction has what its details have. -/
theorem get?_toJson_details (tx : Transaction) :
    ∀ key ∈ Details.keys tx.details.type,
      tx.toJson.get? key = (Json.object tx.details.entries).get? key := by
  intro key hkey
  have htype : key ≠ "TransactionType" := by
    rintro rfl
    exact Details.typeKey_not_mem hkey
  have hcommon : key ∉ Common.keys := Details.not_mem_commonKeys key hkey
  rw [get?_toJson, if_neg htype, Common.get?_entries_eq_none _ hcommon, Option.none_or]

/-- A transaction is read back from its JSON form. -/
theorem ofJson_of_toJson (tx : Transaction) : ofJson tx.toJson = .ok tx := by
  simp only [ofJson, bind_eq_ok_iff, pure_eq_ok_iff]
  have htype : parsed ⟨"transaction", tx.toJson⟩ "TransactionType" TransactionType.parse
      = .ok (some tx.type) :=
    parsed_eq_ok TransactionType.parse_name (by rw [get?_toJson, if_pos rfl, Option.map_some])
  have hcommon : Common.ofFields ⟨"transaction", tx.toJson⟩ = .ok tx.common := by
    rw [Common.ofFields_congr tx.get?_toJson_common, Common.ofFields_entries]
  have hdetails : Details.ofFields ⟨"transaction", tx.toJson⟩ tx.type = .ok tx.details := by
    rw [type, Details.ofFields_congr _ tx.get?_toJson_details, Details.ofFields_entries]
  exact ⟨⟨"transaction", tx.toJson⟩, rfl, some tx.type, htype, tx.type, rfl,
    tx.common, hcommon, tx.details, hdetails, rfl⟩

end Transaction

end XrpLedger
