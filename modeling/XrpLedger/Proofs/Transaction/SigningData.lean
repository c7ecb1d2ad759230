import XrpLedger.Proofs.Transaction.RoundTrip

/-!
# What signatures cover

The bytes for signing are the blob of the transaction without its signatures, so that they are read
back like any blob: they fix every field that they cover. In front stands a mark that tells single
signatures, signatures of one of several signers and transaction ids apart; the account of a signer
stands behind and has a fixed length, so that nothing moves between it and the fields.
-/

set_option autoImplicit false

namespace XrpLedger

namespace Transaction

variable {tx : Transaction} {bytes : Bytes} {signer : AccountId}

/-- The transaction without its signature and its signers. -/
def withoutSignatures (tx : Transaction) : Transaction :=
  tx.withSignature tx.common.signingPubKey none []

/-- The transaction without anything that signing fills in. -/
def unsigned (tx : Transaction) : Transaction :=
  tx.withSignature [] none []

/-- For signing, a transaction is written without its signature and its signers. -/
theorem serialize_true (tx : Transaction) : tx.serialize true = tx.withoutSignatures.toBytes := rfl

/-- A single signature covers the mark and the bytes for signing. -/
theorem signingData_eq_ok_iff :
    tx.signingData = .ok bytes ↔
      ∃ body, tx.withoutSignatures.toBytes = .ok body ∧ signMark ++ body = bytes := by
  rw [← serialize_true]
  simp only [signingData, bind_eq_ok_iff, pure_eq_ok_iff]

/-- The signature of one of several signers covers the mark, the bytes for signing without a public
key and the signer's account. -/
theorem multisigningData_eq_ok_iff :
    tx.multisigningData signer = .ok bytes ↔
      ∃ body, tx.unsigned.toBytes = .ok body ∧
        multisignMark ++ body ++ signer.bytes.toList = bytes := by
  have hunsigned : tx.unsigned.toBytes = (tx.withSignature [] none []).serialize true := rfl
  rw [hunsigned]
  simp only [multisigningData, bind_eq_ok_iff, pure_eq_ok_iff]

/-- Two accounts behind two byte strings are the same if the wholes are, and so are the byte
strings. -/
theorem append_account_inj {body body' : Bytes} {signer' : AccountId}
    (h : body ++ signer.bytes.toList = body' ++ signer'.bytes.toList) :
    body = body' ∧ signer = signer' := by
  have hlength : signer.bytes.toList.length = signer'.bytes.toList.length := by
    rw [signer.bytes.length_toList, signer'.bytes.length_toList]
  obtain ⟨hbody, haccount⟩ := List.append_inj' h hlength
  refine ⟨hbody, ?_⟩
  cases signer
  cases signer'
  exact congrArg AccountId.mk (FixedBytes.ext haccount)

/-- Whether a single signature of some transaction covers these bytes. -/
def IsSigningData (bytes : Bytes) : Prop :=
  ∃ tx : Transaction, tx.signingData = .ok bytes

/-- Whether the signature of one of several signers of some transaction covers these bytes. -/
def IsMultisigningData (bytes : Bytes) : Prop :=
  ∃ (tx : Transaction) (signer : AccountId), tx.multisigningData signer = .ok bytes

/-- Whether the digest of these bytes is the id of some blob. -/
def IsIdData (bytes : Bytes) : Prop :=
  ∃ blob, idMark ++ blob = bytes

/-- What a single signature covers starts with its mark. -/
theorem IsSigningData.starts_with_mark (h : IsSigningData bytes) : signMark <+: bytes := by
  obtain ⟨tx, hdata⟩ := h
  obtain ⟨body, -, rfl⟩ := signingData_eq_ok_iff.mp hdata
  exact List.prefix_append _ _

/-- What one of several signatures covers starts with its mark. -/
theorem IsMultisigningData.starts_with_mark (h : IsMultisigningData bytes) :
    multisignMark <+: bytes := by
  obtain ⟨tx, signer, hdata⟩ := h
  obtain ⟨body, -, rfl⟩ := multisigningData_eq_ok_iff.mp hdata
  rw [List.append_assoc]
  exact List.prefix_append _ _

/-- Two marks of the same length in front of the same bytes are the same. -/
theorem eq_of_marks {mark mark' : Bytes} (h : mark <+: bytes) (h' : mark' <+: bytes)
    (hlength : mark.length = mark'.length) : mark = mark' := by
  have hprefix : mark <+: mark' := List.prefix_of_prefix_length_le h h' (Nat.le_of_eq hlength)
  exact hprefix.eq_of_length hlength

/-- Bytes for signing are the same exactly for transactions that differ in signature and signers
only, and so is what a single signature covers; what one of several signers signs is the same
exactly for the same account and transactions that differ in public key, signature and signers only.
What a single signature covers, what one of several signatures covers and what has an id as its
digest are never the same bytes. -/
theorem signingData_separates :
    (∀ (t₁ t₂ : Transaction) (b₁ b₂ : Bytes),
      t₁.serialize true = .ok b₁ → t₂.serialize true = .ok b₂ →
        (b₁ = b₂ ↔ t₁.withoutSignatures = t₂.withoutSignatures)) ∧
    (∀ (t₁ t₂ : Transaction) (b₁ b₂ : Bytes),
      t₁.signingData = .ok b₁ → t₂.signingData = .ok b₂ →
        (b₁ = b₂ ↔ t₁.withoutSignatures = t₂.withoutSignatures)) ∧
    (∀ (t₁ t₂ : Transaction) (a₁ a₂ : AccountId) (b₁ b₂ : Bytes),
      t₁.multisigningData a₁ = .ok b₁ → t₂.multisigningData a₂ = .ok b₂ →
        (b₁ = b₂ ↔ a₁ = a₂ ∧ t₁.unsigned = t₂.unsigned)) ∧
    ∀ bytes : Bytes,
      ¬ (IsSigningData bytes ∧ IsMultisigningData bytes) ∧
      ¬ (IsSigningData bytes ∧ IsIdData bytes) ∧
      ¬ (IsMultisigningData bytes ∧ IsIdData bytes) := by
  refine ⟨?_, ?_, ?_, ?_⟩
  · intro t₁ t₂ b₁ b₂ h₁ h₂
    rw [serialize_true] at h₁ h₂
    exact blob_eq_iff h₁ h₂
  · intro t₁ t₂ b₁ b₂ h₁ h₂
    obtain ⟨body₁, hbody₁, rfl⟩ := signingData_eq_ok_iff.mp h₁
    obtain ⟨body₂, hbody₂, rfl⟩ := signingData_eq_ok_iff.mp h₂
    rw [List.append_cancel_left_eq]
    exact blob_eq_iff hbody₁ hbody₂
  · intro t₁ t₂ a₁ a₂ b₁ b₂ h₁ h₂
    obtain ⟨body₁, hbody₁, rfl⟩ := multisigningData_eq_ok_iff.mp h₁
    obtain ⟨body₂, hbody₂, rfl⟩ := multisigningData_eq_ok_iff.mp h₂
    rw [← blob_eq_iff hbody₁ hbody₂]
    constructor
    · intro heq
      obtain ⟨hmarked, haccount⟩ := append_account_inj heq
      exact ⟨haccount, List.append_cancel_left hmarked⟩
    · rintro ⟨rfl, rfl⟩
      rfl
  · intro bytes
    -- the three marks are different, and all of them are four bytes long
    refine ⟨?_, ?_, ?_⟩
    · rintro ⟨hsign, hmulti⟩
      exact absurd (eq_of_marks hsign.starts_with_mark hmulti.starts_with_mark rfl) (by decide)
    · rintro ⟨hsign, hid⟩
      exact absurd (eq_of_marks hsign.starts_with_mark hid rfl) (by decide)
    · rintro ⟨hmulti, hid⟩
      exact absurd (eq_of_marks hmulti.starts_with_mark hid rfl) (by decide)

/-- A signature does not change what is signed, a memo does, and no two accounts sign the same. -/
theorem signingData_separates_keyRemoval :
    (keyRemoval []).serialize true
        = ((keyRemoval []).withSignature [] (some [1]) []).serialize true ∧
      (keyRemoval []).serialize true ≠ (keyRemoval [⟨none, some [], none⟩]).serialize true ∧
      (keyRemoval []).signingData ≠ (keyRemoval [⟨none, some [], none⟩]).signingData ∧
      (keyRemoval []).multisigningData ⟨.zero 20⟩
        ≠ (keyRemoval []).multisigningData ⟨.ofNat 20 1⟩ := by
  have hplain : (keyRemoval []).serialize true = .ok (keyRemovalBlob []) := rfl
  have hsigned : ((keyRemoval []).withSignature [] (some [1]) []).serialize true
      = .ok (keyRemovalBlob []) := rfl
  have hmemo : (keyRemoval [⟨none, some [], none⟩]).serialize true
      = .ok (keyRemovalBlob [0xF9, 0xEA, 0x7D, 0, 0xE1, 0xF1]) := rfl
  have hdata : (keyRemoval []).signingData = .ok (signMark ++ keyRemovalBlob []) := rfl
  have hmemoData : (keyRemoval [⟨none, some [], none⟩]).signingData
      = .ok (signMark ++ keyRemovalBlob [0xF9, 0xEA, 0x7D, 0, 0xE1, 0xF1]) := rfl
  have hzero : (keyRemoval []).multisigningData ⟨.zero 20⟩
      = .ok (multisignMark ++ keyRemovalBlob [] ++ (FixedBytes.zero 20).toList) := rfl
  have hone : (keyRemoval []).multisigningData ⟨.ofNat 20 1⟩
      = .ok (multisignMark ++ keyRemovalBlob [] ++ (FixedBytes.ofNat 20 1).toList) := rfl
  have hmemos : (keyRemoval []).withoutSignatures
      ≠ (keyRemoval [⟨none, some [], none⟩]).withoutSignatures := by
    intro hsame
    cases congrArg (fun tx : Transaction => tx.common.memos) hsame
  obtain ⟨hserialize, hsign, hmulti, -⟩ := signingData_separates
  refine ⟨?_, ?_, ?_, ?_⟩
  · rw [hplain, hsigned, (hserialize _ _ _ _ hplain hsigned).mpr rfl]
  · intro heq
    rw [hplain, hmemo] at heq
    exact hmemos ((hserialize _ _ _ _ hplain hmemo).mp (Except.ok.inj heq))
  · intro heq
    rw [hdata, hmemoData] at heq
    exact hmemos ((hsign _ _ _ _ hdata hmemoData).mp (Except.ok.inj heq))
  · intro heq
    rw [hzero, hone] at heq
    have hsame := ((hmulti _ _ _ _ _ _ hzero hone).mp (Except.ok.inj heq)).1
    exact absurd hsame (by decide)

end Transaction

end XrpLedger
