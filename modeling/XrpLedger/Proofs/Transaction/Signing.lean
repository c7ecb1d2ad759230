import XrpLedger.Proofs.Transaction.SigningData

/-!
# Signing and combining signatures

Signing and combining change a transaction as a whole or leave it as it was: `Transaction.signed`
and `Transaction.combined` are the new transaction with its blob, or the error. A new transaction
differs from the old one in public key, signature and signers only, and none of these is among the
bytes that were signed. So every signature that was made for a transaction stays one of it.
-/

set_option autoImplicit false

namespace XrpLedger

namespace Transaction

variable {Key : Type} (scheme : SignatureScheme Key)

/-! ## Outcomes -/

/-- The transaction that a key signs, with its blob. -/
def signed (tx : Transaction) (key : Key) : Except CodecError (SignedBlob × Transaction) := do
  if !tx.common.signers.isEmpty then throw (.mismatch .multiSigned)
  else
    let unsigned := tx.withSignature (scheme.publicKey key) none tx.common.signers
    let signature ← scheme.sign key (← unsigned.signingData)
    let signed := tx.withSignature (scheme.publicKey key) (some signature) tx.common.signers
    return (← signed.signedBlob, signed)

/-- The transaction with combined signers, with its blob. -/
def combined (tx : Transaction) (signers : List Signer) :
    Except CodecError (SignedBlob × Transaction) := do
  if signers.isEmpty then throw (.mismatch .noSigners)
  else
    match repeatedAccount? (sortSigners signers) with
    | some account => throw (.mismatch (.signedTwice account.address))
    | none =>
      let combined := tx.withSignature [] none (sortSigners signers)
      return (← combined.signedBlob, combined)

/-- Signing changes the transaction as a whole or not at all. -/
theorem run_sign (tx : Transaction) (key : Key) :
    ((sign scheme key).run tx).run = settle tx (tx.signed scheme key) := by
  unfold sign signed
  show ((if !tx.common.signers.isEmpty then _ else _ : Signing SignedBlob).run tx).run = _
  by_cases hsigners : (!tx.common.signers.isEmpty) = true
  · rw [if_pos hsigners, if_pos hsigners]
    rfl
  · rw [if_neg hsigners, if_neg hsigners]
    -- three steps may fail, all of them before the transaction is replaced
    refine run_liftExcept_bind _ fun data => ?_
    refine run_liftExcept_bind _ fun signature => ?_
    exact run_liftExcept_bind _ fun blob => rfl

/-- Combining changes the transaction as a whole or not at all. -/
theorem run_combineSigners (tx : Transaction) (signers : List Signer) :
    ((combineSigners signers).run tx).run = settle tx (tx.combined signers) := by
  unfold combineSigners combined
  by_cases hempty : signers.isEmpty = true
  · rw [if_pos hempty, if_pos hempty]
    rfl
  · rw [if_neg hempty, if_neg hempty]
    dsimp only
    cases repeatedAccount? (sortSigners signers) with
    | some account => rfl
    | none => exact run_liftExcept_bind _ fun blob => rfl

/-- A key signs a transaction without signers, if it can sign what a single signature covers and the
transaction can be written with the signature. -/
theorem signed_eq_ok_iff {tx next : Transaction} {key : Key} {blob : SignedBlob} :
    tx.signed scheme key = .ok (blob, next) ↔
      tx.common.signers = [] ∧ ∃ data signature,
        (tx.withSignature (scheme.publicKey key) none []).signingData = .ok data ∧
        scheme.sign key data = .ok signature ∧ next.signedBlob = .ok blob ∧
        next = tx.withSignature (scheme.publicKey key) (some signature) [] := by
  unfold signed
  by_cases hsigners : tx.common.signers = []
  · simp only [hsigners, List.isEmpty_nil, Bool.not_true, Bool.false_eq_true, if_false,
      bind_eq_ok_iff, pure_eq_ok_iff, Prod.mk.injEq, true_and]
    constructor
    · rintro ⟨data, hdata, signature, hsignature, _, hblob, rfl, rfl⟩
      exact ⟨data, signature, hdata, hsignature, hblob, rfl⟩
    · rintro ⟨data, signature, hdata, hsignature, hblob, rfl⟩
      exact ⟨data, hdata, signature, hsignature, _, hblob, rfl, rfl⟩
  · have hpresent : (!tx.common.signers.isEmpty) = true := by simp [hsigners]
    rw [if_pos hpresent]
    exact iff_of_false throw_ne_ok fun h => hsigners h.1

/-- Signers are combined, sorted by account, if there are any, no account stands twice and the
transaction can be written with them. -/
theorem combined_eq_ok_iff {tx next : Transaction} {signers : List Signer} {blob : SignedBlob} :
    tx.combined signers = .ok (blob, next) ↔
      signers ≠ [] ∧ repeatedAccount? (sortSigners signers) = none ∧
        next.signedBlob = .ok blob ∧ next = tx.withSignature [] none (sortSigners signers) := by
  unfold combined
  by_cases hempty : signers = []
  · have hnone : signers.isEmpty = true := by simp [hempty]
    rw [if_pos hnone]
    exact iff_of_false throw_ne_ok fun h => h.1 hempty
  · have hsome : ¬ signers.isEmpty = true := by simp [hempty]
    rw [if_neg hsome]
    cases hrepeated : repeatedAccount? (sortSigners signers) with
    | some account => exact iff_of_false throw_ne_ok fun h => by cases h.2.1
    | none =>
      simp only [bind_eq_ok_iff, pure_eq_ok_iff, Prod.mk.injEq]
      constructor
      · rintro ⟨_, hblob, rfl, rfl⟩
        exact ⟨hempty, trivial, hblob, rfl⟩
      · rintro ⟨-, -, hblob, rfl⟩
        exact ⟨_, hblob, rfl, rfl⟩

/-- The signed blob is what the transaction is written as, with its id. -/
theorem toBytes_of_signedBlob {tx : Transaction} {blob : SignedBlob}
    (h : tx.signedBlob = .ok blob) : tx.toBytes = .ok blob.blob ∧ tx.hash = .ok blob.hash := by
  obtain ⟨bytes, hbytes, hblob⟩ := bind_eq_ok_iff.mp h
  obtain rfl := pure_eq_ok_iff.mp hblob
  exact ⟨hbytes, bind_eq_ok_iff.mpr ⟨bytes, hbytes, rfl⟩⟩

/-! ## What signing does not touch -/

variable {tx other : Transaction}

/-- What a single signature covers depends on neither the signature nor the signers. -/
theorem signingData_congr (h : tx.withoutSignatures = other.withoutSignatures) :
    tx.signingData = other.signingData := by
  unfold signingData
  rw [serialize_true, serialize_true, h]

/-- What one of several signers signs depends on nothing that signing fills in. -/
theorem multisigningData_congr (h : tx.unsigned = other.unsigned) (signer : AccountId) :
    tx.multisigningData signer = other.multisigningData signer := by
  unfold multisigningData
  show (do return multisignMark ++ (← tx.unsigned.serialize true) ++ signer.bytes.toList
    : Except CodecError Bytes) = _
  rw [h]
  rfl

/-! ## Signers in order -/

/-- Whether the account of a signer comes before that of another one. -/
def Precedes (a b : Signer) : Prop :=
  compare a.account b.account = .lt

/-- Accounts with the same number are the same. -/
theorem account_eq_of_toNat_eq {a b : AccountId} (h : a.bytes.toNat = b.bytes.toNat) : a = b := by
  have hbytes : a.bytes = b.bytes := FixedBytes.toNat_injective h
  exact congrArg AccountId.mk hbytes

/-- One signer comes before another exactly if the number of its account is smaller. -/
theorem precedes_iff {a b : Signer} :
    Precedes a b ↔ a.account.bytes.toNat < b.account.bytes.toNat := by
  show compare a.account.bytes.toNat b.account.bytes.toNat = .lt ↔ _
  exact Nat.compare_eq_lt

/-- Sorting only changes the order of signers. -/
theorem sortSigners_perm (signers : List Signer) : (sortSigners signers).Perm signers :=
  List.mergeSort_perm _ _

/-- Sorting leaves no signer out. -/
theorem sortSigners_ne_nil {signers : List Signer} (h : signers ≠ []) :
    sortSigners signers ≠ [] := by
  intro hnil
  have hperm := sortSigners_perm signers
  rw [hnil] at hperm
  exact h hperm.nil_eq.symm

/-- The accounts of sorted signers do not descend. -/
theorem sortSigners_pairwise (signers : List Signer) :
    (sortSigners signers).Pairwise fun a b => a.account.bytes.toNat ≤ b.account.bytes.toNat := by
  have htrans : ∀ a b c : Signer,
      decide (a.account.bytes.toNat ≤ b.account.bytes.toNat) = true →
      decide (b.account.bytes.toNat ≤ c.account.bytes.toNat) = true →
      decide (a.account.bytes.toNat ≤ c.account.bytes.toNat) = true := by
    intro a b c hab hbc
    simp only [decide_eq_true_eq] at *
    omega
  have htotal : ∀ a b : Signer,
      (decide (a.account.bytes.toNat ≤ b.account.bytes.toNat)
        || decide (b.account.bytes.toNat ≤ a.account.bytes.toNat)) = true := by
    intro a b
    simp only [Bool.or_eq_true, decide_eq_true_eq]
    omega
  have hsorted := List.pairwise_mergeSort htrans htotal signers
  exact hsorted.imp of_decide_eq_true

/-- Signers that do not descend and of which no two neighbours share an account ascend. -/
theorem pairwise_precedes {signers : List Signer}
    (hsorted : signers.Pairwise fun a b => a.account.bytes.toNat ≤ b.account.bytes.toNat)
    (hrepeated : repeatedAccount? signers = none) : signers.Pairwise Precedes := by
  induction signers with
  | nil => exact .nil
  | cons a rest ih =>
    cases rest with
    | nil => exact List.pairwise_singleton _ _
    | cons b rest =>
      rw [repeatedAccount?] at hrepeated
      by_cases hsame : a.account = b.account
      · rw [if_pos hsame] at hrepeated
        cases hrepeated
      · rw [if_neg hsame] at hrepeated
        obtain ⟨hfirst, hrest⟩ := List.pairwise_cons.mp hsorted
        have hne : a.account.bytes.toNat ≠ b.account.bytes.toNat :=
          fun heq => hsame (account_eq_of_toNat_eq heq)
        have hlt : a.account.bytes.toNat < b.account.bytes.toNat :=
          Nat.lt_of_le_of_ne (hfirst b List.mem_cons_self) hne
        refine List.pairwise_cons.mpr ⟨fun c hc => precedes_iff.mpr ?_, ih hrest hrepeated⟩
        rcases List.mem_cons.mp hc with rfl | hlater
        · exact hlt
        · exact Nat.lt_of_lt_of_le hlt ((List.pairwise_cons.mp hrest).1 c hlater)

/-- Where no account stands twice, none is found repeated. -/
theorem repeatedAccount?_eq_none {signers : List Signer} (h : (signers.map (·.account)).Nodup) :
    repeatedAccount? signers = none := by
  induction signers with
  | nil => rfl
  | cons a rest ih =>
    cases rest with
    | nil => rfl
    | cons b rest =>
      obtain ⟨hfirst, hrest⟩ := List.nodup_cons.mp h
      have hne : a.account ≠ b.account := by
        intro heq
        apply hfirst
        exact List.mem_map.mpr ⟨b, List.mem_cons_self, heq.symm⟩
      rw [repeatedAccount?, if_neg hne]
      exact ih hrest

/-- Sorted signers have no neighbours of one account exactly if no account stands twice at all. -/
theorem repeatedAccount?_sortSigners_eq_none_iff {signers : List Signer} :
    repeatedAccount? (sortSigners signers) = none ↔ (signers.map (·.account)).Nodup := by
  have hperm := (sortSigners_perm signers).map (·.account)
  rw [← hperm.nodup_iff]
  constructor
  · intro h
    have hascend := pairwise_precedes (sortSigners_pairwise signers) h
    rw [List.Nodup, List.pairwise_map]
    refine hascend.imp ?_
    intro a b hab heq
    have hlt := precedes_iff.mp hab
    rw [heq] at hlt
    exact Nat.lt_irrefl _ hlt
  · exact repeatedAccount?_eq_none

/-! ## Verification -/

/-- All signers are verified exactly if each signature is one of what its signer signs. -/
theorem verifySigners_eq_true_iff {signers : List Signer} :
    verifySigners scheme tx signers = .ok true ↔
      ∀ signer ∈ signers, ∃ data, tx.multisigningData signer.account = .ok data ∧
        scheme.verify signer.signingPubKey data signer.txnSignature = .ok true := by
  induction signers with
  | nil => simp [verifySigners]
  | cons signer rest ih =>
    rw [verifySigners, List.forall_mem_cons, ← ih]
    simp only [bind_eq_ok_iff]
    constructor
    · rintro ⟨data, hdata, valid, hvalid, hrest⟩
      cases valid with
      | false => cases hrest
      | true => exact ⟨⟨data, hdata, hvalid⟩, hrest⟩
    · rintro ⟨⟨data, hdata, hvalid⟩, hrest⟩
      exact ⟨data, hdata, true, hvalid, hrest⟩

end Transaction

end XrpLedger
