import XrpLedger.Proofs.Transaction.Signing

/-!
# What verification accepts

Combining leaves an empty public key, no single signature and signers in ascending order, so that no
account is among them twice (`Transaction.IsCombined`). Verification of a transaction with signers
asks for less. Each signature is compared with what its signer signs, and what that is does not
depend on any of these fields; so a transaction stays verified when its signers are put in another
order or repeated, and whatever stands for a single signature beside them.
-/

set_option autoImplicit false

namespace XrpLedger

namespace Transaction

variable {Key : Type} {scheme : SignatureScheme Key} {tx : Transaction}

/-- Whether public key, signature and signers are as combining leaves them. -/
def IsCombined (tx : Transaction) : Prop :=
  tx.common.signingPubKey = [] ∧ tx.common.txnSignature = none ∧
    tx.common.signers.Pairwise Precedes

/-- Whether each signer's signature is accepted as one of what the signer signs. -/
def SignersAccepted (scheme : SignatureScheme Key) (tx : Transaction) : Prop :=
  ∀ signer ∈ tx.common.signers, ∃ data, tx.multisigningData signer.account = .ok data ∧
    scheme.verify signer.signingPubKey data signer.txnSignature = .ok true

/-- Combining leaves an empty public key, no single signature and signers in ascending order. -/
theorem isCombined_of_combined {signers : List Signer} {blob : SignedBlob} {next : Transaction}
    (h : tx.combined signers = .ok (blob, next)) : next.IsCombined := by
  obtain ⟨-, hnone, -, rfl⟩ := combined_eq_ok_iff.mp h
  exact ⟨rfl, rfl, pairwise_precedes (sortSigners_pairwise signers) hnone⟩

/-- A transaction with signers is verified exactly if the signature of each is accepted. -/
theorem verifySignature_eq_true_iff (hsigners : tx.common.signers ≠ []) :
    tx.verifySignature scheme = .ok true ↔ SignersAccepted scheme tx := by
  have hpresent : ¬tx.common.signers.isEmpty = true := by simp [hsigners]
  rw [verifySignature, if_neg hpresent]
  exact verifySigners_eq_true_iff scheme

/-- Only which signers there are matters, not how often and in which order they stand, and not what
stands for a single signature. -/
theorem signersAccepted_withSignature_iff {key : Bytes} {signature : Option Bytes}
    {signers : List Signer} (hmem : ∀ signer, signer ∈ signers ↔ signer ∈ tx.common.signers) :
    SignersAccepted scheme (tx.withSignature key signature signers) ↔
      SignersAccepted scheme tx := by
  have hdata : ∀ account, (tx.withSignature key signature signers).multisigningData account
      = tx.multisigningData account := fun account => multisigningData_congr rfl account
  constructor
  · intro h signer hsigner
    rw [← hdata]
    exact h signer ((hmem signer).mpr hsigner)
  · intro h signer hsigner
    rw [hdata]
    exact h signer ((hmem signer).mp hsigner)

/-- A transaction with signers is verified exactly if each signature is accepted, and stays verified
with the same signers in any order and number beside any single signature. Combining its signers
brings it into its form and changes nothing about that. So that a verified transaction has this form
is true of a transaction which has it or is not verified, and of no other. -/
theorem verification_of_signers (hsigners : tx.common.signers ≠ []) :
    (tx.verifySignature scheme = .ok true ↔ SignersAccepted scheme tx) ∧
    (∀ key signature signers, (∀ signer, signer ∈ signers ↔ signer ∈ tx.common.signers) →
      ((tx.withSignature key signature signers).verifySignature scheme = .ok true ↔
        tx.verifySignature scheme = .ok true)) ∧
    (∀ blob next, tx.combined tx.common.signers = .ok (blob, next) →
      next.IsCombined ∧
        (next.verifySignature scheme = .ok true ↔ tx.verifySignature scheme = .ok true)) ∧
    ((tx.verifySignature scheme = .ok true → tx.IsCombined) ↔
      tx.IsCombined ∨ ¬SignersAccepted scheme tx) := by
  have hform : ∀ key signature signers,
      (∀ signer, signer ∈ signers ↔ signer ∈ tx.common.signers) →
      ((tx.withSignature key signature signers).verifySignature scheme = .ok true ↔
        tx.verifySignature scheme = .ok true) := by
    intro key signature signers hmem
    have hsigners' : (tx.withSignature key signature signers).common.signers ≠ [] := by
      obtain ⟨signer, hsigner⟩ := List.exists_mem_of_ne_nil _ hsigners
      exact List.ne_nil_of_mem ((hmem signer).mpr hsigner)
    rw [verifySignature_eq_true_iff hsigners, verifySignature_eq_true_iff hsigners',
      signersAccepted_withSignature_iff hmem]
  refine ⟨verifySignature_eq_true_iff hsigners, hform, ?_, ?_⟩
  · intro blob next hcombined
    have hcombinedForm := isCombined_of_combined hcombined
    obtain ⟨-, -, -, rfl⟩ := combined_eq_ok_iff.mp hcombined
    exact ⟨hcombinedForm, hform _ _ _ fun _ => (sortSigners_perm _).mem_iff⟩
  · rw [verifySignature_eq_true_iff hsigners, or_comm, ← imp_iff_not_or]

/-! ## A signer counted twice -/

/-- One who signs the removal of a key together with others, by an Ed25519 key. -/
def removalSigner : Signer where
  account := ⟨⟨[0xD2, 0x8B, 0x17, 0x7E, 0x48, 0xD9, 0xA8, 0xD0, 0x57, 0xE7, 0x0F, 0x7E, 0x46, 0x4B,
    0x49, 0x83, 0x67, 0x28, 0x1B, 0x98], rfl⟩⟩
  signingPubKey := [0xED, 0x01, 0xFA, 0x53, 0xFA, 0x5A, 0x7E, 0x77, 0x79, 0x8F, 0x88, 0x2E, 0xCE,
    0x20, 0xB1, 0xAB, 0xC0, 0x0B, 0xB3, 0x58, 0xA9, 0xE5, 0x5A, 0x20, 0x2D, 0x0D, 0x06, 0x76, 0xBD,
    0x0C, 0xE3, 0x7A, 0x63]
  txnSignature := [0xB1, 0x40, 0x13, 0x75, 0x10, 0xAD, 0x06, 0x52, 0x42, 0x03, 0xA6, 0xCA, 0xE4,
    0x83, 0x79, 0x40, 0x02, 0x9D, 0x69, 0x58, 0xC6, 0x2D, 0x41, 0xCA, 0xEC, 0xD7, 0x89, 0x9C, 0xC9,
    0xA0, 0xB9, 0xD7, 0x42, 0x15, 0x02, 0xEA, 0x3C, 0x81, 0x8B, 0xAF, 0x45, 0x0B, 0xE7, 0xFF, 0x51,
    0x2A, 0xD3, 0xDA, 0x44, 0xF7, 0xA7, 0x4B, 0xC0, 0xDD, 0xA3, 0x19, 0xE9, 0xE0, 0x47, 0x67, 0xE8,
    0x0C, 0x35, 0x0C]

/-- The signature of the known signer is one of the removal of a key. -/
theorem verify_removalSigner :
    KeyPair.scheme.verify removalSigner.signingPubKey
      (multisignMark ++ keyRemovalBlob [] ++ removalSigner.account.bytes.toList)
      removalSigner.txnSignature = .ok true := by
  -- Only the curve arithmetic is computed; what the signer signs is known from the layout.
  have hvalid : Ed25519.verify (removalSigner.signingPubKey.drop 1)
      (multisignMark ++ keyRemovalBlob [] ++ removalSigner.account.bytes.toList)
      removalSigner.txnSignature = true := by
    decide +kernel
  exact congrArg Except.ok hvalid

/-- The removal of a key with the contribution of this signer, put in once or more often. -/
def signedRemoval (count : Nat) : Transaction :=
  (keyRemoval []).withSignature [] none (List.replicate count removalSigner)

/-- The contribution of the known signer is accepted however often it is put in. -/
theorem signersAccepted_signedRemoval (count : Nat) :
    SignersAccepted KeyPair.scheme (signedRemoval count) := by
  intro signer hsigner
  obtain rfl : signer = removalSigner := List.eq_of_mem_replicate hsigner
  have hdata : (keyRemoval []).multisigningData removalSigner.account
      = .ok (multisignMark ++ keyRemovalBlob [] ++ removalSigner.account.bytes.toList) := rfl
  refine ⟨_, ?_, verify_removalSigner⟩
  rw [← hdata]
  exact multisigningData_congr rfl _

/-- With one signer the removal is verified, so it is with the signer put in three times beside a
public key and a signature that fit nothing. -/
theorem verification_of_signers_removal :
    (signedRemoval 1).common.signers ≠ [] ∧
      (signedRemoval 1).verifySignature KeyPair.scheme = .ok true ∧
      ((signedRemoval 1).withSignature [2] (some [3])
        (List.replicate 3 removalSigner)).verifySignature KeyPair.scheme = .ok true := by
  have hsigners : (signedRemoval 1).common.signers ≠ [] := List.cons_ne_nil _ _
  obtain ⟨haccepted, hform, -, -⟩ := @verification_of_signers _ KeyPair.scheme _ hsigners
  have hverified := haccepted.mpr (signersAccepted_signedRemoval 1)
  refine ⟨hsigners, hverified, (hform _ _ _ ?_).mpr hverified⟩
  intro signer
  rw [signedRemoval, withSignature, List.mem_replicate]
  simp

/-- The bytes of the array with a number of contributions of this signer. -/
def removalSigners (count : Nat) : Bytes :=
  [0xF3] ++ (List.replicate count
    ([0xE0, 0x10, 0x73, 0x21] ++ removalSigner.signingPubKey ++ [0x74, 0x40]
      ++ removalSigner.txnSignature ++ [0x81, 20] ++ removalSigner.account.bytes.toList
      ++ [0xE1])).flatten ++ [0xF1]

set_option maxRecDepth 2000 in
/-- A blob that holds one signer twice is read, and the transaction is verified. -/
theorem verifySignature_repeatedSigner :
    ofBytes (keyRemovalBlob (removalSigners 2)) = .ok (signedRemoval 2) ∧
      (signedRemoval 2).common.signers ≠ [] ∧
      (signedRemoval 2).verifySignature KeyPair.scheme = .ok true ∧
      ¬(signedRemoval 2).IsCombined := by
  have hbytes : (signedRemoval 2).toBytes = .ok (keyRemovalBlob (removalSigners 2)) := rfl
  have hsigners : (signedRemoval 2).common.signers ≠ [] := List.cons_ne_nil _ _
  refine ⟨ofBytes_eq_ok_of_toBytes hbytes, hsigners, ?_, ?_⟩
  · rw [verifySignature_eq_true_iff hsigners]
    exact signersAccepted_signedRemoval 2
  · rintro ⟨-, -, hascend⟩
    have hprecedes := (List.pairwise_cons.mp hascend).1 removalSigner List.mem_cons_self
    exact Nat.lt_irrefl _ (precedes_iff.mp hprecedes)

end Transaction

end XrpLedger
