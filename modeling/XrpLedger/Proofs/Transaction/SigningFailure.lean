import Mathlib.Tactic.Tauto
import XrpLedger.Proofs.Key.Pair
import XrpLedger.Proofs.Transaction.Limits
import XrpLedger.Proofs.Transaction.Signing

/-!
# When signing fails

A transaction is replaced only after every step that may fail, so a failure leaves it as it was,
with any earlier signature. Which steps can fail is settled by what can be written: a key signs
whatever it is given, the keys and signatures of key pairs are short, and the signers are sorted
before they are written. What remains are signers in the way of a single signature, no signers or
two of one account to combine, an unset sequence or fee, and blobs that are too long.
-/

set_option autoImplicit false

namespace XrpLedger

/-- Whether the keys of a scheme sign everything, and keys and signatures can be written. -/
structure SignatureScheme.Compact {Key : Type} (scheme : SignatureScheme Key) : Prop where
  publicKey_fits : ∀ key, (Scalar.blob (scheme.publicKey key)).Fits
  signs : ∀ key message, ∃ signature,
    scheme.sign key message = .ok signature ∧ (Scalar.blob signature).Fits

/-- Key pairs sign everything, and their keys and signatures are short enough to be written. -/
theorem KeyPair.compact_scheme : KeyPair.scheme.Compact := by
  constructor
  case publicKey_fits =>
    intro pair
    have hlength := pair.length_publicKey
    have hlimit : 33 ≤ LengthMarker.limit := by decide
    exact Nat.le_trans (Nat.le_of_eq hlength) hlimit
  case signs =>
    intro pair message
    have hlength := pair.length_sign_le message
    have hlimit : 72 ≤ LengthMarker.limit := by decide
    exact ⟨_, rfl, Nat.le_trans hlength hlimit⟩

namespace Transaction

variable {Key : Type} {scheme : SignatureScheme Key} {tx : Transaction}

/-- A transaction with given signatures is written exactly if sequence and fee are set and the
signatures fit with all other blobs. -/
theorem withSignature_isOk_iff {key : Bytes} {signature : Option Bytes} {signers : List Signer} :
    (∃ bytes, (tx.withSignature key signature signers).toBytes = .ok bytes) ↔
      tx.common.sequence ≠ none ∧ tx.common.fee ≠ none ∧ (Scalar.blob key).Fits ∧
        (∀ s ∈ signature, (Scalar.blob s).Fits) ∧ FitBlobs (signers.flatMap Signer.blobs) ∧
        FitBlobs tx.contentBlobs := by
  have hblobs : (tx.withSignature key signature signers).blobs
      = key :: (signature.toList ++ signers.flatMap Signer.blobs) ++ tx.contentBlobs := rfl
  rw [toBytes_isOk_iff, hblobs, fitBlobs_append, fitBlobs_cons, fitBlobs_append, fitBlobs_toList,
    and_assoc, and_assoc]
  rfl

/-- A transaction has a signed blob exactly if it can be written. -/
theorem signedBlob_isOk_iff :
    (∃ blob, tx.signedBlob = .ok blob) ↔ ∃ bytes, tx.toBytes = .ok bytes := by
  simp only [signedBlob, bind_eq_ok_iff, pure_eq_ok_iff]
  constructor
  · rintro ⟨_, bytes, hbytes, -⟩
    exact ⟨bytes, hbytes⟩
  · rintro ⟨bytes, hbytes⟩
    exact ⟨_, bytes, hbytes, rfl⟩

/-- A key signs exactly a transaction without signers whose content can be written. -/
theorem signed_isOk_iff (hscheme : scheme.Compact) {key : Key} :
    (∃ outcome, tx.signed scheme key = .ok outcome) ↔
      tx.common.signers = [] ∧ tx.common.sequence ≠ none ∧ tx.common.fee ≠ none ∧
        FitBlobs tx.contentBlobs := by
  have hkey := hscheme.publicKey_fits key
  constructor
  · rintro ⟨⟨blob, next⟩, h⟩
    obtain ⟨hsigners, data, signature, -, -, hblob, rfl⟩ := (signed_eq_ok_iff scheme).mp h
    obtain ⟨hsequence, hfee, -, -, -, hcontent⟩ :=
      withSignature_isOk_iff.mp (signedBlob_isOk_iff.mp ⟨blob, hblob⟩)
    exact ⟨hsigners, hsequence, hfee, hcontent⟩
  · rintro ⟨hsigners, hsequence, hfee, hcontent⟩
    -- It is written twice: without a signature, to be signed, and then with it.
    have hwritten : ∀ signature : Option Bytes, (∀ s ∈ signature, (Scalar.blob s).Fits) →
        ∃ bytes, (tx.withSignature (scheme.publicKey key) signature []).toBytes = .ok bytes :=
      fun _ hfits => withSignature_isOk_iff.mpr
        ⟨hsequence, hfee, hkey, hfits, fitBlobs_nil, hcontent⟩
    obtain ⟨body, hbody⟩ := hwritten none (by simp)
    obtain ⟨signature, hsignature, hfits⟩ := hscheme.signs key (signMark ++ body)
    obtain ⟨blob, hblob⟩ :=
      signedBlob_isOk_iff.mpr (hwritten (some signature) (by simpa using hfits))
    refine ⟨(blob, _), (signed_eq_ok_iff scheme).mpr
      ⟨hsigners, signMark ++ body, signature, ?_, hsignature, hblob, rfl⟩⟩
    exact signingData_eq_ok_iff.mpr ⟨body, hbody, rfl⟩

/-- Signers are combined exactly if there are any, no account stands twice and they can be written
with the content of the transaction. -/
theorem combined_isOk_iff {signers : List Signer} :
    (∃ outcome, tx.combined signers = .ok outcome) ↔
      signers ≠ [] ∧ (signers.map (·.account)).Nodup ∧ tx.common.sequence ≠ none ∧
        tx.common.fee ≠ none ∧ FitBlobs (signers.flatMap Signer.blobs) ∧
        FitBlobs tx.contentBlobs := by
  have hsorted : FitBlobs ((sortSigners signers).flatMap Signer.blobs) ↔
      FitBlobs (signers.flatMap Signer.blobs) := by
    simp only [fitBlobs_flatMap, (sortSigners_perm signers).mem_iff]
  simp only [Prod.exists, combined_eq_ok_iff, repeatedAccount?_sortSigners_eq_none_iff]
  constructor
  · rintro ⟨blob, _, hne, hnodup, hblob, rfl⟩
    obtain ⟨hsequence, hfee, -, -, hsigners, hcontent⟩ :=
      withSignature_isOk_iff.mp (signedBlob_isOk_iff.mp ⟨blob, hblob⟩)
    exact ⟨hne, hnodup, hsequence, hfee, hsorted.mp hsigners, hcontent⟩
  · rintro ⟨hne, hnodup, hsequence, hfee, hsigners, hcontent⟩
    have hwritten : ∃ bytes, (tx.withSignature [] none (sortSigners signers)).toBytes = .ok bytes :=
      withSignature_isOk_iff.mpr
        ⟨hsequence, hfee, Nat.zero_le _, by simp, hsorted.mpr hsigners, hcontent⟩
    obtain ⟨blob, hblob⟩ := signedBlob_isOk_iff.mpr hwritten
    exact ⟨blob, _, hne, hnodup, hblob, rfl⟩

/-- Whether a computation fails exactly under a condition, and then leaves the transaction as it
was. -/
def FailsExactly {α : Type} (step : Signing α) (tx : Transaction) (condition : Prop) : Prop :=
  ((∃ e, (step.run tx).run.1 = .error e) ↔ condition) ∧
    ∀ e, (step.run tx).run.1 = .error e → (step.run tx).run.2 = tx

/-- A computation that changes the transaction as a whole or not at all fails exactly where its
outcome does. -/
theorem failsExactly_of_run {α : Type} {step : Signing α}
    {outcome : Except CodecError (α × Transaction)} {condition : Prop}
    (hrun : (step.run tx).run = settle tx outcome)
    (hcondition : (¬∃ result, outcome = .ok result) ↔ condition) :
    FailsExactly step tx condition := by
  rw [FailsExactly, hrun, settle_fails_iff]
  exact ⟨hcondition, fun e => settle_of_error⟩

/-- Signing and combining fail for no other reasons than these, and leave the transaction as it was.
-/
theorem signing_fails_exactly (tx : Transaction) :
    (∀ pair : KeyPair, FailsExactly (sign KeyPair.scheme pair) tx
      (tx.common.signers ≠ [] ∨ tx.common.fee = none ∨ tx.common.sequence = none ∨
        ∃ blob ∈ tx.contentBlobs, LengthMarker.limit < blob.length)) ∧
    ∀ signers : List Signer, FailsExactly (combineSigners signers) tx
      (signers = [] ∨ ¬(signers.map (·.account)).Nodup ∨ tx.common.fee = none ∨
        tx.common.sequence = none ∨
        ∃ blob ∈ tx.contentBlobs ++ signers.flatMap Signer.blobs,
          LengthMarker.limit < blob.length) := by
  constructor
  · intro pair
    apply failsExactly_of_run (run_sign KeyPair.scheme tx pair)
    rw [signed_isOk_iff KeyPair.compact_scheme, ← not_fitBlobs_iff]
    tauto
  · intro signers
    apply failsExactly_of_run (run_combineSigners tx signers)
    rw [combined_isOk_iff, ← not_fitBlobs_iff, fitBlobs_append]
    tauto

end Transaction

end XrpLedger
