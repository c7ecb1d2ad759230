import XrpLedger.Proofs.Transaction.Serialize
import XrpLedger.Proofs.Transaction.SigningData

/-!
# Which transactions can be written

A transaction is written as the object of its slots, and this object is in order whatever the
transaction holds: its fields ascend, each has the type of its slot, and what is opened is closed.
Only two things can fail. Sequence or fee may be unset, and a blob may be longer than a length
marker can tell; `Transaction.blobs` are the blobs that a transaction writes, those that signing
fills in and those that it leaves alone.
-/

set_option autoImplicit false

namespace XrpLedger

namespace Transaction

/-! ## The blobs of a transaction -/

/-- Among the details only the settings of an account have blobs. -/
def Details.blobs : Details → List Bytes
  | .accountSet d => d.messageKey.toList ++ d.domain.toList
  | _ => []

/-- The blobs that signing fills in. -/
def Common.signatureBlobs (common : Common) : List Bytes :=
  common.signingPubKey :: (common.txnSignature.toList ++ common.signers.flatMap Signer.blobs)

/-- The blobs that signing leaves alone. -/
def contentBlobs (tx : Transaction) : List Bytes :=
  tx.common.memos.flatMap Memo.blobs ++ tx.details.blobs

/-- The blobs that a transaction writes. -/
def blobs (tx : Transaction) : List Bytes :=
  tx.common.signatureBlobs ++ tx.contentBlobs

/-- A transaction can be written exactly if its sequence and its fee are set and its blobs fit. -/
theorem toBytes_isOk_iff {tx : Transaction} :
    (∃ bytes, tx.toBytes = .ok bytes) ↔
      tx.common.sequence ≠ none ∧ tx.common.fee ≠ none ∧ FitBlobs tx.blobs := by
  have hblobs : FitBlobs (tx.writtenBlobs false) ↔ FitBlobs tx.blobs := by
    obtain ⟨common, details⟩ := tx
    simp only [writtenBlobs, blobs, Common.signatureBlobs, contentBlobs, fitBlobs_append,
      fitBlobs_cons, Bool.false_eq_true, if_false]
    cases details with
    | accountSet d =>
      simp only [Details.leadingBlobs, Details.trailingBlobs, Details.blobs, fitBlobs_append]
      tauto
    | _ =>
      simp only [Details.leadingBlobs, Details.trailingBlobs, Details.blobs]
      tauto
  rw [← hblobs, and_left_comm]
  exact serialize_isOk_iff

end Transaction

end XrpLedger
