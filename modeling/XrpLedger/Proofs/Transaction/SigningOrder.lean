import XrpLedger.Proofs.Transaction.SigningFailure

/-!
# Signing does not depend on order or history

Signers are sorted before anything else is asked of them, so the order in which they arrive is lost:
sorted accounts are the same list for every order, and with them the account that is reported as one
of two signers. Where no account stands twice, the sorted signers are the same list as well. What
was signed before is lost in the same way, since signing fills in each of the three fields by which
two histories of a transaction can differ.
-/

set_option autoImplicit false

namespace XrpLedger

namespace Transaction

variable {Key : Type} {scheme : SignatureScheme Key} {tx other : Transaction}
  {signers signers' : List Signer}

/-! ## Order -/

/-- Sorting signers in two orders gives the same signers. -/
theorem sortSigners_perm_sortSigners (h : signers.Perm signers') :
    (sortSigners signers).Perm (sortSigners signers') :=
  (sortSigners_perm signers).trans (h.trans (sortSigners_perm signers').symm)

/-- Sorted accounts are the same in whatever order the signers arrive. -/
theorem map_account_sortSigners_congr (h : signers.Perm signers') :
    (sortSigners signers).map (·.account) = (sortSigners signers').map (·.account) := by
  have hsorted : ∀ list : List Signer, ((sortSigners list).map (·.account)).Pairwise
      fun a b => a.bytes.toNat ≤ b.bytes.toNat := fun list =>
    List.pairwise_map.mpr (sortSigners_pairwise list)
  apply List.Perm.eq_of_pairwise _ (hsorted signers) (hsorted signers')
    ((sortSigners_perm_sortSigners h).map (·.account))
  intro a b _ _ hab hba
  exact account_eq_of_toNat_eq (Nat.le_antisymm hab hba)

/-- The account that is reported as one of two signers depends on the accounts only. -/
theorem repeatedAccount?_congr (h : signers.map (·.account) = signers'.map (·.account)) :
    repeatedAccount? signers = repeatedAccount? signers' := by
  induction signers generalizing signers' with
  | nil =>
    rw [List.map_nil] at h
    rw [List.map_eq_nil_iff.mp h.symm]
  | cons a rest ih =>
    cases signers' with
    | nil => cases h
    | cons a' rest' =>
      obtain ⟨hfirst, hrest⟩ := List.cons.inj h
      have htail := ih hrest
      -- Neighbours are compared, so a second signer is needed on both sides.
      cases rest with
      | nil =>
        rw [List.map_eq_nil_iff.mp hrest.symm]
        rfl
      | cons b rest =>
        cases rest' with
        | nil => cases hrest
        | cons b' rest' =>
          have hsecond : b.account = b'.account := (List.cons.inj hrest).1
          simp only [repeatedAccount?, htail, hsecond, show a.account = a'.account from hfirst]

/-- Signers that share no account are sorted to the same list in whatever order they arrive. -/
theorem sortSigners_congr (h : signers.Perm signers')
    (hnone : repeatedAccount? (sortSigners signers) = none) :
    sortSigners signers = sortSigners signers' := by
  have hnone' : repeatedAccount? (sortSigners signers') = none :=
    repeatedAccount?_congr (map_account_sortSigners_congr h) ▸ hnone
  apply List.Perm.eq_of_pairwise _ (pairwise_precedes (sortSigners_pairwise signers) hnone)
    (pairwise_precedes (sortSigners_pairwise signers') hnone') (sortSigners_perm_sortSigners h)
  intro a b _ _ hab hba
  exact absurd (precedes_iff.mp hab) (Nat.lt_asymm (precedes_iff.mp hba))

/-! ## History -/

/-- Transactions that differ in public key, signature and signers only are the same once these are
filled in. -/
theorem withSignature_congr (h : tx.unsigned = other.unsigned) (key : Bytes)
    (signature : Option Bytes) (signers : List Signer) :
    tx.withSignature key signature signers = other.withSignature key signature signers :=
  congrArg (·.withSignature key signature signers) h

/-- Combining does not depend on the order of signers, nor on signatures that were there before. -/
theorem combined_congr (h : tx.unsigned = other.unsigned) (hsigners : signers.Perm signers') :
    tx.combined signers = other.combined signers' := by
  have hempty : signers.isEmpty = signers'.isEmpty := by
    rw [Bool.eq_iff_iff, List.isEmpty_iff, List.isEmpty_iff]
    exact ⟨fun hnil => (hnil ▸ hsigners).nil_eq.symm, fun hnil => (hnil ▸ hsigners).eq_nil⟩
  have hrepeated := repeatedAccount?_congr (map_account_sortSigners_congr hsigners)
  unfold combined
  rw [hempty, ← hrepeated]
  -- Where an account stands twice the sorted lists may differ, but both stop at the same account.
  cases hnone : repeatedAccount? (sortSigners signers) with
  | some account => rfl
  | none => rw [sortSigners_congr hsigners hnone, withSignature_congr h]

/-- Signing alone does not depend on a single signature that was there before. -/
theorem signed_congr (h : tx.unsigned = other.unsigned) (hsigners : tx.common.signers = [])
    (hsigners' : other.common.signers = []) (key : Key) :
    tx.signed scheme key = other.signed scheme key := by
  unfold signed
  simp only [hsigners, hsigners', withSignature_congr h]

/-- Whether two computations give the same answer, and after a success also the same transaction. -/
def SameOutcome {α : Type} (step step' : Signing α) (tx other : Transaction) : Prop :=
  (step.run tx).run.1 = (step'.run other).run.1 ∧
    ∀ result, (step.run tx).run.1 = .ok result → (step.run tx).run.2 = (step'.run other).run.2

/-- Computations that settle the same outcome have the same outcome. -/
theorem sameOutcome_of_run {α : Type} {step step' : Signing α}
    {outcome : Except CodecError (α × Transaction)} (h : (step.run tx).run = settle tx outcome)
    (h' : (step'.run other).run = settle other outcome) : SameOutcome step step' tx other := by
  unfold SameOutcome
  rw [h, h']
  cases outcome with
  | error e => exact ⟨rfl, nofun⟩
  | ok success => exact ⟨rfl, fun _ _ => rfl⟩

/-- After a success the signers are those that were combined, in ascending order. -/
theorem signers_of_run_combineSigners {result : SignedBlob}
    (h : ((combineSigners signers).run tx).run.1 = .ok result) :
    ((combineSigners signers).run tx).run.2.common.signers.Pairwise Precedes ∧
      ((combineSigners signers).run tx).run.2.common.signers.Perm signers := by
  rw [run_combineSigners] at h ⊢
  cases hcombined : tx.combined signers with
  | error e =>
    rw [hcombined] at h
    cases h
  | ok success =>
    obtain ⟨blob, next⟩ := success
    obtain ⟨-, hnone, -, rfl⟩ := combined_eq_ok_iff.mp hcombined
    exact ⟨pairwise_precedes (sortSigners_pairwise signers) hnone, sortSigners_perm signers⟩

/-- Transactions that differ in public key, signature and signers only are combined with the same
signers, in whatever order, to the same transaction, whose signers are these in ascending order; and
without signers they are signed by the same key to the same transaction. -/
theorem signing_independent (h : tx.unsigned = other.unsigned) :
    (∀ signers signers' : List Signer, signers.Perm signers' →
      SameOutcome (combineSigners signers) (combineSigners signers') tx other ∧
        ∀ result, ((combineSigners signers).run tx).run.1 = .ok result →
          ((combineSigners signers).run tx).run.2.common.signers.Pairwise Precedes ∧
            ((combineSigners signers).run tx).run.2.common.signers.Perm signers) ∧
    (tx.common.signers = [] → other.common.signers = [] →
      ∀ {Key : Type} (scheme : SignatureScheme Key) (key : Key),
        SameOutcome (sign scheme key) (sign scheme key) tx other) := by
  constructor
  · intro signers signers' hperm
    have hrun := run_combineSigners other signers'
    rw [← combined_congr h hperm] at hrun
    exact ⟨sameOutcome_of_run (run_combineSigners tx signers) hrun,
      fun _ => signers_of_run_combineSigners⟩
  · intro hsigners hsigners' Key scheme key
    have hrun := run_sign scheme other key
    rw [← signed_congr h hsigners hsigners' key] at hrun
    exact sameOutcome_of_run (run_sign scheme tx key) hrun

/-- The first of two signers in ascending order of their accounts. -/
def lowSigner : Signer := ⟨⟨.zero 20⟩, [2], [3]⟩

/-- The second of two signers in ascending order of their accounts. -/
def highSigner : Signer := ⟨⟨.ofNat 20 1⟩, [4], [5]⟩

/-- The removal of a key is combined with two signers that come in descending order, and to the same
blob and the same transaction as if it had been signed before and they had come in the other order.
-/
theorem signing_independent_keyRemoval :
    ∃ result, ((combineSigners [highSigner, lowSigner]).run (keyRemoval [])).run.1 = .ok result ∧
      (keyRemoval []).unsigned = ((keyRemoval []).withSignature [2] (some [3]) []).unsigned ∧
      ((combineSigners [lowSigner, highSigner]).run
        ((keyRemoval []).withSignature [2] (some [3]) [])).run.1 = .ok result ∧
      ((combineSigners [highSigner, lowSigner]).run (keyRemoval [])).run.2
        = ((combineSigners [lowSigner, highSigner]).run
          ((keyRemoval []).withSignature [2] (some [3]) [])).run.2 ∧
      SameOutcome (sign KeyPair.scheme (.ed25519 (.zero 32)))
        (sign KeyPair.scheme (.ed25519 (.zero 32))) (keyRemoval [])
        ((keyRemoval []).withSignature [2] (some [3]) []) := by
  have hunsigned : (keyRemoval []).unsigned
      = ((keyRemoval []).withSignature [2] (some [3]) []).unsigned := rfl
  have hfit : ∀ blobs : List Bytes, (∀ blob ∈ blobs, blob.length ≤ 1) → FitBlobs blobs :=
    fun _ h blob hblob => Nat.le_trans (h blob hblob) (by decide)
  obtain ⟨⟨result, next⟩, hcombined⟩ :
      ∃ outcome, (keyRemoval []).combined [highSigner, lowSigner] = .ok outcome := by
    apply combined_isOk_iff.mpr
    exact ⟨List.cons_ne_nil _ _, by decide, Option.some_ne_none _, Option.some_ne_none _,
      hfit _ (by decide), hfit _ (by decide)⟩
  have hresult : ((combineSigners [highSigner, lowSigner]).run (keyRemoval [])).run.1
      = .ok result := by
    rw [run_combineSigners, hcombined]
    rfl
  obtain ⟨hcombine, hsign⟩ := signing_independent hunsigned
  obtain ⟨hanswer, hnext⟩ := (hcombine _ [lowSigner, highSigner] (List.Perm.swap _ _ _)).1
  exact ⟨result, hresult, hunsigned, hanswer ▸ hresult, hnext result hresult,
    hsign rfl rfl KeyPair.scheme (.ed25519 (.zero 32))⟩

end Transaction

end XrpLedger
