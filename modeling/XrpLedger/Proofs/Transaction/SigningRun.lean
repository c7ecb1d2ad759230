import Mathlib.Logic.Relation
import XrpLedger.Proofs.Transaction.Signing

/-!
# Signing, call by call

A `SigningSession` is a transaction that is being signed and the calls made on it so far with what
they answered. A step is one more call: a single signature by some key, the contribution of one of
several signers, or the combination of contributions that were made in this session.

`SigningSession.Sound` is what every step keeps, whether its call succeeds or fails. It says which
signature fields the transaction has and that every contribution so far is a signature of the
transaction as it was when the session started, which differs from what it is now in these fields
only.
-/

set_option autoImplicit false

namespace XrpLedger

/-- A call on a transaction that is being signed, and what it answered. -/
inductive SigningEvent (Key : Type)
  | sign (key : Key) (answer : Except CodecError SignedBlob)
  | multisign (key : Key) (account : AccountId) (answer : Except CodecError Signer)
  | combine (signers : List Signer) (answer : Except CodecError SignedBlob)

/-- A transaction that is being signed. -/
structure SigningSession (Key : Type) where
  tx : Transaction
  /-- The calls so far, the last one first. -/
  history : List (SigningEvent Key)

namespace SigningEvent

variable {Key : Type}

/-- The signer that a call contributed. -/
def contribution? : SigningEvent Key → Option Signer
  | multisign _ _ (.ok signer) => some signer
  | _ => none

/-- The key that a call was made with. -/
def key? : SigningEvent Key → Option Key
  | sign key _ | multisign key _ _ => some key
  | combine _ _ => none

/-- The key that signed alone in a call. -/
def signedBy? : SigningEvent Key → Option Key
  | sign key (.ok _) => some key
  | _ => none

/-- The blob that a call gave. -/
def blob? : SigningEvent Key → Option SignedBlob
  | sign _ (.ok blob) => some blob
  | combine _ (.ok blob) => some blob
  | _ => none

end SigningEvent

namespace SigningSession

variable {Key : Type} (scheme : SignatureScheme Key) {session next : SigningSession Key}

/-- The session of a transaction on which nothing was called yet. -/
def start (tx : Transaction) : SigningSession Key := ⟨tx, []⟩

/-- The signers contributed so far. -/
def contributions (session : SigningSession Key) : List Signer :=
  session.history.filterMap SigningEvent.contribution?

/-- The keys that were used so far. -/
def keys (session : SigningSession Key) : List Key :=
  session.history.filterMap SigningEvent.key?

/-- The key of the last single signature that succeeded. -/
def lastKey? (session : SigningSession Key) : Option Key :=
  session.history.findSome? SigningEvent.signedBy?

/-- The blob that the last call gave. -/
def lastBlob? (session : SigningSession Key) : Option SignedBlob :=
  session.history.head?.bind SigningEvent.blob?

/-- One more call. Only signers contributed in the session are combined. -/
inductive Step : SigningSession Key → SigningSession Key → Prop
  | sign {session : SigningSession Key} {key : Key} {answer : Except CodecError SignedBlob}
      {tx : Transaction} (call : ((Transaction.sign scheme key).run session.tx).run = (answer, tx)) :
      Step session ⟨tx, .sign key answer :: session.history⟩
  | multisign {session : SigningSession Key} {key : Key} {account : AccountId}
      {answer : Except CodecError Signer}
      (call : session.tx.multisign scheme key account = answer) :
      Step session ⟨session.tx, .multisign key account answer :: session.history⟩
  | combine {session : SigningSession Key} {signers : List Signer}
      {answer : Except CodecError SignedBlob} {tx : Transaction}
      (contributed : ∀ signer ∈ signers, signer ∈ session.contributions)
      (call : ((Transaction.combineSigners signers).run session.tx).run = (answer, tx)) :
      Step session ⟨tx, .combine signers answer :: session.history⟩

/-- Any number of calls. -/
abbrev Run : SigningSession Key → SigningSession Key → Prop :=
  Relation.ReflTransGen (Step scheme)

/-! ## What every step keeps -/

/-- Whether a signer holds the public key of a key, and a signature by it of what the signer signs.
-/
def SignsFor (tx : Transaction) (signer : Signer) (key : Key) : Prop :=
  signer.signingPubKey = scheme.publicKey key ∧ ∃ data,
    tx.multisigningData signer.account = .ok data ∧
      scheme.sign key data = .ok signer.txnSignature

/-- Whether public key and signature are unset, if there is no key, or are both those of the key. -/
def SignedBy (tx : Transaction) : Option Key → Prop
  | none => tx.common.signingPubKey = [] ∧ tx.common.txnSignature = none
  | some key => ∃ data signature, tx.signingData = .ok data ∧
      scheme.sign key data = .ok signature ∧
      tx.common.signingPubKey = scheme.publicKey key ∧ tx.common.txnSignature = some signature

/-- Whether a transaction has either a single signature, that of the last key if there is one, or
signers in ascending order and no single signature. -/
def HasSignatures (tx : Transaction) (lastKey? : Option Key) : Prop :=
  (tx.common.signers = [] ∧ SignedBy scheme tx lastKey?) ∨
    (tx.common.signers ≠ [] ∧ tx.common.signers.Pairwise Transaction.Precedes ∧
      tx.common.signingPubKey = [] ∧ tx.common.txnSignature = none)

/-- What holds at every point of the session of a transaction. -/
structure Sound (tx : Transaction) (session : SigningSession Key) : Prop where
  /-- Nothing has changed but public key, signature and signers. -/
  unsigned_eq : session.tx.unsigned = tx.unsigned
  hasSignatures : HasSignatures scheme session.tx session.lastKey?
  /-- The signers were contributed in the session. -/
  contributed : ∀ signer ∈ session.tx.common.signers, signer ∈ session.contributions
  /-- Every contribution is a signature of the transaction by one of the keys. -/
  signsFor : ∀ signer ∈ session.contributions, ∃ key ∈ session.keys, SignsFor scheme tx signer key
  /-- The blob of the last call is that of the transaction. -/
  blob : ∀ blob ∈ session.lastBlob?,
    session.tx.toBytes = .ok blob.blob ∧ session.tx.hash = .ok blob.hash

variable {scheme} {tx : Transaction}

/-- One more call keeps the keys that were used before. -/
theorem keys_subset_cons (session : SigningSession Key) (tx : Transaction)
    (event : SigningEvent Key) : session.keys ⊆ keys ⟨tx, event :: session.history⟩ := by
  intro key hkey
  unfold keys at hkey ⊢
  rw [List.mem_filterMap] at hkey ⊢
  obtain ⟨earlier, hearlier, heq⟩ := hkey
  exact ⟨earlier, List.mem_cons_of_mem _ hearlier, heq⟩

/-- The key that signed last was used. -/
theorem mem_keys_of_lastKey? {session : SigningSession Key} {key : Key}
    (h : session.lastKey? = some key) : key ∈ session.keys := by
  obtain ⟨event, hevent, hsigned⟩ := List.exists_of_findSome?_eq_some h
  refine List.mem_filterMap.mpr ⟨event, hevent, ?_⟩
  cases event with
  | sign used answer =>
    cases answer with
    | error e => cases hsigned
    | ok blob => exact hsigned
  | _ => cases hsigned

/-- A session starts soundly with a transaction that nobody has signed. -/
theorem sound_start (h : tx.unsigned = tx) : Sound scheme tx (start tx) := by
  have hkey : tx.common.signingPubKey = [] := by rw [← h]; rfl
  have hsignature : tx.common.txnSignature = none := by rw [← h]; rfl
  have hsigners : tx.common.signers = [] := by rw [← h]; rfl
  refine ⟨rfl, .inl ⟨hsigners, hkey, hsignature⟩, ?_, ?_, ?_⟩
  · intro signer hsigner
    rw [show (start tx : SigningSession Key).tx.common.signers = [] from hsigners] at hsigner
    cases hsigner
  · intro signer hsigner
    cases hsigner
  · intro blob hblob
    cases hblob

/-- A call without a signer, a signature or a blob keeps the session sound. -/
theorem Sound.unchanged (h : Sound scheme tx session) {event : SigningEvent Key}
    (hcontribution : event.contribution? = none) (hkey : event.signedBy? = none)
    (hblob : event.blob? = none) : Sound scheme tx ⟨session.tx, event :: session.history⟩ := by
  have hcontributions : contributions ⟨session.tx, event :: session.history⟩
      = session.contributions := List.filterMap_cons_none hcontribution
  have hlast : lastKey? ⟨session.tx, event :: session.history⟩ = session.lastKey? := by
    unfold lastKey?
    rw [List.findSome?_cons, hkey]
  have hkeys := session.keys_subset_cons session.tx event
  refine ⟨h.unsigned_eq, ?_, ?_, ?_, ?_⟩
  · rw [hlast]
    exact h.hasSignatures
  · rw [hcontributions]
    exact h.contributed
  · rw [hcontributions]
    intro signer hmem
    obtain ⟨key, hkey, hsigns⟩ := h.signsFor signer hmem
    exact ⟨key, hkeys hkey, hsigns⟩
  · intro blob hmem
    have hnone : lastBlob? ⟨session.tx, event :: session.history⟩ = none := hblob
    rw [hnone] at hmem
    cases hmem

/-- A single signature keeps the session sound: it is one of the transaction that it is put into. -/
theorem Sound.sign (h : Sound scheme tx session) {key : Key} {blob : SignedBlob}
    {next : Transaction} (hsigned : session.tx.signed scheme key = .ok (blob, next)) :
    Sound scheme tx ⟨next, .sign key (.ok blob) :: session.history⟩ := by
  obtain ⟨-, data, signature, hdata, hsignature, hblob, rfl⟩ :=
    (Transaction.signed_eq_ok_iff scheme).mp hsigned
  refine ⟨h.unsigned_eq, .inl ⟨rfl, data, signature, ?_, hsignature, rfl, rfl⟩, ?_, ?_, ?_⟩
  -- what was signed does not change when the signature is put in
  · rw [← hdata]
    exact Transaction.signingData_congr rfl
  · intro signer hsigner
    cases hsigner
  · intro signer hsigner
    obtain ⟨earlier, hearlier, hsigns⟩ := h.signsFor signer hsigner
    exact ⟨earlier, List.mem_cons_of_mem _ hearlier, hsigns⟩
  · rintro _ ⟨⟩
    exact Transaction.toBytes_of_signedBlob hblob

/-- A contribution keeps the session sound: what it signs does not depend on the signatures that the
transaction has by then. -/
theorem Sound.multisign (h : Sound scheme tx session) {key : Key} {account : AccountId}
    {signer : Signer} (hsigner : session.tx.multisign scheme key account = .ok signer) :
    Sound scheme tx ⟨session.tx, .multisign key account (.ok signer) :: session.history⟩ := by
  simp only [Transaction.multisign, bind_eq_ok_iff, pure_eq_ok_iff] at hsigner
  obtain ⟨data, hdata, signature, hsignature, rfl⟩ := hsigner
  refine ⟨h.unsigned_eq, h.hasSignatures, ?_, ?_, ?_⟩
  · intro signer hmem
    exact List.mem_cons_of_mem _ (h.contributed signer hmem)
  · intro signer hmem
    rcases List.mem_cons.mp hmem with rfl | hearlier
    · rw [Transaction.multisigningData_congr h.unsigned_eq] at hdata
      exact ⟨key, List.mem_cons_self, rfl, data, hdata, hsignature⟩
    · obtain ⟨earlier, hkey, hsigns⟩ := h.signsFor signer hearlier
      exact ⟨earlier, List.mem_cons_of_mem _ hkey, hsigns⟩
  · intro blob hblob
    cases hblob

/-- Combining contributions keeps the session sound: sorting leaves them in ascending order. -/
theorem Sound.combine (h : Sound scheme tx session) {signers : List Signer} {blob : SignedBlob}
    {next : Transaction} (hcontributed : ∀ signer ∈ signers, signer ∈ session.contributions)
    (hcombined : session.tx.combined signers = .ok (blob, next)) :
    Sound scheme tx ⟨next, .combine signers (.ok blob) :: session.history⟩ := by
  obtain ⟨hne, hrepeated, hblob, rfl⟩ := Transaction.combined_eq_ok_iff.mp hcombined
  refine ⟨h.unsigned_eq, .inr ⟨?_, ?_, rfl, rfl⟩, ?_, h.signsFor, ?_⟩
  · exact Transaction.sortSigners_ne_nil hne
  · exact Transaction.pairwise_precedes (Transaction.sortSigners_pairwise signers) hrepeated
  · intro signer hsigner
    exact hcontributed signer ((Transaction.sortSigners_perm signers).mem_iff.mp hsigner)
  · rintro _ ⟨⟩
    exact Transaction.toBytes_of_signedBlob hblob

/-- A call fails and changes nothing, or contributes a signer, signs or combines contributions. -/
theorem Step.outcome (h : Step scheme session next) :
    (∃ event : SigningEvent Key, event.contribution? = none ∧ event.signedBy? = none ∧
      event.blob? = none ∧ next = ⟨session.tx, event :: session.history⟩) ∨
    (∃ key account signer, session.tx.multisign scheme key account = .ok signer ∧
      next = ⟨session.tx, .multisign key account (.ok signer) :: session.history⟩) ∨
    (∃ key blob tx, session.tx.signed scheme key = .ok (blob, tx) ∧
      next = ⟨tx, .sign key (.ok blob) :: session.history⟩) ∨
    ∃ signers blob tx, (∀ signer ∈ signers, signer ∈ session.contributions) ∧
      session.tx.combined signers = .ok (blob, tx) ∧
      next = ⟨tx, .combine signers (.ok blob) :: session.history⟩ := by
  -- what a call answers and leaves behind comes down to one outcome as a whole
  cases h with
  | @sign key answer tx call =>
    rw [Transaction.run_sign] at call
    cases hsigned : session.tx.signed scheme key with
    | error e =>
      rw [hsigned] at call
      cases call
      exact .inl ⟨_, rfl, rfl, rfl, rfl⟩
    | ok outcome =>
      rw [hsigned] at call
      cases call
      exact .inr (.inr (.inl ⟨key, _, _, hsigned, rfl⟩))
  | @multisign key account answer call =>
    cases answer with
    | error e => exact .inl ⟨_, rfl, rfl, rfl, rfl⟩
    | ok signer => exact .inr (.inl ⟨key, account, signer, call, rfl⟩)
  | @combine signers answer tx contributed call =>
    rw [Transaction.run_combineSigners] at call
    cases hcombined : session.tx.combined signers with
    | error e =>
      rw [hcombined] at call
      cases call
      exact .inl ⟨_, rfl, rfl, rfl, rfl⟩
    | ok outcome =>
      rw [hcombined] at call
      cases call
      exact .inr (.inr (.inr ⟨signers, _, _, contributed, hcombined, rfl⟩))

/-- Every call keeps the session sound. -/
theorem Sound.step (h : Sound scheme tx session) (hstep : Step scheme session next) :
    Sound scheme tx next := by
  rcases hstep.outcome with ⟨event, hcontribution, hkey, hblob, rfl⟩ |
    ⟨key, account, signer, hsigner, rfl⟩ | ⟨key, blob, tx', hsigned, rfl⟩ |
    ⟨signers, blob, tx', hcontributed, hcombined, rfl⟩
  · exact h.unchanged hcontribution hkey hblob
  · exact h.multisign hsigner
  · exact h.sign hsigned
  · exact h.combine hcontributed hcombined

/-- Any number of calls keeps the session sound. -/
theorem Sound.run (h : Sound scheme tx session) (hrun : Run scheme session next) :
    Sound scheme tx next := by
  induction hrun with
  | refl => exact h
  | tail _ step ih => exact ih.step step

/-- No call takes the signers away again. -/
theorem Step.signers_ne_nil (h : Step scheme session next)
    (hsigners : session.tx.common.signers ≠ []) : next.tx.common.signers ≠ [] := by
  rcases h.outcome with ⟨event, -, -, -, rfl⟩ | ⟨key, account, signer, -, rfl⟩ |
    ⟨key, blob, tx', hsigned, rfl⟩ | ⟨signers, blob, tx', -, hcombined, rfl⟩
  · exact hsigners
  · exact hsigners
  · exact absurd ((Transaction.signed_eq_ok_iff scheme).mp hsigned).1 hsigners
  · obtain ⟨hne, -, -, rfl⟩ := Transaction.combined_eq_ok_iff.mp hcombined
    exact Transaction.sortSigners_ne_nil hne

/-- No number of calls takes the signers away again. -/
theorem Run.signers_ne_nil (h : Run scheme session next)
    (hsigners : session.tx.common.signers ≠ []) : next.tx.common.signers ≠ [] := by
  induction h with
  | refl => exact hsigners
  | tail _ step ih => exact step.signers_ne_nil ih

/-! ## Signed transactions are verified -/

/-- If the signatures of the keys that were used are accepted, a signed transaction of a sound
session is verified. -/
theorem Sound.verifySignature (h : Sound scheme tx session)
    (hscheme : ∀ key ∈ session.keys, ∀ message signature,
      scheme.sign key message = .ok signature →
        scheme.verify (scheme.publicKey key) message signature = .ok true)
    (hsigned : session.tx.isSigned = true) : session.tx.verifySignature scheme = .ok true := by
  unfold Transaction.verifySignature
  rcases h.hasSignatures with ⟨hsigners, hsingle⟩ | ⟨hsigners, -, -, -⟩
  · cases hlast : session.lastKey? with
    | none =>
      rw [hlast] at hsingle
      obtain ⟨-, hnone⟩ := hsingle
      simp [Transaction.isSigned, hsigners, hnone] at hsigned
    | some key =>
      rw [hlast] at hsingle
      obtain ⟨data, signature, hdata, hsignature, hkey, hsome⟩ := hsingle
      have hvalid := hscheme key (mem_keys_of_lastKey? hlast) data signature hsignature
      have hne := scheme.publicKey_ne_nil key
      simp [hsigners, hsome, hkey, hne, hdata, bind, Except.bind, hvalid]
  · have hpresent : ¬ session.tx.common.signers.isEmpty = true := by simp [hsigners]
    rw [if_neg hpresent]
    refine (Transaction.verifySigners_eq_true_iff scheme).mpr fun signer hmem => ?_
    obtain ⟨key, hused, hkey, data, hdata, hsignature⟩ :=
      h.signsFor signer (h.contributed signer hmem)
    refine ⟨data, ?_, ?_⟩
    · rw [Transaction.multisigningData_congr h.unsigned_eq]
      exact hdata
    · rw [hkey]
      exact hscheme key hused data _ hsignature

/-- In every session of a transaction that nobody has signed, after any calls: nothing has changed
but public key, signature and signers; the transaction has either a single signature, that of the
last key that signed alone, or signers in ascending order; signers stay; the blob and the id that
the last call gave are those of the transaction; and if the signatures of each key that was used are
accepted under its public key, a signed transaction is verified. -/
theorem invariants_of_run (hunsigned : tx.unsigned = tx) (hrun : Run scheme (start tx) session) :
    session.tx.unsigned = tx ∧
    HasSignatures scheme session.tx session.lastKey? ∧
    (session.tx.common.signers ≠ [] → ∀ later, Run scheme session later →
      later.tx.common.signers ≠ []) ∧
    (∀ blob ∈ session.lastBlob?,
      session.tx.toBytes = .ok blob.blob ∧ session.tx.hash = .ok blob.hash) ∧
    ((∀ key ∈ session.keys, ∀ message signature, scheme.sign key message = .ok signature →
        scheme.verify (scheme.publicKey key) message signature = .ok true) →
      session.tx.isSigned = true → session.tx.verifySignature scheme = .ok true) := by
  have hsound := (sound_start hunsigned).run hrun
  refine ⟨?_, hsound.hasSignatures, ?_, hsound.blob, hsound.verifySignature⟩
  · rw [hsound.unsigned_eq, hunsigned]
  · intro hsigners later hlater
    exact hlater.signers_ne_nil hsigners

/-- Keys of one byte, whose signature is the message behind the key. -/
def markScheme : SignatureScheme UInt8 where
  publicKey key := [key]
  publicKey_ne_nil key := List.cons_ne_nil key []
  sign key message := .ok (key :: message)
  verify publicKey message signature := .ok (signature = publicKey ++ message)

/-- What the key 1 signs alone, behind the key, when it removes a key of the account of zeros. -/
def markedSignature : Bytes :=
  1 :: (Transaction.signMark ++
    [0x12, 0, 5, 0x24, 0, 0, 0, 1, 0x68, 0x40, 0, 0, 0, 0, 0, 0, 10, 0x73, 1, 1, 0x81, 20] ++
    List.replicate 20 0)

/-- What the key 2 signs for the account of zeros, when the removal of a key is signed by several.
-/
def markedSigner : Signer where
  account := ⟨.zero 20⟩
  signingPubKey := [2]
  txnSignature :=
    2 :: (Transaction.multisignMark ++ Transaction.keyRemovalBlob [] ++ List.replicate 20 0)

/-- The removal of a key, signed by the key 1 alone. -/
def singlyMarked : Transaction :=
  (Transaction.keyRemoval []).withSignature [1] (some markedSignature) []

/-- The removal of a key, signed by the key 2 as one of several. -/
def multiplyMarked : Transaction :=
  (Transaction.keyRemoval []).withSignature [] none [markedSigner]

/-- Every signature of the marking scheme is accepted under the public key of its key. -/
theorem verify_markScheme (key : UInt8) (message signature : Bytes)
    (h : markScheme.sign key message = .ok signature) :
    markScheme.verify (markScheme.publicKey key) message signature = .ok true := by
  cases h
  simp [markScheme]

/-- The key 1 signs alone, and the transaction is verified with its signature; then a signer
contributes and is combined in place of that signature, a second single signature fails, and the
transaction is verified with the signer. -/
theorem invariants_of_run_marked :
    ∃ signed session : SigningSession UInt8,
      Run markScheme (start (Transaction.keyRemoval [])) signed ∧ signed.history.length = 1 ∧
        signed.lastKey? = some 1 ∧ signed.tx = singlyMarked ∧
        signed.tx.verifySignature markScheme = .ok true ∧
      Run markScheme signed session ∧ session.history.length = 4 ∧
        session.tx = multiplyMarked ∧ session.tx.verifySignature markScheme = .ok true := by
  obtain ⟨single, hsingle⟩ : ∃ blob, singlyMarked.signedBlob = .ok blob := ⟨_, rfl⟩
  obtain ⟨blob, hblob⟩ : ∃ blob, multiplyMarked.signedBlob = .ok blob := ⟨_, rfl⟩
  have hsigned : (Transaction.keyRemoval []).signed markScheme 1 = .ok (single, singlyMarked) :=
    (Transaction.signed_eq_ok_iff markScheme).mpr ⟨rfl, _, _, rfl, rfl, hsingle, rfl⟩
  have hcontributed : singlyMarked.multisign markScheme 2 ⟨.zero 20⟩ = .ok markedSigner := rfl
  have hsorted : Transaction.sortSigners [markedSigner] = [markedSigner] :=
    List.mergeSort_singleton _
  have hcombined : singlyMarked.combined [markedSigner] = .ok (blob, multiplyMarked) :=
    Transaction.combined_eq_ok_iff.mpr
      ⟨List.cons_ne_nil _ _, by rw [hsorted]; rfl, hblob, by rw [hsorted]; rfl⟩
  have hsign : Step markScheme (start (Transaction.keyRemoval []))
      ⟨singlyMarked, [.sign 1 (.ok single)]⟩ := by
    refine .sign ?_
    show ((Transaction.sign markScheme 1).run (Transaction.keyRemoval [])).run = _
    rw [Transaction.run_sign, hsigned]
    rfl
  have hmultisign : Step markScheme ⟨singlyMarked, [.sign 1 (.ok single)]⟩
      ⟨singlyMarked, [.multisign 2 ⟨.zero 20⟩ (.ok markedSigner), .sign 1 (.ok single)]⟩ :=
    .multisign hcontributed
  have hcombine : Step markScheme
      ⟨singlyMarked, [.multisign 2 ⟨.zero 20⟩ (.ok markedSigner), .sign 1 (.ok single)]⟩
      ⟨multiplyMarked, [.combine [markedSigner] (.ok blob),
        .multisign 2 ⟨.zero 20⟩ (.ok markedSigner), .sign 1 (.ok single)]⟩ := by
    refine .combine (fun signer hsigner => hsigner) ?_
    rw [Transaction.run_combineSigners, hcombined]
    rfl
  have hfail : Step markScheme
      ⟨multiplyMarked, [.combine [markedSigner] (.ok blob),
        .multisign 2 ⟨.zero 20⟩ (.ok markedSigner), .sign 1 (.ok single)]⟩
      ⟨multiplyMarked, [.sign 1 (.error (.mismatch .multiSigned)),
        .combine [markedSigner] (.ok blob), .multisign 2 ⟨.zero 20⟩ (.ok markedSigner),
        .sign 1 (.ok single)]⟩ := .sign rfl
  have hfirst : Run markScheme (start (Transaction.keyRemoval [])) _ := .single hsign
  have hrest := ((Relation.ReflTransGen.single hmultisign).tail hcombine).tail hfail
  obtain ⟨-, -, -, -, hsingly⟩ := invariants_of_run rfl hfirst
  obtain ⟨-, -, -, -, hmultiply⟩ := invariants_of_run rfl (hfirst.trans hrest)
  exact ⟨_, _, hfirst, rfl, rfl, rfl, hsingly (fun key _ => verify_markScheme key) rfl, hrest, rfl,
    rfl, hmultiply (fun key _ => verify_markScheme key) rfl⟩

end SigningSession

end XrpLedger
