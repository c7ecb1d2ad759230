import XrpLedger.Key.Seed
import XrpLedger.Proofs.Address.Base58

/-!
# Texts of accounts and seeds

A text in Base58 with a checksum stands for one payload, whatever the digest is. The payload of an
account is a version and twenty bytes, that of a seed a version of one or of three bytes and sixteen
bytes of entropy. So the length of a payload tells what it is: no text is read as two of these, and
it does not matter in which order the versions of seeds are tried.
-/

set_option autoImplicit false

namespace XrpLedger

namespace Seed

variable {hash : Bytes → FixedBytes 32} {seed other : Seed} {bytes : Bytes} {keyType : KeyType}

/-- The bytes of a seed under its checksum: the version of its scheme, then its entropy. -/
def payload (seed : Seed) : Bytes :=
  seed.keyType.seedVersion ++ seed.entropy.toList

/-- The payload of a seed is the version of its key type and its entropy. -/
theorem length_payload (seed : Seed) :
    seed.payload.length = seed.keyType.seedVersion.length + 16 := by
  rw [Seed.payload, List.length_append, FixedBytes.length_toList]

/-- The versions of two schemes have different lengths, so that a payload tells its scheme. -/
theorem keyType_eq_of_length_payload (h : seed.payload.length = other.payload.length) :
    seed.keyType = other.keyType := by
  rw [length_payload, length_payload, Nat.add_right_cancel_iff] at h
  cases hseed : seed.keyType <;> cases hother : other.keyType
  all_goals first
    | rfl
    | rw [hseed, hother] at h; cases h

/-- A payload is one of a scheme exactly if it is that of a seed of this scheme. -/
theorem entropy?_eq_some_iff :
    entropy? bytes keyType = some seed ↔ seed.keyType = keyType ∧ bytes = seed.payload := by
  simp only [entropy?]
  constructor
  · intro h
    split at h
    · next hversion =>
      obtain ⟨entropy, hentropy, rfl⟩ := Option.map_eq_some_iff.mp h
      obtain ⟨rest, rfl⟩ := List.isPrefixOf_iff_prefix.mp hversion
      rw [List.drop_left] at hentropy
      refine ⟨rfl, ?_⟩
      rw [Seed.payload, FixedBytes.toList_of_ofList? hentropy]
    · cases h
  · rintro ⟨rfl, rfl⟩
    have hversion : seed.keyType.seedVersion.isPrefixOf seed.payload = true :=
      List.isPrefixOf_iff_prefix.mpr (List.prefix_append _ _)
    rw [if_pos hversion, Seed.payload, List.drop_left, FixedBytes.ofList?_toList]
    rfl

/-- The scheme that is tried second is found as well, since its payloads are none of the first. -/
theorem orElse_entropy?_eq_some_iff :
    ((entropy? bytes .ed25519).orElse fun _ => entropy? bytes .secp256k1) = some seed ↔
      bytes = seed.payload := by
  constructor
  · intro h
    cases hfirst : entropy? bytes .ed25519 with
    | some found =>
      rw [hfirst] at h
      cases h
      exact (entropy?_eq_some_iff.mp hfirst).2
    | none =>
      rw [hfirst] at h
      exact (entropy?_eq_some_iff.mp h).2
  · rintro rfl
    cases htype : seed.keyType with
    | ed25519 =>
      rw [entropy?_eq_some_iff.mpr ⟨htype, rfl⟩]
      rfl
    | secp256k1 =>
      have hfirst : entropy? seed.payload .ed25519 = none := by
        refine Option.eq_none_iff_forall_ne_some.mpr fun other hother => ?_
        obtain ⟨hed, hpayload⟩ := entropy?_eq_some_iff.mp hother
        have hsame := keyType_eq_of_length_payload (congrArg List.length hpayload)
        rw [htype, hed] at hsame
        cases hsame
      rw [hfirst]
      exact entropy?_eq_some_iff.mpr ⟨htype, rfl⟩

/-- The text of a seed is that of its payload with a checksum. -/
theorem textWith_eq (seed : Seed) : seed.textWith hash = Base58Check.encode hash seed.payload := rfl

/-- A text is read as a seed exactly if it is the text of this seed. -/
theorem parseWith_eq_ok_iff {text : String} :
    parseWith hash text = .ok seed ↔ text = seed.textWith hash := by
  simp only [parseWith, bind_eq_ok_iff, Base58Check.decode_eq_ok_iff, textWith_eq]
  constructor
  · rintro ⟨payload, htext, h⟩
    split at h
    · next found hfound =>
      cases h
      rwa [← orElse_entropy?_eq_some_iff.mp hfound]
    · exact absurd h throw_ne_ok
  · intro htext
    refine ⟨seed.payload, htext, ?_⟩
    rw [orElse_entropy?_eq_some_iff.mpr rfl]
    rfl

end Seed

/-- Whatever the digest of checksums is, a text is read as an account exactly if it is the address
of this account, and as a seed exactly if it is the text of this seed, entropy and scheme included.
No text is read as both, and none is the text of seeds of two schemes. -/
theorem texts_of_accounts_and_seeds (hash : Bytes → FixedBytes 32) (text : String) :
    (∀ account, AccountId.parseWith hash text = .ok account ↔ text = account.addressWith hash) ∧
    (∀ seed : Seed, Seed.parseWith hash text = .ok seed ↔ text = seed.textWith hash) ∧
    (¬∃ account seed, AccountId.parseWith hash text = .ok account ∧
      Seed.parseWith hash text = .ok seed) ∧
    ¬∃ entropy other, text = (Seed.mk entropy .secp256k1).textWith hash ∧
      text = (Seed.mk other .ed25519).textWith hash := by
  refine ⟨fun account => AccountId.parseWith_eq_ok_iff, fun seed => Seed.parseWith_eq_ok_iff, ?_, ?_⟩
  · rintro ⟨account, seed, haccount, hseed⟩
    -- the payload would be that of an account and that of a seed
    rw [AccountId.parseWith_eq_ok_iff] at haccount
    rw [Seed.parseWith_eq_ok_iff] at hseed
    have hpayload : AccountId.version ++ account.bytes.toList = seed.payload :=
      Base58Check.encode_injective hash (haccount.symm.trans hseed)
    have hlength := congrArg List.length hpayload
    rw [List.length_append, FixedBytes.length_toList, Seed.length_payload] at hlength
    cases htype : seed.keyType <;> rw [htype] at hlength <;> cases hlength
  · rintro ⟨entropy, other, hfirst, hsecond⟩
    have hpayload : (Seed.mk entropy .secp256k1).payload = (Seed.mk other .ed25519).payload :=
      Base58Check.encode_injective hash (hfirst.symm.trans hsecond)
    cases Seed.keyType_eq_of_length_payload (congrArg List.length hpayload)

end XrpLedger
