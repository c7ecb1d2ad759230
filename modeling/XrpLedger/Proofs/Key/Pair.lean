import XrpLedger.Key.Pair
import XrpLedger.Proofs.Text.Radix

/-!
# Sizes of keys and signatures

A canonical public key has 33 bytes. A signature by Ed25519 has 64 bytes. The two numbers of one by
secp256k1 are below the order of the curve, whichever nonce was fit, so each takes at most 33 bytes
in DER and the whole at most 72.
-/

set_option autoImplicit false

namespace XrpLedger

namespace Ecdsa

open Secp256k1 (order)

/-- The order of the curve is positive. -/
theorem order_pos : 0 < order := by
  decide

/-- Both numbers of a signature are below the order of the curve. -/
theorem signWith?_lt {secret digest nonce : Nat} {signature : Signature}
    (h : signWith? secret digest nonce = some signature) :
    signature.r < order ∧ signature.s < order := by
  have hmod : ∀ n, n % order < order := fun n => Nat.mod_lt n order_pos
  unfold signWith? at h
  split at h
  · cases h
  split at h
  · cases h
  dsimp only at h
  split at h
  · cases h
  cases h
  refine ⟨hmod _, ?_⟩
  dsimp only
  split
  · next hhigh => exact Nat.sub_lt order_pos (Nat.zero_lt_of_lt hhigh)
  · exact hmod _

/-- The numbers of a signature are below the order after any count of unfit nonces. -/
theorem signFrom_lt (secret digest attempts : Nat) (g : Generator) :
    (signFrom secret digest attempts g).r < order ∧
      (signFrom secret digest attempts g).s < order := by
  induction attempts generalizing g with
  | zero =>
    rw [signFrom]
    exact ⟨order_pos, order_pos⟩
  | succ attempts ih =>
    rw [signFrom]
    split
    · next hfit => exact signWith?_lt hfit
    · exact ih _

/-- A number below the order is written in at most 35 bytes, its tag and length among them. -/
theorem length_encodeInteger_le {n : Nat} (h : n < order) :
    (Signature.encodeInteger n).length ≤ 35 := by
  have hwidth : order ≤ 256 ^ 32 := by decide
  have hdigits := Radix.length_digits_le (by omega) (Nat.lt_of_lt_of_le h hwidth)
  unfold Signature.encodeInteger
  dsimp only
  split
  · simp
  -- a zero goes in front of the digits where the number would look negative
  split
  · simp only [List.length_cons, List.length_map]
    omega
  · simp only [List.length_cons, List.length_map]
    omega

/-- A signature of numbers below the order is written in at most 72 bytes. -/
theorem length_encode_le {signature : Signature} (hr : signature.r < order)
    (hs : signature.s < order) : signature.encode.length ≤ 72 := by
  have hfirst := length_encodeInteger_le hr
  have hsecond := length_encodeInteger_le hs
  unfold Signature.encode
  simp only [List.length_cons, List.length_append]
  omega

end Ecdsa

namespace KeyPair

/-- Every public key has 33 bytes. -/
theorem length_publicKey (pair : KeyPair) : pair.publicKey.length = 33 := by
  cases pair with
  | secp256k1 key => exact key.publicKey.encode.length_toList
  | ed25519 privateKey => rw [publicKey, List.length_cons, FixedBytes.length_toList]

/-- Every signature has at most 72 bytes. -/
theorem length_sign_le (pair : KeyPair) (message : Bytes) : (pair.sign message).length ≤ 72 := by
  cases pair with
  | secp256k1 key =>
    obtain ⟨hr, hs⟩ := Ecdsa.signFrom_lt key.secret (Sha512.half message).toNat 1000
      (Ecdsa.Generator.start key.secret (Sha512.half message))
    exact Ecdsa.length_encode_le hr hs
  | ed25519 privateKey =>
    rw [sign, Ed25519.sign, List.length_append, FixedBytes.length_toList, List.length_reverse,
      BigEndian.length_encode]
    omega

end KeyPair

end XrpLedger
