import XrpLedger.Curve.Secp256k1
import XrpLedger.Hash.Hmac

/-!
# ECDSA over secp256k1

Signatures over digests of 32 bytes. The secret nonce is drawn from the secret key and the digest by
a generator built on HMAC, so that signing is deterministic, and `s` is kept in the lower half of
its range. A signature is written as a sequence of two integers in DER; only the strict form is
read.
-/

set_option autoImplicit false

namespace XrpLedger.Ecdsa

open Secp256k1 (order Point)

/-- The two numbers of a signature. -/
structure Signature where
  r : Nat
  s : Nat
deriving DecidableEq

/-- The state of the nonce generator. -/
structure Generator where
  key : Bytes
  value : Bytes

namespace Generator

/-- Stirs the value, a mark and a secret into the state. -/
def stir (g : Generator) (mark : UInt8) (secret : Bytes) : Generator :=
  let key := (Hmac.sha256 g.key (g.value ++ mark :: secret)).toList
  ⟨key, (Hmac.sha256 key g.value).toList⟩

/-- The state for a secret key and a digest. -/
def start (secret : Nat) (digest : FixedBytes 32) : Generator :=
  let seed := BigEndian.encode 32 secret ++ digest.toList
  ((Generator.mk (List.replicate 32 0) (List.replicate 32 1)).stir 0 seed).stir 1 seed

/-- The state whose value is the next candidate. -/
def next (g : Generator) : Generator :=
  ⟨g.key, (Hmac.sha256 g.key g.value).toList⟩

end Generator

/-- The signature with a nonce, if the nonce is fit. -/
def signWith? (secret digest nonce : Nat) : Option Signature :=
  if nonce = 0 ∨ order ≤ nonce then none
  else match Secp256k1.publicPoint nonce with
    | .infinity => none
    | .affine x _ =>
      let r := x % order
      let s := Modular.inverse order nonce * ((digest + r * secret) % order) % order
      if r = 0 ∨ s = 0 then none
      else some ⟨r, if order / 2 < s then order - s else s⟩

/-- The signature with the first fit nonce of `attempts` candidates. -/
def signFrom (secret digest : Nat) : (attempts : Nat) → Generator → Signature
  | 0, _ => ⟨0, 0⟩
  | attempts + 1, g =>
    let g := g.next
    match signWith? secret digest (BigEndian.value g.value) with
    | some signature => signature
    | none => signFrom secret digest attempts (g.stir 0 [])

/-- The signature of a digest; a candidate nonce is unfit with a chance below `2⁻¹²⁷`. -/
def sign (secret : Nat) (digest : FixedBytes 32) : Signature :=
  signFrom secret digest.toNat 1000 (Generator.start secret digest)

/-- Whether a signature with low `s` is one of a digest by a public key. -/
def verify (key : Point) (digest : FixedBytes 32) (signature : Signature) : Bool :=
  let r := signature.r
  let s := signature.s
  if r = 0 ∨ order ≤ r ∨ s = 0 ∨ order / 2 < s then false
  else
    let w := Modular.inverse order s
    let u1 := digest.toNat % order * w % order
    let u2 := r * w % order
    let sum := Secp256k1.Jacobian.add (.multiple u1 (.ofPoint Secp256k1.basePoint))
      (.multiple u2 (.ofPoint key))
    match sum.toPoint with
    | .infinity => false
    | .affine x _ => x % order = r

namespace Signature

/-- A number as an integer in DER: as few bytes as hold it with a clear top bit. -/
def encodeInteger (n : Nat) : Bytes :=
  let digits := (Radix.digits 256 n).map UInt8.ofNat
  let bytes := match digits with
    | [] => [0]
    | first :: _ => if 128 ≤ first then 0 :: digits else digits
  0x02 :: UInt8.ofNat bytes.length :: bytes

/-- A signature in DER. -/
def encode (signature : Signature) : Bytes :=
  let body := encodeInteger signature.r ++ encodeInteger signature.s
  0x30 :: UInt8.ofNat body.length :: body

/-- A length in DER, in its shortest form, of bytes that are there, and what follows it. -/
def decodeLength? (bytes : Bytes) : Option (Nat × Bytes) :=
  match bytes with
  | [] => none
  | first :: rest =>
    if first < 128 then some (first.toNat, rest)
    else
      let count := first.toNat - 128
      let digits := rest.take count
      let length := BigEndian.value digits
      let after := rest.drop count
      if first = 0x80 ∨ first = 0xff ∨ digits.length ≠ count ∨ digits.head? = some 0 ∨ 8 < count
        ∨ after.length < length ∨ length < 128 then none
      else some (length, after)

/-- An integer in DER and what follows it. Negative and overlong integers count as zero. -/
def decodeInteger? (bytes : Bytes) : Option (Nat × Bytes) :=
  match bytes with
  | 0x02 :: rest =>
    match decodeLength? rest with
    | none => none
    | some (length, rest) =>
      let digits := rest.take length
      let second := digits.getD 1 0
      if length = 0 ∨ digits.length < length then none
      else if digits.head? = some 0 ∧ 1 < length ∧ second < 128 then none
      else if digits.head? = some 0xff ∧ 1 < length ∧ 128 ≤ second then none
      else
        let n := BigEndian.value digits
        let fits := digits.headD 0 < 128 ∧ n < order
        some (if fits then n else 0, rest.drop length)
  | _ => none

/-- The signature that bytes hold in strict DER. -/
def decode? (bytes : Bytes) : Option Signature :=
  match bytes with
  | 0x30 :: rest => do
    let (length, rest) ← decodeLength? rest
    if rest.length ≠ length then none
    else
      let (r, rest) ← decodeInteger? rest
      let (s, rest) ← decodeInteger? rest
      if rest.isEmpty then some ⟨r, s⟩ else none
  | _ => none

end Signature

end XrpLedger.Ecdsa
