import Mathlib.Order.Bounds.Defs
import XrpLedger.Key.Pair
import XrpLedger.Proofs.Outcome

/-!
# Derived keys fit together

The search for a scalar gives the first candidate that is one, or fails after all of them
(`KeyCurve.deriveScalar_eq_ok_iff`, `KeyCurve.deriveScalar_eq_error_iff`); the first is the one of
the least index (`KeyCurve.isFirstScalar_iff_isLeast`). Of the curve it is only assumed that public
keys add up as their secrets do (`KeyCurve.Additive`). Then the public key of the master, a sum of
points, is the one of the master's secret, a sum of scalars, and both sums fail for the same
secrets: the secret one is looked at first, and where it is a scalar there is a public one.

For the curve of secp256k1 keys this says which pairs a seed has and with which error it has none
(`Seed.keys_eq_ok_iff`, `Seed.keys_eq_error_iff`), and that every pair of a seed has the public key
of its private key (`Seed.matches_of_keys`).
-/

set_option autoImplicit false

namespace XrpLedger

namespace KeyCurve

/-! ## The search for a scalar -/

/-- Whether a number is a secret scalar of a curve of this order. -/
def IsScalar (order n : Nat) : Prop :=
  0 < n ∧ n < order

instance (order n : Nat) : Decidable (IsScalar order n) :=
  inferInstanceAs (Decidable (_ ∧ _))

/-- The number that is tried at an index. -/
def candidate (hash : Bytes → FixedBytes 32) (input : Bytes) (family : Option UInt32)
    (index : Nat) : Nat :=
  (hash (candidateInput input family index)).toNat

/-- Whether no candidate of an input is a scalar. -/
def NoScalar (hash : Bytes → FixedBytes 32) (order : Nat) (input : Bytes)
    (family : Option UInt32) : Prop :=
  ∀ index < candidates, ¬IsScalar order (candidate hash input family index)

/-- Whether the scalar of an input is this one, from this index. -/
structure IsFirstScalar (hash : Bytes → FixedBytes 32) (order : Nat) (input : Bytes)
    (family : Option UInt32) (scalar index : Nat) : Prop where
  /-- The index is one of those that are tried. -/
  index_lt : index < candidates
  /-- The candidate of the index is the scalar. -/
  candidate_eq : candidate hash input family index = scalar
  /-- It is a scalar indeed. -/
  isScalar : IsScalar order scalar
  /-- No candidate before it is one. -/
  before : ∀ i < index, ¬IsScalar order (candidate hash input family i)

section Search

variable {hash : Bytes → FixedBytes 32} {order : Nat} {input : Bytes} {family : Option UInt32}
  {left index scalar found : Nat}

/-- The search takes the candidate of an index or goes on behind it. -/
theorem searchScalar_succ :
    searchScalar hash order input family (left + 1) index =
      if IsScalar order (candidate hash input family index) then
        some (candidate hash input family index, index)
      else searchScalar hash order input family left (index + 1) :=
  rfl

/-- From an index on, the search finds the first scalar that is in reach. -/
theorem searchScalar_eq_some_iff :
    searchScalar hash order input family left index = some (scalar, found) ↔
      index ≤ found ∧ found < index + left ∧ candidate hash input family found = scalar ∧
        IsScalar order scalar ∧
        ∀ i, index ≤ i → i < found → ¬IsScalar order (candidate hash input family i) := by
  -- the induction is on the candidates that are left: each is found or passed over
  induction left generalizing index with
  | zero =>
    simp only [searchScalar, reduceCtorEq, Nat.add_zero, false_iff]
    rintro ⟨hle, hlt, -⟩
    omega
  | succ left ih =>
    rw [searchScalar_succ]
    split
    · next hscalar =>
      simp only [Option.some.injEq, Prod.mk.injEq]
      constructor
      · rintro ⟨rfl, rfl⟩
        exact ⟨Nat.le_refl _, by omega, rfl, hscalar, fun i hle hlt => by omega⟩
      · rintro ⟨hle, -, rfl, -, hbefore⟩
        rcases Nat.eq_or_lt_of_le hle with rfl | hlater
        · exact ⟨rfl, rfl⟩
        · exact absurd hscalar (hbefore index (Nat.le_refl _) hlater)
    · next hno =>
      rw [ih]
      constructor
      · rintro ⟨hle, hlt, hcandidate, hscalar, hbefore⟩
        refine ⟨by omega, by omega, hcandidate, hscalar, fun i hi hlt => ?_⟩
        rcases Nat.eq_or_lt_of_le hi with rfl | hlater
        · exact hno
        · exact hbefore i hlater hlt
      · rintro ⟨hle, hlt, hcandidate, hscalar, hbefore⟩
        have hne : index ≠ found := by
          rintro rfl
          exact hno (hcandidate ▸ hscalar)
        exact ⟨by omega, by omega, hcandidate, hscalar,
          fun i hi hlt => hbefore i (by omega) hlt⟩

/-- From an index on, the search finds nothing exactly if no candidate in reach is a scalar. -/
theorem searchScalar_eq_none_iff :
    searchScalar hash order input family left index = none ↔
      ∀ i, index ≤ i → i < index + left → ¬IsScalar order (candidate hash input family i) := by
  induction left generalizing index with
  | zero =>
    simp only [searchScalar, true_iff]
    omega
  | succ left ih =>
    rw [searchScalar_succ]
    split
    · next hscalar =>
      simp only [reduceCtorEq, false_iff]
      intro hnone
      exact hnone index (Nat.le_refl _) (by omega) hscalar
    · next hno =>
      rw [ih]
      constructor
      · intro hnone i hi hlt
        rcases Nat.eq_or_lt_of_le hi with rfl | hlater
        · exact hno
        · exact hnone i hlater (by omega)
      · intro hnone i hi hlt
        exact hnone i (by omega) (by omega)

/-- The scalar of an input is its first one. -/
theorem deriveScalar_eq_ok_iff :
    deriveScalar hash order input family = .ok (scalar, found) ↔
      IsFirstScalar hash order input family scalar found := by
  have hsearch : deriveScalar hash order input family = .ok (scalar, found) ↔
      searchScalar hash order input family candidates 0 = some (scalar, found) := by
    unfold deriveScalar
    cases searchScalar hash order input family candidates 0 <;> simp
  rw [hsearch, searchScalar_eq_some_iff]
  constructor
  · rintro ⟨-, hlt, hcandidate, hscalar, hbefore⟩
    exact ⟨by omega, hcandidate, hscalar, fun i hi => hbefore i (Nat.zero_le i) hi⟩
  · rintro ⟨hlt, hcandidate, hscalar, hbefore⟩
    exact ⟨Nat.zero_le _, by omega, hcandidate, hscalar, fun i _ hi => hbefore i hi⟩

/-- An input has no scalar exactly if no candidate is one, and this is the only error. -/
theorem deriveScalar_eq_error_iff {e : CodecError} :
    deriveScalar hash order input family = .error e ↔
      NoScalar hash order input family ∧ e = .derivation .noScalar := by
  have hsearch : deriveScalar hash order input family = .error e ↔
      searchScalar hash order input family candidates 0 = none ∧
        e = .derivation .noScalar := by
    unfold deriveScalar
    cases searchScalar hash order input family candidates 0 <;> simp [eq_comm]
  rw [hsearch, searchScalar_eq_none_iff]
  simp [NoScalar]

/-- An input has a first scalar, or none. -/
theorem noScalar_or_exists (hash : Bytes → FixedBytes 32) (order : Nat) (input : Bytes)
    (family : Option UInt32) :
    NoScalar hash order input family ∨
      ∃ scalar found, IsFirstScalar hash order input family scalar found := by
  cases h : deriveScalar hash order input family with
  | error e => exact Or.inl (deriveScalar_eq_error_iff.mp h).1
  | ok result => exact Or.inr ⟨result.1, result.2, deriveScalar_eq_ok_iff.mp h⟩

/-- The first scalar is the candidate of the least index of 32 bits whose candidate is one. -/
theorem isFirstScalar_iff_isLeast :
    IsFirstScalar hash order input family scalar found ↔
      IsLeast {i | i ≤ 4294967295 ∧ IsScalar order (candidate hash input family i)} found ∧
        scalar = candidate hash input family found := by
  constructor
  · rintro ⟨hlt, rfl, hscalar, hbefore⟩
    refine ⟨⟨⟨Nat.le_of_lt_succ hlt, hscalar⟩, ?_⟩, rfl⟩
    rintro i ⟨-, hi⟩
    apply Nat.le_of_not_lt
    intro hearlier
    exact hbefore i hearlier hi
  · rintro ⟨⟨⟨hle, hscalar⟩, hleast⟩, rfl⟩
    refine ⟨Nat.lt_succ_of_le hle, rfl, hscalar, ?_⟩
    intro i hearlier hi
    exact Nat.not_le.mpr hearlier (hleast ⟨by omega, hi⟩)

/-- The outcome of the search, whichever digest is taken: the least index of 32 bits whose candidate
is a scalar, with this scalar; and a failure exactly if no index has one. The candidate of an index
is the number of the digest of three parts, one behind the other: the input, the four bytes of the
family number if there is one, and the four bytes of the index. -/
theorem deriveScalar_outcome (hash : Bytes → FixedBytes 32) (order : Nat) (input : Bytes)
    (family : Option UInt32) :
    (∀ scalar index, deriveScalar hash order input family = .ok (scalar, index) ↔
      IsLeast {i | i ≤ 4294967295 ∧ IsScalar order (candidate hash input family i)} index ∧
        scalar = candidate hash input family index) ∧
    (∀ e, deriveScalar hash order input family = .error e ↔
      (∀ i ≤ 4294967295, ¬IsScalar order (candidate hash input family i)) ∧
        e = .derivation .noScalar) ∧
    ∀ i, candidate hash input family i
      = (hash (input ++ family.elim [] (fun number => BigEndian.encode 4 number.toNat)
          ++ BigEndian.encode 4 i)).toNat := by
  refine ⟨?_, ?_, ?_⟩
  · intro scalar index
    rw [deriveScalar_eq_ok_iff, isFirstScalar_iff_isLeast]
  · intro e
    simp only [deriveScalar_eq_error_iff, NoScalar, candidates, Nat.lt_iff_add_one_le,
      Nat.reduceLeDiff]
  · intro i
    cases family with
    | none => rfl
    | some number => rfl

end Search

/-! ## Root and master -/

variable {Point : Type} {curve : KeyCurve Point} {hash : Bytes → FixedBytes 32}
  {entropy : FixedBytes 16} {root rootIndex intermediate index : Nat}

/-- Whether public keys add up as their secrets do, and to none exactly where these cancel out. -/
structure Additive (curve : KeyCurve Point) : Prop where
  combine_eq : ∀ a b, IsScalar curve.order a → IsScalar curve.order b →
    curve.combine (curve.publicKey a) (curve.publicKey b) =
      if (a + b) % curve.order = 0 then none else some (curve.publicKey ((a + b) % curve.order))

/-- The input of the search for the intermediate scalar: the canonical bytes of the root's public
key. -/
def intermediateInput (curve : KeyCurve Point) (root : Nat) : Bytes :=
  (curve.encode (curve.publicKey root)).toList

/-- Without a scalar for the root, derivation fails. -/
theorem derive_of_no_root (h : NoScalar hash curve.order entropy.toList none) :
    curve.derive hash entropy = .error (.derivation .noScalar) := by
  rw [derive, deriveScalar_eq_error_iff.mpr ⟨h, rfl⟩]
  rfl

/-- Without a scalar for the intermediate secret, derivation fails. -/
theorem derive_of_no_intermediate
    (hroot : IsFirstScalar hash curve.order entropy.toList none root rootIndex)
    (h : NoScalar hash curve.order (curve.intermediateInput root) (some 0)) :
    curve.derive hash entropy = .error (.derivation .noScalar) := by
  have hnone : deriveScalar hash curve.order (curve.encode (curve.publicKey root)).toList (some 0)
      = .error (.derivation .noScalar) := deriveScalar_eq_error_iff.mpr ⟨h, rfl⟩
  rw [derive, deriveScalar_eq_ok_iff.mpr hroot]
  show (deriveScalar hash curve.order (curve.encode (curve.publicKey root)).toList (some 0) >>= _) = _
  rw [hnone]
  rfl

/-- With both scalars found, the sum of the secrets decides. -/
theorem derive_of_scalars (hadditive : curve.Additive)
    (hroot : IsFirstScalar hash curve.order entropy.toList none root rootIndex)
    (hintermediate : IsFirstScalar hash curve.order (curve.intermediateInput root) (some 0)
      intermediate index) :
    curve.derive hash entropy =
      if (root + intermediate) % curve.order = 0 then .error (.derivation .secretSum)
      else .ok (⟨root, curve.publicKey root⟩,
        ⟨(root + intermediate) % curve.order,
          curve.publicKey ((root + intermediate) % curve.order)⟩) := by
  have hfound : deriveScalar hash curve.order (curve.encode (curve.publicKey root)).toList (some 0)
      = .ok (intermediate, index) := deriveScalar_eq_ok_iff.mpr hintermediate
  rw [derive, deriveScalar_eq_ok_iff.mpr hroot]
  show (deriveScalar hash curve.order (curve.encode (curve.publicKey root)).toList (some 0) >>= _) = _
  rw [hfound]
  show (if (root + intermediate) % curve.order = 0 then _ else _) = _
  split
  · rfl
  · next hsum =>
    rw [hadditive.combine_eq root intermediate hroot.isScalar hintermediate.isScalar, if_neg hsum]
    rfl

/-- Whether the two searches of an entropy find these scalars. -/
structure Finds (curve : KeyCurve Point) (hash : Bytes → FixedBytes 32) (entropy : FixedBytes 16)
    (root intermediate : Nat) : Prop where
  exists_root : ∃ index, IsFirstScalar hash curve.order entropy.toList none root index
  exists_intermediate : ∃ index,
    IsFirstScalar hash curve.order (curve.intermediateInput root) (some 0) intermediate index

/-- Whether one of the two searches of an entropy finds no scalar. -/
def FindsNone (curve : KeyCurve Point) (hash : Bytes → FixedBytes 32) (entropy : FixedBytes 16) :
    Prop :=
  NoScalar hash curve.order entropy.toList none ∨
    ∃ root index, IsFirstScalar hash curve.order entropy.toList none root index ∧
      NoScalar hash curve.order (curve.intermediateInput root) (some 0)

/-- Both searches of an entropy find a scalar, or one of them finds none. -/
theorem findsNone_or_exists (curve : KeyCurve Point) (hash : Bytes → FixedBytes 32)
    (entropy : FixedBytes 16) :
    curve.FindsNone hash entropy ∨
      ∃ root intermediate, curve.Finds hash entropy root intermediate := by
  rcases noScalar_or_exists hash curve.order entropy.toList none with hnone | ⟨root, i, hroot⟩
  · exact .inl (.inl hnone)
  rcases noScalar_or_exists hash curve.order (curve.intermediateInput root) (some 0) with
    hnone | ⟨intermediate, j, hintermediate⟩
  · exact .inl (.inr ⟨root, i, hroot, hnone⟩)
  · exact .inr ⟨root, intermediate, ⟨i, hroot⟩, ⟨j, hintermediate⟩⟩

/-- Derivation fails where one of its searches does. -/
theorem derive_of_findsNone (h : curve.FindsNone hash entropy) :
    curve.derive hash entropy = .error (.derivation .noScalar) := by
  rcases h with hnone | ⟨root, index, hroot, hnone⟩
  · exact derive_of_no_root hnone
  · exact derive_of_no_intermediate hroot hnone

/-- The root and the master key that two scalars give. -/
def keysOf (curve : KeyCurve Point) (root intermediate : Nat) : CurveKey Point × CurveKey Point :=
  (⟨root, curve.publicKey root⟩,
    ⟨(root + intermediate) % curve.order, curve.publicKey ((root + intermediate) % curve.order)⟩)

/-- Where both searches find a scalar, derivation fails exactly if the two cancel out. -/
theorem Finds.derive_eq (h : curve.Finds hash entropy root intermediate)
    (hadditive : curve.Additive) :
    curve.derive hash entropy =
      if (root + intermediate) % curve.order = 0 then .error (.derivation .secretSum)
      else .ok (curve.keysOf root intermediate) := by
  obtain ⟨⟨i, hroot⟩, ⟨j, hintermediate⟩⟩ := h
  exact derive_of_scalars hadditive hroot hintermediate

/-- The keys of an entropy are those of two scalars that do not cancel out. -/
theorem derive_eq_ok_iff (hadditive : curve.Additive) {keys : CurveKey Point × CurveKey Point} :
    curve.derive hash entropy = .ok keys ↔
      ∃ root intermediate, curve.Finds hash entropy root intermediate ∧
        (root + intermediate) % curve.order ≠ 0 ∧ curve.keysOf root intermediate = keys := by
  constructor
  · intro hderive
    rcases findsNone_or_exists curve hash entropy with hnone | ⟨root, intermediate, hfinds⟩
    · cases (derive_of_findsNone hnone).symm.trans hderive
    · refine ⟨root, intermediate, hfinds, ?_⟩
      rw [hfinds.derive_eq hadditive] at hderive
      split at hderive
      · cases hderive
      · next hsum => exact ⟨hsum, Except.ok.inj hderive⟩
  · rintro ⟨root, intermediate, hfinds, hsum, rfl⟩
    rw [hfinds.derive_eq hadditive, if_neg hsum]

/-- Derivation fails for want of a scalar, or because the two that it finds cancel out. -/
theorem derive_eq_error_iff (hadditive : curve.Additive) {e : CodecError} :
    curve.derive hash entropy = .error e ↔
      (curve.FindsNone hash entropy ∧ e = .derivation .noScalar) ∨
      ∃ root intermediate, curve.Finds hash entropy root intermediate ∧
        (root + intermediate) % curve.order = 0 ∧ e = .derivation .secretSum := by
  constructor
  · intro hderive
    rcases findsNone_or_exists curve hash entropy with hnone | ⟨root, intermediate, hfinds⟩
    · cases (derive_of_findsNone hnone).symm.trans hderive
      exact .inl ⟨hnone, rfl⟩
    · rw [hfinds.derive_eq hadditive] at hderive
      split at hderive
      · next hsum =>
        cases hderive
        exact .inr ⟨root, intermediate, hfinds, hsum, rfl⟩
      · cases hderive
  · rintro (⟨hnone, rfl⟩ | ⟨root, intermediate, hfinds, hsum, rfl⟩)
    · exact derive_of_findsNone hnone
    · rw [hfinds.derive_eq hadditive, if_pos hsum]

/-- The keys of an entropy, whichever digest is taken. Where no candidate for the root or for the
intermediate secret is a scalar, or the two cancel out, derivation fails for this reason. Otherwise
the root has the public key of its secret, and the secret of the master is the sum of both, a
scalar; its public key, computed as the sum of two public keys, is the one of that secret. -/
theorem derive_outcome (hadditive : curve.Additive) (hash : Bytes → FixedBytes 32)
    (entropy : FixedBytes 16) :
    (NoScalar hash curve.order entropy.toList none ∧
      curve.derive hash entropy = .error (.derivation .noScalar)) ∨
    ∃ root rootIndex, IsFirstScalar hash curve.order entropy.toList none root rootIndex ∧
      ((NoScalar hash curve.order (curve.intermediateInput root) (some 0) ∧
        curve.derive hash entropy = .error (.derivation .noScalar)) ∨
      ∃ intermediate index, IsFirstScalar hash curve.order (curve.intermediateInput root) (some 0)
          intermediate index ∧
        (((root + intermediate) % curve.order = 0 ∧
          curve.derive hash entropy = .error (.derivation .secretSum)) ∨
        ∃ master, master = (root + intermediate) % curve.order ∧ 0 < master ∧
          master < curve.order ∧
          curve.derive hash entropy
            = .ok (⟨root, curve.publicKey root⟩, ⟨master, curve.publicKey master⟩))) := by
  rcases noScalar_or_exists hash curve.order entropy.toList none with hnone | ⟨root, i, hroot⟩
  · exact Or.inl ⟨hnone, derive_of_no_root hnone⟩
  refine Or.inr ⟨root, i, hroot, ?_⟩
  rcases noScalar_or_exists hash curve.order (curve.intermediateInput root) (some 0) with
    hnone | ⟨intermediate, j, hintermediate⟩
  · exact Or.inl ⟨hnone, derive_of_no_intermediate hroot hnone⟩
  refine Or.inr ⟨intermediate, j, hintermediate, ?_⟩
  have hderive := derive_of_scalars hadditive hroot hintermediate
  by_cases hsum : (root + intermediate) % curve.order = 0
  · rw [if_pos hsum] at hderive
    exact Or.inl ⟨hsum, hderive⟩
  · rw [if_neg hsum] at hderive
    have horder : 0 < curve.order := Nat.lt_trans hroot.isScalar.1 hroot.isScalar.2
    exact Or.inr ⟨_, rfl, Nat.pos_of_ne_zero hsum, Nat.mod_lt _ horder, hderive⟩

/-- The curve of secp256k1 keys with its points named by their secrets: a sum of points is named by
the sum of the secrets, and the bytes of a point are those of the point. -/
def ofSecrets : KeyCurve Nat where
  order := Secp256k1.order
  publicKey secret := secret
  combine a b :=
    if (a + b) % Secp256k1.order = 0 then none else some ((a + b) % Secp256k1.order)
  encode secret := (Secp256k1.publicPoint secret).encode

/-- The entropy of the passphrase `masterpassphrase`. -/
def knownEntropy : FixedBytes 16 :=
  ⟨[0xDE, 0xDC, 0xE9, 0xCE, 0x67, 0xB4, 0x51, 0xD8, 0x52, 0xFD, 0x4E, 0x84, 0x6F, 0xCD, 0xE3, 0x1C],
    rfl⟩

/-- The root secret of that entropy. -/
def knownRoot : Nat := 0x395898665728f57de5d90f1de102278a967d6941a45a6c9a98cb123394489e55

/-- The intermediate secret of that entropy. -/
def knownIntermediate : Nat := 0xe1721678771765acafa90344bd14cb5f6ae2c793f43b10d636e64babb542c8a3

/-- The root secret of the known entropy is the candidate of its first index. -/
theorem isFirstScalar_knownRoot :
    IsFirstScalar Sha512.half Secp256k1.order knownEntropy.toList none knownRoot 0 := by
  refine ⟨by decide, ?_, ?_, fun i hi => absurd hi (Nat.not_lt_zero i)⟩
  · unfold candidate
    decide +kernel
  · unfold IsScalar
    decide

/-- The intermediate secret of that root is the candidate of its first index. -/
theorem isFirstScalar_knownIntermediate :
    IsFirstScalar Sha512.half Secp256k1.order (ofSecrets.intermediateInput knownRoot) (some 0)
      knownIntermediate 0 := by
  refine ⟨by decide, ?_, ?_, fun i hi => absurd hi (Nat.not_lt_zero i)⟩
  · unfold candidate
    decide +kernel
  · unfold IsScalar
    decide

/-- A first scalar is the only one. -/
theorem IsFirstScalar.unique {order : Nat} {input : Bytes} {family : Option UInt32}
    {a b i j : Nat} (ha : IsFirstScalar hash order input family a i)
    (hb : IsFirstScalar hash order input family b j) : a = b := by
  have hboth := (deriveScalar_eq_ok_iff.mpr ha).symm.trans (deriveScalar_eq_ok_iff.mpr hb)
  cases hboth
  rfl

/-- An input with a first scalar has one. -/
theorem IsFirstScalar.not_noScalar {order : Nat} {input : Bytes} {family : Option UInt32}
    {a i : Nat} (ha : IsFirstScalar hash order input family a i) :
    ¬NoScalar hash order input family := by
  intro hnone
  exact hnone i ha.index_lt (ha.candidate_eq ▸ ha.isScalar)

/-- The known passphrase derives the known master secret. -/
theorem derive_outcome_knownEntropy :
    ofSecrets.Additive ∧ ∃ master,
      master = 0x1acaaedece405b2a958212629e16f2eb46b153eee94cdd350fdeff52795525b7 ∧
      ofSecrets.derive Sha512.half knownEntropy
        = .ok (⟨knownRoot, ofSecrets.publicKey knownRoot⟩, ⟨master, ofSecrets.publicKey master⟩) := by
  have hadditive : ofSecrets.Additive := ⟨fun _ _ _ _ => rfl⟩
  refine ⟨hadditive, ?_⟩
  rcases derive_outcome hadditive Sha512.half knownEntropy with ⟨hnone, -⟩ | ⟨root, i, hroot, h⟩
  · exact absurd hnone isFirstScalar_knownRoot.not_noScalar
  obtain rfl : root = knownRoot := hroot.unique isFirstScalar_knownRoot
  rcases h with ⟨hnone, -⟩ | ⟨intermediate, j, hintermediate, h⟩
  · exact absurd hnone isFirstScalar_knownIntermediate.not_noScalar
  obtain rfl : intermediate = knownIntermediate :=
    hintermediate.unique isFirstScalar_knownIntermediate
  rcases h with ⟨hsum, -⟩ | ⟨master, hmaster, -, -, hderive⟩
  · exact absurd hsum (by decide)
  · exact ⟨master, by rw [hmaster]; decide, hderive⟩

end KeyCurve

/-! ## The keys of a seed

The curve is the one of secp256k1 keys, of which it is assumed that its points add up as their
secrets do. -/

namespace KeyPair

/-- Whether the public key of a pair is the one of its private key, which is a scalar if the pair is
one of the curve. -/
def Matches : KeyPair → Prop
  | secp256k1 key => KeyCurve.IsScalar Secp256k1.order key.secret ∧
      key.publicKey = Secp256k1.publicPoint key.secret
  | ed25519 _ => True

end KeyPair

namespace Seed

variable {seed : Seed} (hadditive : Secp256k1.keyCurve.Additive)

include hadditive

/-- A secp256k1 seed has the pairs of two scalars that do not cancel out: the first is the secret of
its root, and their sum is the secret of the master. -/
theorem keys_eq_ok_iff (htype : seed.keyType = .secp256k1) {pairs : SeedKeys} :
    seed.keys = .ok pairs ↔
      ∃ root intermediate,
        Secp256k1.keyCurve.Finds Sha512.half seed.entropy root intermediate ∧
        (root + intermediate) % Secp256k1.order ≠ 0 ∧
        pairs = ⟨some (.secp256k1 (Secp256k1.keyCurve.keysOf root intermediate).1),
          .secp256k1 (Secp256k1.keyCurve.keysOf root intermediate).2⟩ := by
  simp only [Seed.keys, htype, bind_eq_ok_iff, pure_eq_ok_iff, KeyCurve.derive_eq_ok_iff hadditive]
  constructor
  · rintro ⟨_, ⟨root, intermediate, hfinds, hsum, rfl⟩, rfl⟩
    exact ⟨root, intermediate, hfinds, hsum, rfl⟩
  · rintro ⟨root, intermediate, hfinds, hsum, rfl⟩
    exact ⟨_, ⟨root, intermediate, hfinds, hsum, rfl⟩, rfl⟩

/-- A secp256k1 seed has no pairs exactly if one of its searches finds no scalar or the two that
they find cancel out, and the error says which. -/
theorem keys_eq_error_iff (htype : seed.keyType = .secp256k1) {e : CodecError} :
    seed.keys = .error e ↔
      (Secp256k1.keyCurve.FindsNone Sha512.half seed.entropy ∧ e = .derivation .noScalar) ∨
      ∃ root intermediate, Secp256k1.keyCurve.Finds Sha512.half seed.entropy root intermediate ∧
        (root + intermediate) % Secp256k1.order = 0 ∧ e = .derivation .secretSum := by
  have hkeys : seed.keys = .error e ↔
      Secp256k1.keyCurve.derive Sha512.half seed.entropy = .error e := by
    simp only [Seed.keys, htype, bind_eq_error_iff, pure_ne_error, and_false, exists_false,
      or_false]
  exact hkeys.trans (KeyCurve.derive_eq_error_iff hadditive)

/-- Every pair of a seed has the public key of its private key. -/
theorem matches_of_keys {pairs : SeedKeys} (h : seed.keys = .ok pairs) :
    (∀ root ∈ pairs.root, root.Matches) ∧ pairs.master.Matches := by
  cases htype : seed.keyType with
  | ed25519 =>
    simp only [Seed.keys, htype, Except.ok.injEq] at h
    subst h
    exact ⟨nofun, trivial⟩
  | secp256k1 =>
    obtain ⟨root, intermediate, hfinds, hsum, rfl⟩ := (keys_eq_ok_iff hadditive htype).mp h
    obtain ⟨_, hroot⟩ := hfinds.exists_root
    refine ⟨?_, ⟨Nat.pos_of_ne_zero hsum, Nat.mod_lt _ (by decide)⟩, rfl⟩
    rintro _ ⟨⟩
    exact ⟨hroot.isScalar, rfl⟩

end Seed

end XrpLedger
