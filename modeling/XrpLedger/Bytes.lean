/-!
# Byte strings

Byte strings of any length (`Bytes`) and of one length (`FixedBytes n`), the big-endian reading and
writing of numbers, and the UTF-8 bytes of a text. Every wire format of the library is built from
these.

The lemmas beside the definitions say how long a written number is; a fixed-width byte string
carries its length as a proof.
-/

set_option autoImplicit false

namespace XrpLedger

-- A power is the core library's one in every module, whether or not algebra is imported there.
attribute [instance (2000), default_instance 20000] instPowNat

/-- Byte strings of any length. -/
abbrev Bytes := List UInt8

/-- The UTF-8 bytes of a text. -/
def utf8 (text : String) : Bytes :=
  text.toList.flatMap String.utf8EncodeChar

namespace BigEndian

/-- The number a byte string spells, most significant byte first. -/
def value (bytes : Bytes) : Nat :=
  bytes.foldl (fun n byte => n * 256 + byte.toNat) 0

/-- The last `width` base-256 digits of a number, most significant first. -/
def encode : (width : Nat) → (n : Nat) → Bytes
  | 0, _ => []
  | width + 1, n => encode width (n / 256) ++ [UInt8.ofNat n]

/-- A number written in `width` bytes takes `width` bytes. -/
@[simp] theorem length_encode (width n : Nat) : (encode width n).length = width := by
  induction width generalizing n with
  | zero => rfl
  | succ width ih => simp [encode, ih]

end BigEndian

/-- Byte strings of exactly `n` bytes. -/
structure FixedBytes (n : Nat) where
  /-- The bytes, first byte first. -/
  toList : Bytes
  /-- There are `n` of them. -/
  length_toList : toList.length = n
deriving DecidableEq

namespace FixedBytes

variable {n : Nat}

/-- The byte string as one of fixed length, if it has that length. -/
def ofList? (n : Nat) (bytes : Bytes) : Option (FixedBytes n) :=
  if h : bytes.length = n then some ⟨bytes, h⟩ else none

/-- The byte string of zeros. -/
def zero (n : Nat) : FixedBytes n :=
  ⟨List.replicate n 0, List.length_replicate⟩

/-- The big-endian number that the bytes spell; fixed-width byte strings are ordered by it. -/
def toNat (bytes : FixedBytes n) : Nat :=
  BigEndian.value bytes.toList

/-- A number in `n` bytes, big-endian; what does not fit is dropped at the top. -/
def ofNat (n value : Nat) : FixedBytes n :=
  ⟨BigEndian.encode n value, BigEndian.length_encode n value⟩

/-- The first `k` bytes. -/
def first (bytes : FixedBytes n) (k : Nat) (h : k ≤ n) : FixedBytes k :=
  ⟨bytes.toList.take k, by rw [List.length_take, bytes.length_toList]; exact Nat.min_eq_left h⟩

instance : Ord (FixedBytes n) :=
  ⟨fun a b => compare a.toNat b.toNat⟩

/-- Two fixed-width byte strings are equal when their bytes are. -/
theorem ext {a b : FixedBytes n} (h : a.toList = b.toList) : a = b := by
  cases a
  cases b
  cases h
  rfl

end FixedBytes

end XrpLedger
