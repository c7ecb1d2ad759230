import XrpLedger.Object.Basic

/-!
# Reading fields

A `Reader` takes a value from the front of a byte string and returns it with what is left, which is
never longer than what it was given. The readers of scalars follow the type code of a field; inner
objects and arrays are read up to their end marker, sixteen deep at most, and the fields of every
object must ascend in canonical order.

Only `Reader.fieldsToEnd`, `Reader.entriesToEnd` and `Reader.object` repeat a reader; each step of
theirs takes at least the header of a field, which bounds them by the bytes there are.
-/

set_option autoImplicit false

namespace XrpLedger

/-- Takes a value from the front of a byte string. -/
structure Reader (α : Type) where
  /-- The value and what is left, or an error. -/
  run : Bytes → Except CodecError (α × Bytes)
  /-- Nothing is put back. -/
  length_le : ∀ bytes a rest, run bytes = .ok (a, rest) → rest.length ≤ bytes.length

namespace Reader

variable {α β : Type}

/-- Takes nothing. -/
def value (a : α) : Reader α where
  run bytes := .ok (a, bytes)
  length_le bytes b rest h := by
    cases h
    exact Nat.le_refl _

/-- Fails whatever the bytes are. -/
def fail (e : CodecError) : Reader α where
  run _ := .error e
  length_le bytes b rest h := by cases h

/-- Takes one value, then another that may depend on it. -/
def andThen (r : Reader α) (f : α → Reader β) : Reader β where
  run bytes :=
    match r.run bytes with
    | .error e => .error e
    | .ok (a, rest) => (f a).run rest
  length_le bytes b rest h := by
    split at h
    · cases h
    · next a middle hr =>
      exact Nat.le_trans ((f a).length_le _ _ _ h) (r.length_le _ _ _ hr)

instance : Monad Reader where
  pure := value
  bind := andThen

/-- A value that was computed already, or its error. -/
def ofExcept : Except CodecError α → Reader α
  | .ok a => value a
  | .error e => fail e

/-- Reads a value and puts everything back. -/
def peek (r : Reader α) : Reader α where
  run bytes := (r.run bytes).map fun (a, _) => (a, bytes)
  length_le bytes a rest h := by
    cases hr : r.run bytes with
    | error e => simp [hr, Except.map] at h
    | ok result =>
      simp only [hr, Except.map] at h
      cases h
      exact Nat.le_refl _

/-- Takes `n` bytes. -/
def take (n : Nat) : Reader (FixedBytes n) where
  run bytes :=
    if h : (bytes.take n).length = n then .ok (⟨bytes.take n, h⟩, bytes.drop n)
    else .error (.truncated n bytes.length)
  length_le bytes a rest h := by
    split at h
    · cases h
      simp
    · cases h

/-- Takes the header of a field. -/
def fieldId : Reader FieldId where
  run := FieldId.decodeHeader
  length_le bytes field rest h := by
    exact Nat.le_of_lt (FieldId.length_lt_of_decodeHeader h)

/-- Takes the marker of a length. -/
def length : Reader Nat where
  run := LengthMarker.decode
  length_le bytes n rest h := by
    exact Nat.le_of_lt (LengthMarker.length_lt_of_decode h)

/-- Takes a number of 8 bits. -/
def uint8 : Reader UInt8 := do
  return UInt8.ofNat (← take 1).toNat

/-- Takes a number of 16 bits. -/
def uint16 : Reader UInt16 := do
  return UInt16.ofNat (← take 2).toNat

/-- Takes a number of 32 bits. -/
def uint32 : Reader UInt32 := do
  return UInt32.ofNat (← take 4).toNat

/-- Takes a number of 64 bits. -/
def uint64 : Reader UInt64 := do
  return UInt64.ofNat (← take 8).toNat

/-- Takes an amount, of XRP or issued as its first word tells. -/
def amount : Reader Amount := do
  let word ← peek (take 8)
  if Amount.isIssuedWord word.toNat then
    return .issued (← ofExcept (IssuedAmount.ofBytes (← take 48).toList))
  else
    return .xrp (← ofExcept (XrpAmount.ofBits (← take 8).toNat))

/-- Takes bytes behind their length. -/
def blob : Reader Bytes := do
  return (← take (← length)).toList

/-- Takes an account behind its length. -/
def account : Reader AccountId := do
  let n ← length
  if n = 20 then return ⟨← take 20⟩
  else fail (.format (.accountField n))

/-- Digests from a byte string, one for each 32 bytes. -/
def digests : (count : Nat) → Reader (List Hash256)
  | 0 => value []
  | count + 1 => do
    let digest ← take 32
    return digest :: (← digests count)

/-- Takes a list of digests behind its length. -/
def vector256 : Reader (List Hash256) := do
  let n ← length
  if n % 32 ≠ 0 then fail (.format (.vectorLength n))
  else
    let bytes ← take n
    ofExcept (((digests (n / 32)).run bytes.toList).map (·.1))

/-- Takes the value of a field whose type is no container. -/
def scalar (field : FieldId) : Reader Scalar :=
  match field.typeCode with
  | .uint8 => .uint8 <$> uint8
  | .uint16 => .uint16 <$> uint16
  | .uint32 => .uint32 <$> uint32
  | .uint64 => .uint64 <$> uint64
  | .hash128 => .hash128 <$> take 16
  | .hash160 => .hash160 <$> take 20
  | .hash256 => .hash256 <$> take 32
  | .amount => .amount <$> amount
  | .blob => .blob <$> blob
  | .accountId => .account <$> account
  | .vector256 => .vector256 <$> vector256
  | .pathSet | .object | .array => fail (.mismatch (.pathSet field))

/-- Whether a field may stand after the last one: it must come later in canonical order. -/
def ascends (last : Option FieldId) (field : FieldId) : Except CodecError Unit :=
  match last with
  | none => .ok ()
  | some last =>
    if last.rank < field.rank then .ok () else .error (.mismatch (.readOrder field last))

/-- The fields of an inner object up to its end marker, after the field `last`. -/
def runFieldsToEnd (value : FieldId → Reader Value) (last : Option FieldId) (bytes : Bytes) :
    Except CodecError (List (FieldId × Value) × Bytes) :=
  match _header : FieldId.decodeHeader bytes with
  | .error e => .error e
  | .ok (field, rest) =>
    if field = .objectEnd then .ok ([], rest)
    else if field = .arrayEnd then .error (.mismatch .arrayEndInObject)
    else
      match _found : (value field).run rest with
      | .error e => .error e
      | .ok (v, rest') =>
        match ascends last field with
        | .error e => .error e
        | .ok () =>
          match runFieldsToEnd value (some field) rest' with
          | .error e => .error e
          | .ok (fields, after) => .ok ((field, v) :: fields, after)
termination_by bytes.length
decreasing_by
  exact Nat.lt_of_le_of_lt ((value field).length_le _ _ _ _found)
    (FieldId.length_lt_of_decodeHeader _header)

/-- The end marker of an object is taken with its fields. -/
theorem length_lt_of_runFieldsToEnd (value : FieldId → Reader Value) (last : Option FieldId)
    (bytes : Bytes) (fields : List (FieldId × Value)) (after : Bytes)
    (h : runFieldsToEnd value last bytes = .ok (fields, after)) : after.length < bytes.length := by
  rw [runFieldsToEnd] at h
  split at h
  · cases h
  · next field rest header =>
    have hlt := FieldId.length_lt_of_decodeHeader header
    split at h
    · cases h
      exact hlt
    · split at h
      · cases h
      · split at h
        · cases h
        · next v rest' found =>
          have hle := (value field).length_le _ _ _ found
          split at h
          · cases h
          · split at h
            · cases h
            · next fields' after' hrec =>
              cases h
              have ih := length_lt_of_runFieldsToEnd value (some field) rest' fields' after hrec
              omega
termination_by bytes.length

/-- Takes the fields of an inner object and its end marker. -/
def fieldsToEnd (value : FieldId → Reader Value) : Reader (List (FieldId × Value)) where
  run := runFieldsToEnd value none
  length_le bytes fields after h :=
    Nat.le_of_lt (length_lt_of_runFieldsToEnd value none bytes fields after h)

/-- The entries of an array up to its end marker. -/
def runEntriesToEnd (object : Reader (List (FieldId × Value))) (bytes : Bytes) :
    Except CodecError (List (FieldId × List (FieldId × Value)) × Bytes) :=
  match _header : FieldId.decodeHeader bytes with
  | .error e => .error e
  | .ok (field, rest) =>
    if field = .arrayEnd then .ok ([], rest)
    else if field.typeCode ≠ .object ∨ field = .objectEnd then
      .error (.mismatch (.arrayEntry field))
    else
      match _found : object.run rest with
      | .error e => .error e
      | .ok (fields, rest') =>
        match runEntriesToEnd object rest' with
        | .error e => .error e
        | .ok (entries, after) => .ok ((field, fields) :: entries, after)
termination_by bytes.length
decreasing_by
  exact Nat.lt_of_le_of_lt (object.length_le _ _ _ _found)
    (FieldId.length_lt_of_decodeHeader _header)

/-- The end marker of an array is taken with its entries. -/
theorem length_lt_of_runEntriesToEnd (object : Reader (List (FieldId × Value))) (bytes : Bytes)
    (entries : List (FieldId × List (FieldId × Value))) (after : Bytes)
    (h : runEntriesToEnd object bytes = .ok (entries, after)) : after.length < bytes.length := by
  rw [runEntriesToEnd] at h
  split at h
  · cases h
  · next field rest header =>
    have hlt := FieldId.length_lt_of_decodeHeader header
    split at h
    · cases h
      exact hlt
    · split at h
      · cases h
      · split at h
        · cases h
        · next fields rest' found =>
          have hle := object.length_le _ _ _ found
          split at h
          · cases h
          · next entries' after' hrec =>
            cases h
            have ih := length_lt_of_runEntriesToEnd object rest' entries' after hrec
            omega
termination_by bytes.length

/-- Takes the entries of an array and its end marker. -/
def entriesToEnd (object : Reader (List (FieldId × Value))) :
    Reader (List (FieldId × List (FieldId × Value))) where
  run := runEntriesToEnd object
  length_le bytes entries after h :=
    Nat.le_of_lt (length_lt_of_runEntriesToEnd object bytes entries after h)

/-- How deep objects and arrays may be nested. -/
def depthLimit : Nat := 16

/-- Takes the value of a field, with room for `room` containers inside each other. -/
def valueOf : (room : Nat) → FieldId → Reader Value
  | 0, field =>
    match field.typeCode with
    | .object | .array => fail (.mismatch (.depth depthLimit))
    | _ => .scalar <$> scalar field
  | room + 1, field =>
    match field.typeCode with
    | .object => .object <$> fieldsToEnd (valueOf room)
    | .array =>
      match room with
      | 0 => .array <$> entriesToEnd (fail (.mismatch (.depth depthLimit)))
      | room + 1 => .array <$> entriesToEnd (fieldsToEnd (valueOf room))
    | _ => .scalar <$> scalar field

/-- Takes a field outside of every container. -/
def field : Reader (FieldId × Value) := do
  let id ← fieldId
  if id.isEndMarker then fail (.mismatch (.endMarker id))
  else return (id, ← valueOf depthLimit id)

/-- A field takes at least its header. -/
theorem length_lt_of_field {bytes rest : Bytes} {entry : FieldId × Value}
    (h : field.run bytes = .ok (entry, rest)) : rest.length < bytes.length := by
  simp only [field, bind, andThen] at h
  split at h
  · cases h
  · next id middle header =>
    have hlt := FieldId.length_lt_of_decodeHeader header
    have hle := Reader.length_le _ _ _ _ h
    omega

/-- The fields up to the end of the bytes, after the field `last`. -/
def runFields (last : Option FieldId) (bytes : Bytes) :
    Except CodecError (List (FieldId × Value)) :=
  if bytes = [] then .ok []
  else
    match _found : field.run bytes with
    | .error e => .error e
    | .ok ((id, v), rest) =>
      match ascends last id with
      | .error e => .error e
      | .ok () => (runFields (some id) rest).map ((id, v) :: ·)
termination_by bytes.length
decreasing_by exact length_lt_of_field _found

/-- Takes all the bytes there are as the fields of an object. -/
def object : Reader Object where
  run bytes := (runFields none bytes).map fun fields => (⟨fields⟩, [])
  length_le bytes o rest h := by
    cases hf : runFields none bytes with
    | error e => simp [hf, Except.map] at h
    | ok fields =>
      simp only [hf, Except.map] at h
      cases h
      exact Nat.zero_le _

end Reader

namespace Object

/-- The object that a whole byte string holds. -/
def ofBytes (bytes : Bytes) : Except CodecError Object :=
  (Reader.object.run bytes).map (·.1)

end Object

/-- A place in a byte string, from which values are read one after another. -/
structure Cursor where
  /-- The bytes taken so far. -/
  position : Nat
  /-- The bytes that are left. -/
  rest : Bytes

namespace Cursor

/-- Reads a value; a failed read leaves the cursor where it was. -/
def read {α : Type} (reader : Reader α) (cursor : Cursor) : Except CodecError α × Cursor :=
  match reader.run cursor.rest with
  | .error e => (.error e, cursor)
  | .ok (a, rest) =>
    (.ok a, ⟨cursor.position + (cursor.rest.length - rest.length), rest⟩)

/-- What a cursor reads at once. -/
inductive Item
  | uint8
  | uint16
  | uint32
  | uint64
  | hash128
  | hash160
  | hash256
  | amount
  /-- The marker of a length, without what stands behind it. -/
  | length
  | blob
  | account
  | vector256
  /-- The header of a field, without its value. -/
  | fieldId
  /-- A field with its value and all that is nested in it. -/
  | field

namespace Item

/-- The values that an item has. -/
def Result : Item → Type
  | uint8 => UInt8
  | uint16 => UInt16
  | uint32 => UInt32
  | uint64 => UInt64
  | hash128 => Hash128
  | hash160 => Hash160
  | hash256 => Hash256
  | amount => Amount
  | length => Nat
  | blob => Bytes
  | account => AccountId
  | vector256 => List Hash256
  | fieldId => FieldId
  | field => FieldId × Value

/-- How an item is read. -/
def reader : (item : Item) → Reader item.Result
  | uint8 => Reader.uint8
  | uint16 => Reader.uint16
  | uint32 => Reader.uint32
  | uint64 => Reader.uint64
  | hash128 => Reader.take 16
  | hash160 => Reader.take 20
  | hash256 => Reader.take 32
  | amount => Reader.amount
  | length => Reader.length
  | blob => Reader.blob
  | account => Reader.account
  | vector256 => Reader.vector256
  | fieldId => Reader.fieldId
  | field => Reader.field

end Item

end Cursor

end XrpLedger
