import XrpLedger.Object.Reader

/-!
# Reading step by step

A `Scanner` is a buffer and the position up to which it was read. The calls of a scanner are
computations that move the position and may fail half-way (`Reading`): what has been moved stays
moved when a later step fails, unless it is put back. The smallest reads look at some bytes from the
position on and move it once (`Reading.piece`). Whatever a caller may ask for that takes several
steps puts the position back when one of them fails (`Reading.atomic`); what is nested in it need
not.

A loop over fields or entries ends with the bytes of the buffer at the latest, since each round
takes at least the header of a field. So the bytes that are left when it starts bound its rounds.
-/

set_option autoImplicit false

namespace XrpLedger

/-- A buffer and the position up to which it was read. -/
structure Scanner where
  buffer : Array UInt8
  position : Nat

namespace Scanner

/-- Nothing read yet. -/
def start (bytes : Bytes) : Scanner := ⟨bytes.toArray, 0⟩

/-- How many bytes are still to be read. -/
def remaining (scanner : Scanner) : Nat :=
  scanner.buffer.size - scanner.position

/-- The next `width` bytes, or what there is of them. -/
def window (scanner : Scanner) (width : Nat) : Bytes :=
  (scanner.buffer.extract scanner.position (scanner.position + width)).toList

/-- The scanner at another position of its buffer. -/
def moveTo (scanner : Scanner) (position : Nat) : Scanner :=
  { scanner with position := position }

end Scanner

/-- A computation on a scanner; the position that it has reached stays when it fails. -/
abbrev Reading := ExceptT CodecError (StateM Scanner)

namespace Reading

variable {α : Type}

/-- Reads a value from the next `width` bytes and moves behind it, or fails without moving. -/
def piece (width : Nat) (reader : Reader α) : Reading α := do
  let scanner ← get
  let bytes := scanner.window width
  let (a, rest) ← liftExcept (reader.run bytes)
  set (scanner.moveTo (scanner.position + (bytes.length - rest.length)))
  return a

/-- Goes back to where it started when it fails. -/
def atomic (x : Reading α) : Reading α := do
  let start := (← get).position
  try x
  catch e =>
    modify fun scanner => scanner.moveTo start
    throw e

/-- Gives nothing, instead of failing, when bytes are missing. -/
def attempt (x : Reading α) : Reading (Option α) := do
  try some <$> x
  catch e => if e.isRecoverable then pure none else throw e

/-- Takes `n` bytes. -/
def take (n : Nat) : Reading (FixedBytes n) :=
  piece n (Reader.take n)

/-- Takes the header of a field, which has three bytes at most. -/
def fieldId : Reading FieldId :=
  piece 3 Reader.fieldId

/-- Takes the marker of a length, which has three bytes at most. -/
def length : Reading Nat :=
  piece 3 Reader.length

/-- Takes a number of 8 bits. -/
def uint8 : Reading UInt8 := do
  return UInt8.ofNat (← take 1).toNat

/-- Takes a number of 16 bits. -/
def uint16 : Reading UInt16 := do
  return UInt16.ofNat (← take 2).toNat

/-- Takes a number of 32 bits. -/
def uint32 : Reading UInt32 := do
  return UInt32.ofNat (← take 4).toNat

/-- Takes a number of 64 bits. -/
def uint64 : Reading UInt64 := do
  return UInt64.ofNat (← take 8).toNat

/-- Takes an amount. Its first word tells whether it was issued; then the word is the beginning of
the whole amount, which is taken from where the word stood. -/
def amount : Reading Amount := atomic do
  let word ← take 8
  if Amount.isIssuedWord word.toNat then
    modify fun scanner => scanner.moveTo (scanner.position - 8)
    return .issued (← liftExcept (IssuedAmount.ofBytes (← take 48).toList))
  else
    return .xrp (← liftExcept (XrpAmount.ofBits word.toNat))

/-- Takes bytes behind their length. -/
def blob : Reading Bytes := atomic do
  return (← take (← length)).toList

/-- Takes an account behind its length. -/
def account : Reading AccountId := atomic do
  let n ← length
  if n = 20 then return ⟨← take 20⟩
  else throw (.format (.accountField n))

/-- Takes a list of digests behind its length. -/
def vector256 : Reading (List Hash256) := atomic do
  let n ← length
  if n % 32 ≠ 0 then throw (.format (.vectorLength n))
  else
    let bytes ← take n
    liftExcept (((Reader.digests (n / 32)).run bytes.toList).map (·.1))

/-- Takes the value of a field whose type is no container. -/
def scalar (field : FieldId) : Reading Scalar :=
  match field.typeCode with
  | .uint8 => .uint8 <$> uint8
  | .uint16 => .uint16 <$> uint16
  | .uint32 => .uint32 <$> uint32
  | .uint64 => .uint64 <$> uint64
  | .hash128 => .hash128 <$> take 16
  | .hash160 => .hash160 <$> take 20
  | .hash256 => .hash256 <$> take 32
  | .amount => .amount <$> amount
  | .blob => .blob <$> blob
  | .accountId => .account <$> account
  | .vector256 => .vector256 <$> vector256
  | .pathSet | .object | .array => throw (.mismatch (.pathSet field))

/-- Takes the fields of an inner object that stand behind the field `last`, and the end marker; from
at most `limit` bytes. -/
def fieldsAfter (value : FieldId → Reading Value) :
    (limit : Nat) → (last : Option FieldId) → Reading (List (FieldId × Value))
  | 0, _ => throw (.truncated 1 0)
  | limit + 1, last => do
    let field ← fieldId
    if field = .objectEnd then return []
    else if field = .arrayEnd then throw (.mismatch .arrayEndInObject)
    else
      let v ← value field
      liftExcept (Reader.ascends last field)
      return (field, v) :: (← fieldsAfter value limit (some field))

/-- Takes the fields of an inner object and its end marker. -/
def fieldsToEnd (value : FieldId → Reading Value) : Reading (List (FieldId × Value)) := do
  fieldsAfter value (← get).remaining none

/-- Takes the entries of an array and its end marker, from at most `limit` bytes. -/
def entriesWithin (object : Reading (List (FieldId × Value))) :
    (limit : Nat) → Reading (List (FieldId × List (FieldId × Value)))
  | 0 => throw (.truncated 1 0)
  | limit + 1 => do
    let field ← fieldId
    if field = .arrayEnd then return []
    else if field.typeCode ≠ .object ∨ field = .objectEnd then
      throw (.mismatch (.arrayEntry field))
    else
      let fields ← object
      return (field, fields) :: (← entriesWithin object limit)

/-- Takes the entries of an array and its end marker. -/
def entriesToEnd (object : Reading (List (FieldId × Value))) :
    Reading (List (FieldId × List (FieldId × Value))) := do
  entriesWithin object (← get).remaining

/-- Takes the value of a field, with room for `room` containers inside each other. -/
def valueOf : (room : Nat) → FieldId → Reading Value
  | 0, field =>
    match field.typeCode with
    | .object | .array => throw (.mismatch (.depth Reader.depthLimit))
    | _ => .scalar <$> scalar field
  | room + 1, field =>
    match field.typeCode with
    | .object => .object <$> fieldsToEnd (valueOf room)
    | .array =>
      match room with
      | 0 => .array <$> entriesToEnd (throw (.mismatch (.depth Reader.depthLimit)))
      | room + 1 => .array <$> entriesToEnd (fieldsToEnd (valueOf room))
    | _ => .scalar <$> scalar field

/-- Takes a field outside of every container, and stays where it fails. -/
def fieldInPlace : Reading (FieldId × Value) := do
  let id ← fieldId
  if id.isEndMarker then throw (.mismatch (.endMarker id))
  else return (id, ← valueOf Reader.depthLimit id)

/-- Takes a field outside of every container. -/
def field : Reading (FieldId × Value) :=
  atomic fieldInPlace

/-- Takes the fields up to the end of the buffer, after the field `last`, from at most `limit`
bytes. -/
def fieldsLeft : (limit : Nat) → (last : Option FieldId) → Reading (List (FieldId × Value))
  | 0, _ => return []
  | limit + 1, last => do
    if (← get).remaining = 0 then return []
    else
      let (id, v) ← fieldInPlace
      liftExcept (Reader.ascends last id)
      return (id, v) :: (← fieldsLeft limit (some id))

/-- Takes all the bytes there are as the fields of an object. -/
def object : Reading Object := atomic do
  return ⟨← fieldsLeft (← get).remaining none⟩

/-- Takes an item. -/
def item : (item : Cursor.Item) → Reading item.Result
  | .uint8 => uint8
  | .uint16 => uint16
  | .uint32 => uint32
  | .uint64 => uint64
  | .hash128 => take 16
  | .hash160 => take 20
  | .hash256 => take 32
  | .amount => amount
  | .length => length
  | .blob => blob
  | .account => account
  | .vector256 => vector256
  | .fieldId => fieldId
  | .field => field

end Reading

namespace Scanner

/-- A call on a scanner. -/
inductive Call
  /-- Read an item. -/
  | read (item : Cursor.Item)
  /-- Read an item if all of its bytes are there. A scanner offers no trial of a length alone; it is
  a call here like the trial of any other item, so that what holds after all calls holds after those
  that are offered. -/
  | tryRead (item : Cursor.Item)
  /-- Read all that is left as one object. -/
  | object

namespace Call

/-- The answers to a call. -/
def Result : Call → Type
  | read item => item.Result
  | tryRead item => Option item.Result
  | object => Object

/-- Carries out a call. -/
def perform : (call : Call) → Reading call.Result
  | read item => Reading.item item
  | tryRead item => Reading.attempt (Reading.item item)
  | object => Reading.object

end Call

/-- What a call answers, and the scanner as the call leaves it. -/
def step (scanner : Scanner) (call : Call) : Except CodecError call.Result × Scanner :=
  (call.perform.run scanner).run

/-- The scanner after calls, whatever they answer. -/
def after (scanner : Scanner) (calls : List Call) : Scanner :=
  calls.foldl (fun scanner call => (scanner.step call).2) scanner

end Scanner

end XrpLedger
