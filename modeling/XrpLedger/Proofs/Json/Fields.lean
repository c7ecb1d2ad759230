import Mathlib.Data.List.Basic
import XrpLedger.Json.Fields
import XrpLedger.Proofs.Amount.Json

/-!
# Fields of JSON objects are read back

What an object gives for a key is settled entry by entry (`Json.get?_cons`, `Json.get?_append`). If
it gives the JSON form of a value that may be absent, the typed access to the key gives the value:
there is one lemma for texts, for numbers, for amounts and for lists of wrapped objects.

Typed access looks at nothing but what the object gives for its key. So objects that agree on the
keys that a reader asks for are the same to it, in what they hold and in what is wrong with them.
-/

set_option autoImplicit false

namespace XrpLedger

namespace Json

variable (key : String)

/-- An object without entries has nothing under any key. -/
@[simp] theorem get?_nil : (object []).get? key = none := rfl

/-- The first entry is what is found under its key. -/
@[simp] theorem get?_cons (entry : String × Json) (entries : List (String × Json)) :
    (object (entry :: entries)).get? key
      = if key = entry.1 then some entry.2 else (object entries).get? key := by
  simp only [get?, List.find?_cons]
  by_cases h : key = entry.1
  · rw [decide_eq_true h.symm, if_pos h, Option.map_some]
  · rw [decide_eq_false (Ne.symm h), if_neg h]

/-- Entries in front are looked at first. -/
@[simp] theorem get?_append (front back : List (String × Json)) :
    (object (front ++ back)).get? key
      = ((object front).get? key).or ((object back).get? key) := by
  simp only [get?, List.find?_append, Option.map_or]

/-- An entry that may be missing is found under its own key only. -/
@[simp] theorem get?_optionalEntry (name : String) (value : Option Json) :
    (object (optionalEntry name value)).get? key = if key = name then value else none := by
  cases value with
  | none => simp [optionalEntry]
  | some value => simp [optionalEntry]

end Json

namespace JsonFields

variable {α : Type} {fields : JsonFields} {key : String}

/-- An object is taken as the fields of its entries. -/
@[simp] theorem ofJson_object (context : String) (entries : List (String × Json)) :
    ofJson context (.object entries) = .ok ⟨context, .object entries⟩ := rfl

/-! ## Objects that agree on keys -/

section Agreement

variable {context : String} {a b : Json} {keys : List String}
  (h : ∀ key ∈ keys, a.get? key = b.get? key) (hkey : key ∈ keys)

include h hkey

/-- Texts are read alike from objects that agree on the key. -/
theorem parsed_congr (parse : String → Except CodecError α) :
    parsed ⟨context, a⟩ key parse = parsed ⟨context, b⟩ key parse := by
  simp only [parsed, string, h key hkey, shapeError]

/-- Numbers are read alike from objects that agree on the key. -/
theorem unsigned_congr (limit : Nat) :
    unsigned ⟨context, a⟩ key limit = unsigned ⟨context, b⟩ key limit := by
  simp only [unsigned, h key hkey, shapeError]

/-- Amounts are read alike from objects that agree on the key. -/
theorem amount_congr : amount ⟨context, a⟩ key = amount ⟨context, b⟩ key := by
  simp only [amount, h key hkey]

/-- Wrapped objects are read alike from objects that agree on the key. -/
theorem wrapped_congr (wrapper : String) :
    wrapped ⟨context, a⟩ key wrapper = wrapped ⟨context, b⟩ key wrapper := by
  simp only [wrapped, h key hkey, shapeError]

end Agreement

/-- Whether a required value is missing does not depend on the object, only on its name. -/
theorem require_congr {context : String} (a b : Json) (key : String) (value : Option α) :
    require ⟨context, a⟩ key value = require ⟨context, b⟩ key value := rfl

/-! ## Values that are read back -/

/-- A value that is read from its text is read from a field that holds the text. -/
theorem parsed_eq_ok {parse : String → Except CodecError α} {text : α → String}
    (hparse : ∀ a, parse (text a) = .ok a) {value : Option α}
    (h : fields.json.get? key = value.map fun a => .string (text a)) :
    fields.parsed key parse = .ok value := by
  unfold parsed string
  rw [h]
  cases value with
  | none => rfl
  | some a =>
    show (do return some (← parse (text a))) = Except.ok (some a)
    rw [hparse]
    rfl

/-- Bytes are read from a field that holds their hexadecimal text. -/
theorem bytes_eq_ok {value : Option Bytes} (h : fields.json.get? key = value.map .ofBytes) :
    fields.bytes key = .ok value :=
  parsed_eq_ok Hex.parse_encode h

/-- An account is read from a field that holds its address. -/
theorem account_eq_ok {value : Option AccountId}
    (h : fields.json.get? key = value.map fun account => .string account.address) :
    fields.parsed key AccountId.parse = .ok value :=
  parsed_eq_ok AccountId.parse_address h

/-- A number within the limit is read from a field that holds it. -/
theorem unsigned_eq_ok {limit : Nat} {value : Option Nat} (hlimit : ∀ n ∈ value, n ≤ limit)
    (h : fields.json.get? key = value.map .ofNat) : fields.unsigned key limit = .ok value := by
  unfold unsigned
  rw [h]
  cases value with
  | none => rfl
  | some n =>
    have hn : n ≤ limit := hlimit n rfl
    have hfilter : (Json.ofNat n).unsigned?.filter (· ≤ limit) = some n := by
      simp [Json.ofNat, Json.unsigned?, hn]
    simp only [Option.map_some, hfilter]

/-- A word is read from a field that holds it as a number. -/
theorem map_unsigned_eq_ok {limit : Nat} {ofNat : Nat → α} {toNat : α → Nat}
    (hlimit : ∀ a, toNat a ≤ limit) (hback : ∀ a, ofNat (toNat a) = a) {value : Option α}
    (h : fields.json.get? key = value.map fun a => .ofNat (toNat a)) :
    (do return (← fields.unsigned key limit).map ofNat : Except CodecError (Option α))
      = .ok value := by
  have hvalue : fields.json.get? key = (value.map toNat).map .ofNat := by
    rw [h, Option.map_map]
    rfl
  have hbound : ∀ n ∈ value.map toNat, n ≤ limit := by
    intro n hn
    obtain ⟨a, -, rfl⟩ := Option.mem_map.mp hn
    exact hlimit a
  rw [unsigned_eq_ok hbound hvalue]
  show Except.ok ((value.map toNat).map ofNat) = Except.ok value
  rw [Option.map_map, show ofNat ∘ toNat = id from funext hback, Option.map_id, id]

/-- A number of 32 bits is read from a field that holds it. -/
theorem uint32_eq_ok {value : Option UInt32}
    (h : fields.json.get? key = value.map fun n => .ofNat n.toNat) :
    fields.uint32 key = .ok value :=
  map_unsigned_eq_ok (fun n => Nat.le_sub_one_of_lt n.toNat_lt) (fun _ => UInt32.ofNat_toNat) h

/-- A number of 16 bits is read from a field that holds it. -/
theorem uint16_eq_ok {value : Option UInt16}
    (h : fields.json.get? key = value.map fun n => .ofNat n.toNat) :
    fields.uint16 key = .ok value :=
  map_unsigned_eq_ok (fun n => Nat.le_sub_one_of_lt n.toNat_lt) (fun _ => UInt16.ofNat_toNat) h

/-- A number of 8 bits is read from a field that holds it. -/
theorem uint8_eq_ok {value : Option UInt8}
    (h : fields.json.get? key = value.map fun n => .ofNat n.toNat) :
    fields.uint8 key = .ok value :=
  map_unsigned_eq_ok (fun n => Nat.le_sub_one_of_lt n.toNat_lt) (fun _ => UInt8.ofNat_toNat) h

/-- An amount is read from a field that holds its JSON form. -/
theorem amount_eq_ok {value : Option Amount} (h : fields.json.get? key = value.map Amount.toJson) :
    fields.amount key = .ok value := by
  unfold amount
  rw [h]
  cases value with
  | none => rfl
  | some a =>
    show (Amount.ofJson a.toJson).map some = _
    rw [a.ofJson_toJson]
    rfl

/-- A list of wrapped objects, which is left out if it is empty, is unwrapped and each object is
read back. -/
theorem exists_wrapped_eq_ok {wrapper : String} {toJson : α → Json}
    {ofJson : Json → Except CodecError α}
    (hback : ∀ a, ∃ inner, (toJson a).get? wrapper = some inner ∧ ofJson inner = .ok a)
    {items : List α} (h : fields.json.get? key
      = if items.isEmpty then none else some (.array (items.map toJson))) :
    ∃ inners, fields.wrapped key wrapper = .ok inners ∧ inners.mapM ofJson = .ok items := by
  choose inner hinner hofJson using hback
  refine ⟨items.map inner, ?_, ?_⟩
  · unfold wrapped
    rw [h]
    cases items with
    | nil => rfl
    | cons a items =>
      refine mapM_map_eq_ok (fun a => ?_) (a :: items)
      rw [hinner]
  · rw [mapM_map_eq_ok hofJson, List.map_id']

end JsonFields

end XrpLedger
