import XrpLedger.Proofs.Transaction.Json
import XrpLedger.Proofs.Transaction.RoundTrip

/-!
# Only the keys of its type are read

What a JSON object is read as, or what is wrong with it, depends on the keys of its type alone
(`ofJson_of_agreement`). These are the names of the fields that a transaction of the type may have
on the wire (`perm_keys`), so that nothing can be said in JSON that cannot be signed, and whatever
else an object holds, be it for another type, changes nothing.
-/

set_option autoImplicit false

namespace XrpLedger

/-- The keys of a transaction of a type in JSON: the names of the fields that it may have. -/
def TransactionType.keys (type : TransactionType) : List String :=
  type.layout.filterMap FieldId.name?

namespace Transaction

/-- The keys that are read are those of the type, of the common part and of the details. -/
theorem perm_keys (type : TransactionType) :
    type.keys.Perm ("TransactionType" :: (Common.keys ++ Details.keys type)) := by
  cases type <;> decide

/-- The keys of the common part are keys of every type. -/
theorem mem_keys_of_mem_common {type : TransactionType} {key : String} (h : key ∈ Common.keys) :
    key ∈ type.keys :=
  (perm_keys type).mem_iff.mpr (List.mem_cons_of_mem _ (List.mem_append_left _ h))

/-- The keys of its details are keys of a type. -/
theorem mem_keys_of_mem_details {type : TransactionType} {key : String}
    (h : key ∈ Details.keys type) : key ∈ type.keys :=
  (perm_keys type).mem_iff.mpr (List.mem_cons_of_mem _ (List.mem_append_right _ h))

/-- When its type is known, an object is read as a common part and details of this type. -/
theorem ofJson_of_named {json : Json} {type : TransactionType}
    (h : json.get? "TransactionType" = some (.string type.name)) :
    ofJson json = do
      let common ← Common.ofFields ⟨"transaction", json⟩
      let details ← Details.ofFields ⟨"transaction", json⟩ type
      return { common, details } := by
  have hobject : JsonFields.ofJson "transaction" json = .ok ⟨"transaction", json⟩ := by
    cases json with
    | object entries => rfl
    | _ => cases h
  have htype : JsonFields.parsed ⟨"transaction", json⟩ "TransactionType" TransactionType.parse
      = .ok (some type) :=
    JsonFields.parsed_eq_ok TransactionType.parse_name h
  simp only [ofJson, hobject, htype, bind, Except.bind, JsonFields.require]

/-- Objects of one type that agree on its keys are read alike. -/
theorem ofJson_congr {a b : Json} {type : TransactionType}
    (ha : a.get? "TransactionType" = some (.string type.name))
    (hb : b.get? "TransactionType" = some (.string type.name))
    (hagree : ∀ key ∈ type.keys, a.get? key = b.get? key) : ofJson a = ofJson b := by
  have hcommon : ∀ key ∈ Common.keys, a.get? key = b.get? key :=
    fun key hkey => hagree key (mem_keys_of_mem_common hkey)
  have hdetails : ∀ key ∈ Details.keys type, a.get? key = b.get? key :=
    fun key hkey => hagree key (mem_keys_of_mem_details hkey)
  rw [ofJson_of_named ha, ofJson_of_named hb, Common.ofFields_congr hcommon,
    Details.ofFields_congr type hdetails]

/-- Entries under other keys do not change what an object gives for a key. -/
theorem get?_between {front extra back : List (String × Json)} {key : String}
    (h : ∀ entry ∈ extra, entry.1 ≠ key) :
    (Json.object (front ++ extra ++ back)).get? key = (Json.object (front ++ back)).get? key := by
  have hextra : (Json.object extra).get? key = none := by
    rw [Json.get?, Option.map_eq_none_iff, List.find?_eq_none]
    intro entry hentry hkey
    exact h entry hentry (of_decide_eq_true hkey)
  simp only [Json.get?_append, hextra, Option.or_none]

/-- Objects that name the same type and agree on its keys are read as the same transaction, or fail
with the same error. So any entries under other keys, those of other types among them, may be put
into an object without a difference to what is read. -/
theorem ofJson_of_agreement (a b : Json) (type : TransactionType)
    (ha : a.get? "TransactionType" = some (.string type.name))
    (hb : b.get? "TransactionType" = some (.string type.name))
    (hagree : ∀ key ∈ type.keys, a.get? key = b.get? key) :
    ofJson a = ofJson b ∧
      ∀ front extra back, a = .object (front ++ back) →
        (∀ entry ∈ extra, entry.1 ∉ type.keys) →
          ofJson (.object (front ++ extra ++ back)) = ofJson a := by
  refine ⟨ofJson_congr ha hb hagree, ?_⟩
  rintro front extra back rfl hextra
  have hsame : ∀ key ∈ type.keys, (Json.object (front ++ extra ++ back)).get? key
      = (Json.object (front ++ back)).get? key := by
    intro key hkey
    exact get?_between fun entry hentry heq => hextra entry hentry (heq ▸ hkey)
  have htype : "TransactionType" ∈ type.keys :=
    (perm_keys type).mem_iff.mpr List.mem_cons_self
  exact ofJson_congr ((hsame _ htype).trans ha) ha hsame

/-- The removal of a key is read whatever amount, destination and hash stand in its object, although
no payment can be read from these. -/
theorem ofJson_of_agreement_keyRemoval :
    ofJson (.object ([("TransactionType", .string "SetRegularKey")]
        ++ [("Amount", .bool true), ("Destination", .integer 5), ("hash", .null)]
        ++ (keyRemoval []).common.entries)) = ofJson (keyRemoval []).toJson := by
  have hforeign : ∀ key ∈ ["Amount", "Destination", "hash"],
      key ∉ TransactionType.keys .setRegularKey := by
    decide
  refine (ofJson_of_agreement _ _ .setRegularKey rfl rfl fun key hkey => ?_).1
  refine (get?_between fun entry hentry heq => ?_).trans (congrArg (Json.get? · key) ?_)
  · exact hforeign entry.1 (List.mem_map_of_mem hentry) (heq ▸ hkey)
  · rfl

end Transaction

end XrpLedger
