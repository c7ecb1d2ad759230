import XrpLedger.Proofs.Amount.CurrencyCode
import XrpLedger.Proofs.Object.Scanner

/-!
# Nobody issues XRP

Issued amounts come from their parts, from bytes, from JSON and out of a buffer that is read step by
step. The first three check the code themselves. A call on a buffer gives amounts as they are or
nested in fields, and each of them stands among the bytes that were still to be read
(`Scanner.infix_of_step`), where it is what 48 of them hold. So all of them come down to what texts
and bytes are codes, and no spelling of XRP becomes the code of an issued amount.
-/

set_option autoImplicit false

namespace XrpLedger

/-! ## Amounts in what is read -/

mutual

/-- The issued amounts in a value. -/
def Value.issued : Value → List IssuedAmount
  | .scalar value => (value.amount?.bind Amount.issued?).toList
  | .object fields => Value.issuedFields fields
  | .array entries => Value.issuedEntries entries

/-- The issued amounts in the values of fields. -/
def Value.issuedFields : List (FieldId × Value) → List IssuedAmount
  | [] => []
  | (_, value) :: rest => Value.issued value ++ Value.issuedFields rest

/-- The issued amounts in the entries of an array. -/
def Value.issuedEntries : List (FieldId × List (FieldId × Value)) → List IssuedAmount
  | [] => []
  | (_, fields) :: rest => Value.issuedFields fields ++ Value.issuedEntries rest

end

/-- The issued amounts in what an item was read as. -/
def Cursor.Item.issued : (item : Cursor.Item) → item.Result → List IssuedAmount
  | .amount, value => (Amount.issued? value).toList
  | .field, (_, value) => Value.issued value
  | _, _ => []

/-- The issued amounts in the answer to a call. -/
def Scanner.Call.issued : (call : Scanner.Call) → call.Result → List IssuedAmount
  | .read item, value => item.issued value
  | .tryRead item, value => Option.elim value [] item.issued
  | .object, value => Value.issuedFields (Object.fields value)

variable {amount : IssuedAmount}

namespace Value

/-- A scalar holds an issued amount exactly if it is one. -/
theorem mem_issued_scalar_iff {value : Scalar} :
    amount ∈ issued (.scalar value) ↔ value = .amount (.issued amount) := by
  rw [issued, Option.mem_toList]
  cases value with
  | amount value => cases value <;> simp [Scalar.amount?, Amount.issued?]
  | _ => simp [Scalar.amount?]

mutual

/-- An issued amount in a value stands among the bytes of the value. -/
theorem infix_payload (v : Value) (h : amount ∈ v.issued) : amount.toBytes <:+: v.payload := by
  match v with
  | .scalar value =>
    rw [mem_issued_scalar_iff.mp h, payload]
    exact List.infix_rfl
  | .object fields =>
    rw [issued] at h
    rw [payload]
    exact List.infix_append_of_infix_left (infix_fieldBytes fields h)
  | .array entries =>
    rw [issued] at h
    rw [payload]
    exact List.infix_append_of_infix_left (infix_entryBytes entries h)

/-- An issued amount in fields stands among their bytes. -/
theorem infix_fieldBytes (fields : List (FieldId × Value)) (h : amount ∈ issuedFields fields) :
    amount.toBytes <:+: fieldBytes fields := by
  match fields with
  | [] => cases h
  | (field, v) :: rest =>
    rw [issuedFields, List.mem_append] at h
    rw [fieldBytes]
    -- an amount in this value stands behind its header, and one in the rest behind the value too
    obtain h | h := h
    · exact (infix_payload v h).trans (List.infix_append' _ _ _)
    · exact (infix_fieldBytes rest h).trans
        ((List.suffix_append _ _).trans (List.suffix_append _ _)).isInfix

/-- An issued amount in entries stands among their bytes. -/
theorem infix_entryBytes (entries : List (FieldId × List (FieldId × Value)))
    (h : amount ∈ issuedEntries entries) : amount.toBytes <:+: entryBytes entries := by
  match entries with
  | [] => cases h
  | (field, fields) :: rest =>
    rw [issuedEntries, List.mem_append] at h
    rw [entryBytes]
    obtain h | h := h
    · exact (infix_fieldBytes fields h).trans (List.infix_append' _ _ _)
    · exact (infix_entryBytes rest h).trans ((List.suffix_append _ _).trans
        ((List.suffix_append _ _).trans (List.suffix_append _ _))).isInfix

end

end Value

namespace Reader

/-- An issued amount in an item stands in the bytes that the item was read from. -/
theorem infix_of_run_item {item : Cursor.Item} {value : item.Result} {bytes rest : Bytes}
    (h : item.reader.run bytes = .ok (value, rest)) (hmem : amount ∈ item.issued value) :
    amount.toBytes <:+: bytes := by
  cases item with
  | amount =>
    have hvalue : value = Amount.issued amount := by
      cases value with
      | xrp xrp => cases hmem
      | issued issued =>
        rw [List.mem_singleton.mp hmem]
    rw [run_amount_eq_ok_iff.mp h, hvalue]
    exact (List.prefix_append _ _).isInfix
  | field =>
    obtain ⟨id, v⟩ := value
    obtain ⟨-, -, hbytes⟩ := run_field_eq_ok_iff.mp h
    rw [hbytes]
    exact (Value.infix_payload v hmem).trans (List.infix_append' _ _ _)
  | _ => cases hmem

end Reader

namespace Scanner

variable {s : Scanner}

/-- An issued amount in an item that is read stands in the bytes that were still to be read. -/
theorem infix_of_step_read (hs : s.InBounds) {item : Cursor.Item} {value : item.Result}
    (h : (s.step (.read item)).1 = .ok value) (hmem : amount ∈ item.issued value) :
    amount.toBytes <:+: s.rest := by
  obtain ⟨e, hfails⟩ | ⟨value', position, hreads, hrun, -⟩ := (Reading.settlesAt_item item hs).cases
  · rw [show s.step (.read item) = (.error e, s) from hfails] at h
    cases h
  · rw [show s.step (.read item) = (.ok value', s.moveTo position) from hreads] at h
    cases h
    exact Reader.infix_of_run_item hrun hmem

/-- An issued amount in the answer to a call stands in the bytes that were still to be read. -/
theorem infix_of_step (hs : s.InBounds) {call : Call} {result : call.Result}
    (h : (s.step call).1 = .ok result) (hmem : amount ∈ call.issued result) :
    amount.toBytes <:+: s.rest := by
  cases call with
  | read item => exact infix_of_step_read hs h hmem
  | tryRead item =>
    cases result with
    | none => cases hmem
    | some value => exact infix_of_step_read hs (step_read_of_tryRead h) hmem
  | object =>
    obtain ⟨e, hfails⟩ | ⟨object, position, hreads, hrun, -⟩ := (Reading.settlesAt_object hs).cases
    · rw [show s.step .object = (.error e, s) from hfails] at h
      cases h
    · rw [show s.step .object = (.ok object, s.moveTo position) from hreads] at h
      cases h
      have hobject : Object.ofBytes s.rest = .ok result := by
        rw [Object.ofBytes, hrun]
        rfl
      rw [(Object.ofBytes_eq_ok_iff.mp hobject).2]
      exact Value.infix_fieldBytes result.fields hmem

/-- An issued amount that a call gives, after any calls before it, is what 48 bytes of the buffer
hold. -/
theorem exists_position_of_step {bytes : Bytes} {calls : List Call} {call : Call}
    {result : call.Result} (h : (((start bytes).after calls).step call).1 = .ok result)
    (hmem : amount ∈ call.issued result) :
    ∃ position, IssuedAmount.ofBytes ((bytes.drop position).take 48) = .ok amount := by
  obtain ⟨hbuffer, -, hbound⟩ := after_moves (s := start bytes) (Nat.zero_le _) calls
  obtain ⟨front, back, hrest⟩ := infix_of_step hbound h hmem
  -- the calls before have left the buffer alone, so that what is still to be read is a rest of it
  refine ⟨((start bytes).after calls).position + front.length, ?_⟩
  have hdrop : bytes.drop ((start bytes).after calls).position = front ++ (amount.toBytes ++ back) := by
    rw [← List.append_assoc, hrest, rest, hbuffer]
    rfl
  rw [← List.drop_drop, hdrop, List.drop_left, ← amount.length_toBytes, List.take_left]
  exact amount.ofBytes_toBytes

end Scanner

/-! ## The code of an issued amount -/

namespace IssuedAmount

/-- The issued amounts that parts, bytes, JSON and the calls on a buffer give. -/
inductive Obtained (amount : IssuedAmount) : Prop
  | ofParts {value : IssuedValue} {currency : CurrencyCode} {issuer : AccountId}
    (h : IssuedAmount.ofParts value currency issuer = .ok amount)
  | ofBytes {bytes : Bytes} (h : IssuedAmount.ofBytes bytes = .ok amount)
  | ofJson {json : Json} (h : Amount.ofJson json = .ok (.issued amount))
  | ofCalls {bytes : Bytes} {calls : List Scanner.Call} {call : Scanner.Call}
    {result : call.Result}
    (h : (((Scanner.start bytes).after calls).step call).1 = .ok result)
    (mem : amount ∈ call.issued result)

/-- Nobody issues XRP. -/
theorem currency_ne_xrp (amount : IssuedAmount) : amount.currency ≠ .xrp := by
  intro h
  have hissued := amount.notXrp
  rw [h] at hissued
  cases hissued

/-- Parts make up an amount exactly if the code is not written as XRP. -/
theorem exists_ofParts_iff {value : IssuedValue} {currency : CurrencyCode} {issuer : AccountId} :
    (∃ amount, ofParts value currency issuer = .ok amount) ↔ currency.text ≠ "XRP" := by
  rw [ne_eq, CurrencyCode.text_eq_xrp_iff, Bool.not_eq_true]
  constructor
  · rintro ⟨amount, h⟩
    rw [(ofParts_eq_ok_iff.mp h).2.1]
    exact amount.notXrp
  · intro h
    exact ⟨⟨value, currency, issuer, h⟩, ofParts_eq_ok_iff.mpr ⟨rfl, rfl, rfl⟩⟩

/-- The code of an amount stands behind the value. -/
theorem currency_of_ofBytes {bytes : Bytes} (h : ofBytes bytes = .ok amount) :
    (bytes.drop 8).take 20 = amount.currency.bytes.toList := by
  rw [← ofBytes_eq_ok_iff.mp h]
  exact amount.toBytes_parts.2.1

/-- Bytes with a spelling of XRP in the place of the code hold no issued amount. -/
theorem not_spellsXrp_of_ofBytes {bytes : Bytes} (h : ofBytes bytes = .ok amount) :
    ¬CurrencyCode.SpellsXrp ((bytes.drop 8).take 20) := by
  rw [currency_of_ofBytes h]
  intro hspells
  exact amount.currency_ne_xrp (CurrencyCode.eq_xrp_of_spellsXrp hspells)

/-- Only an object gives an issued amount; strings and numbers give amounts of XRP. -/
theorem ofJson_of_amount {json : Json} (h : Amount.ofJson json = .ok (.issued amount)) :
    ofJson json = .ok amount := by
  have not_xrp {result : Except CodecError XrpAmount} :
      result.map Amount.xrp ≠ .ok (.issued amount) := by
    intro hmap
    obtain ⟨xrp, -, heq⟩ := map_eq_ok_iff.mp hmap
    cases heq
  unfold Amount.ofJson at h
  split at h
  · exact absurd h not_xrp
  · split at h
    · exact absurd h not_xrp
    · cases h
  · split at h
    · exact absurd h not_xrp
    · cases h
  · obtain ⟨issued, hissued, heq⟩ := map_eq_ok_iff.mp h
    cases heq
    exact hissued
  · cases h

/-- The code of an amount is read from the text that JSON has for it. -/
theorem currency_of_ofJson {json : Json} (h : ofJson json = .ok amount) :
    ∃ text, textOf json "currency" = .ok text ∧ CurrencyCode.parse text = .ok amount.currency := by
  obtain ⟨_, -, h⟩ := bind_eq_ok_iff.mp h
  obtain ⟨value, -, h⟩ := bind_eq_ok_iff.mp h
  obtain ⟨text, htext, h⟩ := bind_eq_ok_iff.mp h
  obtain ⟨currency, hcurrency, h⟩ := bind_eq_ok_iff.mp h
  obtain ⟨_, -, h⟩ := bind_eq_ok_iff.mp h
  obtain ⟨issuer, -, h⟩ := bind_eq_ok_iff.mp h
  rw [(ofParts_eq_ok_iff.mp h).2.1] at hcurrency
  exact ⟨text, htext, hcurrency⟩

/-- JSON with XRP in the place of the code holds no issued amount. -/
theorem textOf_ne_xrp_of_ofJson {json : Json} (h : ofJson json = .ok amount) :
    textOf json "currency" ≠ .ok "XRP" := by
  obtain ⟨text, htext, hcurrency⟩ := currency_of_ofJson h
  rw [htext]
  rintro ⟨⟩
  have hxrp : CurrencyCode.parse "XRP" = .ok .xrp := rfl
  rw [hxrp] at hcurrency
  exact amount.currency_ne_xrp (Except.ok.inj hcurrency).symm

end IssuedAmount

/-- However a code is obtained, it is XRP, a standard code or one whose first byte is not zero; its
bytes and its text give it back, no other code has this text, and only XRP is written as XRP. So no
issued amount is one of XRP or written as one, whether it is made up of parts, held by bytes or
JSON, or read out of a buffer after any calls, nested in fields or not: none of them takes a
spelling of XRP for the code of an issued amount. -/
theorem CurrencyCode.form_and_text_of_obtained :
    (∀ code, Obtained code →
      Form code.bytes.toList ∧ ofBytes code.bytes.toList = .ok code ∧ parse code.text = .ok code ∧
        (∀ other, Obtained other → other.text = code.text → other = code) ∧
        (code.text = "XRP" ↔ code.isXrp = true)) ∧
    (∀ amount, IssuedAmount.Obtained amount →
      amount.currency.isXrp = false ∧ amount.currency.text ≠ "XRP") ∧
    (∀ value code issuer,
      (∃ amount, IssuedAmount.ofParts value code issuer = .ok amount) ↔ code.text ≠ "XRP") ∧
    (∀ bytes amount, IssuedAmount.ofBytes bytes = .ok amount →
      ¬SpellsXrp ((bytes.drop 8).take 20)) ∧
    (∀ json amount, Amount.ofJson json = .ok (.issued amount) →
      IssuedAmount.textOf json "currency" ≠ .ok "XRP") ∧
    ∀ bytes calls call (result : Scanner.Call.Result call) amount,
      (((Scanner.start bytes).after calls).step call).1 = .ok result →
        amount ∈ call.issued result →
          ∃ position, IssuedAmount.ofBytes ((bytes.drop position).take 48) = .ok amount := by
  refine ⟨?_, ?_, ?_, ?_, ?_, ?_⟩
  · intro code h
    refine ⟨form_of_obtained h, ofBytes_eq_ok_iff.mpr rfl, parse_text code, ?_, text_eq_xrp_iff⟩
    intro other _ htext
    exact text_injective htext
  · intro amount _
    refine ⟨amount.notXrp, fun htext => ?_⟩
    exact amount.currency_ne_xrp (of_decide_eq_true (text_eq_xrp_iff.mp htext))
  · intro value code issuer
    exact IssuedAmount.exists_ofParts_iff
  · intro bytes amount h
    exact IssuedAmount.not_spellsXrp_of_ofBytes h
  · intro json amount h
    exact IssuedAmount.textOf_ne_xrp_of_ofJson (IssuedAmount.ofJson_of_amount h)
  · intro bytes calls call result amount h hmem
    exact Scanner.exists_position_of_step h hmem

end XrpLedger
