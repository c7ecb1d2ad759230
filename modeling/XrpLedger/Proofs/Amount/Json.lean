import XrpLedger.Amount.Json
import XrpLedger.Proofs.Address.Base58
import XrpLedger.Proofs.Amount.ValueText
import XrpLedger.Proofs.Text.Hex

/-!
# Amounts in JSON are read back

Every amount is read back from its JSON form: an amount of XRP from its count of drops, an issued
amount from the texts of its value, its currency and its issuer.
-/

set_option autoImplicit false

namespace XrpLedger

namespace XrpAmount

/-- An amount of XRP is read from its drops in decimal text. -/
theorem parseDrops_signedDecimal (amount : XrpAmount) :
    parseDrops (String.ofList (Radix.signedDecimal amount.drops)) = .ok amount := by
  have hbound := amount.natAbs_le
  have hparse : Integer.parseInt64 (String.ofList (Radix.signedDecimal amount.drops))
      = .ok amount.drops :=
    Integer.parse_signedDecimal (by omega) (by omega) (by omega)
  rw [parseDrops, hparse]
  exact ofDrops_eq_ok_iff.mpr rfl

end XrpAmount

namespace CurrencyCode

/-- The characters of standard codes are below 128. -/
theorem toNat_lt_of_isStandardCharacter {byte : UInt8} (h : isStandardCharacter byte = true) :
    byte.toNat < 128 := by
  simp only [isStandardCharacter, Bool.or_eq_true, Bool.and_eq_true, decide_eq_true_eq] at h
  omega

/-- The UTF-8 bytes of standard characters are the characters. -/
theorem utf8_map_ofNat {bytes : Bytes} (h : ∀ byte ∈ bytes, isStandardCharacter byte = true) :
    utf8 (String.ofList (bytes.map fun byte => Char.ofNat byte.toNat)) = bytes := by
  have hchar : ∀ byte ∈ bytes, (Char.ofNat byte.toNat).toNat = byte.toNat := by
    intro byte hbyte
    have hlt := toNat_lt_of_isStandardCharacter (h byte hbyte)
    have hvalid : byte.toNat.isValidChar := .inl (by omega)
    rw [Char.ofNat, dif_pos hvalid]
    rfl
  have hascii : ∀ c ∈ bytes.map fun byte => Char.ofNat byte.toNat, c.toNat < 128 := by
    intro c hc
    obtain ⟨byte, hbyte, rfl⟩ := List.mem_map.mp hc
    rw [hchar byte hbyte]
    exact toNat_lt_of_isStandardCharacter (h byte hbyte)
  rw [utf8_ofList hascii, List.map_map]
  refine (List.map_congr_left fun byte hbyte => ?_).trans (List.map_id bytes)
  rw [Function.comp_apply, hchar byte hbyte, UInt8.ofNat_toNat]
  rfl

/-- A standard code has the standard layout and spells something else than XRP. -/
theorem layout_of_isStandard {code : CurrencyCode} (hxrp : ¬code.isXrp = true)
    (hstandard : code.isStandard = true) :
    hasStandardLayout code.bytes.toList = true ∧ characters code.bytes.toList ≠ xrpCharacters := by
  rcases code.isCode with hzero | hhead | hlayout
  · exact absurd (decide_eq_true (ext hzero)) hxrp
  · exact absurd (of_decide_eq_true hstandard) hhead
  · exact hlayout

/-- Bytes of the standard layout are their characters among zeros. -/
theorem eq_append_of_hasStandardLayout {bytes : FixedBytes 20}
    (h : hasStandardLayout bytes.toList = true) :
    List.replicate 12 0 ++ characters bytes.toList ++ List.replicate 5 0 = bytes.toList := by
  have hlength := bytes.length_toList
  simp only [hasStandardLayout, Bool.and_eq_true, List.all_eq_true, decide_eq_true_eq] at h
  have hfront : bytes.toList.take 12 = List.replicate 12 0 := by
    rw [List.eq_replicate_iff, List.length_take]
    exact ⟨by omega, h.1.1⟩
  have hback : bytes.toList.drop 15 = List.replicate 5 0 := by
    rw [List.eq_replicate_iff, List.length_drop]
    exact ⟨by omega, h.1.2⟩
  rw [← hfront, ← hback, characters, show 15 = 12 + 3 from rfl, ← List.drop_drop,
    List.append_assoc, List.take_append_drop, List.take_append_drop]

/-- A standard code is read from its three characters, unless these spell XRP. -/
theorem parse_characters {code : CurrencyCode}
    (hlayout : hasStandardLayout code.bytes.toList = true)
    (hspelling : characters code.bytes.toList ≠ xrpCharacters) :
    parse (String.ofList ((characters code.bytes.toList).map fun byte => Char.ofNat byte.toNat))
      = .ok code := by
  have hlength : (characters code.bytes.toList).length = 3 := by
    rw [characters, List.length_take, List.length_drop, code.bytes.length_toList]
    rfl
  have hstandard : ∀ byte ∈ characters code.bytes.toList, isStandardCharacter byte = true := by
    simp only [hasStandardLayout, Bool.and_eq_true, List.all_eq_true] at hlayout
    exact hlayout.2
  have hutf8 := utf8_map_ofNat hstandard
  generalize String.ofList _ = text at hutf8
  have hxrp : ¬text = "XRP" := by
    rintro rfl
    exact hspelling hutf8.symm
  have hforeign : (characters code.bytes.toList).find? (fun byte => !isStandardCharacter byte)
      = none := by
    rw [List.find?_eq_none]
    intro byte hbyte
    simpa using hstandard byte hbyte
  simp only [parse, hutf8, hlength, if_true, hxrp, if_false, hforeign]
  rw [ofBytes_eq_ok_iff, eq_append_of_hasStandardLayout hlayout]

/-- A code that does not start with a zero byte is read back from its hexadecimal text. -/
theorem parse_encode {code : CurrencyCode} (hhead : ¬code.bytes.toList.head? = some 0) :
    parse (Hex.encode code.bytes.toList) = .ok code := by
  have hlength : (utf8 (Hex.encode code.bytes.toList)).length = 40 := by
    rw [Hex.length_utf8_encode, code.bytes.length_toList]
  unfold parse
  rw [if_neg (by omega), if_pos hlength, Hex.parse_encode]
  show (if code.bytes.toList.head? = some 0 then _ else ofBytes code.bytes.toList) = _
  rw [if_neg hhead, ofBytes_eq_ok_iff]

/-- Every currency code is read from its text. -/
theorem parse_text (code : CurrencyCode) : parse code.text = .ok code := by
  unfold text
  by_cases hxrp : code.isXrp = true
  · have hcode : code = xrp := of_decide_eq_true hxrp
    rw [if_pos hxrp, hcode]
    rfl
  · rw [if_neg hxrp]
    by_cases hstandard : code.isStandard = true
    · obtain ⟨hlayout, hspelling⟩ := layout_of_isStandard hxrp hstandard
      rw [if_pos hstandard, parse_characters hlayout hspelling]
    · rw [if_neg hstandard, parse_encode fun hhead => hstandard (decide_eq_true hhead)]

end CurrencyCode

namespace IssuedAmount

/-- An issued amount is read from its JSON form. -/
theorem ofJson_toJson (amount : IssuedAmount) : ofJson amount.toJson = .ok amount := by
  have hvalue : textOf amount.toJson "value" = .ok amount.value.text := rfl
  have hcurrency : textOf amount.toJson "currency" = .ok amount.currency.text := rfl
  have hissuer : textOf amount.toJson "issuer" = .ok amount.issuer.address := rfl
  simp only [ofJson, hvalue, hcurrency, hissuer, IssuedValue.parse_text, CurrencyCode.parse_text,
    AccountId.parse_address, bind, Except.bind]
  exact ofParts_eq_ok_iff.mpr ⟨rfl, rfl, rfl⟩

end IssuedAmount

namespace Amount

/-- An amount is read from its JSON form. -/
theorem ofJson_toJson (amount : Amount) : ofJson amount.toJson = .ok amount := by
  cases amount with
  | xrp amount =>
    show (XrpAmount.parseDrops _).map Amount.xrp = _
    rw [amount.parseDrops_signedDecimal]
    rfl
  | issued amount =>
    show (IssuedAmount.ofJson amount.toJson).map Amount.issued = _
    rw [amount.ofJson_toJson]
    rfl

end Amount

end XrpLedger
