import XrpLedger.Proofs.Amount.Json

/-!
# Currency codes from bytes and from text

Twenty bytes are a code in three forms (`CurrencyCode.Form`), and a text names a code in three ways
(`CurrencyCode.Names`). Bytes and texts are checked on their own, but they give the same codes: what
is read from bytes has one of the forms and no other bytes are read (`exists_ofFixed_iff`), a text
is read as what it names (`parse_eq_ok_iff`, `exists_parse_iff`), and every code is written as one
text that names it and no other code. Only XRP is written as XRP.
-/

set_option autoImplicit false

namespace XrpLedger

namespace CurrencyCode

/-! ## Forms and names -/

/-- The marks that a standard code may hold beside letters and digits. -/
def marks : List Char :=
  ['?', '!', '@', '#', '$', '%', '^', '&', '*', '<', '>', '(', ')', '{', '}', '[', ']', '|']

/-- Whether a byte is a letter, a digit or a mark. -/
def IsCharacter (byte : UInt8) : Prop :=
  (Char.ofNat byte.toNat).isAlphanum = true ∨ Char.ofNat byte.toNat ∈ marks

instance (byte : UInt8) : Decidable (IsCharacter byte) :=
  inferInstanceAs (Decidable (_ ∨ _))

/-- Characters where a standard code has them, among zeros. -/
def amongZeros (characters : Bytes) : Bytes :=
  List.replicate 12 0 ++ characters ++ List.replicate 5 0

/-- The three forms of the bytes of a code. -/
inductive Form : Bytes → Prop
  /-- XRP. -/
  | zeros : Form (List.replicate 20 0)
  /-- A standard code. -/
  | standard {characters : Bytes} (length : characters.length = 3)
    (allowed : ∀ byte ∈ characters, IsCharacter byte) (spelling : characters ≠ utf8 "XRP") :
    Form (amongZeros characters)
  /-- Any other code. -/
  | other {bytes : Bytes} (length : bytes.length = 20) (head : bytes.head? ≠ some 0) : Form bytes

/-- The three ways in which a text names the bytes of a code. -/
inductive Names : String → Bytes → Prop
  /-- XRP. -/
  | xrp : Names "XRP" (List.replicate 20 0)
  /-- A standard code, by its characters. -/
  | standard {text : String} (length : (utf8 text).length = 3)
    (allowed : ∀ byte ∈ utf8 text, IsCharacter byte) (spelling : text ≠ "XRP") :
    Names text (amongZeros (utf8 text))
  /-- Any other code, in hexadecimal. -/
  | other {text : String} {bytes : Bytes} (digits : Hex.parse text = .ok bytes)
    (length : (utf8 text).length = 40) (head : bytes.head? ≠ some 0) : Names text bytes

/-- The codes that bytes and texts give. -/
inductive Obtained (code : CurrencyCode) : Prop
  | ofFixed {bytes : FixedBytes 20} (h : CurrencyCode.ofFixed bytes = .ok code)
  | ofBytes {bytes : Bytes} (h : CurrencyCode.ofBytes bytes = .ok code)
  | parse {text : String} (h : CurrencyCode.parse text = .ok code)

/-- The bytes that could be taken for XRP: those of its code, and its letters where a standard code
has its characters. -/
def SpellsXrp (bytes : Bytes) : Prop :=
  bytes = List.replicate 20 0 ∨ bytes = amongZeros (utf8 "XRP")

/-- The check of a byte accepts exactly the characters of standard codes. -/
theorem isStandardCharacter_iff {byte : UInt8} :
    isStandardCharacter byte = true ↔ IsCharacter byte := by
  have hall : ∀ n < 256, isStandardCharacter (UInt8.ofNat n) = true ↔ IsCharacter (UInt8.ofNat n) := by
    decide +kernel
  have hbyte := hall byte.toNat byte.toNat_lt
  rwa [UInt8.ofNat_toNat] at hbyte

/-! ## Codes of bytes -/

/-- Three characters among zeros are twenty bytes. -/
theorem length_amongZeros {characters : Bytes} (h : characters.length = 3) :
    (amongZeros characters).length = 20 := by
  simp [amongZeros, h]

/-- Three characters among zeros are found again, and have the layout of a standard code if they are
characters of one. -/
theorem standard_of_amongZeros {characters : Bytes} (h : characters.length = 3) :
    CurrencyCode.characters (amongZeros characters) = characters ∧
      (hasStandardLayout (amongZeros characters) = true ↔
        ∀ byte ∈ characters, IsCharacter byte) := by
  obtain ⟨a, b, c, rfl⟩ := List.length_eq_three.mp h
  have hcharacters : CurrencyCode.characters (amongZeros [a, b, c]) = [a, b, c] := rfl
  have hfront : (amongZeros [a, b, c]).take 12 = List.replicate 12 0 := rfl
  have hback : (amongZeros [a, b, c]).drop 15 = List.replicate 5 0 := rfl
  have hzeros (n : Nat) (byte : UInt8) (h : byte ∈ List.replicate n 0) : decide (byte = 0) = true :=
    decide_eq_true (List.eq_of_mem_replicate h)
  refine ⟨hcharacters, ?_⟩
  simp only [hasStandardLayout, hcharacters, hfront, hback, Bool.and_eq_true, List.all_eq_true,
    isStandardCharacter_iff]
  exact and_iff_right ⟨hzeros 12, hzeros 5⟩

/-- The bytes of a code have one of the three forms, and all bytes of these forms are some code's.
-/
theorem form_iff_isCode {bytes : FixedBytes 20} : Form bytes.toList ↔ IsCode bytes := by
  constructor
  · intro h
    generalize hlist : bytes.toList = list at h
    cases h with
    | zeros => exact .inl (FixedBytes.ext hlist)
    | other length head => exact .inr (.inl (hlist ▸ head))
    | standard length allowed spelling =>
      obtain ⟨hcharacters, hlayout⟩ := standard_of_amongZeros length
      refine .inr (.inr ⟨?_, ?_⟩)
      · rw [hlist]
        exact hlayout.mpr allowed
      · rw [hlist, hcharacters]
        exact spelling
  · rintro (rfl | hhead | ⟨hlayout, hspelling⟩)
    · exact .zeros
    · exact .other bytes.length_toList hhead
    · have hlength : (characters bytes.toList).length = 3 := by
        rw [characters, List.length_take, List.length_drop, bytes.length_toList]
        rfl
      have hbytes : amongZeros (characters bytes.toList) = bytes.toList :=
        eq_append_of_hasStandardLayout hlayout
      have hallowed := (standard_of_amongZeros hlength).2
      rw [hbytes] at hallowed
      rw [← hbytes]
      exact .standard hlength (hallowed.mp hlayout) hspelling

/-- Twenty bytes are those of a code exactly if they have one of the three forms. -/
theorem exists_ofFixed_iff {bytes : FixedBytes 20} :
    (∃ code, ofFixed bytes = .ok code) ↔ Form bytes.toList := by
  rw [form_iff_isCode]
  constructor
  · rintro ⟨code, h⟩
    rw [← bytes_of_ofFixed h]
    exact code.isCode
  · intro h
    exact ⟨⟨bytes, h⟩, ofFixed_bytes ⟨bytes, h⟩⟩

/-- Bytes of any length are those of a code exactly if they have one of the three forms. -/
theorem exists_ofBytes_iff {bytes : Bytes} : (∃ code, ofBytes bytes = .ok code) ↔ Form bytes := by
  constructor
  · rintro ⟨code, h⟩
    rw [← ofBytes_eq_ok_iff.mp h]
    exact form_iff_isCode.mpr code.isCode
  · intro h
    have hlength : bytes.length = 20 := by
      cases h with
      | zeros => rfl
      | standard length _ _ => exact length_amongZeros length
      | other length _ => exact length
    have hform : Form (FixedBytes.mk bytes hlength).toList := h
    obtain ⟨code, hcode⟩ := exists_ofFixed_iff.mpr hform
    exact ⟨code, ofBytes_eq_ok_iff.mpr (congrArg FixedBytes.toList (bytes_of_ofFixed hcode))⟩

/-! ## Codes of texts -/

/-- The bytes that a text names have one of the three forms. -/
theorem form_of_names {text : String} {bytes : Bytes} (h : Names text bytes) : Form bytes := by
  cases h with
  | xrp => exact .zeros
  | standard length allowed spelling =>
    exact .standard length allowed fun heq => spelling (utf8_injective heq)
  | other digits length head =>
    refine .other ?_ head
    rw [Hex.length_of_parse digits, length]

/-- A text is read as the code that it names. -/
theorem parse_eq_ok_iff {text : String} {code : CurrencyCode} :
    parse text = .ok code ↔ Names text code.bytes.toList := by
  constructor
  · intro h
    simp only [parse] at h
    -- three bytes are the spelling of XRP or of a standard code, forty are hexadecimal digits
    split at h
    · next hlength =>
      split at h
      · next hxrp =>
        cases h
        rw [hxrp]
        exact .xrp
      · next hxrp =>
        split at h
        · exact absurd h throw_ne_ok
        · next hnone =>
          rw [ofBytes_eq_ok_iff] at h
          rw [h]
          refine .standard hlength (fun byte hbyte => ?_) hxrp
          rw [← isStandardCharacter_iff]
          simpa using List.find?_eq_none.mp hnone byte hbyte
    · split at h
      · next hlength =>
        obtain ⟨bytes, hdigits, h⟩ := bind_eq_ok_iff.mp h
        split at h
        · exact absurd h throw_ne_ok
        · next hhead =>
          rw [ofBytes_eq_ok_iff] at h
          rw [h]
          exact .other hdigits hlength hhead
      · exact absurd h throw_ne_ok
  · intro h
    generalize hbytes : code.bytes.toList = bytes at h
    cases h with
    | xrp =>
      have hcode : code = xrp := ext (FixedBytes.ext hbytes)
      rw [hcode]
      rfl
    | standard length allowed spelling =>
      have hforeign : (utf8 text).find? (fun byte => !isStandardCharacter byte) = none := by
        rw [List.find?_eq_none]
        intro byte hbyte
        simpa using isStandardCharacter_iff.mpr (allowed byte hbyte)
      simp only [parse, length, if_true, spelling, if_false, hforeign]
      exact ofBytes_eq_ok_iff.mpr hbytes
    | other digits length head =>
      simp only [parse, length, if_true, digits]
      show (if bytes.head? = some 0 then _ else ofBytes bytes) = _
      rw [if_neg head, ofBytes_eq_ok_iff, hbytes]

/-- Exactly the texts that name something are read. -/
theorem exists_parse_iff {text : String} :
    (∃ code, parse text = .ok code) ↔ ∃ bytes, Names text bytes := by
  constructor
  · rintro ⟨code, h⟩
    exact ⟨_, parse_eq_ok_iff.mp h⟩
  · rintro ⟨bytes, h⟩
    obtain ⟨code, hcode⟩ := exists_ofBytes_iff.mpr (form_of_names h)
    refine ⟨code, parse_eq_ok_iff.mpr ?_⟩
    rwa [ofBytes_eq_ok_iff.mp hcode]

/-! ## Codes of either -/

/-- However a code was obtained, its bytes have one of the three forms. -/
theorem form_of_obtained {code : CurrencyCode} (h : Obtained code) : Form code.bytes.toList := by
  cases h with
  | ofFixed h =>
    rw [bytes_of_ofFixed h]
    exact exists_ofFixed_iff.mp ⟨code, h⟩
  | ofBytes h =>
    rw [ofBytes_eq_ok_iff.mp h]
    exact exists_ofBytes_iff.mp ⟨code, h⟩
  | parse h => exact form_of_names (parse_eq_ok_iff.mp h)

/-- The letters of XRP are not the characters of a standard code. -/
theorem not_form_letters : ¬Form (amongZeros (utf8 "XRP")) := by
  intro h
  obtain ⟨code, hcode⟩ := exists_ofBytes_iff.mpr h
  have hfails : ofBytes (amongZeros (utf8 "XRP")) = .error (.format .currencyCodeSpellsXrp) := by
    decide
  rw [hfails] at hcode
  cases hcode

/-- Only the code of XRP could be taken for XRP. -/
theorem eq_xrp_of_spellsXrp {code : CurrencyCode} (h : SpellsXrp code.bytes.toList) :
    code = xrp := by
  obtain hzeros | hletters := h
  · exact ext (FixedBytes.ext hzeros)
  · refine absurd (form_iff_isCode.mpr code.isCode) ?_
    rw [hletters]
    exact not_form_letters

/-- Different codes are written as different texts. -/
theorem text_injective {a b : CurrencyCode} (h : a.text = b.text) : a = b := by
  have hparse := parse_text a
  rw [h, parse_text] at hparse
  exact (Except.ok.inj hparse).symm

/-- Only XRP is written as XRP. -/
theorem text_eq_xrp_iff {code : CurrencyCode} : code.text = "XRP" ↔ code.isXrp = true := by
  have hxrp : xrp.text = "XRP" := rfl
  constructor
  · intro h
    exact decide_eq_true (text_injective (h.trans hxrp.symm))
  · intro h
    rw [show code = xrp from of_decide_eq_true h, hxrp]

end CurrencyCode

end XrpLedger
