import StoragePolicy.Text.Alphanumeric
import StoragePolicy.Proofs.Text.Percent

/-!
# Texts in a form

In a form a byte stands for itself, is a plus sign or is escaped. Every byte has one of these forms
whatever stands around it, so that a text is read back byte by byte. No character of an escaped text
has a meaning in a URL but the percent sign.

Which bytes have which form is said by a relation that goes from bytes to the characters they are
written in. It leaves no choice: a byte is escaped only if it has no other form, and there is one
capital digit for each half of it.

## Main definitions

* `Text.formOf`: The form of a byte.
* `Text.Forms`: Texts in which given bytes are written.

## Theorems

* `mem_encodeForm`: The characters in a form.
* `decodeForm_encodeForm`: What has been written in a form is read back.
* `encodeForm_inj`: Different texts are written differently.
* `isFormByte_iff`: The bytes that stand for themselves.
* `forms_iff`: There is one text in which bytes are written.
* `encodeForm_append`: Texts put together are written one after the other.
* `encodeForm_exact`: What is written for a text, and what is read from it.
-/

namespace StoragePolicy

namespace Text

/-- The form of a byte. -/
def formOf (b : UInt8) : List Char :=
  if isFormByte b then [Char.ofNat b.toNat] else if b = 0x20 then ['+'] else escapeByte b

theorem toList_encodeForm (text : String) :
    (encodeForm text).toList = (bytesOf text.toList).flatMap formOf := by
  rw [encodeForm, String.toList_ofList]
  rfl

/-! ### Characters -/

/-- The characters besides letters and digits that stand for themselves in a form. -/
def plainSigns : List Char := ['*', '-', '.', '_']

/-- The characters in a form that are neither letters nor digits. -/
def formSigns : List Char := '+' :: '%' :: plainSigns

/-- A byte that stands for itself is a letter, a digit or a sign. -/
theorem char_of_isFormByte (b : UInt8) (h : isFormByte b = true) :
    b < 0x80 ∧ ((Char.ofNat b.toNat).isAlphanum = true ∨ Char.ofNat b.toNat ∈ plainSigns) := by
  simp only [isFormByte, Bool.and_eq_true, Bool.or_eq_true, decide_eq_true_eq] at h
  refine ⟨h.1, ?_⟩
  simp only [plainSigns, List.mem_cons, List.not_mem_nil, or_false]
  tauto

/-- The digits of escaped bytes. -/
theorem isAlphanum_digit (n : Nat) (h : n < 16) :
    (Nat.digitChar n).toUpper.isAlphanum = true := by
  have hdigits : ∀ n < 16, (Nat.digitChar n).toUpper.isAlphanum = true := by decide
  exact hdigits n h

theorem mem_formOf (b : UInt8) (c : Char) (h : c ∈ formOf b) :
    c.isAlphanum = true ∨ c ∈ formSigns := by
  have hb : b.toNat < 256 := b.toNat_lt
  rw [formOf] at h
  split at h
  · rename_i hform
    rw [List.mem_singleton] at h
    subst h
    exact (char_of_isFormByte b hform).2.imp_right fun hc =>
      List.mem_cons_of_mem _ (List.mem_cons_of_mem _ hc)
  split at h
  · rw [List.mem_singleton] at h
    subst h
    exact Or.inr (by decide)
  · simp only [escapeByte, List.mem_cons, List.not_mem_nil, or_false] at h
    rcases h with rfl | rfl | rfl
    · exact Or.inr (by decide)
    · exact Or.inl (isAlphanum_digit _ (by omega))
    · exact Or.inl (isAlphanum_digit _ (by omega))

/-- The characters in a form are letters, digits and some signs. -/
theorem mem_encodeForm (text : String) (c : Char) (h : c ∈ (encodeForm text).toList) :
    c.isAlphanum = true ∨ c ∈ formSigns := by
  rw [toList_encodeForm] at h
  rcases List.mem_flatMap.mp h with ⟨b, -, hc⟩
  exact mem_formOf b c hc

/-! ### Reading -/

/-- The bytes that the characters of a form stand for. -/
def unescapeForm (text : List Char) : List UInt8 :=
  unescape (text.map fun c => if c = '+' then ' ' else c)

theorem utf8EncodeChar_of_small (b : UInt8) (h : b < 0x80) :
    String.utf8EncodeChar (Char.ofNat b.toNat) = [b] := by
  have hb : b.toNat < 0x80 := UInt8.lt_iff_toNat_lt.mp h
  rw [utf8EncodeChar_ofNat b.toNat (Or.inl (by omega)), if_pos (by omega), UInt8.ofNat_toNat]

/-- The form of a byte is read as the byte, whatever follows. -/
theorem unescapeForm_formOf (b : UInt8) (rest : List Char) :
    unescapeForm (formOf b ++ rest) = b :: unescapeForm rest := by
  have hb : b.toNat < 256 := b.toNat_lt
  rw [formOf, unescapeForm, unescapeForm]
  split
  · rename_i hform
    rcases char_of_isFormByte b hform with ⟨hsmall, hchar⟩
    -- Neither of the signs with a meaning of their own is such a byte.
    have hplus : Char.ofNat b.toNat ≠ '+' := fun heq => absurd (heq ▸ hchar) (by decide)
    have hpercent : Char.ofNat b.toNat ≠ '%' := fun heq => absurd (heq ▸ hchar) (by decide)
    rw [List.singleton_append, List.map_cons, if_neg hplus,
      unescape_cons _ _ fun heq => absurd heq hpercent, utf8EncodeChar_of_small b hsmall]
    rfl
  split
  · rename_i hblank
    subst hblank
    rfl
  · have hkept : (escapeByte b).map (fun c => if c = '+' then ' ' else c) = escapeByte b := by
      refine (List.map_congr_left fun c hc => if_neg ?_).trans (List.map_id _)
      rintro rfl
      have hplus : ∀ n, n < 16 → '+' ≠ (Nat.digitChar n).toUpper := fun n hn heq =>
        absurd (isAlphanum_digit n hn) (by rw [← heq]; decide)
      simp only [escapeByte, List.mem_cons, List.not_mem_nil, or_false] at hc
      rcases hc with hc | hc | hc
      · exact absurd hc (by decide)
      · exact hplus _ (by omega) hc
      · exact hplus _ (by omega) hc
    rw [List.map_append, hkept, unescape_escapeByte]

theorem unescapeForm_encodeForm (text : String) :
    unescapeForm (encodeForm text).toList = bytesOf text.toList := by
  rw [toList_encodeForm]
  induction bytesOf text.toList with
  | nil => rfl
  | cons b bytes ih => rw [List.flatMap_cons, unescapeForm_formOf, ih]

theorem ofBytesLossy_bytesOf (text : List Char) : ofBytesLossy (bytesOf text) = text := by
  have h := charsOf_bytesOf_append text []
  rw [List.append_nil, charsOf, List.append_nil] at h
  rw [ofBytesLossy, h, List.map_map]
  exact List.map_id text

/-- What has been written in a form is read back. -/
theorem decodeForm_encodeForm (text : String) : decodeForm (encodeForm text).toList = text := by
  rw [decodeForm, ← unescapeForm, unescapeForm_encodeForm, ofBytesLossy_bytesOf,
    String.ofList_toList]

theorem encodeForm_inj (text other : String) (h : encodeForm text = encodeForm other) :
    text = other := by
  rw [← decodeForm_encodeForm text, h, decodeForm_encodeForm]

/-! ### Which bytes have which form -/

/-- A character that stands for itself in a form. -/
def StandsForItself (c : Char) : Prop := c.isAlphanum = true ∨ c ∈ plainSigns

/-- The digits of escaped bytes, in order of their values. -/
def capitalDigits : List Char :=
  ['0', '1', '2', '3', '4', '5', '6', '7', '8', '9', 'A', 'B', 'C', 'D', 'E', 'F']

/-- Texts in which given bytes are written. A letter, a digit or one of four signs stands for its
    own byte, a plus sign for a blank, and a percent sign with two capital digits for any other
    byte. -/
inductive Forms : List UInt8 → List Char → Prop
  | nil : Forms [] []
  | itself (c : Char) (bytes : List UInt8) (text : List Char) (hc : StandsForItself c)
      (h : Forms bytes text) : Forms (c.toNat.toUInt8 :: bytes) (c :: text)
  | blank (bytes : List UInt8) (text : List Char) (h : Forms bytes text) :
      Forms (0x20 :: bytes) ('+' :: text)
  | escaped (b : UInt8) (high low : Char) (bytes : List UInt8) (text : List Char)
      (hother : ∀ c, StandsForItself c → b ≠ c.toNat.toUInt8) (hblank : b ≠ 0x20)
      (hhigh : capitalDigits[b.toNat / 16]? = some high)
      (hlow : capitalDigits[b.toNat % 16]? = some low) (h : Forms bytes text) :
      Forms (b :: bytes) ('%' :: high :: low :: text)

/-- Such characters are those of one byte. -/
theorem toNat_lt_of_standsForItself (c : Char) (hc : StandsForItself c) : c.toNat < 128 := by
  rcases hc with hc | hc
  · rcases range_of_isAlphanum c hc with h | h | h <;> omega
  · simp only [plainSigns, List.mem_cons, List.not_mem_nil, or_false] at hc
    rcases hc with rfl | rfl | rfl | rfl <;> decide

theorem toNat_toUInt8_of_standsForItself (c : Char) (hc : StandsForItself c) :
    c.toNat.toUInt8.toNat = c.toNat :=
  toNat_ofNat_lt c.toNat (Nat.lt_trans (toNat_lt_of_standsForItself c hc) (by decide))

/-- The bytes that stand for themselves are those of the characters that do. -/
theorem isFormByte_iff (b : UInt8) :
    isFormByte b = true ↔ ∃ c, StandsForItself c ∧ b = c.toNat.toUInt8 := by
  constructor
  · intro h
    rcases char_of_isFormByte b h with ⟨hsmall, hchar⟩
    have hb : b.toNat < 0x80 := UInt8.lt_iff_toNat_lt.mp hsmall
    -- The number of a byte this small is that of a character.
    have hback : (Char.ofNat b.toNat).toNat = b.toNat := by
      rw [Char.ofNat, dif_pos (Or.inl (by omega))]
      rfl
    refine ⟨Char.ofNat b.toNat, hchar, ?_⟩
    rw [hback]
    exact UInt8.ofNat_toNat.symm
  · rintro ⟨c, hc, rfl⟩
    have hbyte := toNat_toUInt8_of_standsForItself c hc
    have hsmall : c.toNat.toUInt8 < 0x80 := by
      rw [UInt8.lt_iff_toNat_lt, hbyte]
      exact toNat_lt_of_standsForItself c hc
    simp only [isFormByte, hbyte, Char.ofNat_toNat, Bool.and_eq_true, Bool.or_eq_true,
      decide_eq_true_eq]
    simp only [StandsForItself, plainSigns, List.mem_cons, List.not_mem_nil, or_false] at hc
    exact ⟨hsmall, by tauto⟩

theorem formOf_of_standsForItself (c : Char) (hc : StandsForItself c) :
    formOf c.toNat.toUInt8 = [c] := by
  rw [formOf, if_pos ((isFormByte_iff _).mpr ⟨c, hc, rfl⟩),
    toNat_toUInt8_of_standsForItself c hc, Char.ofNat_toNat]

/-- Each half of a byte has its digit. -/
theorem getElem?_capitalDigits (n : Nat) (h : n < 16) :
    capitalDigits[n]? = some (Nat.digitChar n).toUpper := by
  have hdigits : ∀ n < 16, capitalDigits[n]? = some (Nat.digitChar n).toUpper := by decide
  exact hdigits n h

/-- A byte without another form is escaped with the digits of its halves. -/
theorem formOf_of_escaped (b : UInt8) (high low : Char) (hform : ¬ isFormByte b = true)
    (hblank : b ≠ 0x20) (hhigh : capitalDigits[b.toNat / 16]? = some high)
    (hlow : capitalDigits[b.toNat % 16]? = some low) : formOf b = ['%', high, low] := by
  have hb : b.toNat < 256 := b.toNat_lt
  rw [getElem?_capitalDigits _ (by omega), Option.some.injEq] at hhigh hlow
  rw [formOf, if_neg hform, if_neg hblank, escapeByte, hhigh, hlow]

/-- A text in which bytes are written is that of their forms. -/
theorem eq_of_forms (bytes : List UInt8) (text : List Char) (h : Forms bytes text) :
    text = bytes.flatMap formOf := by
  induction h with
  | nil => rfl
  | itself c bytes text hc h ih =>
    rw [List.flatMap_cons, formOf_of_standsForItself c hc, ih, List.singleton_append]
  | blank bytes text h ih =>
    rw [List.flatMap_cons, ih]
    rfl
  | escaped b high low bytes text hother hblank hhigh hlow h ih =>
    -- A byte that stood for itself would be that of a character which does.
    have hform : ¬ isFormByte b = true := fun hform => by
      rcases (isFormByte_iff b).mp hform with ⟨c, hc, heq⟩
      exact hother c hc heq
    rw [List.flatMap_cons, formOf_of_escaped b high low hform hblank hhigh hlow, ih]
    rfl

/-- Bytes are written in the text of their forms, whichever form each of them has. -/
theorem forms_flatMap (bytes : List UInt8) : Forms bytes (bytes.flatMap formOf) := by
  induction bytes with
  | nil => exact .nil
  | cons b bytes ih =>
    rw [List.flatMap_cons]
    by_cases hform : isFormByte b = true
    · rcases (isFormByte_iff b).mp hform with ⟨c, hc, rfl⟩
      rw [formOf_of_standsForItself c hc]
      exact .itself c bytes _ hc ih
    by_cases hblank : b = 0x20
    · subst hblank
      exact .blank bytes _ ih
    · have hb : b.toNat < 256 := b.toNat_lt
      have hhigh := getElem?_capitalDigits (b.toNat / 16) (by omega)
      have hlow := getElem?_capitalDigits (b.toNat % 16) (by omega)
      rw [formOf_of_escaped b _ _ hform hblank hhigh hlow]
      -- It is the byte of no character that stands for itself, or it would do so.
      exact .escaped b _ _ bytes _
        (fun c hc heq => hform ((isFormByte_iff b).mpr ⟨c, hc, heq⟩)) hblank hhigh hlow ih

/-- There is one text in which bytes are written. -/
theorem forms_iff (bytes : List UInt8) (text : List Char) :
    Forms bytes text ↔ text = bytes.flatMap formOf :=
  ⟨eq_of_forms bytes text, fun h => h ▸ forms_flatMap bytes⟩

/-! ### Whole texts -/

theorem not_mem_encodeForm (text : String) (c : Char) (hother : c.isAlphanum = false)
    (hsign : c ∉ formSigns) : c ∉ (encodeForm text).toList := by
  intro hc
  rcases mem_encodeForm text c hc with h | h
  · exact nomatch hother.symm.trans h
  · exact hsign h

/-- Texts put together are written one after the other. -/
theorem encodeForm_append (text other : String) :
    encodeForm (text ++ other) = encodeForm text ++ encodeForm other := by
  rw [← String.toList_inj, String.toList_append, toList_encodeForm, toList_encodeForm,
    toList_encodeForm, String.toList_append, ← List.flatMap_append]
  exact congrArg (List.flatMap formOf) List.flatMap_append

/-- What is written for a text is what its bytes are written in and nothing else, so there is no
    slash, question mark or number sign in it. The text is read back from it, different texts are
    written differently, and texts put together are written one after the other. -/
theorem encodeForm_exact (text other : String) :
    (∀ form, Forms (bytesOf text.toList) form ↔ form = (encodeForm text).toList) ∧
      ('/' ∉ (encodeForm text).toList ∧ '?' ∉ (encodeForm text).toList ∧
        '#' ∉ (encodeForm text).toList) ∧
      decodeForm (encodeForm text).toList = text ∧
      (encodeForm text = encodeForm other ↔ text = other) ∧
      encodeForm (text ++ other) = encodeForm text ++ encodeForm other := by
  refine ⟨fun form => ?_, ⟨?_, ?_, ?_⟩, decodeForm_encodeForm text,
    ⟨encodeForm_inj text other, congrArg encodeForm⟩, encodeForm_append text other⟩
  · rw [toList_encodeForm]
    exact forms_iff _ form
  · exact not_mem_encodeForm text '/' (by decide) (by decide)
  · exact not_mem_encodeForm text '?' (by decide) (by decide)
  · exact not_mem_encodeForm text '#' (by decide) (by decide)

/-- Characters of one, two and three bytes, and those with a meaning in a form. -/
example : encodeForm "a-1 +%/é€" = "a-1+%2B%25%2F%C3%A9%E2%82%AC" := by decide +kernel

end Text

end StoragePolicy
