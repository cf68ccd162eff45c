import StoragePolicy.Text.Percent
import StoragePolicy.Proofs.Text.Lines
import StoragePolicy.Proofs.Text.Utf8

/-!
# Escaped bytes

A percent sign with two hexadecimal digits behind it stands for a byte, and everything else stands
for itself. So a text that holds no such three characters is read as itself, and any other one is
read as something shorter. To escape characters that are neither percent signs nor digits changes
nothing of what is read, whatever escaped bytes there were before: a percent sign in front of a
character that gets escaped has a percent sign behind it then, which is no digit.

Lengths are compared by the bytes with which characters begin. Every character has one of them, and
an escaped byte has at most one.

## Main definitions

* `takeEscape?`: The two digits at the beginning of a text.
* `Literal`: Texts that hold no escaped byte.
* `escapeWhere`: A text with the characters of a class escaped.
* `leads`: The number of bytes with which characters begin.

## Theorems

* `unescape_escapeWhere`: What has been escaped is read as it was before.
* `unescape_append`: Texts are read apart where no digit begins the second.
* `unescape_of_literal`: A literal text is read as itself.
* `leads_unescape`, `literal_of_leads`: Nothing is read as more than it is, and only a literal text
  as no less.
-/

namespace StoragePolicy

namespace Text

/-- The byte of the two hexadecimal digits at the beginning of a text, and what follows them. -/
def takeEscape? : List Char → Option (UInt8 × List Char)
  | a :: b :: rest => (hexByte? a b).map fun byte => (byte, rest)
  | _ => none

/-- Texts that hold no escaped byte. -/
def Literal : List Char → Prop
  | [] => True
  | c :: rest => (c = '%' → takeEscape? rest = none) ∧ Literal rest

instance decidableLiteral : (text : List Char) → Decidable (Literal text)
  | [] => inferInstanceAs (Decidable True)
  | c :: rest =>
    have := decidableLiteral rest
    inferInstanceAs (Decidable ((c = '%' → takeEscape? rest = none) ∧ Literal rest))

/-- A text with the characters of a class escaped. -/
def escapeWhere (p : Char → Bool) (text : List Char) : List Char :=
  text.flatMap fun c => if p c then (String.utf8EncodeChar c).flatMap escapeByte else [c]

/-! ### Reading character by character -/

theorem eq_cons_cons_of_takeEscape? (text rest : List Char) (byte : UInt8)
    (h : takeEscape? text = some (byte, rest)) :
    ∃ a b, text = a :: b :: rest ∧ hexByte? a b = some byte := by
  match text, h with
  | a :: b :: more, h =>
    rcases Option.map_eq_some_iff.mp h with ⟨byte', hbyte, heq⟩
    cases heq
    exact ⟨a, b, rfl, hbyte⟩

theorem takeEscape?_eq_none_iff (a b : Char) (rest : List Char) :
    takeEscape? (a :: b :: rest) = none ↔ hexByte? a b = none := Option.map_eq_none_iff

theorem unescape_escaped (text rest : List Char) (byte : UInt8)
    (h : takeEscape? text = some (byte, rest)) :
    unescape ('%' :: text) = byte :: unescape rest := by
  rcases eq_cons_cons_of_takeEscape? text rest byte h with ⟨a, b, rfl, hbyte⟩
  rw [unescape, hbyte]

/-- A percent sign without two digits stands for itself, and so does every other character. -/
theorem unescape_cons (c : Char) (rest : List Char) (h : c = '%' → takeEscape? rest = none) :
    unescape (c :: rest) = String.utf8EncodeChar c ++ unescape rest := by
  by_cases hc : c = '%'
  · subst hc
    match rest, h rfl with
    | [], _ => rfl
    | [a], _ => rfl
    | a :: b :: more, hnone =>
      rw [unescape, (takeEscape?_eq_none_iff a b more).mp hnone]
      rfl
  · rw [unescape]
    rintro a b more rfl -
    exact hc rfl

/-- A literal text is read as itself. -/
theorem unescape_of_literal (text : List Char) (h : Literal text) :
    unescape text = bytesOf text := by
  induction text with
  | nil => rfl
  | cons c rest ih =>
    rw [unescape_cons c rest h.1, ih h.2]
    rfl

theorem literal_of_not_mem (text : List Char) (h : '%' ∉ text) : Literal text := by
  induction text with
  | nil => trivial
  | cons c rest ih =>
    rw [List.mem_cons, not_or] at h
    exact ⟨fun heq => absurd heq.symm h.1, ih h.2⟩

/-- Whether digits follow at the beginning of a text, what stands further behind does not matter. -/
theorem takeEscape?_of_append (text more : List Char) (h : takeEscape? (text ++ more) = none) :
    takeEscape? text = none := by
  match text, h with
  | [], _ => rfl
  | [_], _ => rfl
  | a :: b :: rest, h =>
    exact (takeEscape?_eq_none_iff a b rest).mpr ((takeEscape?_eq_none_iff a b _).mp h)

/-- The parts of a literal text are literal. -/
theorem literal_of_append (text more : List Char) (h : Literal (text ++ more)) :
    Literal text ∧ Literal more := by
  induction text with
  | nil => exact ⟨trivial, h⟩
  | cons c rest ih =>
    have hrest := ih h.2
    exact ⟨⟨fun hc => takeEscape?_of_append rest more (h.1 hc), hrest.1⟩, hrest.2⟩

theorem literal_of_mem_splitWhere (p : Char → Bool) (text piece : List Char) (h : Literal text)
    (hpiece : piece ∈ splitWhere p text) : Literal piece := by
  induction text using pieces_induction p with
  | last all hall =>
    rw [splitWhere_of_none p all hall, List.mem_singleton] at hpiece
    rw [hpiece]
    exact h
  | line first c rest hfirst hc ih =>
    rw [splitWhere_append p first rest c hfirst hc] at hpiece
    rcases List.mem_cons.mp hpiece with rfl | hpiece
    · exact (literal_of_append _ _ h).1
    · exact ih (literal_of_append _ _ h).2.2 hpiece

/-- What a text is read as, by its first character. -/
theorem unescape_cases (c : Char) (rest : List Char) :
    (∃ byte more, c = '%' ∧ takeEscape? rest = some (byte, more) ∧
      unescape (c :: rest) = byte :: unescape more) ∨
    ((c = '%' → takeEscape? rest = none) ∧
      unescape (c :: rest) = String.utf8EncodeChar c ++ unescape rest) := by
  by_cases hplain : c = '%' → takeEscape? rest = none
  · exact Or.inr ⟨hplain, unescape_cons c rest hplain⟩
  · simp only [Classical.not_imp] at hplain
    rcases hplain with ⟨rfl, hsome⟩
    rcases Option.ne_none_iff_exists'.mp hsome with ⟨⟨byte, more⟩, htake⟩
    exact Or.inl ⟨byte, more, rfl, htake, unescape_escaped rest more byte htake⟩

theorem length_of_takeEscape? (text rest : List Char) (byte : UInt8)
    (h : takeEscape? text = some (byte, rest)) : text.length = rest.length + 2 := by
  rcases eq_cons_cons_of_takeEscape? text rest byte h with ⟨a, b, rfl, -⟩
  rfl

/-! ### Digits -/

/-- What is true of the first characters, one by one. -/
theorem of_small_char (P : Char → Prop) (bound : Nat) (h : ∀ n < bound, P (Char.ofNat n)) (c : Char)
    (hc : c.toNat < bound) : P c := by
  have hchar := h c.toNat hc
  rwa [Char.ofNat_toNat] at hchar

/-- The digits in which a byte is written. -/
theorem hexByte?_escapeByte (b : UInt8) : hexByte? (Nat.digitChar (b.toNat / 16)).toUpper
    (Nat.digitChar (b.toNat % 16)).toUpper = some b := by
  have hvalue : ∀ n < 16, hexValue? (Nat.digitChar n).toUpper = some n := by decide
  have hb : b.toNat < 256 := b.toNat_lt
  rw [hexByte?, hvalue _ (by omega), hvalue _ (by omega)]
  change some (b.toNat / 16 * 16 + b.toNat % 16).toUInt8 = some b
  rw [show b.toNat / 16 * 16 + b.toNat % 16 = b.toNat by omega]
  exact congrArg some (UInt8.ofNat_toNat)

theorem toNat_lt_of_hexValue? (c : Char) (h : (hexValue? c).isSome = true) : c.toNat < 128 := by
  have hbound : ∀ bound : Char, bound.toNat < 128 → c ≤ bound → c.toNat < 128 := by
    intro bound hsmall hle
    rw [Char.le_def, UInt32.le_iff_toNat_le] at hle
    exact Nat.lt_of_le_of_lt hle hsmall
  rw [hexValue?] at h
  split at h
  · rename_i hdigit
    have hnine := (Bool.and_eq_true_iff.mp hdigit).2
    exact hbound '9' (by decide) (by simpa [Char.le_def] using hnine)
  split at h
  · rename_i hsmall
    exact hbound 'f' (by decide) (of_decide_eq_true (Bool.and_eq_true_iff.mp hsmall).2)
  split at h
  · rename_i hcapital
    exact hbound 'F' (by decide) (of_decide_eq_true (Bool.and_eq_true_iff.mp hcapital).2)
  · exact nomatch h

theorem unescape_escapeByte (b : UInt8) (rest : List Char) :
    unescape (escapeByte b ++ rest) = b :: unescape rest := by
  refine unescape_escaped _ rest b ?_
  change (hexByte? _ _).map _ = _
  rw [hexByte?_escapeByte b]
  rfl

theorem unescape_escapeBytes (bytes : List UInt8) (rest : List Char) :
    unescape (bytes.flatMap escapeByte ++ rest) = bytes ++ unescape rest := by
  induction bytes with
  | nil => rfl
  | cons b bytes ih =>
    rw [List.flatMap_cons, List.append_assoc, unescape_escapeByte, ih, List.cons_append]

theorem hexByte?_of_first (a b : Char) (h : hexValue? a = none) : hexByte? a b = none := by
  rw [hexByte?, h]
  rfl

theorem hexByte?_of_second (a b : Char) (h : hexValue? b = none) : hexByte? a b = none := by
  rw [hexByte?, h]
  cases hexValue? a <;> rfl

/-! ### Texts put together -/

/-- No digit is completed by a character that is none. -/
theorem takeEscape?_append (text rest : List Char) (c : Char) (hc : hexValue? c = none)
    (h : takeEscape? text = none) : takeEscape? (text ++ c :: rest) = none := by
  match text, h with
  | [], _ =>
    cases rest with
    | nil => rfl
    | cons d rest => exact (takeEscape?_eq_none_iff c d rest).mpr (hexByte?_of_first c d hc)
  | [a], _ => exact (takeEscape?_eq_none_iff a c rest).mpr (hexByte?_of_second a c hc)
  | a :: b :: more, h =>
    exact (takeEscape?_eq_none_iff a b _).mpr ((takeEscape?_eq_none_iff a b more).mp h)

theorem literal_append (text rest : List Char) (c : Char) (hc : hexValue? c = none)
    (htext : Literal text) (hrest : Literal (c :: rest)) : Literal (text ++ c :: rest) := by
  induction text with
  | nil => exact hrest
  | cons d more ih =>
    exact ⟨fun hd => takeEscape?_append more rest c hc (htext.1 hd), ih htext.2⟩

/-- Texts are read apart where no digit begins the second. -/
theorem unescape_append (text rest : List Char) (c : Char) (hc : hexValue? c = none) :
    unescape (text ++ c :: rest) = unescape text ++ unescape (c :: rest) := by
  induction hlength : text.length using Nat.strongRecOn generalizing text with
  | ind n ih =>
    cases text with
    | nil => rfl
    | cons d more =>
      rcases unescape_cases d more with ⟨byte, others, rfl, htake, hread⟩ | ⟨hplain, hread⟩
      · rcases eq_cons_cons_of_takeEscape? more others byte htake with ⟨x, y, rfl, hbyte⟩
        have hshort : others.length < n := by
          rw [← hlength, List.length_cons, List.length_cons, List.length_cons]
          omega
        rw [hread, List.cons_append, List.cons_append, List.cons_append,
          unescape_escaped _ (others ++ c :: rest) byte (by rw [takeEscape?, hbyte]; rfl),
          ih _ hshort others rfl, List.cons_append]
      · have hshort : more.length < n := by
          rw [← hlength, List.length_cons]
          exact Nat.lt_succ_self _
        rw [hread, List.cons_append, unescape_cons, ih _ hshort more rfl, List.append_assoc]
        exact fun hd => takeEscape?_append more rest c hc (hplain hd)

/-! ### Escaping -/

section EscapeWhere

variable (p : Char → Bool)

theorem escapeWhere_append (text more : List Char) :
    escapeWhere p (text ++ more) = escapeWhere p text ++ escapeWhere p more :=
  List.flatMap_append

theorem escapeWhere_cons_of_pos (c : Char) (rest : List Char) (h : p c = true) :
    escapeWhere p (c :: rest) =
      (String.utf8EncodeChar c).flatMap escapeByte ++ escapeWhere p rest := by
  rw [escapeWhere, List.flatMap_cons, if_pos h]
  rfl

theorem escapeWhere_cons_of_neg (c : Char) (rest : List Char) (h : ¬ p c = true) :
    escapeWhere p (c :: rest) = c :: escapeWhere p rest := by
  rw [escapeWhere, List.flatMap_cons, if_neg h]
  rfl

/-- A text without characters of the class stays as it is. -/
theorem escapeWhere_of_none (text : List Char) (h : ∀ c ∈ text, p c = false) :
    escapeWhere p text = text := by
  induction text with
  | nil => rfl
  | cons c rest ih =>
    rw [escapeWhere_cons_of_neg p c rest (by simp [h c List.mem_cons_self]),
      ih fun d hd => h d (List.mem_cons_of_mem c hd)]

/-- What has been escaped consists of characters that need not be, percent signs and digits. -/
theorem mem_escapeWhere (text : List Char) (x : Char) (h : x ∈ escapeWhere p text) :
    (x ∈ text ∧ p x = false) ∨ x = '%' ∨ (hexValue? x).isSome = true := by
  have hdigit : ∀ n < 16, (hexValue? (Nat.digitChar n).toUpper).isSome = true := by decide
  rcases List.mem_flatMap.mp h with ⟨c, hc, hx⟩
  split at hx
  · rcases List.mem_flatMap.mp hx with ⟨b, -, hx⟩
    have hb : b.toNat < 256 := b.toNat_lt
    simp only [escapeByte, List.mem_cons, List.not_mem_nil, or_false] at hx
    rcases hx with rfl | rfl | rfl
    · exact Or.inr (Or.inl rfl)
    · exact Or.inr (Or.inr (hdigit _ (by omega)))
    · exact Or.inr (Or.inr (hdigit _ (by omega)))
  · rename_i hp
    rw [List.mem_singleton] at hx
    subst hx
    exact Or.inl ⟨hc, by simpa using hp⟩

/-- An escaped character begins with a percent sign. -/
theorem escapeWhere_cons_eq (c : Char) (rest : List Char) (h : p c = true) :
    ∃ more, escapeWhere p (c :: rest) = '%' :: more := by
  rw [escapeWhere_cons_of_pos p c rest h]
  rcases takeChar_utf8EncodeChar c [] with ⟨b, tail, hbytes, -⟩
  rw [hbytes]
  exact ⟨_, rfl⟩

/-- A character that is escaped is no digit in the end, nor was it before. -/
theorem takeEscape?_escapeWhere_of_none (text : List Char) (h : takeEscape? text = none) :
    takeEscape? (escapeWhere p text) = none := by
  match text, h with
  | [], _ => rfl
  | a :: rest, h =>
    by_cases ha : p a = true
    · rcases escapeWhere_cons_eq p a rest ha with ⟨more, hmore⟩
      rw [hmore]
      cases more with
      | nil => rfl
      | cons b more => exact (takeEscape?_eq_none_iff '%' b more).mpr (hexByte?_of_first '%' b rfl)
    · rw [escapeWhere_cons_of_neg p a rest ha]
      match rest, h with
      | [], _ => rfl
      | b :: rest, h =>
        by_cases hb : p b = true
        · rcases escapeWhere_cons_eq p b rest hb with ⟨more, hmore⟩
          rw [hmore]
          exact (takeEscape?_eq_none_iff a '%' more).mpr (hexByte?_of_second a '%' rfl)
        · rw [escapeWhere_cons_of_neg p b rest hb]
          exact (takeEscape?_eq_none_iff a b _).mpr ((takeEscape?_eq_none_iff a b rest).mp h)

variable (hdigits : ∀ c, (hexValue? c).isSome = true → p c = false)

include hdigits

/-- Digits stay, and so does what they stand for. -/
theorem takeEscape?_escapeWhere_of_some (text rest : List Char) (byte : UInt8)
    (h : takeEscape? text = some (byte, rest)) :
    takeEscape? (escapeWhere p text) = some (byte, escapeWhere p rest) := by
  rcases eq_cons_cons_of_takeEscape? text rest byte h with ⟨a, b, rfl, hbyte⟩
  have hdigit : ∀ c, hexValue? c ≠ none → ¬ p c = true := by
    intro c hc
    rw [hdigits c (Option.isSome_iff_ne_none.mpr hc)]
    exact Bool.false_ne_true
  have ha : hexValue? a ≠ none := fun hnone =>
    nomatch (hexByte?_of_first a b hnone).symm.trans hbyte
  have hb : hexValue? b ≠ none := fun hnone =>
    nomatch (hexByte?_of_second a b hnone).symm.trans hbyte
  rw [escapeWhere_cons_of_neg p a _ (hdigit a ha), escapeWhere_cons_of_neg p b _ (hdigit b hb),
    takeEscape?, hbyte]
  rfl

/-- What has been escaped is read as it was before. -/
theorem unescape_escapeWhere (hpercent : p '%' = false) (text : List Char) :
    unescape (escapeWhere p text) = unescape text := by
  -- The induction is on the length, since an escape takes three characters at once.
  induction hlength : text.length using Nat.strongRecOn generalizing text with
  | ind n ih =>
    cases text with
    | nil => rfl
    | cons c rest =>
      have hrest : rest.length < n := by
        rw [← hlength, List.length_cons]
        exact Nat.lt_succ_self _
      rcases unescape_cases c rest with ⟨byte, others, rfl, htake, hread⟩ | ⟨hplain, hread⟩
      · have hothers : others.length < n := by
          have htwo := length_of_takeEscape? rest others byte htake
          omega
        have htake' := takeEscape?_escapeWhere_of_some p hdigits rest others byte htake
        rw [hread, escapeWhere_cons_of_neg p '%' rest (by simp [hpercent]),
          unescape_escaped _ _ byte htake', ih _ hothers others rfl]
      · by_cases hc : p c = true
        · rw [hread, escapeWhere_cons_of_pos p c rest hc, unescape_escapeBytes,
            ih _ hrest rest rfl]
        · rw [hread, escapeWhere_cons_of_neg p c rest hc, unescape_cons, ih _ hrest rest rfl]
          exact fun heq => takeEscape?_escapeWhere_of_none p rest (hplain heq)

end EscapeWhere

/-! ### Lengths -/

/-- Whether a character begins with a byte, and does not go on with it. -/
def isLead (b : UInt8) : Bool := b.toNat < 0x80 || 0xC0 ≤ b.toNat

/-- The number of bytes with which characters begin. -/
def leads (bytes : List UInt8) : Nat := bytes.countP isLead

theorem isLead_ofNat (n : Nat) (hn : n < 256) :
    isLead (UInt8.ofNat n) = decide (n < 0x80 ∨ 0xC0 ≤ n) := by
  rw [isLead, toNat_ofNat_lt n hn]
  by_cases hlow : n < 0x80 <;> by_cases hhigh : 0xC0 ≤ n <;> simp [hlow, hhigh]

theorem leads_utf8EncodeChar (c : Char) : leads (String.utf8EncodeChar c) = 1 := by
  have hc : c.val.toNat < 0x110000 := by
    rcases c.valid with h | ⟨-, h⟩
    · exact Nat.lt_trans h (by decide)
    · exact h
  rw [String.utf8EncodeChar]
  generalize c.val.toNat = v at hc
  have hlead : ∀ n, n < 256 → (n < 0x80 ∨ 0xC0 ≤ n) → isLead (UInt8.ofNat n) = true :=
    fun n hn h => by rw [isLead_ofNat n hn, decide_eq_true h]
  have htail : ∀ n, n < 64 → ¬ isLead (UInt8.ofNat (n + 0x80)) = true := by
    intro n hn
    rw [isLead_ofNat _ (by omega), decide_eq_false (by omega)]
    exact Bool.false_ne_true
  simp only [leads]
  -- One, two, three or four bytes, of which the first alone counts.
  split
  · rw [List.countP_cons_of_pos (hlead v (by omega) (Or.inl (by omega)))]
    rfl
  split
  · rw [List.countP_cons_of_pos (hlead _ (by omega) (Or.inr (by omega))),
      List.countP_cons_of_neg (htail _ (by omega))]
    rfl
  split
  · rw [List.countP_cons_of_pos (hlead _ (by omega) (Or.inr (by omega))),
      List.countP_cons_of_neg (htail _ (by omega)), List.countP_cons_of_neg (htail _ (by omega))]
    rfl
  · rw [List.countP_cons_of_pos (hlead _ (by omega) (Or.inr (by omega))),
      List.countP_cons_of_neg (htail _ (by omega)), List.countP_cons_of_neg (htail _ (by omega)),
      List.countP_cons_of_neg (htail _ (by omega))]
    rfl

theorem leads_append (bytes more : List UInt8) :
    leads (bytes ++ more) = leads bytes + leads more := List.countP_append

/-- Every character has one byte with which it begins. -/
theorem leads_bytesOf (text : List Char) : leads (bytesOf text) = text.length := by
  induction text with
  | nil => rfl
  | cons c rest ih =>
    have hcons : bytesOf (c :: rest) = String.utf8EncodeChar c ++ bytesOf rest := rfl
    rw [hcons, leads_append, leads_utf8EncodeChar, ih, List.length_cons, Nat.add_comm]

theorem leads_cons_le (b : UInt8) (bytes : List UInt8) : leads (b :: bytes) ≤ leads bytes + 1 := by
  rw [leads, List.countP_cons]
  split
  · exact Nat.le_refl _
  · exact Nat.le_succ _

/-- Nothing is read as more than it is. -/
theorem leads_unescape (text : List Char) : leads (unescape text) ≤ text.length := by
  induction hlength : text.length using Nat.strongRecOn generalizing text with
  | ind n ih =>
    cases text with
    | nil => exact Nat.zero_le _
    | cons c rest =>
      rw [List.length_cons] at hlength
      rcases unescape_cases c rest with ⟨byte, others, rfl, htake, hread⟩ | ⟨-, hread⟩
      · have htwo := length_of_takeEscape? rest others byte htake
        have hothers := ih others.length (by omega) others rfl
        have hcons := leads_cons_le byte (unescape others)
        rw [hread]
        omega
      · have hrest := ih rest.length (by omega) rest rfl
        rw [hread, leads_append, leads_utf8EncodeChar]
        omega

/-- Only a literal text is read as no less than it is. -/
theorem literal_of_leads (text : List Char) (h : leads (unescape text) = text.length) :
    Literal text := by
  induction text with
  | nil => trivial
  | cons c rest ih =>
    rw [List.length_cons] at h
    rcases unescape_cases c rest with ⟨byte, others, rfl, htake, hread⟩ | ⟨hplain, hread⟩
    · have htwo := length_of_takeEscape? rest others byte htake
      have hothers := leads_unescape others
      have hcons := leads_cons_le byte (unescape others)
      rw [hread] at h
      omega
    · rw [hread, leads_append, leads_utf8EncodeChar] at h
      exact ⟨hplain, ih (by omega)⟩

/-! ### Texts that are read -/

/-- A text is read exactly if its bytes are those of a text. -/
theorem decodePercent?_eq_some_iff (text : List Char) (read : String) :
    decodePercent? text = some read ↔ unescape text = bytesOf read.toList := by
  rw [decodePercent?, Option.map_eq_some_iff]
  constructor
  · rintro ⟨chars, hchars, rfl⟩
    rw [String.toList_ofList]
    exact (ofBytes?_eq_some_iff _ _).mp hchars
  · intro h
    exact ⟨read.toList, (ofBytes?_eq_some_iff _ _).mpr h, String.ofList_toList⟩

theorem bytesOf_inj (text other : List Char) (h : bytesOf text = bytesOf other) :
    text = other := by
  have hread := (ofBytes?_eq_some_iff (bytesOf text) text).mpr rfl
  rw [(ofBytes?_eq_some_iff (bytesOf text) other).mpr h] at hread
  exact (Option.some.inj hread).symm

end Text

end StoragePolicy
