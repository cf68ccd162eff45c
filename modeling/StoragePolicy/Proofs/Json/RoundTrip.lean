import StoragePolicy.Json.Decode
import StoragePolicy.Json.Printer
import StoragePolicy.Proofs.Number.Natural
import StoragePolicy.Proofs.Outcome
import Mathlib.Tactic.SplitIfs

/-!
# Reading back what is written

A value all of whose numbers are whole and can be held is read back from its written form as it was.
The reader is told apart from the writer by what may follow: a written number ends where no digit,
point or exponent follows, and whatever else follows a value is left as the rest.

## Main definitions

* `Json.Whole`: Values whose numbers are natural numbers that can be held.
* `Reading.Ends`: Texts that do not continue a number.

## Theorems

* `scanString_escape`, `scanNumber_toDigits`: Strings and numbers are read back.
* `scanValue_write`: Every whole value is read back, and the rest of the text is left.
* `text?_toText`: To decode a written value is to decode the value.
* `list_toReading`: A list is read back if its items are.
-/

namespace StoragePolicy

namespace Json

mutual

/-- Values all of whose numbers are natural numbers that can be held. -/
def Whole : Json → Prop
  | .number (.natural n) => n ≤ Number.maxWord
  | .number _ => False
  | .array items => WholeItems items
  | .object members => WholeMembers members
  | .null | .bool _ | .string _ => True

/-- The same for the items of an array. -/
def WholeItems : List Json → Prop
  | [] => True
  | item :: rest => item.Whole ∧ WholeItems rest

/-- The same for the members of an object. -/
def WholeMembers : List (String × Json) → Prop
  | [] => True
  | (_, value) :: rest => value.Whole ∧ WholeMembers rest

end

end Json

namespace Reading

/-- Texts that do not continue a number that stands before them. -/
def Ends (rest : List Char) : Prop :=
  ∀ c ∈ rest.head?, c.isDigit = false ∧ c ≠ '.' ∧ c ≠ 'e' ∧ c ≠ 'E'

theorem ends_nil : Ends [] := fun c hc => absurd hc (by simp)

theorem ends_cons (c : Char) (rest : List Char) (h : c = ',' ∨ c = ']' ∨ c = '\x7d') :
    Ends (c :: rest) := by
  intro d hd
  cases hd
  rcases h with rfl | rfl | rfl <;> decide

/-! ### Strings -/

theorem hexQuad?_control : ∀ n < 0x20,
    hexQuad? '0' '0' (Json.hexDigit (n / 16)) (Json.hexDigit (n % 16)) = some n := by
  decide

/-- One escaped character is read as that character. -/
theorem scanString_escape_char (c : Char) (p : Partial) (rest : List Char) :
    scanString p (Json.escape c ++ rest) = scanString (p.char c) rest := by
  rw [Json.escape]
  split_ifs with hquote hslash hn hr ht hb hf hcontrol
  · subst hquote; simp [scanString, unescape?]
  · subst hslash; simp [scanString, unescape?]
  · subst hn; simp [scanString, unescape?]
  · subst hr; simp [scanString, unescape?]
  · subst ht; simp [scanString, unescape?]
  · subst hb; simp [scanString, unescape?]
  · subst hf; simp [scanString, unescape?]
  · have hquad := hexQuad?_control c.toNat hcontrol
    have hunit : p.unit c.toNat = p.char c := by
      rw [Partial.unit, if_neg (by simp; omega), if_neg (by simp; omega), Char.ofNat_toNat]
    simp only [List.cons_append, List.nil_append, scanString, hquad, hunit]
  · simp [scanString, hslash, hcontrol]

theorem scanString_escape (text : List Char) (chars rest : List Char) :
    scanString ⟨chars, none, false⟩ (text.flatMap Json.escape ++ '"' :: rest) =
      some (some (String.ofList (chars.reverse ++ text)), rest) := by
  induction text generalizing chars with
  | nil => simp [scanString, Partial.finish]
  | cons c text ih =>
    rw [List.flatMap_cons, List.append_assoc, scanString_escape_char]
    have hchar : Partial.char ⟨chars, none, false⟩ c = ⟨c :: chars, none, false⟩ := rfl
    rw [hchar, ih (c :: chars), List.reverse_cons, List.append_assoc, List.singleton_append]

/-! ### Numbers -/

theorem takeWhile_digits (digits rest : List Char) (hall : digits.all Char.isDigit = true)
    (hrest : Ends rest) :
    (digits ++ rest).takeWhile Char.isDigit = digits ∧
      (digits ++ rest).dropWhile Char.isDigit = rest := by
  have hhead : rest.takeWhile Char.isDigit = [] ∧ rest.dropWhile Char.isDigit = rest := by
    cases rest with
    | nil => exact ⟨rfl, rfl⟩
    | cons c more =>
      have hc := (hrest c rfl).1
      simp [hc]
  rw [List.all_eq_true] at hall
  rw [List.takeWhile_append_of_pos hall, List.dropWhile_append_of_pos hall, hhead.1, hhead.2,
    List.append_nil]
  exact ⟨rfl, rfl⟩

theorem takeDigits_of_le (digits : List Char) (n count : Nat)
    (h : Number.digitsFrom n digits ≤ Number.maxWord) :
    takeDigits n count digits = (Number.digitsFrom n digits, count + digits.length, []) := by
  induction digits generalizing n count with
  | nil => rfl
  | cons c rest ih =>
    have hstep : Number.digitsFrom n (c :: rest) =
        Number.digitsFrom (10 * n + Number.digitValue c) rest := rfl
    rw [hstep] at h ⊢
    have hle := Number.digitsFrom_ge (10 * n + Number.digitValue c) rest
    simp only [takeDigits]
    rw [if_pos (by omega), ih _ _ h, List.length_cons, Nat.add_assoc, Nat.add_comm 1]

theorem scanFraction_of_ends (rest : List Char) (hrest : Ends rest) :
    scanFraction rest = some (none, rest) := by
  unfold scanFraction
  split
  · exact absurd rfl (hrest '.' rfl).2.1
  · rfl

theorem scanExponent_of_ends (rest : List Char) (hrest : Ends rest) :
    scanExponent rest = some (none, rest) := by
  cases rest with
  | nil => rfl
  | cons c more =>
    have hc := hrest c rfl
    simp [scanExponent, hc.2.2.1, hc.2.2.2]

/-- A written natural number is read as that number. -/
theorem scanNumber_toDigits (n : Nat) (rest : List Char) (h : n ≤ Number.maxWord)
    (hrest : Ends rest) :
    scanNumber (Nat.toDigits 10 n ++ rest) = some (some (.natural n), rest) := by
  have hcut := takeWhile_digits _ rest (Number.all_isDigit_toDigits n) hrest
  have hzero : ((Nat.toDigits 10 n).head? = some '0' && decide (1 < (Nat.toDigits 10 n).length)) =
      false := by
    by_cases hlen : 1 < (Nat.toDigits 10 n).length
    · simp [Number.head?_toDigits_of_length n hlen]
    · simp [hlen]
  have hvalue : takeDigits 0 0 (Nat.toDigits 10 n) = (n, (Nat.toDigits 10 n).length, []) := by
    have hdigits : Number.digitsFrom 0 (Nat.toDigits 10 n) = n := Number.digitsValue_toDigits n
    rw [takeDigits_of_le _ _ _ (by omega), hdigits, Nat.zero_add]
  have hnumeral : numeralOf? false (Nat.toDigits 10 n) none none = some (.natural n) := by
    simp only [numeralOf?, hvalue]
    rfl
  -- The first character is a digit, hence no sign.
  have hsign : ∀ more, Nat.toDigits 10 n ++ rest ≠ '-' :: more := by
    intro more hminus
    have hall := Number.all_isDigit_toDigits n
    cases hdigits : Nat.toDigits 10 n with
    | nil => exact absurd hdigits Nat.toDigits_ne_nil
    | cons c cs =>
      rw [hdigits] at hminus hall
      have hc : c = '-' := (List.cons.inj hminus).1
      rw [hc] at hall
      simp at hall
  unfold scanNumber
  split
  rename_i negative digits hsplit
  split at hsplit
  · rename_i more hminus
    exact absurd hminus (hsign more)
  · cases hsplit
    simp only [hcut.1, hcut.2, Number.isEmpty_toDigits, Bool.false_or, hzero, Bool.false_eq_true,
      if_false, scanFraction_of_ends rest hrest, scanExponent_of_ends rest hrest,
      Option.bind_eq_bind, Option.bind_some, hnumeral]
    rfl

/-! ### Values -/

theorem skipBlank_cons (c : Char) (rest : List Char)
    (h : c ≠ ' ' ∧ c ≠ '\n' ∧ c ≠ '\t' ∧ c ≠ '\r') : skipBlank (c :: rest) = c :: rest := by
  simp [skipBlank, h]

theorem scanWord_append (word : String) (value : Reading) (rest : List Char) :
    scanWord word value (word.toList ++ rest) = (value, rest) := by
  rw [scanWord, if_pos (by rw [List.isPrefixOf_iff_prefix]; exact List.prefix_append _ _),
    ← String.length_toList, List.drop_left]

theorem scanValue_quote (fuel : Nat) (text : List Char) :
    scanValue (fuel + 1) ('"' :: text) = match scanString {} text with
      | some (value, rest) => (.string value, rest)
      | none => (.broken, []) := rfl

theorem scanValue_open (fuel : Nat) (text : List Char) :
    scanValue (fuel + 1) ('[' :: text) = match skipBlank text with
      | ']' :: rest => (.array [], rest)
      | _ => (.array (scanItems fuel text).1, (scanItems fuel text).2) := rfl

/-- A text that does not close the array at once is read as its items. -/
theorem scanValue_bracket (fuel : Nat) (c : Char) (text : List Char)
    (hblank : c ≠ ' ' ∧ c ≠ '\n' ∧ c ≠ '\t' ∧ c ≠ '\r') (hclose : c ≠ ']') :
    scanValue (fuel + 1) ('[' :: c :: text) =
      (.array (scanItems fuel (c :: text)).1, (scanItems fuel (c :: text)).2) := by
  rw [scanValue_open, skipBlank_cons c text hblank]
  split
  · rename_i heq
    exact absurd (List.cons.inj heq).1 hclose
  · rfl

theorem scanValue_brace (fuel : Nat) (text : List Char) :
    scanValue (fuel + 1) ('\x7b' :: '"' :: text) =
      (.object (scanMembers fuel ('"' :: text)).1, (scanMembers fuel ('"' :: text)).2) := rfl

theorem scanItems_succ (fuel : Nat) (text : List Char) :
    scanItems (fuel + 1) text = match skipBlank (scanValue fuel text).2 with
      | ']' :: rest => ([(scanValue fuel text).1], rest)
      | ',' :: rest => ((scanValue fuel text).1 :: (scanItems fuel rest).1, (scanItems fuel rest).2)
      | _ => ([(scanValue fuel text).1, .broken], []) := rfl

theorem scanMembers_open (fuel : Nat) (text : List Char) :
    scanMembers (fuel + 1) ('"' :: text) = match scanString {} text with
      | some (some name, rest) =>
        match skipBlank rest with
        | ':' :: rest =>
          match skipBlank (scanValue fuel rest).2 with
          | '\x7d' :: rest' => ([(name, (scanValue fuel rest).1)], rest')
          | ',' :: rest' =>
            ((name, (scanValue fuel rest).1) :: (scanMembers fuel rest').1,
              (scanMembers fuel rest').2)
          | _ => ([(name, (scanValue fuel rest).1), ("", .broken)], [])
        | _ => ([(name, .broken)], [])
      | _ => ([("", .broken)], []) := rfl

/-- A member is its name, a colon and its value. -/
theorem scanMembers_succ (fuel : Nat) (name : String) (text : List Char) :
    scanMembers (fuel + 1) (Json.writeString name ++ ':' :: text) =
      match skipBlank (scanValue fuel text).2 with
      | '\x7d' :: rest => ([(name, (scanValue fuel text).1)], rest)
      | ',' :: rest =>
        ((name, (scanValue fuel text).1) :: (scanMembers fuel rest).1, (scanMembers fuel rest).2)
      | _ => ([(name, (scanValue fuel text).1), ("", .broken)], []) := by
  have htext : Json.writeString name ++ ':' :: text =
      '"' :: (name.toList.flatMap Json.escape ++ '"' :: ':' :: text) := by
    simp [Json.writeString]
  have hscan := scanString_escape name.toList [] (':' :: text)
  rw [List.reverse_nil, List.nil_append, String.ofList_toList] at hscan
  rw [htext, scanMembers_open, hscan]
  rfl

/-- A digit is none of the characters with which other things begin. -/
theorem ne_of_isDigit (c d : Char) (hc : c.isDigit = true) (hd : d.isDigit = false) : c ≠ d := by
  intro heq
  rw [heq, hd] at hc
  exact absurd hc (by simp)

theorem toDigits_eq_cons (n : Nat) :
    ∃ c cs, Nat.toDigits 10 n = c :: cs ∧ c.isDigit = true := by
  have hall := Number.all_isDigit_toDigits n
  cases hdigits : Nat.toDigits 10 n with
  | nil => exact absurd hdigits Nat.toDigits_ne_nil
  | cons c cs =>
    rw [hdigits] at hall
    exact ⟨c, cs, rfl, (List.all_eq_true.mp hall) c List.mem_cons_self⟩

theorem scanValue_natural (n fuel : Nat) (rest : List Char) (h : n ≤ Number.maxWord)
    (hrest : Ends rest) :
    scanValue (fuel + 1) (Nat.toDigits 10 n ++ rest) = (.number (some (.natural n)), rest) := by
  have hscan := scanNumber_toDigits n rest h hrest
  rcases toDigits_eq_cons n with ⟨c, cs, hdigits, hc⟩
  have hother := fun d => ne_of_isDigit c d hc
  rw [hdigits, List.cons_append] at hscan ⊢
  rw [scanValue, skipBlank_cons c _ ⟨hother _ (by decide), hother _ (by decide),
    hother _ (by decide), hother _ (by decide)⟩]
  split
  · rename_i heq; cases heq
  · rename_i heq; exact absurd (List.cons.inj heq).1 (hother _ (by decide))
  · rename_i heq; exact absurd (List.cons.inj heq).1 (hother _ (by decide))
  · rename_i heq; exact absurd (List.cons.inj heq).1 (hother _ (by decide))
  · rename_i heq; exact absurd (List.cons.inj heq).1 (hother _ (by decide))
  · rename_i heq; exact absurd (List.cons.inj heq).1 (hother _ (by decide))
  · rename_i heq; exact absurd (List.cons.inj heq).1 (hother _ (by decide))
  · rename_i heq
    cases heq
    rw [hscan, hc, Bool.or_true, if_pos rfl]

/-- A written value begins with a character that is neither blank nor a closing bracket. -/
theorem write_eq_cons (value : Json) (hvalue : value.Whole) : ∃ c rest, value.write = c :: rest ∧
    (c ≠ ' ' ∧ c ≠ '\n' ∧ c ≠ '\t' ∧ c ≠ '\r') ∧ c ≠ ']' := by
  cases value with
  | null => exact ⟨'n', "ull".toList, rfl, by decide⟩
  | bool b =>
    cases b with
    | true => exact ⟨'t', "rue".toList, rfl, by decide⟩
    | false => exact ⟨'f', "alse".toList, rfl, by decide⟩
  | string s => exact ⟨'"', _, rfl, by decide⟩
  | array items => exact ⟨'[', _, rfl, by decide⟩
  | object members => exact ⟨'\x7b', _, rfl, by decide⟩
  | number n =>
    cases n with
    | natural n =>
      rcases toDigits_eq_cons n with ⟨c, cs, hdigits, hc⟩
      have hother := fun d => ne_of_isDigit c d hc
      refine ⟨c, cs, by rw [Json.write, Json.writeNumeral, hdigits], ⟨?_, ?_, ?_, ?_⟩, ?_⟩ <;>
        exact hother _ (by decide)
    | negative n => exact absurd hvalue (by simp [Json.Whole])
    | double x => exact absurd hvalue (by simp [Json.Whole])

theorem writeItems_cons (item : Json) (others : List Json) :
    Json.writeItems (item :: others) =
      item.write ++ (if others.isEmpty then [] else ',' :: Json.writeItems others) := by
  cases others with
  | nil => exact (List.append_nil _).symm
  | cons next more => rfl

theorem writeMembers_cons (name : String) (value : Json) (others : List (String × Json)) :
    Json.writeMembers ((name, value) :: others) = Json.writeString name ++ ':' :: (value.write ++
      (if others.isEmpty then [] else ',' :: Json.writeMembers others)) := by
  cases others with
  | nil =>
    rw [List.isEmpty_nil, if_pos rfl, List.append_nil]
    rfl
  | cons next more => rfl

mutual

/-- A whole value is read back, and the rest of the text is left. -/
theorem scanValue_write (value : Json) (hvalue : value.Whole) (fuel : Nat) (rest : List Char)
    (hfuel : 2 * value.write.length ≤ fuel) (hrest : Ends rest) :
    scanValue fuel (value.write ++ rest) = (value.toReading, rest) := by
  rcases write_eq_cons value hvalue with ⟨c, cs, hhead, -, -⟩
  have hpos : 0 < value.write.length := by rw [hhead]; simp
  obtain ⟨fuel, rfl⟩ : ∃ f, fuel = f + 1 := ⟨fuel - 1, by omega⟩
  cases value with
  | null => exact scanWord_append "ull" .null rest
  | bool b =>
    cases b with
    | true => exact scanWord_append "rue" (.bool true) rest
    | false => exact scanWord_append "alse" (.bool false) rest
  | string s =>
    have htext : Json.write (.string s) ++ rest =
        '"' :: (s.toList.flatMap Json.escape ++ '"' :: rest) := by
      simp [Json.write, Json.writeString]
    have hscan := scanString_escape s.toList [] rest
    rw [List.reverse_nil, List.nil_append, String.ofList_toList] at hscan
    rw [htext, scanValue_quote, hscan]
    rfl
  | number n =>
    cases n with
    | natural n => exact scanValue_natural n fuel rest hvalue hrest
    | negative n => exact absurd hvalue (by simp [Json.Whole])
    | double x => exact absurd hvalue (by simp [Json.Whole])
  | array items =>
    cases items with
    | nil => rfl
    | cons item others =>
      have hlength : (Json.write (.array (item :: others))).length =
          (Json.writeItems (item :: others)).length + 2 := by simp [Json.write]
      have hitems := scanItems_write item others hvalue fuel rest (by omega)
      rcases write_eq_cons item hvalue.1 with ⟨d, ds, hd, hblank, hclose⟩
      have htext : Json.write (.array (item :: others)) ++ rest =
          '[' :: (Json.writeItems (item :: others) ++ ']' :: rest) := by simp [Json.write]
      -- The first item is seen to be one by its first character, which does not close the array.
      rw [writeItems_cons, hd] at hitems htext
      rw [htext]
      simp only [List.cons_append] at hitems ⊢
      rw [scanValue_bracket fuel d _ hblank hclose, hitems]
      rfl
  | object members =>
    cases members with
    | nil => rfl
    | cons m others =>
      rcases m with ⟨name, value⟩
      have hlength : (Json.write (.object ((name, value) :: others))).length =
          (Json.writeMembers ((name, value) :: others)).length + 2 := by simp [Json.write]
      have hmembers := scanMembers_write name value others hvalue fuel rest (by omega)
      have htext : Json.write (.object ((name, value) :: others)) ++ rest =
          '\x7b' :: (Json.writeMembers ((name, value) :: others) ++ '\x7d' :: rest) := by
        simp [Json.write]
      rw [writeMembers_cons, Json.writeString] at hmembers htext
      rw [htext]
      simp only [List.cons_append] at hmembers ⊢
      rw [scanValue_brace, hmembers]
      rfl
termination_by fuel

/-- The items of an array are read back up to the closing bracket. -/
theorem scanItems_write (item : Json) (others : List Json)
    (hitems : Json.WholeItems (item :: others)) (fuel : Nat) (rest : List Char)
    (hfuel : 2 * (Json.writeItems (item :: others)).length + 1 ≤ fuel) :
    scanItems fuel (Json.writeItems (item :: others) ++ ']' :: rest) =
      (Json.toReadings (item :: others), rest) := by
  obtain ⟨fuel, rfl⟩ : ∃ f, fuel = f + 1 := ⟨fuel - 1, by omega⟩
  rw [writeItems_cons] at hfuel ⊢
  cases others with
  | nil =>
    simp only [List.isEmpty_nil, if_true, List.append_nil] at hfuel ⊢
    have hvalue := scanValue_write item hitems.1 fuel (']' :: rest) (by omega)
      (ends_cons _ _ (by simp))
    rw [scanItems_succ, hvalue]
    rfl
  | cons next more =>
    simp only [List.isEmpty_cons, Bool.false_eq_true, if_false, List.length_append,
      List.length_cons, List.append_assoc, List.cons_append] at hfuel ⊢
    have hvalue := scanValue_write item hitems.1 fuel
      (',' :: (Json.writeItems (next :: more) ++ ']' :: rest)) (by omega)
      (ends_cons _ _ (by simp))
    have hothers := scanItems_write next more hitems.2 fuel rest (by omega)
    rw [scanItems_succ, hvalue]
    simp only [skipBlank_cons ',' _ (by decide), hothers]
    rfl
termination_by fuel

/-- The members of an object are read back up to the closing brace. -/
theorem scanMembers_write (name : String) (value : Json) (others : List (String × Json))
    (hmembers : Json.WholeMembers ((name, value) :: others)) (fuel : Nat) (rest : List Char)
    (hfuel : 2 * (Json.writeMembers ((name, value) :: others)).length + 1 ≤ fuel) :
    scanMembers fuel (Json.writeMembers ((name, value) :: others) ++ '\x7d' :: rest) =
      (Json.toReadingMembers ((name, value) :: others), rest) := by
  obtain ⟨fuel, rfl⟩ : ∃ f, fuel = f + 1 := ⟨fuel - 1, by omega⟩
  rw [writeMembers_cons] at hfuel ⊢
  -- The recursion is that of the printer, which writes a comma if there are other members.
  cases others with
  | nil =>
    simp only [List.isEmpty_nil, if_true, List.append_nil, List.length_append, List.length_cons,
      List.append_assoc, List.cons_append] at hfuel ⊢
    have hvalue := scanValue_write value hmembers.1 fuel ('\x7d' :: rest) (by omega)
      (ends_cons _ _ (by simp))
    rw [scanMembers_succ, hvalue]
    rfl
  | cons next more =>
    rcases next with ⟨nextName, nextValue⟩
    simp only [List.isEmpty_cons, Bool.false_eq_true, if_false, List.length_append,
      List.length_cons, List.append_assoc, List.cons_append] at hfuel ⊢
    have hvalue := scanValue_write value hmembers.1 fuel
      (',' :: (Json.writeMembers ((nextName, nextValue) :: more) ++ '\x7d' :: rest)) (by omega)
      (ends_cons _ _ (by simp))
    have hothers := scanMembers_write nextName nextValue more hmembers.2 fuel rest (by omega)
    rw [scanMembers_succ, hvalue]
    simp only [skipBlank_cons ',' _ (by decide), hothers]
    rfl
termination_by fuel

end

/-- The written form of a value is the whole text of its reading. -/
theorem ofText_write (value : Json) (hvalue : value.Whole) :
    ofText value.write = (value.toReading, true) := by
  have hscan := scanValue_write value hvalue (2 * value.write.length + 2) [] (by omega) ends_nil
  rw [List.append_nil] at hscan
  simp only [ofText, hscan]
  rfl

end Reading

/-- To decode a written value is to decode the value. -/
theorem Decoder.text?_toText {α : Type} (d : Decoder α) (value : Json) (hvalue : value.Whole) :
    Decoder.text? d value.toText.toList = d value.toReading := by
  rw [Json.toText, String.toList_ofList, Decoder.text?, Reading.ofText_write value hvalue]
  dsimp only
  cases d value.toReading <;> rfl

/-! ### Lists -/

/-- A list is whole if its items are. -/
theorem Json.whole_array {α : Type} (encode : α → Json) (items : List α)
    (h : ∀ a ∈ items, (encode a).Whole) : (Json.array (items.map encode)).Whole := by
  rw [Json.Whole]
  induction items with
  | nil => trivial
  | cons a rest ih =>
    exact ⟨h a List.mem_cons_self, ih fun b hb => h b (List.mem_cons_of_mem _ hb)⟩

/-- A list is read back from its JSON form if its items are. -/
theorem Decoder.list_toReading {α : Type} (d : Decoder α) (encode : α → Json) (items : List α)
    (h : ∀ a ∈ items, d (encode a).toReading = .ok a) :
    Decoder.list d (Json.array (items.map encode)).toReading = .ok items := by
  rw [Json.toReading, Decoder.list, Outcome.mapM_eq_ok]
  induction items with
  | nil => exact .nil
  | cons a rest ih =>
    exact .cons (h a List.mem_cons_self) (ih fun b hb => h b (List.mem_cons_of_mem _ hb))

end StoragePolicy
