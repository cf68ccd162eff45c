import StoragePolicy.Number.Natural

/-!
# Natural numbers are read back

The written form of a number is read back as that number as long as it can be held. Ids are
compared by their written form wherever they are fields or parts of keys, so that form has to be
one to one.

## Theorems

* `readNatural_toDigits`: What has been written is read back.
* `writeNatural_inj`: Different numbers are written differently.
-/

namespace StoragePolicy

namespace Number

theorem all_isDigit_toDigits (n : Nat) : (Nat.toDigits 10 n).all Char.isDigit = true := by
  rw [List.all_eq_true]
  intro c hc
  exact Nat.isDigit_of_mem_toDigits (by decide) (by decide) hc

theorem isEmpty_toDigits (n : Nat) : (Nat.toDigits 10 n).isEmpty = false := by
  rw [List.isEmpty_eq_false_iff]
  exact Nat.toDigits_ne_nil

theorem digitsValue_toDigits (n : Nat) : digitsValue (Nat.toDigits 10 n) = n :=
  Nat.ofDigitChars_ten_toDigits

/-- Digits without a sign are read as their value. -/
theorem readNatural_of_digits (digits : List Char) (hne : digits.isEmpty = false)
    (hall : digits.all Char.isDigit = true) (hle : digitsValue digits ≤ maxWord) :
    readNatural digits = some (digitsValue digits) := by
  cases digits with
  | nil => exact absurd hne (by simp)
  | cons c rest =>
    -- The first digit is no sign, so that the digits are the whole text.
    have hplus : c ≠ '+' := by
      intro h
      rw [h] at hall
      simp at hall
    simp only [readNatural]
    split
    · rename_i h
      exact absurd (List.cons.inj h).1 hplus
    · simp only [hne, hall, Bool.not_true, Bool.or_false, Bool.false_eq_true, if_false, if_pos hle]

/-- What has been written is read back. -/
theorem readNatural_toDigits (n : Nat) (h : n ≤ maxWord) :
    readNatural (Nat.toDigits 10 n) = some n := by
  have hread := readNatural_of_digits (Nat.toDigits 10 n) (isEmpty_toDigits n)
    (all_isDigit_toDigits n) (by rwa [digitsValue_toDigits])
  rwa [digitsValue_toDigits] at hread

theorem toList_writeNatural (n : Nat) : (writeNatural n).toList = Nat.toDigits 10 n := by
  rw [writeNatural, String.toList_ofList]

theorem readNatural_writeNatural (n : Nat) (h : n ≤ maxWord) :
    readNatural (writeNatural n).toList = some n := by
  rw [toList_writeNatural, readNatural_toDigits n h]

/-- Different numbers are written differently. -/
theorem writeNatural_inj (m n : Nat) (h : writeNatural m = writeNatural n) : m = n := by
  have hdigits := congrArg String.toList h
  rw [toList_writeNatural, toList_writeNatural] at hdigits
  rw [← digitsValue_toDigits m, hdigits, digitsValue_toDigits]

/-- Only zero is written with a zero in front. -/
theorem head?_toDigits (n : Nat) (hpos : 0 < n) : (Nat.toDigits 10 n).head? ≠ some '0' := by
  induction n using Nat.strongRecOn with
  | ind n ih =>
    by_cases hlt : n < 10
    · have hdigit : ∀ m < 10, 0 < m → Nat.digitChar m ≠ '0' := by decide
      rw [Nat.toDigits_of_lt_base hlt, List.head?_cons]
      intro h
      exact hdigit n hlt hpos (Option.some.inj h)
    · -- The leading digits are those of a tenth of the number.
      have htenth := ih (n / 10) (by omega) (by omega)
      rw [Nat.toDigits_of_base_le (by decide) (by omega), List.head?_append]
      cases hdigits : Nat.toDigits 10 (n / 10) with
      | nil => exact absurd hdigits Nat.toDigits_ne_nil
      | cons c rest => rwa [hdigits] at htenth

/-- A number of more than one digit does not begin with a zero. -/
theorem head?_toDigits_of_length (n : Nat) (h : 1 < (Nat.toDigits 10 n).length) :
    (Nat.toDigits 10 n).head? ≠ some '0' := by
  refine head?_toDigits n ?_
  rcases Nat.eq_zero_or_pos n with rfl | hpos
  · rw [Nat.toDigits_zero] at h
    exact absurd h (by decide)
  · exact hpos

theorem digitsFrom_ge (start : Nat) (digits : List Char) : start ≤ digitsFrom start digits := by
  induction digits generalizing start with
  | nil => exact Nat.le_refl start
  | cons c rest ih =>
    have hrest := ih (10 * start + digitValue c)
    rw [digitsFrom, List.foldl_cons, ← digitsFrom]
    omega

section Digits

-- Powers of natural numbers are those of the core library, whatever else is imported later.
attribute [local instance (high)] instPowNat

/-- A number has no more digits than are needed. -/
theorem digitsFrom_lt (start : Nat) (digits : List Char) (h : digits.all Char.isDigit = true) :
    digitsFrom start digits < (start + 1) * 10 ^ digits.length := by
  induction digits generalizing start with
  | nil =>
    change start < (start + 1) * 1
    omega
  | cons c rest ih =>
    rw [List.all_cons, Bool.and_eq_true] at h
    have hvalue : digitValue c ≤ 9 := by
      have hle := (Bool.and_eq_true_iff.mp h.1).2
      rw [decide_eq_true_eq, UInt32.le_iff_toNat_le] at hle
      have hnine : c.toNat ≤ 57 := hle
      change c.toNat - 48 ≤ 9
      omega
    calc digitsFrom start (c :: rest)
        = digitsFrom (10 * start + digitValue c) rest := rfl
      _ < (10 * start + digitValue c + 1) * 10 ^ rest.length := ih _ h.2
      _ ≤ ((start + 1) * 10) * 10 ^ rest.length := Nat.mul_le_mul_right _ (by omega)
      _ = (start + 1) * 10 ^ (c :: rest).length := by
        rw [List.length_cons, Nat.pow_succ, Nat.mul_assoc, Nat.mul_comm 10]

end Digits

/-- No number is read from less than its written form. -/
theorem length_le_of_readNatural (text : List Char) (n : Nat) (h : readNatural text = some n) :
    (Nat.toDigits 10 n).length ≤ text.length := by
  -- What is read behind a sign is what would be read without it.
  have hdigits : ∀ digits : List Char,
      (if digits.isEmpty || !digits.all Char.isDigit then none
        else if digitsValue digits ≤ maxWord then some (digitsValue digits) else none) = some n →
      (Nat.toDigits 10 n).length ≤ digits.length := by
    intro digits hread
    split at hread
    · exact nomatch hread
    · rename_i hproper
      simp only [Bool.or_eq_true, not_or, Bool.not_eq_true, Bool.not_eq_false',
        List.isEmpty_eq_false_iff] at hproper
      split at hread
      · cases hread
        have hlt := digitsFrom_lt 0 digits hproper.2
        rw [Nat.zero_add, Nat.one_mul] at hlt
        exact (Nat.length_toDigits_le_iff (by decide) (List.length_pos_iff.mpr hproper.1)).mpr hlt
      · exact nomatch hread
  match text, h with
  | '+' :: rest, h => exact Nat.le_succ_of_le (hdigits rest h)
  | [], h => exact hdigits [] h
  | c :: rest, h =>
    by_cases hplus : c = '+'
    · subst hplus
      exact Nat.le_succ_of_le (hdigits rest h)
    · refine hdigits (c :: rest) ?_
      rw [← h, readNatural]
      rintro more heq
      exact hplus (List.cons.inj heq).1

end Number

end StoragePolicy
