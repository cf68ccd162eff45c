import Mathlib.Tactic.Ring
import StoragePolicy.Number.Decimal
import StoragePolicy.Number.Shortest
import StoragePolicy.Proofs.Json.RoundTrip

/-!
# Reading positional notation

A number in positional notation is read as the decimal that was written: its digits with the zeros
up to the units place, and the places behind the point as a negative power of ten.

## Theorems

* `digitsFrom_replicate`: Zeros at the end of a number are powers of ten.
* `ofText?_plain`, `readDouble_plain`: Positional notation is read back.
* `readDouble_writeDouble`: What is written of a double is always read.
-/

namespace StoragePolicy

namespace Number

/-! ### Digits -/

theorem digitsFrom_replicate (start k : Nat) :
    digitsFrom start (List.replicate k '0') = start * 10 ^ k := by
  induction k generalizing start with
  | zero => simp [digitsFrom]
  | succ k ih =>
    have hzero : digitValue '0' = 0 := by decide
    have hstep : digitsFrom start (List.replicate (k + 1) '0') =
        digitsFrom (10 * start + digitValue '0') (List.replicate k '0') := rfl
    rw [hstep, hzero, ih, Nat.pow_succ]
    ring

theorem digitsValue_zeros_append (k : Nat) (digits : List Char) :
    digitsValue (List.replicate k '0' ++ digits) = digitsValue digits := by
  rw [digitsValue_append, digitsValue, digitsFrom_replicate, Nat.zero_mul, digitsValue]

/-! ### Positional notation -/

/-- The decimal that the positional notation of `n * 10 ^ place` stands for. -/
def plainDecimal (negative : Bool) (n : Nat) (place : Int) : Decimal :=
  { negative, digits := n * 10 ^ place.toNat, exponent := min place 0 }

/-- Digits with nothing behind them are a whole number. -/
theorem ofDigits?_whole (negative : Bool) (digits : List Char) (hne : digits.isEmpty = false)
    (hall : digits.all Char.isDigit = true) :
    Decimal.ofDigits? negative digits =
      some { negative, digits := digitsValue digits, exponent := 0 } := by
  have hcut := Reading.takeWhile_digits digits [] hall Reading.ends_nil
  rw [List.append_nil] at hcut
  simp only [Decimal.ofDigits?, hcut.1, hcut.2, hne, List.isEmpty_nil, Bool.false_and,
    Bool.false_eq_true, if_false, readExponent, Option.map_some, List.append_nil, List.length_nil]
  rfl

/-- Digits with a point among them are those digits over a power of ten. -/
theorem ofDigits?_fraction (negative : Bool) (whole fraction : List Char)
    (hne : whole.isEmpty = false) (hwhole : whole.all Char.isDigit = true)
    (hfraction : fraction.all Char.isDigit = true) :
    Decimal.ofDigits? negative (whole ++ '.' :: fraction) =
      some { negative, digits := digitsValue (whole ++ fraction),
             exponent := -(fraction.length : Int) } := by
  have htake : (whole ++ '.' :: fraction).takeWhile Char.isDigit = whole := by
    rw [List.takeWhile_append_of_pos (List.all_eq_true.mp hwhole)]
    simp
  have hdrop : (whole ++ '.' :: fraction).dropWhile Char.isDigit = '.' :: fraction := by
    rw [List.dropWhile_append_of_pos (List.all_eq_true.mp hwhole)]
    simp
  have hcut := Reading.takeWhile_digits fraction [] hfraction Reading.ends_nil
  rw [List.append_nil] at hcut
  simp only [Decimal.ofDigits?, htake, hdrop, hcut.1, hcut.2, hne, Bool.false_and,
    Bool.false_eq_true, if_false, readExponent, Option.map_some]
  congr 2
  omega

theorem ofDigits?_plain (negative : Bool) (n : Nat) (place : Int) :
    Decimal.ofDigits? negative (plain n place) = some (plainDecimal negative n place) := by
  have hall := all_isDigit_toDigits n
  have hne := isEmpty_toDigits n
  rw [plain]
  -- Zeros behind the digits, a point among them, or zeros between the point and the digits.
  by_cases hplace : 0 ≤ place
  · simp only [hplace, if_true]
    rw [ofDigits?_whole negative _ (by simp) (by simp [hall]),
      digitsValue_append, digitsFrom_replicate, digitsValue_toDigits, plainDecimal,
      Int.min_eq_right hplace]
  · have htoNat : place.toNat = 0 := by omega
    have hmin : min place 0 = place := by omega
    have hplaces : -((-place).toNat : Int) = place := by omega
    rw [plainDecimal, htoNat, hmin, Nat.pow_zero, Nat.mul_one]
    simp only [hplace, if_false]
    split
    · rename_i hlt
      have hcut : (Nat.toDigits 10 n).take ((Nat.toDigits 10 n).length - (-place).toNat) ++
          (Nat.toDigits 10 n).drop ((Nat.toDigits 10 n).length - (-place).toNat) =
          Nat.toDigits 10 n := List.take_append_drop _ _
      have hparts := hall
      rw [← hcut, List.all_append, Bool.and_eq_true] at hparts
      rw [ofDigits?_fraction negative _ _ ?_ hparts.1 hparts.2, hcut, digitsValue_toDigits,
        List.length_drop]
      · congr 2
        omega
      · rw [List.isEmpty_eq_false_iff, ← List.length_pos_iff, List.length_take]
        omega
    · rename_i hge
      have hfraction : (List.replicate ((-place).toNat - (Nat.toDigits 10 n).length) '0' ++
          Nat.toDigits 10 n).all Char.isDigit = true := by
        simp [hall]
      have hzero : ['0'] ++ (List.replicate ((-place).toNat - (Nat.toDigits 10 n).length) '0' ++
          Nat.toDigits 10 n) = List.replicate ((-place).toNat - (Nat.toDigits 10 n).length + 1)
            '0' ++ Nat.toDigits 10 n := by
        simp [List.replicate_succ]
      rw [show '0' :: '.' :: (List.replicate ((-place).toNat - (Nat.toDigits 10 n).length) '0' ++
          Nat.toDigits 10 n) = ['0'] ++ '.' ::
            (List.replicate ((-place).toNat - (Nat.toDigits 10 n).length) '0' ++
              Nat.toDigits 10 n) from rfl,
        ofDigits?_fraction negative ['0'] _ rfl (by decide) hfraction, hzero,
        digitsValue_zeros_append, digitsValue_toDigits]
      congr 2
      rw [List.length_append, List.length_replicate]
      omega

/-- Positional notation begins with a digit. -/
theorem plain_eq_cons (n : Nat) (place : Int) :
    ∃ c rest, plain n place = c :: rest ∧ c.isDigit = true := by
  rcases Reading.toDigits_eq_cons n with ⟨c, cs, hdigits, hc⟩
  rw [plain]
  simp only [hdigits]
  split
  · exact ⟨c, _, rfl, hc⟩
  · split
    · rename_i hlt
      obtain ⟨k, hk⟩ : ∃ k, (c :: cs).length - (-place).toNat = k + 1 :=
        ⟨(c :: cs).length - (-place).toNat - 1, by omega⟩
      rw [hk, List.take_succ_cons]
      exact ⟨c, _, rfl, hc⟩
    · exact ⟨'0', _, rfl, by decide⟩

/-- A sign that is written is read, before what does not begin with one. -/
theorem takeSign_withSign (negative : Bool) (c : Char) (rest : List Char)
    (hc : c ≠ '-' ∧ c ≠ '+') :
    takeSign (withSign negative (c :: rest)) = (negative, c :: rest) := by
  cases negative with
  | true => rfl
  | false =>
    rw [withSign, if_neg (by simp), takeSign]
    · intro more heq
      exact hc.1 (List.cons.inj heq).1
    · intro more heq
      exact hc.2 (List.cons.inj heq).1

theorem toLower_of_isDigit (c : Char) (hc : c.isDigit = true) : c.toLower = c := by
  simp only [Char.isDigit, Bool.and_eq_true, decide_eq_true_eq] at hc
  refine dif_neg fun hupper => ?_
  have hle := UInt32.le_iff_toNat_le.mp hc.2
  have hge := UInt32.le_iff_toNat_le.mp hupper.1
  simp at hle hge
  omega

/-- What begins with a digit is none of the words for particular values. -/
theorem isKeyword_of_isDigit (keyword : String) (c : Char) (rest : List Char)
    (hc : c.isDigit = true)
    (hkeyword : (Text.lower keyword.toList).head?.all (fun d => !d.isDigit) = true) :
    Text.isKeyword keyword (c :: rest) = false := by
  rw [Text.isKeyword, Text.sameLetters, decide_eq_false_iff_not]
  intro heq
  rw [← heq] at hkeyword
  have hdigit : (!c.toLower.isDigit) = true := hkeyword
  rw [toLower_of_isDigit c hc, hc] at hdigit
  exact absurd hdigit (by simp)

/-- Positional notation is read back. -/
theorem readDouble_plain (negative : Bool) (n : Nat) (place : Int) :
    readDouble (withSign negative (plain n place)) =
      some (plainDecimal negative n place).toDouble := by
  have hread := ofDigits?_plain negative n place
  rcases plain_eq_cons n place with ⟨c, rest, hplain, hc⟩
  have hsign : c ≠ '-' ∧ c ≠ '+' :=
    ⟨Reading.ne_of_isDigit c _ hc (by decide), Reading.ne_of_isDigit c _ hc (by decide)⟩
  rw [hplain] at hread ⊢
  have htake := takeSign_withSign negative c rest hsign
  simp only [readDouble, Decimal.ofText?, htake,
    isKeyword_of_isDigit "nan" c rest hc (by decide),
    isKeyword_of_isDigit "inf" c rest hc (by decide),
    isKeyword_of_isDigit "infinity" c rest hc (by decide), Bool.or_self,
    Bool.false_eq_true, if_false, hread, Option.map_some]

/-! ### The text of a double -/

/-- What is written of a double is positional notation, or one of the words for the values that
    are not finite. -/
theorem writeDouble_cases (x : Float) :
    (∃ negative n place, (writeDouble x).toList = withSign negative (plain n place)) ∨
      (writeDouble x).toList = "NaN".toList ∨
      ∃ negative, (writeDouble x).toList = withSign negative "inf".toList := by
  rw [writeDouble, String.toList_ofList]
  split
  · exact Or.inr (Or.inl rfl)
  · rename_i negative _
    exact Or.inr (Or.inr ⟨negative, rfl⟩)
  · rename_i negative e _
    exact Or.inl ⟨negative, 0, 0, rfl⟩
  · rename_i negative m e _ _
    exact Or.inl ⟨negative, (shortest m e).1, (shortest m e).2, rfl⟩

/-- What is written of a double is always read. -/
theorem readDouble_isSome (x : Float) : (readDouble (writeDouble x).toList).isSome = true := by
  rcases writeDouble_cases x with ⟨negative, n, place, h⟩ | h | ⟨negative, h⟩
  · rw [h, readDouble_plain]
    rfl
  · rw [h]
    rfl
  · rw [h]
    cases negative <;> rfl

/-- The characters of positional notation are digits and points. -/
theorem mem_plain (n : Nat) (place : Int) (c : Char) (hc : c ∈ plain n place) :
    c.isDigit = true ∨ c = '.' := by
  have hall := List.all_eq_true.mp (all_isDigit_toDigits n)
  have hzero : ∀ k, c ∈ List.replicate k '0' → c.isDigit = true := by
    intro k hk
    rw [List.eq_of_mem_replicate hk]
    decide
  rw [plain] at hc
  -- There is no point, or it stands among the digits, or it stands before them.
  split at hc
  · rcases List.mem_append.mp hc with hc | hc
    · exact Or.inl (hall c hc)
    · exact Or.inl (hzero _ hc)
  · dsimp only at hc
    split at hc
    · rcases List.mem_append.mp hc with hc | hc
      · exact Or.inl (hall c (List.mem_of_mem_take hc))
      · rcases List.mem_cons.mp hc with hc | hc
        · exact Or.inr hc
        · exact Or.inl (hall c (List.mem_of_mem_drop hc))
    · rcases List.mem_cons.mp hc with rfl | hc
      · exact Or.inl (by decide)
      · rcases List.mem_cons.mp hc with hc | hc
        · exact Or.inr hc
        · rcases List.mem_append.mp hc with hc | hc
          · exact Or.inl (hzero _ hc)
          · exact Or.inl (hall c hc)

/-- The text of a double is a word of letters, digits, points and signs. -/
theorem mem_writeDouble (x : Float) (c : Char) (hc : c ∈ (writeDouble x).toList) :
    c.isAlphanum = true ∨ c = '.' ∨ c = '-' := by
  have hsigned : ∀ negative text, c ∈ withSign negative text → c = '-' ∨ c ∈ text := by
    intro negative text hmem
    cases negative with
    | true => exact List.mem_cons.mp hmem
    | false => exact Or.inr hmem
  rcases writeDouble_cases x with ⟨negative, n, place, h⟩ | h | ⟨negative, h⟩
  · rw [h] at hc
    rcases hsigned negative _ hc with hc | hc
    · exact Or.inr (Or.inr hc)
    · rcases mem_plain n place c hc with hc | hc
      · exact Or.inl (by rw [Char.isAlphanum, hc, Bool.or_true])
      · exact Or.inr (Or.inl hc)
  · rw [h] at hc
    exact Or.inl (List.all_eq_true.mp (by decide : "NaN".toList.all Char.isAlphanum = true) c hc)
  · rw [h] at hc
    rcases hsigned negative _ hc with hc | hc
    · exact Or.inr (Or.inr hc)
    · exact Or.inl (List.all_eq_true.mp (by decide : "inf".toList.all Char.isAlphanum = true) c hc)

theorem writeDouble_ne_nil (x : Float) : (writeDouble x).toList ≠ [] := by
  intro hnil
  have hread := readDouble_isSome x
  rw [hnil] at hread
  exact absurd hread (by decide)

/-- What is read as a double begins with a sign, a digit or a point, or with the first letter of a
    word for a value that is not finite. -/
theorem head_of_readDouble (text : List Char) (x : Float) (h : readDouble text = some x) :
    ∃ c rest, text = c :: rest ∧
      (c.isDigit = true ∨ c ∈ ['-', '+', '.'] ∨ c.toLower ∈ ['n', 'i']) := by
  cases text with
  | nil => exact absurd h (by simp [readDouble, takeSign, Text.isKeyword, Text.sameLetters,
      Text.lower, Decimal.ofText?, Decimal.ofDigits?])
  | cons c rest =>
    refine ⟨c, rest, rfl, ?_⟩
    by_contra hc
    simp only [List.mem_cons, List.not_mem_nil, or_false, not_or] at hc
    rcases hc with ⟨hdigit, ⟨hminus, hplus, hpoint⟩, hn, hi⟩
    have hsign : takeSign (c :: rest) = (false, c :: rest) :=
      takeSign_withSign false c rest ⟨hminus, hplus⟩
    have hword : ∀ keyword : String, (∀ d ∈ keyword.toList.head?, d.toLower ≠ c.toLower) →
        keyword.toList ≠ [] → Text.isKeyword keyword (c :: rest) = false := by
      intro keyword hhead hne
      rw [Text.isKeyword, Text.sameLetters, decide_eq_false_iff_not]
      intro heq
      cases hletters : keyword.toList with
      | nil => exact hne hletters
      | cons d more =>
        rw [hletters] at heq hhead
        exact hhead d rfl (List.cons.inj heq).1.symm
    -- With neither a digit nor a point in front, a mantissa would be empty.
    have hnone : Decimal.ofDigits? false (c :: rest) = none := by
      simp only [Decimal.ofDigits?, List.takeWhile_cons_of_neg hdigit,
        List.dropWhile_cons_of_neg hdigit]
      split
      · rename_i heq
        exact absurd (List.cons.inj heq).1 hpoint
      · rfl
    simp [readDouble, Decimal.ofText?, hsign, hnone,
      hword "nan" (by simpa using Ne.symm hn) (by simp),
      hword "inf" (by simpa using Ne.symm hi) (by simp),
      hword "infinity" (by simpa using Ne.symm hi) (by simp)] at h

/-- What is read as a double is no joining word. -/
theorem isKeyword_of_readDouble (text : List Char) (x : Float) (keyword : String)
    (h : readDouble text = some x) (hkeyword : keyword = "AND" ∨ keyword = "OR") :
    Text.isKeyword keyword text = false := by
  rcases head_of_readDouble text x h with ⟨c, rest, rfl, hc⟩
  rcases hc with hc | hc | hc
  · rcases hkeyword with rfl | rfl <;> exact isKeyword_of_isDigit _ c rest hc (by decide)
  all_goals
    rw [Text.isKeyword, Text.sameLetters, decide_eq_false_iff_not]
    intro heq
    simp only [List.mem_cons, List.not_mem_nil, or_false] at hc
  · rcases hkeyword with rfl | rfl <;> rcases hc with rfl | rfl | rfl <;>
      simp [Text.lower] at heq
  · have hfirst : c.toLower = 'a' ∨ c.toLower = 'o' := by
      rcases hkeyword with rfl | rfl
      · exact Or.inl (List.cons.inj heq).1
      · exact Or.inr (List.cons.inj heq).1
    rcases hc with hc | hc <;> rw [hc] at hfirst <;> exact absurd hfirst (by decide)

/-- The text of a double is no joining word. -/
theorem isKeyword_writeDouble (x : Float) (keyword : String)
    (h : keyword = "AND" ∨ keyword = "OR") :
    Text.isKeyword keyword (writeDouble x).toList = false := by
  rcases Option.isSome_iff_exists.mp (readDouble_isSome x) with ⟨y, hread⟩
  exact isKeyword_of_readDouble _ y keyword hread h

end Number

end StoragePolicy
