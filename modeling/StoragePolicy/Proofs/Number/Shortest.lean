import StoragePolicy.Proofs.Number.Scientific

/-!
# The text of a double is read back

The shortest decimal of a double lies in the interval of the numbers that become this double. Such a
decimal is found at the latest at the seventeenth digit, where the grid of decimals is finer than
the doubles are apart. Hence a double is read back from its text, bit by bit.

## Theorems

* `near_of_holds`: The numbers of the interval become the double.
* `shortest_near`: The shortest decimal is one of them.
* `readDouble_writeDouble`: A double is read back from its text.
-/

namespace StoragePolicy

namespace Number

open Float.Model Float.Model.UnpackedFloat

/-! ### The interval -/

/-- The way to the lower end of the interval, in quarters of the last place. -/
def quartersBelow (m : Nat) (e : Int) : Nat := if m = 2 ^ 52 ∧ -1074 < e then 1 else 2

theorem quartersBelow_bounds (m : Nat) (e : Int) :
    1 ≤ quartersBelow m e ∧ quartersBelow m e ≤ 2 := by
  rw [quartersBelow]
  split <;> omega

theorem around_low (m : Nat) (e : Int) :
    (Interval.around m e).low = (4 * m - quartersBelow m e) * 2 ^ (e - 2).toNat := by
  have hbelow : (if m = 2 ^ 52 && -1074 < e then 1 else 2) = quartersBelow m e := by
    rw [quartersBelow]
    simp only [Bool.and_eq_true, decide_eq_true_eq]
  rw [← hbelow]
  rfl

/-- A power of ten as a quotient of whole numbers. -/
theorem zpow_ten_split (place : Int) :
    (10 : ℚ) ^ place * 10 ^ (-place).toNat = 10 ^ place.toNat := by
  rw [← zpow_natCast, ← zpow_natCast, ← zpow_add₀ (by norm_num)]
  congr 1
  omega

/-- The last place of a double over the denominator of its interval. -/
theorem zpow_two_split (e : Int) :
    (2 : ℚ) ^ e * 2 ^ (2 - e).toNat = 4 * 2 ^ (e - 2).toNat := by
  have hfour : (4 : ℚ) = 2 ^ (2 : Int) := by norm_num
  rw [hfour, ← zpow_natCast, ← zpow_natCast, ← zpow_add₀ (by norm_num), ← zpow_add₀ (by norm_num)]
  congr 1
  omega

/-- A point of the grid and an end of the interval, in quarters of the last place. -/
theorem point_eq (m : Nat) (e : Int) (n : Nat) (place : Int) :
    ((n * 10 ^ place.toNat * (Interval.around m e).unit : Nat) : ℚ) =
      4 * (n * 10 ^ place / 2 ^ e) * (2 ^ (e - 2).toNat * 10 ^ (-place).toNat) := by
  have hunit : (0 : ℚ) < 2 ^ e := by positivity
  have hdef : (Interval.around m e).unit = 2 ^ (2 - e).toNat := rfl
  rw [hdef]
  push_cast
  calc (n : ℚ) * 10 ^ place.toNat * 2 ^ (2 - e).toNat
      = n * (10 ^ place * 10 ^ (-place).toNat) * 2 ^ (2 - e).toNat := by rw [zpow_ten_split]
    _ = n * 10 ^ place / 2 ^ e * (2 ^ e * 2 ^ (2 - e).toNat) * 10 ^ (-place).toNat := by
        field_simp
    _ = 4 * (n * 10 ^ place / 2 ^ e) * (2 ^ (e - 2).toNat * 10 ^ (-place).toNat) := by
        rw [zpow_two_split]
        ring

theorem value_around (m : Nat) (e : Int) :
    ((Interval.around m e).value : ℚ) / (Interval.around m e).unit = m * 2 ^ e := by
  have hdefValue : (Interval.around m e).value = 4 * m * 2 ^ (e - 2).toNat := rfl
  have hdefUnit : (Interval.around m e).unit = 2 ^ (2 - e).toNat := rfl
  have hsplit := zpow_two_split e
  rw [hdefValue, hdefUnit]
  push_cast
  rw [div_eq_iff (by positivity), mul_assoc (m : ℚ), hsplit]
  ring

/-- What the interval holds, in units of the last place. -/
theorem holds_around (m : Nat) (e : Int) (n : Nat) (place : Int) (hpos : 0 < m) :
    (Interval.around m e).holds n place = true ↔
      (m : ℚ) - quartersBelow m e / 4 ≤ n * 10 ^ place / 2 ^ e ∧
      n * 10 ^ place / 2 ^ e ≤ (m : ℚ) + 1 / 2 ∧
      (m % 2 ≠ 0 → (m : ℚ) - quartersBelow m e / 4 ≠ n * 10 ^ place / 2 ^ e ∧
        n * 10 ^ place / 2 ^ e ≠ (m : ℚ) + 1 / 2) := by
  have hpoint := point_eq m e n place
  have hbounds := quartersBelow_bounds m e
  have hunit : (0 : ℚ) < 2 ^ (e - 2).toNat * 10 ^ (-place).toNat := by positivity
  -- The products get names, so that only their values as fractions are used from here on.
  generalize hx : (n : ℚ) * 10 ^ place / 2 ^ e = x at hpoint
  rw [Interval.holds]
  generalize n * 10 ^ place.toNat * (Interval.around m e).unit = p at hpoint
  have hlow : (((Interval.around m e).low * 10 ^ (-place).toNat : Nat) : ℚ) =
      (4 * m - quartersBelow m e) * (2 ^ (e - 2).toNat * 10 ^ (-place).toNat) := by
    rw [around_low]
    push_cast [Nat.cast_sub (show quartersBelow m e ≤ 4 * m by omega)]
    ring
  have hhigh : (((Interval.around m e).high * 10 ^ (-place).toNat : Nat) : ℚ) =
      (4 * m + 2) * (2 ^ (e - 2).toNat * 10 ^ (-place).toNat) := by
    have hdef : (Interval.around m e).high = (4 * m + 2) * 2 ^ (e - 2).toNat := rfl
    rw [hdef]
    push_cast
    ring
  have hclosed : (Interval.around m e).closed = decide (m % 2 = 0) := rfl
  generalize (Interval.around m e).low * 10 ^ (-place).toNat = low at hlow
  generalize (Interval.around m e).high * 10 ^ (-place).toNat = high at hhigh
  have hlowLe : low ≤ p ↔ (m : ℚ) - quartersBelow m e / 4 ≤ x := by
    rw [← Nat.cast_le (α := ℚ), hlow, hpoint, mul_le_mul_iff_left₀ hunit]
    constructor <;> intro hle <;> linarith
  have hlowEq : low = p ↔ (m : ℚ) - quartersBelow m e / 4 = x := by
    rw [← Nat.cast_inj (R := ℚ), hlow, hpoint, mul_left_inj' hunit.ne']
    constructor <;> intro heq <;> linarith
  have hhighLe : p ≤ high ↔ x ≤ (m : ℚ) + 1 / 2 := by
    rw [← Nat.cast_le (α := ℚ), hhigh, hpoint, mul_le_mul_iff_left₀ hunit]
    constructor <;> intro hle <;> linarith
  have hhighEq : p = high ↔ x = (m : ℚ) + 1 / 2 := by
    rw [← Nat.cast_inj (R := ℚ), hhigh, hpoint, mul_left_inj' hunit.ne']
    constructor <;> intro heq <;> linarith
  simp only [hclosed, ← hlowLe, ← hhighLe, ne_eq, ← hlowEq, ← hhighEq]
  -- The bounds belong to the interval if the number of units is even.
  by_cases heven : m % 2 = 0
  · rw [if_pos (decide_eq_true heven)]
    simp [heven]
  · rw [if_neg (by simpa using heven)]
    simp only [Bool.and_eq_true, decide_eq_true_eq, heven, not_false_eq_true, true_implies]
    omega

/-- The numbers of the interval become the double. -/
theorem near_of_holds (m : Nat) (e : Int) (n : Nat) (place : Int) (hpos : 0 < m)
    (h : (Interval.around m e).holds n place = true) : Near m e (n * 10 ^ place / 2 ^ e) := by
  rcases (holds_around m e n place hpos).mp h with ⟨hlow, hhigh, hodd⟩
  have hbounds := quartersBelow_bounds m e
  have hquarters : (quartersBelow m e : ℚ) ≤ 2 := by exact_mod_cast hbounds.2
  refine ⟨⟨by linarith, hhigh, ?_⟩, ?_⟩
  · intro hend
    by_contra hne
    rcases hodd hne with ⟨hneLow, hneHigh⟩
    rcases hend with hend | hend
    · exact hneLow (by linarith)
    · exact hneHigh hend
  · intro hpower he
    have hone : quartersBelow m e = 1 := if_pos ⟨hpower, he⟩
    rw [hone, Nat.cast_one] at hlow
    exact hlow

/-! ### The grid -/

/-- The multiple of a power of ten that is nearest to the value. -/
def Interval.nearest (i : Interval) (place : Int) : Nat :=
  if (i.locate place).2 then (i.locate place).1 + 1 else (i.locate place).1

theorem holds_of_onGrid? (i : Interval) (place : Int) (n : Nat) (h : i.onGrid? place = some n) :
    i.holds n place = true := by
  have hchosen : ∀ near far, (if i.holds near place then some near
      else if i.holds far place then some far else none) = some n → i.holds n place = true := by
    intro near far h
    by_cases hnear : i.holds near place = true
    · rw [if_pos hnear] at h
      rwa [Option.some.inj h] at hnear
    · rw [if_neg hnear] at h
      by_cases hfar : i.holds far place = true
      · rw [if_pos hfar] at h
        rwa [Option.some.inj h] at hfar
      · rw [if_neg hfar] at h
        exact absurd h (by simp)
  exact hchosen _ _ h

theorem onGrid?_of_nearest (i : Interval) (place : Int)
    (h : i.holds (i.nearest place) place = true) : i.onGrid? place = some (i.nearest place) := by
  rw [Interval.nearest] at h ⊢
  rw [Interval.onGrid?]
  cases hupper : (i.locate place).2 with
  | true =>
    rw [hupper, if_pos rfl] at h
    simp only [hupper, if_true]
    rw [if_pos h]
  | false =>
    rw [hupper, if_neg Bool.false_ne_true] at h
    simp only [hupper, Bool.false_eq_true, if_false]
    rw [if_pos h]

/-- The nearest point of the grid is at most half a step away. -/
theorem nearest_dist (i : Interval) (place : Int) (hunit : 0 < i.unit) :
    |(i.nearest place : ℚ) * 10 ^ place - (i.value : ℚ) / i.unit| ≤ 10 ^ place / 2 := by
  have hten : (0 : ℚ) < 10 ^ place := by positivity
  have hdivisor : 0 < i.unit * 10 ^ place.toNat := by positivity
  have hunit' : (0 : ℚ) < i.unit := by exact_mod_cast hunit
  -- The value in steps of the grid is a quotient of whole numbers.
  have hvalue : (i.value : ℚ) / i.unit =
      ((i.value * 10 ^ (-place).toNat : Nat) : ℚ) / ((i.unit * 10 ^ place.toNat : Nat) : ℚ) *
        10 ^ place := by
    have hsplit := zpow_ten_split place
    push_cast
    rw [← hsplit]
    field_simp
  rw [hvalue, Interval.nearest, Interval.locate]
  dsimp only
  generalize i.value * 10 ^ (-place).toNat = a
  generalize i.unit * 10 ^ place.toNat = b at hdivisor
  have hb : (0 : ℚ) < b := by exact_mod_cast hdivisor
  have hparts : ((a % b : Nat) : ℚ) + b * ((a / b : Nat) : ℚ) = a := by
    exact_mod_cast Nat.mod_add_div a b
  have hrest : ((a % b : Nat) : ℚ) < b := by exact_mod_cast Nat.mod_lt a hdivisor
  have hquotient : (a : ℚ) / b = (a / b : Nat) + ((a % b : Nat) : ℚ) / b := by
    rw [← hparts]
    field_simp
    ring
  have hpositive : 0 ≤ ((a % b : Nat) : ℚ) / b := by positivity
  have hless : ((a % b : Nat) : ℚ) / b < 1 := (div_lt_one hb).mpr hrest
  rw [← sub_mul, abs_mul, abs_of_pos hten, hquotient, div_eq_inv_mul (10 ^ place), ← one_div]
  refine mul_le_mul_of_nonneg_right ?_ hten.le
  by_cases hupper : b ≤ 2 * (a % b)
  · have hhalf : (1 : ℚ) / 2 ≤ ((a % b : Nat) : ℚ) / b := by
      have hcast : (b : ℚ) ≤ 2 * ((a % b : Nat) : ℚ) := by exact_mod_cast hupper
      rw [le_div_iff₀ hb]
      linarith
    rw [if_pos (decide_eq_true hupper), abs_le]
    push_cast
    constructor <;> linarith
  · have hhalf : ((a % b : Nat) : ℚ) / b ≤ 1 / 2 := by
      have hcast : 2 * ((a % b : Nat) : ℚ) ≤ (b : ℚ) := by exact_mod_cast (not_le.mp hupper).le
      rw [div_le_iff₀ hb]
      linarith
    rw [if_neg (by simpa using hupper), abs_le]
    constructor <;> linarith

/-- The place of the leading digit is not above the value. -/
theorem leadingPlace_le (i : Interval) (hunit : 0 < i.unit) (hvalue : 0 < i.value) :
    (10 : ℚ) ^ i.leadingPlace ≤ (i.value : ℚ) / i.unit := by
  have hunit' : (0 : ℚ) < i.unit := by exact_mod_cast hunit
  rw [Interval.leadingPlace]
  by_cases hwhole : i.unit ≤ i.value
  · rw [if_pos hwhole, le_div_iff₀ hunit']
    have hpos : 0 < i.value / i.unit := Nat.div_pos hwhole hunit
    have hlen : 0 < (Nat.toDigits 10 (i.value / i.unit)).length := Nat.length_toDigits_pos
    have hle := le_of_length_toDigits _ hpos
    rw [Nat.le_div_iff_mul_le hunit] at hle
    have hpower : ((Nat.toDigits 10 (i.value / i.unit)).length : Int) - 1 =
        ((Nat.toDigits 10 (i.value / i.unit)).length - 1 : Nat) := by
      omega
    rw [hpower, zpow_natCast]
    exact_mod_cast hle
  · rw [if_neg hwhole]
    -- Below one the place is that of the inverse, and one lower if that is still too high.
    generalize ht : (Nat.toDigits 10 (i.unit / i.value)).length - 1 = t
    have hclose : i.unit < i.value * 10 ^ (t + 1) := by
      have hlen : 0 < (Nat.toDigits 10 (i.unit / i.value)).length := Nat.length_toDigits_pos
      have hlt := (Nat.length_toDigits_le_iff (b := 10) (n := i.unit / i.value) (k := t + 1)
        (by decide) (by omega)).mp (by omega)
      rwa [Nat.div_lt_iff_lt_mul hvalue, Nat.mul_comm] at hlt
    have hplace : ∀ k : Nat, i.unit ≤ i.value * 10 ^ k →
        (10 : ℚ) ^ (-(k : Int)) ≤ i.value / i.unit := by
      intro k hle
      have hcast : (i.unit : ℚ) ≤ i.value * 10 ^ k := by exact_mod_cast hle
      rw [zpow_neg, zpow_natCast, inv_le_iff_one_le_mul₀ (by positivity), div_mul_eq_mul_div,
        le_div_iff₀ hunit', one_mul]
      exact hcast
    by_cases hsmall : i.unit ≤ i.value * 10 ^ t
    · rw [if_pos hsmall]
      exact hplace t hsmall
    · rw [if_neg hsmall]
      exact_mod_cast hplace (t + 1) hclose.le

/-- Seventeen digits suffice: then half a step of the grid is less than the way to either end. -/
theorem holds_of_seventeen (m : Nat) (e : Int) (h : Canonical m e) (place : Int)
    (hplace : (10 : ℚ) ^ (place + 16) ≤ m * 2 ^ e) :
    (Interval.around m e).holds ((Interval.around m e).nearest place) place = true := by
  have hunit : (0 : ℚ) < 2 ^ e := by positivity
  have hdist := nearest_dist (Interval.around m e) place (Nat.two_pow_pos _)
  rw [value_around] at hdist
  generalize (Interval.around m e).nearest place = n at hdist
  -- The way to an end is a quarter of the last place, and only for powers of two.
  have hway : (m : ℚ) / (2 * 10 ^ 16) < quartersBelow m e / 4 := by
    have hlt : (m : ℚ) < 2 ^ 53 := by exact_mod_cast h.lt
    rw [quartersBelow]
    by_cases hpower : m = 2 ^ 52 ∧ -1074 < e
    · rw [if_pos hpower, hpower.1]
      norm_num
    · rw [if_neg hpower]
      push_cast
      linarith
  have hstep : (10 : ℚ) ^ place / 2 / 2 ^ e ≤ m / (2 * 10 ^ 16) := by
    have hsixteen : (10 : ℚ) ^ (place + 16) = 10 ^ place * 10 ^ 16 := by
      rw [zpow_add₀ (by norm_num)]
      norm_num
    rw [hsixteen] at hplace
    rw [div_le_iff₀ hunit, div_mul_eq_mul_div, le_div_iff₀ (by norm_num)]
    linarith
  have hclose : |(n : ℚ) * 10 ^ place / 2 ^ e - m| ≤ m / (2 * 10 ^ 16) := by
    have hscaled : (n : ℚ) * 10 ^ place / 2 ^ e - m = (n * 10 ^ place - m * 2 ^ e) / 2 ^ e := by
      field_simp
    rw [hscaled, abs_div, abs_of_pos hunit]
    exact le_trans (div_le_div_of_nonneg_right hdist hunit.le) hstep
  have hquarters : (quartersBelow m e : ℚ) ≤ 2 := by exact_mod_cast (quartersBelow_bounds m e).2
  rw [abs_le] at hclose
  rw [holds_around m e n place h.pos]
  refine ⟨by linarith, by linarith, fun _ => ⟨?_, ?_⟩⟩
  · intro heq
    linarith
  · intro heq
    linarith

/-! ### The shortest decimal -/

theorem dropZeros_spec (fuel n : Nat) (place : Int) (hpos : 0 < n) :
    0 < (dropZeros fuel n place).1 ∧
      ((dropZeros fuel n place).1 : ℚ) * 10 ^ (dropZeros fuel n place).2 = n * 10 ^ place := by
  induction fuel generalizing n place with
  | zero => exact ⟨hpos, rfl⟩
  | succ fuel ih =>
    rw [dropZeros]
    by_cases hzero : n % 10 = 0
    · rw [if_pos hzero]
      rcases ih (n / 10) (place + 1) (by omega) with ⟨hpos', hvalue⟩
      have hten : (n : ℚ) = ((n / 10 : Nat) : ℚ) * 10 := by
        have hnat : n = n / 10 * 10 := by omega
        exact_mod_cast hnat
      refine ⟨hpos', ?_⟩
      rw [hvalue, hten, zpow_add_one₀ (by norm_num)]
      ring
    · rw [if_neg hzero]
      exact ⟨hpos, rfl⟩

/-- A decimal that the interval holds becomes the double without its zeros as well. -/
theorem near_dropZeros (m : Nat) (e : Int) (h : Canonical m e) (n : Nat) (place : Int)
    (hholds : (Interval.around m e).holds n place = true) :
    0 < (dropZeros 20 n place).1 ∧
      Near m e ((dropZeros 20 n place).1 * 10 ^ (dropZeros 20 n place).2 / 2 ^ e) := by
  have hnear := near_of_holds m e n place h.pos hholds
  have hunit : (0 : ℚ) < 1 / 2 * 2 ^ e := by positivity
  have hpos : 0 < n := by
    have hvalue := lt_of_lt_of_le hunit (half_le_of_near m e h _ hnear)
    by_contra hzero
    have hnone : n = 0 := by omega
    rw [hnone, Nat.cast_zero, zero_mul] at hvalue
    exact lt_irrefl _ hvalue
  rcases dropZeros_spec 20 n place hpos with ⟨hpos', hvalue⟩
  rw [hvalue]
  exact ⟨hpos', hnear⟩

/-- The shortest decimal becomes the double. -/
theorem shortest_near (m : Nat) (e : Int) (h : Canonical m e) :
    0 < (shortest m e).1 ∧ Near m e ((shortest m e).1 * 10 ^ (shortest m e).2 / 2 ^ e) := by
  rw [shortest]
  dsimp only
  cases hsearch : (List.range 17).findSome? fun (count : Nat) =>
      ((Interval.around m e).onGrid? ((Interval.around m e).leadingPlace - count)).map fun n =>
        (n, (Interval.around m e).leadingPlace - count) with
  | some found =>
    rcases found with ⟨n, place⟩
    rcases List.exists_of_findSome?_eq_some hsearch with ⟨count, -, hgrid⟩
    rcases Option.map_eq_some_iff.mp hgrid with ⟨n', hn', heq⟩
    rcases Prod.mk.inj heq with ⟨rfl, rfl⟩
    exact near_dropZeros m e h n' _ (holds_of_onGrid? _ _ _ hn')
  | none =>
    -- The search ends at the seventeenth digit at the latest.
    have hlast := List.findSome?_eq_none_iff.mp hsearch 16 (by decide)
    have hscale : (0 : Nat) < 2 ^ (e - 2).toNat := Nat.two_pow_pos _
    have hvalue : 0 < (Interval.around m e).value :=
      Nat.mul_pos (Nat.mul_pos (by decide) h.pos) hscale
    have hleading := leadingPlace_le (Interval.around m e) (Nat.two_pow_pos _) hvalue
    rw [value_around] at hleading
    have hplace : (Interval.around m e).leadingPlace - ((16 : Nat) : Int) + 16 =
        (Interval.around m e).leadingPlace := by
      omega
    rw [← hplace] at hleading
    have hholds := holds_of_seventeen m e h _ hleading
    rw [onGrid?_of_nearest _ _ hholds] at hlast
    exact absurd hlast (by simp)

/-- A double is read back from its text. -/
theorem readDouble_writeDouble (x : Float) : readDouble (writeDouble x).toList = some x := by
  have hx := eq_packed_of_exact x
  rw [writeDouble, String.toList_ofList]
  generalize hexact : exact x = value at hx
  cases value with
  | notANumber =>
    rw [hx]
    rfl
  | infinite negative =>
    rw [hx]
    cases negative <;> rfl
  | finite negative m e =>
    -- Zero is read by evaluation. Any other number is near to the decimal that is written for it.
    cases m with
    | zero =>
      have hzero : withSign negative ['0'] = withSign negative (plain 0 0) := rfl
      have hread := readDouble_plain negative 0 0
      have hdouble : (plainDecimal negative 0 0).toDouble = packed (.zero (signOf negative)) := by
        cases negative <;> decide +kernel
      rw [← hzero, hdouble] at hread
      rw [hx]
      exact hread
    | succ m =>
      have hcanonical := canonical_of_exact x negative (m + 1) e hexact (Nat.succ_pos m)
      rcases shortest_near (m + 1) e hcanonical with ⟨hpos, hnear⟩
      have hread := readDouble_plain negative (shortest (m + 1) e).1 (shortest (m + 1) e).2
      rw [toDouble_of_near _ _ hcanonical _ hpos negative _ hnear] at hread
      rw [hx]
      exact hread

end Number

end StoragePolicy
