import StoragePolicy.Proofs.Number.Decimal
import StoragePolicy.Proofs.Number.Packing

/-!
# Decimals to doubles

A decimal is turned into a double by one multiplication or division. Short numbers and small powers
of ten are doubles themselves and go the fast way; all others are taken as mantissas of any length.
Either way the result is rounded once.

## Theorems

* `ofScientific_of_near`: The double that a decimal is near to is the one that it becomes.
* `toDouble_of_near`: So it is for the decimal of a number in positional notation.
-/

namespace StoragePolicy

namespace Number

open Float.Model Float.Model.UnpackedFloat

/-! ### The fast way -/

/-- A short number is a double. -/
theorem canonical_short (n : Nat) (hpos : 0 < n) (hlt : n < 2 ^ 53) :
    Canonical (n * 2 ^ (52 - n.log2)) ((n.log2 : Int) - 52) := by
  have hlog : n.log2 < 53 := (Nat.log2_lt hpos.ne').mpr hlt
  have hself := Nat.log2_self_le hpos.ne'
  have hnext : n < 2 ^ (n.log2 + 1) := Nat.lt_log2_self
  have hlower : 2 ^ 52 ≤ n * 2 ^ (52 - n.log2) :=
    calc 2 ^ 52 = 2 ^ n.log2 * 2 ^ (52 - n.log2) := by rw [← Nat.pow_add]; congr 1; omega
      _ ≤ n * 2 ^ (52 - n.log2) := Nat.mul_le_mul_right _ hself
  have hupper : n * 2 ^ (52 - n.log2) < 2 ^ 53 :=
    calc n * 2 ^ (52 - n.log2) < 2 ^ (n.log2 + 1) * 2 ^ (52 - n.log2) :=
          Nat.mul_lt_mul_of_pos_right hnext (by positivity)
      _ = 2 ^ 53 := by rw [← Nat.pow_add]; congr 1; omega
  exact
    { pos := by omega
      lt := hupper
      low := by omega
      high := by omega
      full := Or.inl hlower }

/-- The value of a short number, as mantissa and exponent. -/
theorem value_short (n : Nat) (hpos : 0 < n) (hlt : n < 2 ^ 53) :
    (n : ℚ) = ((n * 2 ^ (52 - n.log2) : Nat) : ℚ) * 2 ^ ((n.log2 : Int) - 52) := by
  have hlog : n.log2 < 53 := (Nat.log2_lt hpos.ne').mpr hlt
  have hpower : (2 : ℚ) ^ (52 - n.log2) * 2 ^ ((n.log2 : Int) - 52) = 1 := by
    rw [← zpow_natCast, ← zpow_add₀ (by norm_num)]
    have hzero : ((52 - n.log2 : Nat) : Int) + ((n.log2 : Int) - 52) = 0 := by omega
    rw [hzero, zpow_zero]
  push_cast
  rw [mul_assoc, hpower, mul_one]

/-- A double is near to itself. -/
theorem near_self (m : Nat) (e : Int) : Near m e m := by
  refine ⟨⟨by linarith, by linarith, ?_⟩, fun _ _ => by linarith⟩
  rintro (heq | heq)
  · linarith
  · linarith

theorem ofNat_short (n : Nat) (hpos : 0 < n) (hlt : n < 2 ^ 53) :
    UnpackedFloat.ofNat Format.binary64 n =
      .finite .positive (n * 2 ^ (52 - n.log2)) ((n.log2 : Int) - 52)
        (canonical_short n hpos hlt).pos := by
  have hlog : n.log2 < 53 := (Nat.log2_lt hpos.ne').mpr hlt
  have hcanonical := canonical_short n hpos hlt
  have htarget : Format.binary64.targetExponent (totalExponent n 0) = (n.log2 : Int) - 52 := by
    rw [targetExponent_binary64]
    omega
  have hshift : ((0 : Int) - ((n.log2 : Int) - 52)).toNat = 52 - n.log2 := by omega
  have hexponent : (0 : Int) - ((52 - n.log2 : Nat) : Int) = (n.log2 : Int) - 52 := by omega
  have hcompare : compare (n : Int) 0 = .gt := by
    rw [Int.compare_eq_gt]
    omega
  have hunit : (2 : ℚ) ^ ((n.log2 : Int) - 52) ≠ 0 := by positivity
  -- The number is its own value, so that nothing is rounded.
  have hself : (n : ℚ) / 2 ^ ((n.log2 : Int) - 52) = ((n * 2 ^ (52 - n.log2) : Nat) : ℚ) := by
    rw [div_eq_iff hunit]
    exact value_short n hpos hlt
  have hplaces : 2 ^ 52 ≤ n * 2 ^ (52 - n.log2) := by
    rcases hcanonical.full with hfull | hmin
    · exact hfull
    · omega
  have hplaces' := (Nat.le_log2 hcanonical.pos.ne').mpr hplaces
  rw [UnpackedFloat.ofNat, UnpackedFloat.ofInt, UnpackedFloat.normalize, hcompare]
  dsimp only
  rw [Int.toNat_natCast, UnpackedFloat.round, htarget, decreaseExponent, hshift, hexponent,
    Nat.shiftLeft_eq]
  refine roundWithAccuracy_of_near _ _ hcanonical n ?_ _ _ _ _ ?_ (by omega)
  · rw [hself]
    exact near_self _ _
  · rw [hself]
    exact stands_exact _

theorem toFloat_short (n : Nat) (hpos : 0 < n) (hlt : n < 2 ^ 53) :
    n.toUInt64.toFloat = packed (.finite .positive (n * 2 ^ (52 - n.log2)) ((n.log2 : Int) - 52)
      (canonical_short n hpos hlt).pos) := by
  have hword : n.toUInt64.toNat = n := Nat.mod_eq_of_lt (by omega)
  have hdef : n.toUInt64.toFloat = packed (UnpackedFloat.ofNat Format.binary64 n.toUInt64.toNat) :=
    rfl
  rw [hdef, hword, ofNat_short n hpos hlt]

theorem powersOfTen_table : ∀ k : Fin Float.exactlyRepresentablePowersOfTen.size,
    exact Float.exactlyRepresentablePowersOfTen[k] =
      .finite false (10 ^ k.1 * 2 ^ 52 / 2 ^ (10 ^ k.1).log2) ((10 ^ k.1).log2 - 52) ∧
    10 ^ k.1 * 2 ^ 52 = 10 ^ k.1 * 2 ^ 52 / 2 ^ (10 ^ k.1).log2 * 2 ^ (10 ^ k.1).log2 ∧
    2 ^ 52 ≤ 10 ^ k.1 * 2 ^ 52 / 2 ^ (10 ^ k.1).log2 := by
  decide +kernel

/-- The powers of ten of the fast way are exact. -/
theorem powerOfTen_exact (k : Nat) (hk : k < Float.exactlyRepresentablePowersOfTen.size) :
    ∃ m e, ∃ h : Canonical m e, Float.exactlyRepresentablePowersOfTen[k] =
      packed (.finite .positive m e h.pos) ∧ (10 : ℚ) ^ k = m * 2 ^ e := by
  rcases powersOfTen_table ⟨k, hk⟩ with ⟨hexact, hvalue, hfull⟩
  dsimp only at hexact hvalue hfull
  generalize 10 ^ k * 2 ^ 52 / 2 ^ (10 ^ k).log2 = m at hexact hvalue hfull
  generalize (10 ^ k).log2 = l at hexact hvalue
  have hpos : 0 < m := by omega
  have hcanonical := canonical_of_exact _ _ _ _ hexact hpos
  refine ⟨m, (l : Int) - 52, hcanonical, eq_packed_finite _ _ _ _ hexact hpos, ?_⟩
  have hcast : (10 : ℚ) ^ k * 2 ^ 52 = m * 2 ^ l := by exact_mod_cast hvalue
  have hpower : (2 : ℚ) ^ (52 : Int) = 2 ^ 52 := by norm_num
  rw [zpow_sub₀ (by norm_num), zpow_natCast, mul_div_assoc', ← hcast, hpower]
  field_simp

theorem le_of_length_toDigits (n : Nat) (hpos : 0 < n) :
    10 ^ ((Nat.toDigits 10 n).length - 1) ≤ n := by
  have hlen : 0 < (Nat.toDigits 10 n).length := Nat.length_toDigits_pos
  by_contra hlt
  by_cases hone : (Nat.toDigits 10 n).length - 1 = 0
  · rw [hone, Nat.pow_zero] at hlt
    omega
  · have hle := (Nat.length_toDigits_le_iff (by decide) (Nat.pos_of_ne_zero hone)).mpr
      (not_le.mp hlt)
    omega

/-- The largest double is below this power of ten. -/
theorem power_max : (2 : ℚ) ^ (1024 : Int) ≤ 10 ^ (309 : Int) := by
  have hnat : 2 ^ 1024 ≤ 10 ^ 309 := by decide +kernel
  have hcast : ((2 ^ 1024 : Nat) : ℚ) ≤ ((10 ^ 309 : Nat) : ℚ) := Nat.cast_le.mpr hnat
  rw [Nat.cast_pow, Nat.cast_pow, ← zpow_natCast, ← zpow_natCast] at hcast
  exact hcast

/-- Half of the smallest double is above this power of ten. -/
theorem power_min : (10 : ℚ) ^ (-330 : Int) < 1 / 2 * 2 ^ (-1074 : Int) := by
  have hnat : 2 ^ 1075 < 10 ^ 330 := by decide +kernel
  have hcast : ((2 ^ 1075 : Nat) : ℚ) < ((10 ^ 330 : Nat) : ℚ) := Nat.cast_lt.mpr hnat
  rw [Nat.cast_pow, Nat.cast_pow, ← zpow_natCast, ← zpow_natCast] at hcast
  have hhalf : 1 / 2 * (2 : ℚ) ^ (-1074 : Int) = 2 ^ (-1075 : Int) := by
    have hsum : (-1075 : Int) = -1 + -1074 := by norm_num
    rw [hsum, zpow_add₀ (by norm_num), zpow_neg_one, one_div]
  rw [hhalf, zpow_neg, zpow_neg]
  exact inv_strictAnti₀ (by positivity) hcast

/-! ### Leading digits -/

/-- A decimal of `l` digits is not below the power of ten of its leading digit. -/
theorem power_le_scaled (d : Nat) (hd : 0 < d) (e : Int) :
    (10 : ℚ) ^ (((Nat.toDigits 10 d).length : Int) - 1 + e) ≤ d * 10 ^ e := by
  have hunit : (0 : ℚ) < 10 ^ e := by positivity
  have hlpos : 0 < (Nat.toDigits 10 d).length := Nat.length_toDigits_pos
  have hge := le_of_length_toDigits d hd
  have hcast : (10 : ℚ) ^ (((Nat.toDigits 10 d).length : Int) - 1) ≤ d := by
    have hpower : ((Nat.toDigits 10 d).length : Int) - 1 = ((Nat.toDigits 10 d).length - 1 : Nat) :=
      by omega
    rw [hpower, zpow_natCast]
    exact_mod_cast hge
  rw [zpow_add₀ (by norm_num)]
  exact mul_le_mul_of_nonneg_right hcast hunit.le

/-- It is below the next power of ten. -/
theorem scaled_lt_power (d : Nat) (e : Int) :
    (d : ℚ) * 10 ^ e < 10 ^ (((Nat.toDigits 10 d).length : Int) + e) := by
  have hunit : (0 : ℚ) < 10 ^ e := by positivity
  have hlt : d < 10 ^ (Nat.toDigits 10 d).length :=
    (Nat.length_toDigits_le_iff (by decide) Nat.length_toDigits_pos).mp le_rfl
  have hcast : (d : ℚ) < 10 ^ ((Nat.toDigits 10 d).length : Int) := by
    rw [zpow_natCast]
    exact_mod_cast hlt
  rw [zpow_add₀ (by norm_num)]
  exact mul_lt_mul_of_pos_right hcast hunit

/-! ### Both ways -/

section Near

variable (M : Nat) (E : Int) (hcanonical : Canonical M E) (n : Nat) (hpos : 0 < n)

include hpos

/-- Short numbers and small powers of ten are multiplied or divided as doubles. -/
theorem fast_of_near (below : Bool) (k : Nat) (hlt : n < 2 ^ 53)
    (hk : k < Float.exactlyRepresentablePowersOfTen.size)
    (hnear : Near M E (n * 10 ^ (if below then -(k : Int) else k) / 2 ^ E)) :
    (if below then n.toUInt64.toFloat / Float.exactlyRepresentablePowersOfTen[k]
      else n.toUInt64.toFloat * Float.exactlyRepresentablePowersOfTen[k]) =
      packed (.finite .positive M E hcanonical.pos) := by
  have hshort := canonical_short n hpos hlt
  have hvalue := value_short n hpos hlt
  have hfloat := toFloat_short n hpos hlt
  rcases powerOfTen_exact k hk with ⟨m, e, hpower, htable, hten⟩
  -- Both operands are exact, so that there is one rounding.
  rw [hfloat, htable]
  cases below with
  | true =>
    have hquotient : (n : ℚ) * 10 ^ (-(k : Int)) =
        ((n * 2 ^ (52 - n.log2) : Nat) : ℚ) * 2 ^ ((n.log2 : Int) - 52) / (m * 2 ^ e) := by
      rw [← hvalue, ← hten, zpow_neg, zpow_natCast, div_eq_mul_inv]
    have hdiv := div_of_near M E hcanonical _ hnear .positive .positive _ m _ e hshort.pos
      hpower.pos
      hquotient
    have hdef : ∀ x y : Float, x / y =
        packed (UnpackedFloat.div Format.binary64 x.toModel.unpack y.toModel.unpack) :=
      fun _ _ => rfl
    rw [if_pos rfl, hdef, unpack_packed _ _ _ hshort, unpack_packed _ _ _ hpower, hdiv]
    rfl
  | false =>
    have hproduct : (n : ℚ) * 10 ^ (k : Int) =
        ((n * 2 ^ (52 - n.log2) : Nat) : ℚ) * 2 ^ ((n.log2 : Int) - 52) * (m * 2 ^ e) := by
      rw [← hvalue, ← hten, zpow_natCast]
    have hplaces : 2 ^ 52 ≤ n * 2 ^ (52 - n.log2) * m := by
      rcases hshort.full with hfull | hmin
      · exact le_trans hfull (Nat.le_mul_of_pos_right _ hpower.pos)
      · omega
    have hmul := mul_of_near M E hcanonical _ hnear .positive .positive _ m _ e hshort.pos
      hpower.pos
      hproduct hplaces
    have hdef : ∀ x y : Float, x * y =
        packed (UnpackedFloat.mul Format.binary64 x.toModel.unpack y.toModel.unpack) :=
      fun _ _ => rfl
    rw [if_neg Bool.false_ne_true, hdef, unpack_packed _ _ _ hshort, unpack_packed _ _ _ hpower,
      hmul]
    rfl

/-- All others are multiplied or divided as whole numbers. -/
theorem slow_of_near (e : Int) (hlow : -(2048 + (n.log2 : Int)) ≤ e) (hhigh : e ≤ 2048)
    (hnear : Near M E (n * 10 ^ e / 2 ^ E)) :
    UnpackedFloat.ofScientific Format.binary64 n e = .finite .positive M E hcanonical.pos := by
  have hlarge : ¬ e > 2 ^ 11 := by omega
  have hsmall : ¬ e < -((2 ^ 11 : Int) + n.log2) := by omega
  rw [UnpackedFloat.ofScientific, dif_neg hpos.ne', if_neg hlarge, if_neg hsmall]
  -- The power of ten is a factor or a divisor, and a whole number in both cases.
  by_cases he : 0 ≤ e
  · have hproduct : (n : ℚ) * (10 : ℚ) ^ e = ((n <<< 53 : Nat) : ℚ) * 2 ^ (-((53 : Nat) : Int)) *
        (((10 ^ e.toNat : Nat) : ℚ) * 2 ^ (0 : Int)) := by
      have hpower : (10 : ℚ) ^ e = 10 ^ e.toNat := by
        rw [← zpow_natCast]
        congr 1
        omega
      rw [hpower, Nat.shiftLeft_eq, zpow_neg, zpow_natCast, zpow_zero]
      push_cast
      field_simp
      norm_num
    -- The product has places enough, since the number has been moved to the left.
    have hplaces : 2 ^ 52 ≤ n <<< 53 * 10 ^ e.toNat := by
      rw [Nat.shiftLeft_eq]
      have hten : 0 < 10 ^ e.toNat := by positivity
      exact le_trans (by omega) (Nat.le_mul_of_pos_right _ hten)
    rw [if_pos he]
    exact mul_of_near M E hcanonical _ hnear .positive .positive _ _ _ _ _ _ hproduct hplaces
  · have hquotient : (n : ℚ) * 10 ^ e =
        (n : ℚ) * 2 ^ (0 : Int) / (((10 ^ (-e).toNat : Nat) : ℚ) * 2 ^ (0 : Int)) := by
      have hpower : (10 : ℚ) ^ e = (10 ^ (-e).toNat)⁻¹ := by
        rw [← zpow_natCast, ← zpow_neg]
        congr 1
        omega
      rw [hpower, zpow_zero]
      push_cast
      ring
    rw [if_neg he]
    exact div_of_near M E hcanonical _ hnear .positive .positive _ _ _ _ _ _ hquotient

/-- The double that a decimal is near to is the one that it becomes. -/
theorem ofScientific_of_near (e : Int) (hlow : -(2048 + (n.log2 : Int)) ≤ e) (hhigh : e ≤ 2048)
    (hnear : Near M E (n * 10 ^ e / 2 ^ E)) :
    Float.ofScientific n (e < 0) e.natAbs = packed (.finite .positive M E hcanonical.pos) := by
  have hsigned : (if decide (e < 0) then -(e.natAbs : Int) else e.natAbs) = e := by
    by_cases he : e < 0
    · rw [if_pos (decide_eq_true he)]
      omega
    · rw [if_neg (by simpa using he)]
      omega
  have hexponent : (if decide (e < 0) then Int.negOfNat e.natAbs else Int.ofNat e.natAbs) = e := by
    rw [Int.negOfNat_eq]
    exact hsigned
  rw [Float.ofScientific]
  split
  · next hfast =>
    refine fast_of_near M E hcanonical n hpos (e < 0) e.natAbs hfast.1
      (Nat.lt_succ_of_le hfast.2) ?_
    rw [hsigned]
    exact hnear
  · rw [hexponent]
    exact congrArg packed (slow_of_near M E hcanonical n hpos e hlow hhigh hnear)

/-- The decimal of a number in positional notation becomes the double that the number is near to. -/
theorem toDouble_of_near (negative : Bool) (place : Int)
    (hnear : Near M E (n * 10 ^ place / 2 ^ E)) :
    (plainDecimal negative n place).toDouble =
      packed (.finite (signOf negative) M E hcanonical.pos) := by
  have hdigits : 0 < n * 10 ^ place.toNat := by positivity
  have hvalue : ((n * 10 ^ place.toNat : Nat) : ℚ) * 10 ^ min place 0 = n * 10 ^ place := by
    push_cast
    rw [mul_assoc, ← zpow_natCast, ← zpow_add₀ (by norm_num)]
    congr 2
    omega
  rw [← hvalue] at hnear
  rw [Decimal.toDouble, plainDecimal]
  dsimp only
  generalize hd : n * 10 ^ place.toNat = d at hdigits hnear
  generalize he : min place 0 = e at hnear
  have hle : e ≤ 0 := by omega
  have hupper := lt_of_near M E hcanonical _ hnear
  have hlower := half_le_of_near M E hcanonical _ hnear
  have hE := hcanonical.low
  have hE' := hcanonical.high
  -- The leading digit of a number between the smallest and the largest double.
  have hbelow := power_le_scaled d hdigits e
  have habove := scaled_lt_power d e
  have hge := le_of_length_toDigits d hdigits
  generalize (Nat.toDigits 10 d).length = l at hbelow habove hge ⊢
  have hplace : (l : Int) - 1 + e < 309 := by
    refine (zpow_lt_zpow_iff_right₀ (a := (10 : ℚ)) (by norm_num)).mp ?_
    have hmax : (2 : ℚ) ^ (E + 53) ≤ 2 ^ (1024 : Int) := by
      refine zpow_le_zpow_right₀ (by norm_num) ?_
      omega
    exact lt_of_le_of_lt hbelow (lt_of_lt_of_le hupper (le_trans hmax power_max))
  have hplace' : -330 < (l : Int) + e := by
    refine (zpow_lt_zpow_iff_right₀ (a := (10 : ℚ)) (by norm_num)).mp ?_
    have hmin : (2 : ℚ) ^ (-1074 : Int) ≤ 2 ^ E := zpow_le_zpow_right₀ (by norm_num) hE
    exact lt_of_lt_of_le power_min (le_trans
      (le_trans (mul_le_mul_of_nonneg_left hmin (by norm_num))
      hlower) habove.le)
  have hlog : l - 1 ≤ d.log2 := by
    rw [Nat.le_log2 hdigits.ne']
    exact le_trans (Nat.pow_le_pow_left (by omega) _) hge
  rw [if_neg hdigits.ne', if_neg (by omega), if_neg (by omega),
    ofScientific_of_near M E hcanonical d hdigits e (by omega) (by omega) hnear]
  exact signed_packed negative M E hcanonical

end Near

end Number

end StoragePolicy
