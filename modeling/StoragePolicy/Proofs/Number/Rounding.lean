import Mathlib

/-!
# Rounding to doubles

A product or a quotient of doubles is first cut to a mantissa with two residual bits, which say
where between the mantissa and the next one the exact value lies. Then it is shifted to the exponent
that a double of its size must have, and rounded; if the mantissa becomes too long by that, it is
shifted once more.

Here the way is gone backwards. Given a double, every exact value that is nearer to it than to its
neighbours is shown to become this double. The lower neighbour of a power of two is only half as far
away as the upper one. A value just below a power of two has an exponent smaller by one at first,
and it is the only one that is shifted twice.

## Main definitions

* `Stands`: The number that a mantissa with residual bits stands for.
* `Rounds`: The whole number that a number is rounded to.
* `Canonical`: The mantissas and exponents of doubles.
* `Near`: The numbers that become a given double.

## Theorems

* `stands_shiftRight`: Shifting divides by powers of two.
* `rounds_roundedMantissa`: The residual bits suffice for rounding.
* `roundWithAccuracy_of_near`, `div_of_near`, `mul_of_near`: Rounding ends in the double that the
  exact value is near to.
-/

namespace StoragePolicy

namespace Number

open Float.Model Float.Model.UnpackedFloat

/-- The number that a mantissa with residual bits stands for, in units of its last place. -/
structure Stands (em : ExtendedMantissa) (x : ℚ) : Prop where
  low : (em.mantissa : ℚ) ≤ x
  high : x < em.mantissa + 1
  roundBit : em.roundBit = true ↔ (em.mantissa : ℚ) + 1 / 2 ≤ x
  stickyBit : em.stickyBit = true ↔ x ≠ em.mantissa ∧ x ≠ em.mantissa + 1 / 2

/-- The whole number that a number is rounded to; a half goes to the even one. -/
structure Rounds (x : ℚ) (n : Nat) : Prop where
  low : (n : ℚ) - 1 / 2 ≤ x
  high : x ≤ n + 1 / 2
  even : x = n - 1 / 2 ∨ x = n + 1 / 2 → n % 2 = 0

/-- The mantissa and the exponent of a finite double that is not zero. -/
structure Canonical (m : Nat) (e : Int) : Prop where
  pos : 0 < m
  lt : m < 2 ^ 53
  low : -1074 ≤ e
  high : e ≤ 971
  full : 2 ^ 52 ≤ m ∨ e = -1074

/-- The numbers that become the double `m * 2 ^ e`, in units of its last place. -/
structure Near (m : Nat) (e : Int) (x : ℚ) : Prop where
  rounds : Rounds x m
  power : m = 2 ^ 52 → -1074 < e → (m : ℚ) - 1 / 4 ≤ x

/-! ### Residual bits -/

theorem stands_exact (m : Nat) : Stands ⟨m, false, false⟩ m := by
  refine ⟨le_rfl, by linarith, ?_, ?_⟩
  · simp
  · simp

/-- One of the residual bits is set if anything is left over. -/
theorem residual_iff (em : ExtendedMantissa) (x : ℚ) (h : Stands em x) :
    (em.roundBit || em.stickyBit) = true ↔ x ≠ em.mantissa := by
  rw [Bool.or_eq_true, h.roundBit, h.stickyBit]
  constructor
  · rintro (hround | hsticky)
    · intro heq
      rw [heq] at hround
      linarith
    · exact hsticky.1
  · intro hne
    by_cases hhalf : x = em.mantissa + 1 / 2
    · exact Or.inl hhalf.ge
    · exact Or.inr ⟨hne, hhalf⟩

/-- Halving keeps the residual bits right: what is left over at all makes the new sticky bit. -/
theorem stands_shiftRightOne (em : ExtendedMantissa) (x : ℚ) (h : Stands em x) :
    Stands em.shiftRightOne (x / 2) := by
  have hparts := Nat.mod_add_div em.mantissa 2
  have hcast : ((em.mantissa % 2 : Nat) : ℚ) + 2 * ((em.mantissa / 2 : Nat) : ℚ) = em.mantissa := by
    exact_mod_cast hparts
  have hlow := h.low
  have hhigh := h.high
  have hsticky := residual_iff em x h
  have hshift : em.shiftRightOne =
      ⟨em.mantissa / 2, em.mantissa % 2 != 0, em.roundBit || em.stickyBit⟩ := rfl
  rw [hshift]
  -- The bit that falls off becomes the round bit.
  rcases Nat.mod_two_eq_zero_or_one em.mantissa with hbit | hbit
  · rw [hbit, Nat.cast_zero] at hcast
    refine ⟨?_, ?_, ?_, ?_⟩
    · dsimp only
      linarith
    · dsimp only
      linarith
    · rw [hbit]
      constructor
      · intro hfalse
        exact absurd hfalse Bool.false_ne_true
      · intro hge
        dsimp only at hge
        linarith
    · dsimp only
      rw [hsticky]
      constructor
      · intro hne
        refine ⟨fun heq => hne ?_, fun heq => ?_⟩
        · linarith
        · linarith
      · rintro ⟨hne, -⟩ heq
        apply hne
        linarith
  · rw [hbit, Nat.cast_one] at hcast
    refine ⟨?_, ?_, ?_, ?_⟩
    · dsimp only
      linarith
    · dsimp only
      linarith
    · rw [hbit]
      constructor
      · intro _
        dsimp only
        linarith
      · intro _
        rfl
    · dsimp only
      rw [hsticky]
      constructor
      · intro hne
        refine ⟨fun heq => ?_, fun heq => hne ?_⟩
        · linarith
        · linarith
      · rintro ⟨-, hne⟩ heq
        apply hne
        linarith

/-- Shifting divides by a power of two. -/
theorem stands_shiftRight (em : ExtendedMantissa) (x : ℚ) (h : Stands em x) (k : Nat) :
    Stands (em >>> k) (x / 2 ^ k) := by
  induction k with
  | zero =>
    rw [pow_zero, div_one]
    exact h
  | succ k ih =>
    have hstep : em >>> (k + 1) = (em >>> k).shiftRightOne := rfl
    rw [hstep, pow_succ, ← div_div]
    exact stands_shiftRightOne _ _ ih

theorem rounds_unique (x : ℚ) (m n : Nat) (hm : Rounds x m) (hn : Rounds x n) : m = n := by
  have hle : (m : ℚ) ≤ n + 1 := by linarith [hm.low, hn.high]
  have hge : (n : ℚ) ≤ m + 1 := by linarith [hm.high, hn.low]
  have hle' : m ≤ n + 1 := by exact_mod_cast hle
  have hge' : n ≤ m + 1 := by exact_mod_cast hge
  by_contra hne
  -- Between two neighbours there is one number only, and one of them is odd.
  rcases Nat.lt_or_gt_of_ne hne with hlt | hgt
  · have hsucc : n = m + 1 := by omega
    have hcast : (n : ℚ) = m + 1 := by exact_mod_cast hsucc
    have hx : x = m + 1 / 2 := by linarith [hm.high, hn.low]
    have hmEven := hm.even (Or.inr hx)
    have hnEven := hn.even (Or.inl (by linarith))
    omega
  · have hsucc : m = n + 1 := by omega
    have hcast : (m : ℚ) = n + 1 := by exact_mod_cast hsucc
    have hx : x = n + 1 / 2 := by linarith [hm.low, hn.high]
    have hmEven := hm.even (Or.inl (by linarith))
    have hnEven := hn.even (Or.inr hx)
    omega

/-- The residual bits suffice for rounding. -/
theorem rounds_roundedMantissa (em : ExtendedMantissa) (x : ℚ) (h : Stands em x) :
    Rounds x em.roundedMantissa := by
  rcases em with ⟨m, round, sticky⟩
  have hlow := h.low
  have hhigh := h.high
  have hround := h.roundBit
  have hsticky := h.stickyBit
  dsimp only at hlow hhigh hround hsticky
  cases round with
  | false =>
    have hlt : x < m + 1 / 2 := by
      by_contra hge
      exact absurd (hround.mpr (not_lt.mp hge)) (by decide)
    have hrounded : (ExtendedMantissa.mk m false sticky).roundedMantissa = m := by
      cases sticky <;> rfl
    rw [hrounded]
    refine ⟨by linarith, by linarith, ?_⟩
    rintro (heq | heq)
    · linarith
    · linarith
  | true =>
    have hge := hround.mp rfl
    cases sticky with
    | true =>
      have hne := (hsticky.mp rfl).2
      have hlt : (m : ℚ) + 1 / 2 < x := lt_of_le_of_ne hge (Ne.symm hne)
      have hrounded : (ExtendedMantissa.mk m true true).roundedMantissa = m + 1 := rfl
      rw [hrounded]
      refine ⟨by push_cast; linarith, by push_cast; linarith, ?_⟩
      push_cast
      rintro (heq | heq)
      · linarith
      · linarith
    | false =>
      -- Without the sticky bit the number lies half way.
      have hx : x = m + 1 / 2 := by
        by_contra hne
        have hne' : x ≠ m := by
          intro heq
          linarith
        exact absurd (hsticky.mpr ⟨hne', hne⟩) (by decide)
      have hrounded : (ExtendedMantissa.mk m true false).roundedMantissa = m + m % 2 := rfl
      rw [hrounded]
      rcases Nat.mod_two_eq_zero_or_one m with hbit | hbit
      · rw [hbit, Nat.add_zero]
        exact ⟨by linarith, by linarith, fun _ => hbit⟩
      · rw [hbit]
        refine ⟨by push_cast; linarith, by push_cast; linarith, fun _ => ?_⟩
        omega

/-! ### Rounding a mantissa -/

theorem targetExponent_binary64 (m : Nat) (e : Int) :
    Format.binary64.targetExponent (totalExponent m e) = max (m.log2 + 1 + e - 53) (-1074) := rfl

/-- The bits in which a number is cut, as powers of two. -/
theorem power_bounds (m : Nat) (e : Int) (v : ℚ) (hlow : (m : ℚ) ≤ v / 2 ^ e)
    (hhigh : v / 2 ^ e < m + 1) :
    v < 2 ^ ((m.log2 : Int) + 1 + e) ∧ (m ≠ 0 → (2 : ℚ) ^ ((m.log2 : Int) + e) ≤ v) := by
  have htwo : (2 : ℚ) ≠ 0 := by norm_num
  have hpos : (0 : ℚ) < 2 ^ e := by positivity
  rw [le_div_iff₀ hpos] at hlow
  rw [div_lt_iff₀ hpos] at hhigh
  constructor
  · have hlog : m + 1 ≤ 2 ^ (m.log2 + 1) := Nat.lt_log2_self
    have hcast : (m : ℚ) + 1 ≤ 2 ^ (m.log2 + 1) := by exact_mod_cast hlog
    have hsplit : (2 : ℚ) ^ ((m.log2 : Int) + 1 + e) = 2 ^ (m.log2 + 1) * 2 ^ e := by
      rw [zpow_add₀ htwo]
      congr 1
    rw [hsplit]
    exact lt_of_lt_of_le hhigh (mul_le_mul_of_nonneg_right hcast hpos.le)
  · intro hm
    have hcast : (2 : ℚ) ^ m.log2 ≤ m := by exact_mod_cast Nat.log2_self_le hm
    rw [zpow_add₀ htwo, zpow_natCast]
    exact le_trans (mul_le_mul_of_nonneg_right hcast hpos.le) hlow

theorem mantissa_ofMantissaAndAccuracy (m : Nat) (accuracy : Accuracy) :
    (ExtendedMantissa.ofMantissaAndAccuracy m accuracy).mantissa = m := by
  cases accuracy with
  | exact => rfl
  | inexact order => cases order <;> rfl

/-- The second shift leaves a mantissa alone that fits. -/
theorem shift_canonical (m : Nat) (e : Int) (h : Canonical m e) :
    shiftToTargetExponent Format.binary64 m e .exact = (⟨m, false, false⟩, e) := by
  have hlog : m.log2 < 53 := (Nat.log2_lt h.pos.ne').mpr h.lt
  have hlow := h.low
  have htarget : (max ((m.log2 : Int) + 1 + e - 53) (-1074) - e).toNat = 0 := by omega
  rw [shiftToTargetExponent, shiftToExponent, targetExponent_binary64, htarget, Nat.cast_zero,
    add_zero]
  rfl

/-- The second shift takes back what rounding has made too long. -/
theorem shift_overflow (e : Int) (he : -1074 < e) :
    shiftToTargetExponent Format.binary64 (2 ^ 53) (e - 1) .exact =
      (⟨2 ^ 52, false, false⟩, e) := by
  have hlog : (2 ^ 53 : Nat).log2 = 53 := by decide +kernel
  have htarget : (max (((2 ^ 53 : Nat).log2 : Int) + 1 + (e - 1) - 53) (-1074) - (e - 1)).toNat =
      1 := by
    rw [hlog]
    omega
  rw [shiftToTargetExponent, shiftToExponent, targetExponent_binary64, htarget, Nat.cast_one,
    sub_add_cancel]
  rfl

/-- The first shift goes to the exponent that the size of the number asks for. -/
theorem shift_first (m : Nat) (e : Int) (accuracy : Accuracy) (v : ℚ)
    (hstands : Stands (.ofMantissaAndAccuracy m accuracy) (v / 2 ^ e)) (T : Int)
    (hT : max ((m.log2 : Int) + 1 + e - 53) (-1074) = T) (he : e ≤ T) :
    ∃ em : ExtendedMantissa, Stands em (v / 2 ^ T) ∧
      shiftToTargetExponent Format.binary64 m e accuracy = (em, T) := by
  refine ⟨ExtendedMantissa.ofMantissaAndAccuracy m accuracy >>> (T - e).toNat, ?_, ?_⟩
  · have hshift := stands_shiftRight _ _ hstands (T - e).toNat
    have hpower : (2 : ℚ) ^ e * 2 ^ (T - e).toNat = 2 ^ T := by
      rw [← zpow_natCast, ← zpow_add₀ (by norm_num)]
      congr 1
      omega
    rw [div_div, hpower] at hshift
    exact hshift
  · rw [shiftToTargetExponent, shiftToExponent, targetExponent_binary64, hT]
    have hsum : e + ((T - e).toNat : Int) = T := by omega
    rw [hsum]

theorem zpow_two_add (E : Int) (k : Nat) : (2 : ℚ) ^ (E + k) = 2 ^ k * 2 ^ E := by
  rw [zpow_add₀ (by norm_num), mul_comm, zpow_natCast]

section Near

variable (M : Nat) (E : Int) (hcanonical : Canonical M E) (v : ℚ) (hnear : Near M E (v / 2 ^ E))

include hcanonical hnear

/-- A number that becomes a double lies below the power of two that no mantissa reaches. -/
theorem lt_of_near : v < 2 ^ (E + 53) := by
  have hunit : (0 : ℚ) < 2 ^ E := by positivity
  have hM : (M : ℚ) + 1 ≤ 2 ^ 53 := by exact_mod_cast hcanonical.lt
  have hround := hnear.rounds.high
  rw [div_le_iff₀ hunit] at hround
  have hsplit := zpow_two_add E 53
  push_cast at hsplit
  rw [hsplit]
  refine lt_of_le_of_lt hround (mul_lt_mul_of_pos_right ?_ hunit)
  linarith

/-- It is half of the last place at least. -/
theorem half_le_of_near : 1 / 2 * 2 ^ E ≤ v := by
  have hunit : (0 : ℚ) < 2 ^ E := by positivity
  have hM : (1 : ℚ) ≤ M := by exact_mod_cast hcanonical.pos
  have hround := hnear.rounds.low
  rw [le_div_iff₀ hunit] at hround
  refine le_trans (mul_le_mul_of_nonneg_right ?_ hunit.le) hround
  linarith

/-- A unit above the number is not below the last place of the double. -/
theorem exponent_le_of_lt (e : Int) (hlt : v < 2 ^ e) : E ≤ e := by
  have hhalf : (2 : ℚ) ^ (E - 1) = 1 / 2 * 2 ^ E := by
    rw [zpow_sub₀ (by norm_num), zpow_one]
    ring
  have hlower := half_le_of_near M E hcanonical v hnear
  rw [← hhalf] at hlower
  have hend : E - 1 < e :=
    (zpow_lt_zpow_iff_right₀ (by norm_num : (1 : ℚ) < 2)).mp (lt_of_le_of_lt hlower hlt)
  omega

/-- A normal number takes all places, except for those just below a power of two. -/
theorem places_of_near (k : Int) (hE : -1074 < E) (hlt : v < 2 ^ k) : E + 51 < k := by
  have hunit : (0 : ℚ) < 2 ^ E := by positivity
  have hfull : 2 ^ 52 ≤ M := by
    rcases hcanonical.full with hfull | hmin
    · exact hfull
    · omega
  have hcast : (2 : ℚ) ^ 52 ≤ M := by exact_mod_cast hfull
  have hround := hnear.rounds.low
  refine (zpow_lt_zpow_iff_right₀ (by norm_num : (1 : ℚ) < 2)).mp (lt_of_le_of_lt ?_ hlt)
  have hsplit := zpow_two_add E 51
  push_cast at hsplit
  rw [hsplit, ← le_div_iff₀ hunit]
  linarith

/-- The exponent to which a number is shifted first is that of the double that it becomes, or the
    number lies just below a power of two. -/
theorem target_of_near (m : Nat) (e : Int) (hlow : (m : ℚ) ≤ v / 2 ^ e)
    (hhigh : v / 2 ^ e < m + 1) (he : e ≤ max ((m.log2 : Int) + 1 + e - 53) (-1074)) :
    max ((m.log2 : Int) + 1 + e - 53) (-1074) = E ∨
      (max ((m.log2 : Int) + 1 + e - 53) (-1074) = E - 1 ∧ -1074 < E ∧ M = 2 ^ 52 ∧
        v / 2 ^ E < 2 ^ 52) := by
  have hone : (1 : ℚ) < 2 := by norm_num
  have hunit : (0 : ℚ) < 2 ^ E := by positivity
  have hElow := hcanonical.low
  rcases power_bounds m e v hlow hhigh with ⟨hbelow, habove⟩
  by_cases hm : m = 0
  · -- The number is smaller than its last place, and so it is one of the smallest.
    subst hm
    have hsmall : v < 2 ^ e := by
      have hpos : (0 : ℚ) < 2 ^ e := by positivity
      rw [div_lt_iff₀ hpos, Nat.cast_zero, zero_add, one_mul] at hhigh
      exact hhigh
    have hend := exponent_le_of_lt M E hcanonical v hnear e hsmall
    have hlog : (0 : Nat).log2 = 0 := rfl
    rw [hlog] at he ⊢
    left
    omega
  · have hstart : (m.log2 : Int) + e < E + 53 :=
      (zpow_lt_zpow_iff_right₀ hone).mp
        (lt_of_le_of_lt (habove hm) (lt_of_near M E hcanonical v hnear))
    by_cases hE : -1074 < E
    · have hround := hnear.rounds.low
      have hplaces := places_of_near M E hcanonical v hnear _ hE hbelow
      by_cases hall : (m.log2 : Int) + 1 + e = E + 53
      · left
        omega
      · -- One place is missing, and so the mantissa is the power of two above the number.
        right
        have hlast : (m.log2 : Int) + 1 + e = E + 52 := by omega
        have hsplit := zpow_two_add E 52
        push_cast at hsplit
        rw [hlast, hsplit, ← div_lt_iff₀ hunit] at hbelow
        refine ⟨by omega, hE, ?_, hbelow⟩
        have hfull : 2 ^ 52 ≤ M := by
          rcases hcanonical.full with hfull | hmin
          · exact hfull
          · omega
        by_contra hne
        have hmore : 2 ^ 52 + 1 ≤ M := by omega
        have hcast' : (2 : ℚ) ^ 52 + 1 ≤ M := by exact_mod_cast hmore
        linarith
    · left
      omega

/-- Rounding ends in the double that the exact value is near to. -/
theorem roundWithAccuracy_of_near (sign : Sign) (m : Nat) (e : Int) (accuracy : Accuracy)
    (hstands : Stands (.ofMantissaAndAccuracy m accuracy) (v / 2 ^ e))
    (he : e ≤ max ((m.log2 : Int) + 1 + e - 53) (-1074)) :
    roundWithAccuracy Format.binary64 sign m e accuracy = .finite sign M E hcanonical.pos := by
  have hpos := hcanonical.pos
  have hlow := hstands.low
  have hhigh := hstands.high
  rw [mantissa_ofMantissaAndAccuracy] at hlow hhigh
  rcases target_of_near M E hcanonical v hnear m e hlow hhigh he with
    htarget | ⟨htarget, hE, rfl, hbelow⟩
  · rw [htarget] at he
    rcases shift_first m e accuracy v hstands E htarget he with ⟨em, hem, hshift⟩
    have hrounded := rounds_unique _ _ _ (rounds_roundedMantissa em _ hem) hnear.rounds
    rw [roundWithAccuracy, hshift]
    dsimp only
    rw [hrounded, shift_canonical M E hcanonical]
    dsimp only
    rw [dif_neg hpos.ne']
  · rw [htarget] at he
    rcases shift_first m e accuracy v hstands (E - 1) htarget he with ⟨em, hem, hshift⟩
    -- In units of half the last place the number is rounded up to the power of two.
    have hrounds : Rounds (v / 2 ^ (E - 1)) (2 ^ 53) := by
      have hhalf : v / 2 ^ (E - 1) = 2 * (v / 2 ^ E) := by
        rw [zpow_sub₀ (by norm_num), zpow_one]
        field_simp
      have hpower := hnear.power rfl hE
      push_cast at hpower
      rw [hhalf]
      refine ⟨?_, ?_, fun _ => by decide⟩
      · push_cast
        linarith
      · push_cast
        linarith
    have hrounded := rounds_unique _ _ _ (rounds_roundedMantissa em _ hem) hrounds
    rw [roundWithAccuracy, hshift]
    dsimp only
    rw [hrounded, shift_overflow E hE]
    dsimp only
    rw [dif_neg hpos.ne']

/-- A product with enough places ends in the double that its exact value is near to. -/
theorem mul_of_near (s₁ s₂ : Sign) (m₁ m₂ : Nat) (e₁ e₂ : Int) (h₁ : 0 < m₁) (h₂ : 0 < m₂)
    (hv : v = (m₁ * 2 ^ e₁) * (m₂ * 2 ^ e₂)) (hplaces : 2 ^ 52 ≤ m₁ * m₂) :
    mul Format.binary64 (.finite s₁ m₁ e₁ h₁) (.finite s₂ m₂ e₂ h₂) =
      .finite (s₁ * s₂) M E hcanonical.pos := by
  have hpos : (0 : ℚ) < 2 ^ (e₁ + e₂) := by positivity
  have hexact : v / 2 ^ (e₁ + e₂) = ((m₁ * m₂ : Nat) : ℚ) := by
    rw [div_eq_iff hpos.ne', hv, zpow_add₀ (by norm_num)]
    push_cast
    ring
  have hlog : 52 ≤ (m₁ * m₂).log2 := (Nat.le_log2 (by positivity)).mpr hplaces
  refine roundWithAccuracy_of_near M E hcanonical v hnear (s₁ * s₂) (m₁ * m₂) (e₁ + e₂) .exact ?_
    (by omega)
  rw [hexact]
  exact stands_exact _

end Near

/-! ### Division -/

theorem stands_between (q : Nat) (f : ℚ) (round sticky : Bool) (hpos : 0 < f) (hlt : f < 1)
    (hround : round = true ↔ 1 / 2 ≤ f) (hsticky : sticky = true ↔ f ≠ 1 / 2) :
    Stands ⟨q, round, sticky⟩ (q + f) := by
  refine ⟨?_, ?_, ?_, ?_⟩
  · dsimp only
    linarith
  · dsimp only
    linarith
  · dsimp only
    rw [hround, add_le_add_iff_left]
  · dsimp only
    rw [hsticky, ne_eq, ne_eq, ne_eq, add_right_inj]
    constructor
    · intro hne
      refine ⟨fun hzero => ?_, hne⟩
      linarith
    · rintro ⟨-, hne⟩
      exact hne

/-- The remainder of a division says where the exact quotient lies. -/
theorem stands_accuracyOfFraction (m n : Nat) (hn : 0 < n) :
    Stands (.ofMantissaAndAccuracy (m / n) (accuracyOfFraction (m % n) n)) ((m : ℚ) / n) := by
  have hpos : (0 : ℚ) < n := by exact_mod_cast hn
  have hparts : (m : ℚ) / n = (m / n : Nat) + ((m % n : Nat) : ℚ) / n := by
    have hsum : ((m % n : Nat) : ℚ) + n * ((m / n : Nat) : ℚ) = m := by
      exact_mod_cast Nat.mod_add_div m n
    rw [← hsum]
    field_simp
    ring
  have hless : ((m % n : Nat) : ℚ) / n < 1 := by
    rw [div_lt_one hpos]
    exact_mod_cast Nat.mod_lt m hn
  have hhalf : ∀ r : Nat,
      (1 / 2 ≤ (r : ℚ) / n ↔ n ≤ 2 * r) ∧ ((r : ℚ) / n = 1 / 2 ↔ 2 * r = n) := by
    intro r
    rw [le_div_iff₀ hpos, div_eq_iff hpos.ne']
    constructor
    · rw [← Nat.cast_le (α := ℚ)]
      push_cast
      constructor <;> intro hle <;> linarith
    · rw [← Nat.cast_inj (R := ℚ)]
      push_cast
      constructor <;> intro heq <;> linarith
  rw [hparts]
  generalize hrest : m % n = r at hless ⊢
  rcases hhalf r with ⟨hle, heq⟩
  rw [accuracyOfFraction]
  by_cases hzero : r = 0
  · rw [if_pos hzero, hzero, Nat.cast_zero, zero_div, add_zero]
    exact stands_exact _
  · have hrpos : (0 : ℚ) < (r : ℚ) / n := by
      have hr : (0 : ℚ) < r := by exact_mod_cast Nat.pos_of_ne_zero hzero
      positivity
    rw [if_neg hzero]
    -- Twice the remainder is compared with the divisor.
    rcases hcompare : compare (2 * r) n with _ | _ | _
    · have hlt := Nat.compare_eq_lt.mp hcompare
      have hnot : ¬ 1 / 2 ≤ (r : ℚ) / n := fun hge => absurd (hle.mp hge) (by omega)
      have hne : (r : ℚ) / n ≠ 1 / 2 := fun hmid => absurd (heq.mp hmid) (by omega)
      exact stands_between _ _ false true hrpos hless (iff_of_false Bool.false_ne_true hnot)
        (iff_of_true rfl hne)
    · have hmid := heq.mpr (Nat.compare_eq_eq.mp hcompare)
      exact stands_between _ _ true false hrpos hless (iff_of_true rfl hmid.ge)
        (iff_of_false Bool.false_ne_true (not_not.mpr hmid))
    · have hgt := Nat.compare_eq_gt.mp hcompare
      have hge := hle.mpr (by omega)
      have hne : (r : ℚ) / n ≠ 1 / 2 := fun hmid => absurd (heq.mp hmid) (by omega)
      exact stands_between _ _ true true hrpos hless (iff_of_true rfl hge) (iff_of_true rfl hne)

/-- The dividend is shifted so far that the quotient has enough places. -/
theorem places_of_shift (m₁ m₂ k : Nat) (h₁ : 0 < m₁) (h₂ : 0 < m₂)
    (hk : m₂.log2 + 53 ≤ m₁.log2 + k) : 52 ≤ (m₁ <<< k / m₂).log2 := by
  have hdividend : 2 ^ (m₁.log2 + k) ≤ m₁ <<< k := by
    rw [Nat.shiftLeft_eq, Nat.pow_add]
    exact Nat.mul_le_mul_right _ (Nat.log2_self_le h₁.ne')
  have hdivisor : m₂ < 2 ^ (m₂.log2 + 1) := Nat.lt_log2_self
  have hquotient : 2 ^ 52 ≤ m₁ <<< k / m₂ := by
    rw [Nat.le_div_iff_mul_le h₂]
    calc 2 ^ 52 * m₂ ≤ 2 ^ 52 * 2 ^ (m₂.log2 + 1) := Nat.mul_le_mul_left _ hdivisor.le
      _ = 2 ^ (m₂.log2 + 53) := by rw [← Nat.pow_add]; congr 1; omega
      _ ≤ 2 ^ (m₁.log2 + k) := Nat.pow_le_pow_right (by omega) hk
      _ ≤ m₁ <<< k := hdividend
  have hpos : m₁ <<< k / m₂ ≠ 0 := by
    intro hzero
    rw [hzero] at hquotient
    omega
  exact (Nat.le_log2 hpos).mpr hquotient

/-- A quotient ends in the double that its exact value is near to. -/
theorem div_of_near (M : Nat) (E : Int) (hcanonical : Canonical M E) (v : ℚ)
    (hnear : Near M E (v / 2 ^ E)) (s₁ s₂ : Sign) (m₁ m₂ : Nat) (e₁ e₂ : Int) (h₁ : 0 < m₁)
    (h₂ : 0 < m₂) (hv : v = (m₁ * 2 ^ e₁) / (m₂ * 2 ^ e₂)) :
    UnpackedFloat.div Format.binary64 (.finite s₁ m₁ e₁ h₁) (.finite s₂ m₂ e₂ h₂) =
      .finite (s₁ / s₂) M E hcanonical.pos := by
  have htarget : Format.binary64.targetExponent (totalExponent m₁ e₁ - totalExponent m₂ e₂) =
      max (m₁.log2 + 1 + e₁ - (m₂.log2 + 1 + e₂) - 53) (-1074) := rfl
  rw [UnpackedFloat.div, divCore, htarget]
  dsimp only
  -- The dividend is moved to the left until the quotient has all the places that the format has.
  generalize ht : min (e₁ - e₂) (max (m₁.log2 + 1 + e₁ - (m₂.log2 + 1 + e₂) - 53) (-1074)) = t
  generalize hk : (e₁ - e₂ - t).toNat = k
  have hshift : e₁ - e₂ = t + k := by omega
  have hm₂ : (0 : ℚ) < m₂ := by exact_mod_cast h₂
  have hexact : v / 2 ^ t = ((m₁ <<< k : Nat) : ℚ) / m₂ := by
    have hpower : (2 : ℚ) ^ e₁ = 2 ^ k * 2 ^ t * 2 ^ e₂ := by
      rw [← zpow_natCast, ← zpow_add₀ (by norm_num), ← zpow_add₀ (by norm_num)]
      congr 1
      omega
    rw [hv, hpower, Nat.shiftLeft_eq]
    push_cast
    field_simp
  -- A quotient above the least exponent is that of a normal number.
  have hlog : -1074 < t → 52 ≤ (m₁ <<< k / m₂).log2 := by
    intro hnormal
    exact places_of_shift m₁ m₂ k h₁ h₂ (by omega)
  refine roundWithAccuracy_of_near M E hcanonical v hnear (s₁ / s₂) _ t _ ?_ (by omega)
  rw [hexact]
  exact stands_accuracyOfFraction _ m₂ h₂

end Number

end StoragePolicy
