import Mathlib
import StoragePolicy.Number.Binary64
import StoragePolicy.Number.Decimal
import StoragePolicy.Proofs.Number.Rounding

/-!
# Doubles and their bits

The sixty-four bits of a double are its sign, a field for the exponent and the mantissa without its
leading bit. The exact value of a double is read off these bits, so that the double is known from
it.

## Theorems

* `toNat_packComponents`: The bits as a whole number.
* `unpack_pack_finite`: Packing a canonical mantissa and exponent loses nothing.
* `eq_packed_of_exact`: The double is known from its exact value.
* `canonical_of_exact`: The exact value of a finite double is canonical.
-/

namespace StoragePolicy

namespace Number

open Float.Model Float.Model.UnpackedFloat

/-- The sign of a number that is negative or not. -/
def signOf (negative : Bool) : Sign := if negative then .negative else .positive

/-- The double with these parts. -/
def packed (x : UnpackedFloat) : Float := .ofModel (.pack x)

/-! ### Bits -/

/-- The bits as a whole number. -/
theorem toNat_packComponents (sign : Sign) (field : BitVec 11) (fraction : BitVec 52) :
    (packComponents Format.binary64 sign field fraction).toNat =
      (sign.toBitVec.toNat * 2 ^ 11 + field.toNat) * 2 ^ 52 + fraction.toNat := by
  have hfield := field.isLt
  have hfraction := fraction.isLt
  rw [packComponents, BitVec.toNat_append, ← Nat.shiftLeft_add_eq_or_of_lt hfraction,
    BitVec.toNat_append, ← Nat.shiftLeft_add_eq_or_of_lt hfield, Nat.shiftLeft_eq, Nat.shiftLeft_eq]

theorem toNat_signOf (negative : Bool) :
    (signOf negative).toBitVec.toNat = if negative then 1 else 0 := by
  cases negative <;> rfl

theorem unpackSign_packComponents (sign : Sign) (field : BitVec 11) (fraction : BitVec 52) :
    unpackSign (packComponents Format.binary64 sign field fraction) = sign.toBitVec := by
  have hsign := sign.toBitVec.isLt
  have hfield := field.isLt
  have hfraction := fraction.isLt
  have hbit : ((sign.toBitVec.toNat * 2 ^ 11 + field.toNat) * 2 ^ 52 + fraction.toNat) / 2 ^ 63 %
      2 ^ 1 = sign.toBitVec.toNat := by
    omega
  apply BitVec.eq_of_toNat_eq
  rw [unpackSign, BitVec.toNat_cast, BitVec.extractLsb_toNat, toNat_packComponents,
    Nat.shiftRight_eq_div_pow]
  exact hbit

theorem ofBitVec_toBitVec (sign : Sign) : Sign.ofBitVec sign.toBitVec = sign := by
  cases sign <;> rfl

/-- The word with a hidden leading bit in front. -/
theorem toNat_hidden (fraction : BitVec 52) :
    (1#1 ++ fraction).toNat = 2 ^ 52 + fraction.toNat := by
  rw [BitVec.toNat_append, ← Nat.shiftLeft_add_eq_or_of_lt fraction.isLt, Nat.shiftLeft_eq]
  rfl

theorem ofNat_ne {w : Nat} (n : Nat) (v : BitVec w) (hn : n < 2 ^ w) (hne : n ≠ v.toNat) :
    BitVec.ofNat w n ≠ v := by
  intro heq
  have hnat := congrArg BitVec.toNat heq
  rw [BitVec.toNat_ofNat, Nat.mod_eq_of_lt hn] at hnat
  exact hne hnat

/-! ### Packing -/

/-- A mantissa with its leading bit set is packed without it. -/
theorem pack_normal (sign : Sign) (m : Nat) (e : Int) (hpos : 0 < m) (hfull : 2 ^ 52 ≤ m)
    (hlt : m < 2 ^ 53) (hlow : -1074 ≤ e) (hhigh : e ≤ 971) :
    UnpackedFloat.pack Format.binary64 (.finite sign m e hpos) =
      packComponents Format.binary64 sign (BitVec.ofNat 11 (e + 1075).toNat)
        (BitVec.ofNat 52 m) := by
  have hlog : m.log2 = 52 := by
    have hge := (Nat.le_log2 hpos.ne').mpr hfull
    have hle := (Nat.log2_lt hpos.ne').mpr hlt
    omega
  have hfield : (e + ((1023 : Nat) : Int) + ((52 : Nat) : Int)).toNat = (e + 1075).toNat := by omega
  have hroom : ¬ 2 ^ 11 ≤ (e + 1075).toNat + 1 := by omega
  have hbias : Format.binary64.exponentBias = 1023 := rfl
  simp only [UnpackedFloat.pack, hbias, hfield, if_neg hroom, hlog, Format.mantissaBits, if_true]

/-- A mantissa without its leading bit is packed as it is. -/
theorem pack_subnormal (sign : Sign) (m : Nat) (hpos : 0 < m) (hlt : m < 2 ^ 52) :
    UnpackedFloat.pack Format.binary64 (.finite sign m (-1074) hpos) =
      packComponents Format.binary64 sign 0#11 (BitVec.ofNat 52 m) := by
  have hlog : m.log2 < 52 := (Nat.log2_lt hpos.ne').mpr hlt
  have hshort : ¬ m.log2 + 1 = 1 + 52 := by omega
  have hfield : (-1074 + ((1023 : Nat) : Int) + ((52 : Nat) : Int)).toNat = 1 := by decide
  have hroom : ¬ 2 ^ 11 ≤ 1 + 1 := by decide
  have hbias : Format.binary64.exponentBias = 1023 := rfl
  simp only [UnpackedFloat.pack, hbias, hfield, if_neg hroom, Format.mantissaBits, if_neg hshort]

/-- Packing a canonical mantissa and exponent loses nothing. -/
theorem unpack_pack_finite (sign : Sign) (m : Nat) (e : Int) (h : Canonical m e) :
    UnpackedFloat.unpack Format.binary64
        (UnpackedFloat.pack Format.binary64 (.finite sign m e h.pos)) =
      .finite sign m e h.pos := by
  have hlow := h.low
  have hhigh := h.high
  have hlt := h.lt
  have hpos := h.pos
  by_cases hfull : 2 ^ 52 ≤ m
  · rw [pack_normal sign m e h.pos hfull hlt hlow hhigh]
    have hfield : (BitVec.ofNat 11 (e + 1075).toNat).toNat = (e + 1075).toNat := by
      rw [BitVec.toNat_ofNat]
      exact Nat.mod_eq_of_lt (by omega)
    -- The field of a normal number is neither of the two that have a meaning of their own.
    have hones : (-1#11).toNat = 2047 := rfl
    have hzero : (0#11).toNat = 0 := rfl
    have hnotOnes : BitVec.ofNat 11 (e + 1075).toNat ≠ -1#11 := ofNat_ne _ _ (by omega) (by omega)
    have hnotZero : BitVec.ofNat 11 (e + 1075).toNat ≠ 0#11 := ofNat_ne _ _ (by omega) (by omega)
    have hmantissa : (1#1 ++ BitVec.ofNat 52 m).toNat = m := by
      rw [toNat_hidden, BitVec.toNat_ofNat]
      omega
    simp only [UnpackedFloat.unpack, unpackMantissa_packComponents, unpackExponent_packComponents,
      unpackSign_packComponents, ofBitVec_toBitVec, if_neg hnotOnes, if_neg hnotZero, hfield,
      hmantissa]
    have hbias : Format.binary64.exponentBias = 1023 := rfl
    have hexponent :
        (((e + 1075).toNat : Nat) : Int) - (((1023 : Nat) : Int) + ((52 : Nat) : Int)) =
        e := by
      omega
    simp only [hbias, hexponent]
  · have he : e = -1074 := by
      rcases h.full with hge | he
      · exact absurd hge hfull
      · exact he
    subst he
    rw [pack_subnormal sign m h.pos (by omega)]
    have hmantissa : (BitVec.ofNat 52 m).toNat = m := by
      rw [BitVec.toNat_ofNat]
      exact Nat.mod_eq_of_lt (by omega)
    have hzero : (0#52).toNat = 0 := rfl
    have hnotZero : BitVec.ofNat 52 m ≠ 0#52 := ofNat_ne _ _ (by omega) (by omega)
    have hnotOnes : (0#11) ≠ -1#11 := by decide
    simp only [UnpackedFloat.unpack, unpackMantissa_packComponents, unpackExponent_packComponents,
      unpackSign_packComponents, ofBitVec_toBitVec, if_neg hnotOnes, if_true, dif_neg hnotZero,
      hmantissa]
    rfl

theorem unpack_packed (sign : Sign) (m : Nat) (e : Int) (h : Canonical m e) :
    (packed (.finite sign m e h.pos)).toModel.unpack = .finite sign m e h.pos :=
  unpack_pack_finite sign m e h

theorem signed_packed (negative : Bool) (m : Nat) (e : Int) (h : Canonical m e) :
    signed negative (packed (.finite .positive m e h.pos)) =
      packed (.finite (signOf negative) m e h.pos) := by
  cases negative with
  | false => rfl
  | true =>
    have hneg : signed true (packed (.finite .positive m e h.pos)) =
        packed (UnpackedFloat.neg (packed (.finite .positive m e h.pos)).toModel.unpack) := rfl
    rw [hneg, unpack_packed .positive m e h]
    rfl

/-! ### The exact value -/

/-- A double is its bits. -/
theorem eq_packed (x : Float) (u : UnpackedFloat)
    (h : x.toBits.toNat = (UnpackedFloat.pack Format.binary64 u).toNat) : x = packed u := by
  rcases x with ⟨⟨bits, valid⟩⟩
  have hbits : bits = UInt64.ofBitVec (UnpackedFloat.pack Format.binary64 u) := by
    apply UInt64.toNat_inj.mp
    exact h
  subst hbits
  rfl

/-- The parts of a double by its exact value. -/
def partsOf : Exact → UnpackedFloat
  | .notANumber => .notANumber
  | .infinite negative => .infinity (signOf negative)
  | .finite negative m e =>
    if h : 0 < m then .finite (signOf negative) m e h else .zero (signOf negative)

/-- The bits that only one double that is not a number has. -/
theorem bits_of_notANumber (x : Float) (hfield : x.toBits.toNat / 2 ^ 52 % 2 ^ 11 = 2047)
    (hfraction : x.toBits.toNat % 2 ^ 52 ≠ 0) :
    x.toBits.toNat = (packedNaN Format.binary64).toNat := by
  rcases x with ⟨⟨bits, valid⟩⟩
  have hnat : (Float.ofModel ⟨bits, valid⟩).toBits.toNat = bits.toBitVec.toNat := rfl
  rw [hnat] at hfield hfraction ⊢
  have hones : @unpackExponent Format.binary64 bits.toBitVec = -1#11 := by
    apply BitVec.eq_of_toNat_eq
    rw [unpackExponent, BitVec.toNat_cast, BitVec.extractLsb_toNat, Nat.shiftRight_eq_div_pow]
    exact hfield
  have hsome : @unpackMantissa Format.binary64 bits.toBitVec ≠ 0#52 := by
    intro hzero
    have hnat := congrArg BitVec.toNat hzero
    rw [unpackMantissa, BitVec.toNat_cast, BitVec.extractLsb_toNat, Nat.shiftRight_eq_div_pow,
      Nat.pow_zero, Nat.div_one] at hnat
    exact hfraction hnat
  rw [valid.eq_packedNaN hones hsome]

/-- The double is known from its exact value. -/
theorem eq_packed_of_exact (x : Float) : x = packed (partsOf (exact x)) := by
  apply eq_packed
  have hlt : x.toBits.toNat < 2 ^ 64 := x.toBits.toNat_lt
  have hnotANumber := bits_of_notANumber x
  rw [exact]
  generalize hn : x.toBits.toNat = n at hlt hnotANumber ⊢
  generalize hnegative : decide (n / 2 ^ 63 = 1) = negative
  -- The bits from the left: sign, field and fraction.
  have hbits : ∀ (field : BitVec 11) (fraction : BitVec 52), field.toNat = n / 2 ^ 52 % 2 ^ 11 →
      fraction.toNat = n % 2 ^ 52 →
      n = (packComponents Format.binary64 (signOf negative) field fraction).toNat := by
    intro field fraction hfield hfraction
    rw [toNat_packComponents, toNat_signOf, hfield, hfraction, ← hnegative]
    by_cases hsign : n / 2 ^ 63 = 1
    · rw [if_pos (decide_eq_true hsign)]
      omega
    · rw [if_neg (by simpa using hsign)]
      omega
  have hfraction : (BitVec.ofNat 52 n).toNat = n % 2 ^ 52 := BitVec.toNat_ofNat _ _
  -- A field of ones is for what is not finite, and one of zeros for numbers without a leading bit.
  by_cases hmax : n / 2 ^ 52 % 2 ^ 11 = 2047
  · rw [if_pos hmax]
    by_cases hzero : n % 2 ^ 52 = 0
    · rw [if_pos hzero]
      refine hbits (-1#11) 0#52 ?_ ?_
      · rw [hmax]
        rfl
      · rw [hzero]
        rfl
    · rw [if_neg hzero]
      exact hnotANumber hmax hzero
  · rw [if_neg hmax]
    by_cases hsmall : n / 2 ^ 52 % 2 ^ 11 = 0
    · rw [if_pos hsmall, partsOf]
      by_cases hzero : 0 < n % 2 ^ 52
      · rw [dif_pos hzero, pack_subnormal _ _ hzero (by omega)]
        refine hbits 0#11 _ ?_ ?_
        · rw [hsmall]
          rfl
        · rw [BitVec.toNat_ofNat, Nat.mod_mod]
      · rw [dif_neg hzero]
        refine hbits 0#11 0#52 ?_ ?_
        · rw [hsmall]
          rfl
        · have hnone : n % 2 ^ 52 = 0 := by omega
          rw [hnone]
          rfl
    · have hpos : 0 < 2 ^ 52 + n % 2 ^ 52 := by omega
      rw [if_neg hsmall, partsOf, dif_pos hpos,
        pack_normal _ _ _ hpos (by omega) (by omega) (by omega) (by omega)]
      refine hbits _ _ ?_ ?_
      · rw [BitVec.toNat_ofNat]
        omega
      · rw [BitVec.toNat_ofNat]
        omega

theorem eq_packed_finite (x : Float) (negative : Bool) (m : Nat) (e : Int)
    (h : exact x = .finite negative m e) (hpos : 0 < m) :
    x = packed (.finite (signOf negative) m e hpos) := by
  have hpacked := eq_packed_of_exact x
  rw [h, partsOf, dif_pos hpos] at hpacked
  exact hpacked

/-- The exact value of a finite double is canonical. -/
theorem canonical_of_exact (x : Float) (negative : Bool) (m : Nat) (e : Int)
    (h : exact x = .finite negative m e) (hpos : 0 < m) : Canonical m e := by
  rw [exact] at h
  generalize x.toBits.toNat = n at h
  split at h
  · split at h <;> exact absurd h (by simp)
  · split at h
    · rcases Exact.finite.inj h with ⟨-, rfl, rfl⟩
      exact ⟨by omega, by omega, by omega, by omega, by omega⟩
    · rcases Exact.finite.inj h with ⟨-, rfl, rfl⟩
      exact ⟨by omega, by omega, by omega, by omega, by omega⟩

end Number

end StoragePolicy
