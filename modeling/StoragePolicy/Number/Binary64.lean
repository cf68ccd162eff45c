/-!
# Doubles as exact numbers

A finite double is a whole number times a power of two. Printing and time stamps need this exact
value, so it is read off the sixty-four bits once, here.

## Main definitions

* `Exact`: What a double is: not a number, an infinity, or a signed whole number times a power of
  two.
* `exact`: The exact value of a double.
* `floorOf`, `nearestOf`: Rounding an exact magnitude to a whole number.
-/

namespace StoragePolicy

namespace Number

-- Powers of natural numbers are those of the core library, whatever else is imported later.
attribute [local instance (high)] instPowNat

/-- What a double is. A finite one is `mantissa * 2 ^ exponent`, negated if `negative`. -/
inductive Exact where
  | notANumber
  | infinite (negative : Bool)
  | finite (negative : Bool) (mantissa : Nat) (exponent : Int)
  deriving Repr, DecidableEq

/-- The exact value of a double. The exponent field 0 marks the subnormal numbers, 2047 the
    infinities and what is not a number; all others have a hidden leading bit. -/
def exact (x : Float) : Exact :=
  let bits : Nat := x.toBits.toNat
  let negative := bits / 2 ^ (63 : Nat) = 1
  let field : Nat := bits / 2 ^ (52 : Nat) % 2 ^ (11 : Nat)
  let fraction : Nat := bits % 2 ^ (52 : Nat)
  if field = 2047 then
    if fraction = 0 then .infinite negative else .notANumber
  else if field = 0 then .finite negative fraction (-1074)
  else .finite negative (2 ^ (52 : Nat) + fraction) ((field : Int) - 1075)

/-- The whole part of `mantissa * 2 ^ exponent`. -/
def floorOf (mantissa : Nat) (exponent : Int) : Nat :=
  if 0 ≤ exponent then mantissa * 2 ^ exponent.toNat else mantissa / 2 ^ (-exponent).toNat

/-- The whole number nearest to `mantissa * 2 ^ exponent`; a half goes up. -/
def nearestOf (mantissa : Nat) (exponent : Int) : Nat :=
  if 0 ≤ exponent then mantissa * 2 ^ exponent.toNat
  else (2 * mantissa + 2 ^ (-exponent).toNat) / 2 ^ ((-exponent).toNat + 1)

/-- The whole part never exceeds the nearest whole number. -/
theorem floorOf_le_nearestOf (mantissa : Nat) (exponent : Int) :
    floorOf mantissa exponent ≤ nearestOf mantissa exponent := by
  rw [floorOf, nearestOf]
  split
  · exact Nat.le_refl _
  · -- Both are quotients by the same power of two; the second has the larger dividend.
    have hpos : 0 < 2 ^ (-exponent).toNat := Nat.two_pow_pos _
    rw [Nat.pow_succ, Nat.mul_comm _ 2]
    calc mantissa / 2 ^ (-exponent).toNat
        = (2 * mantissa) / (2 * 2 ^ (-exponent).toNat) := by
          rw [Nat.mul_div_mul_left _ _ (by omega)]
      _ ≤ (2 * mantissa + 2 ^ (-exponent).toNat) / (2 * 2 ^ (-exponent).toNat) :=
          Nat.div_le_div_right (by omega)

end Number

end StoragePolicy
