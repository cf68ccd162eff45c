/-!
# Natural numbers as text

Identifiers, counters and sizes are natural numbers below 2^64. They are written in decimal
without leading zeros, and read with an optional plus sign and any number of leading zeros.

## Main definitions

* `maxWord`: The largest number that can be held.
* `digitsValue`: The value of a string of decimal digits.
* `readNatural`: Reads a number, or gives nothing.
* `writeNatural`: Writes a number.

## Theorems

* `digitsValue_append`: The value of a longer string.
* `readNatural_le`: What is read can be held.
-/

namespace StoragePolicy

namespace Number

/-- The largest number that can be held: 2^64 - 1. -/
def maxWord : Nat := 18446744073709551615

/-- The digit a character stands for; meant for `'0'` to `'9'`. -/
def digitValue (c : Char) : Nat := c.toNat - '0'.toNat

/-- The value of decimal digits read after the number `start`. -/
def digitsFrom (start : Nat) (digits : List Char) : Nat :=
  digits.foldl (fun n c => 10 * n + digitValue c) start

/-- The value of a string of decimal digits. -/
def digitsValue (digits : List Char) : Nat := digitsFrom 0 digits

/-- Reads an unsigned number: a plus sign at will, then one or more decimal digits whose value
    does not exceed `maxWord`. -/
def readNatural (text : List Char) : Option Nat :=
  let digits := match text with
    | '+' :: rest => rest
    | other => other
  if digits.isEmpty || !digits.all Char.isDigit then none
  else
    let n := digitsValue digits
    if n ≤ maxWord then some n else none

/-- The decimal digits of a number, without leading zeros. -/
def writeNatural (n : Nat) : String := String.ofList (Nat.toDigits 10 n)

/-- The value of a longer string is that of its first part carried on through the second. -/
theorem digitsValue_append (xs ys : List Char) :
    digitsValue (xs ++ ys) = digitsFrom (digitsValue xs) ys := by
  rw [digitsValue, digitsFrom, List.foldl_append, digitsValue, digitsFrom, digitsFrom]

/-- What is read can be held. -/
theorem readNatural_le (text : List Char) (n : Nat) (h : readNatural text = some n) :
    n ≤ maxWord := by
  simp only [readNatural] at h
  split at h
  · split at h
    · simp at h
    · split at h
      · rename_i hle
        simp only [Option.some.injEq] at h
        omega
      · simp at h
  · split at h
    · simp at h
    · split at h
      · rename_i hle
        simp only [Option.some.injEq] at h
        omega
      · simp at h

end Number

end StoragePolicy
