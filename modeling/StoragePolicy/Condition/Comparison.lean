/-!
# Comparisons

A comparison relates the value of a metric to a threshold. Equality allows for rounding: two
numbers are equal if they differ by less than the machine epsilon 2^-52.

## Main definitions

* `Comparison`: The six comparisons.
* `Comparison.symbol`, `Comparison.ofSymbol?`: Their written form.
* `Comparison.compare`: Their meaning.

## Theorems

* `ofSymbol?_symbol`: The written form of a comparison is read back as that comparison.
-/

namespace StoragePolicy

/-- A comparison between the value of a metric and a threshold. -/
inductive Comparison where
  | lessThan
  | lessOrEqual
  | greaterThan
  | greaterOrEqual
  | equals
  | notEquals
  deriving Repr, DecidableEq, Inhabited

namespace Comparison

/-- Every comparison, in order of declaration. -/
def all : List Comparison :=
  [.lessThan, .lessOrEqual, .greaterThan, .greaterOrEqual, .equals, .notEquals]

/-- The written form of a comparison. -/
def symbol : Comparison → String
  | .lessThan => "<"
  | .lessOrEqual => "<="
  | .greaterThan => ">"
  | .greaterOrEqual => ">="
  | .equals => "=="
  | .notEquals => "!="

/-- The name of a comparison in structured data. -/
def name : Comparison → String
  | .lessThan => "less_than"
  | .lessOrEqual => "less_or_equal"
  | .greaterThan => "greater_than"
  | .greaterOrEqual => "greater_or_equal"
  | .equals => "equals"
  | .notEquals => "not_equals"

/-- Reads the written form; a single `=` is a second spelling of equality. -/
def ofSymbol? (text : String) : Option Comparison :=
  if text = "=" then some .equals else all.find? fun c => c.symbol = text

/-- Reads a name. -/
def ofName? (text : String) : Option Comparison := all.find? fun c => c.name = text

/-- The machine epsilon, 2^-52. -/
def epsilon : Float := 2.220446049250313e-16

/-- Whether a value stands in this relation to a threshold. With a value that is not a number
    nothing but the ordinary falsity of all six relations holds, as with the difference of two
    equal infinities. -/
def compare (c : Comparison) (actual threshold : Float) : Bool :=
  match c with
  | .lessThan => actual < threshold
  | .lessOrEqual => actual ≤ threshold
  | .greaterThan => threshold < actual
  | .greaterOrEqual => threshold ≤ actual
  | .equals => (actual - threshold).abs < epsilon
  | .notEquals => epsilon ≤ (actual - threshold).abs

/-- The written form of a comparison is read back as that comparison. -/
theorem ofSymbol?_symbol (c : Comparison) : ofSymbol? c.symbol = some c := by
  cases c <;> decide

/-- The name of a comparison is read back as that comparison. -/
theorem ofName?_name (c : Comparison) : ofName? c.name = some c := by
  cases c <;> decide

end Comparison

end StoragePolicy
