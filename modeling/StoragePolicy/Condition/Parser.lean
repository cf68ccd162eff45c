import StoragePolicy.Condition.Basic
import StoragePolicy.Condition.Token
import StoragePolicy.Number.Decimal

/-!
# Reading conditions

A condition text is one or more alternatives joined by `OR`; an alternative is one or more
comparisons joined by `AND`; a comparison is a metric, an operator and a number. Both joining
words are read in any case, and `AND` binds tighter than `OR`.

## Main definitions

* `Condition.Fault`: Why a text is not a condition.
* `Condition.parse`: Reads a condition.
-/

namespace StoragePolicy

namespace Condition

/-- Why a text is not a condition. -/
inductive Fault where
  | foreignCharacter (c : Char)
  | empty
  | danglingConnective
  | notAComparison
  | unknownOperator (symbol : String)
  | notANumber (word : String)
  deriving Repr, DecidableEq

/-- The wording of a fault. -/
def Fault.message : Fault → String
  | .foreignCharacter c => "unexpected character `" ++ String.singleton c ++ "`"
  | .empty => "empty condition"
  | .danglingConnective => "dangling connective"
  | .notAComparison => "expected `<metric> <operator> <number>`"
  | .unknownOperator symbol => "unknown operator `" ++ symbol ++ "`"
  | .notANumber word => "`" ++ word ++ "` is not a number"

/-- Whether a token is the given joining word, in any case. -/
def Token.isKeyword (keyword : String) : Token → Bool
  | .word text => Text.isKeyword keyword text
  | .operator _ => false

/-- Reads one comparison. The operator is checked before the number. -/
def readComparison : List Token → Except Fault Condition
  | [.word metric, .operator symbol, .word number] =>
    match Comparison.ofSymbol? (String.ofList symbol) with
    | none => .error (.unknownOperator (String.ofList symbol))
    | some op =>
      match Number.readDouble number with
      | none => .error (.notANumber (String.ofList number))
      | some threshold => .ok (.compare (String.ofList metric) op threshold)
  | [] => .error .danglingConnective
  | _ => .error .notAComparison

/-- Joins conditions; a single one stays as it is. -/
def join (wrap : List Condition → Condition) : List Condition → Condition
  | [c] => c
  | conditions => wrap conditions

/-- Reads the comparisons of one alternative. -/
def readAlternative (tokens : List Token) : Except Fault Condition :=
  ((Text.splitWhere (Token.isKeyword "AND") tokens).mapM readComparison).map (join .all)

/-- Reads a list of tokens. -/
def ofTokens (tokens : List Token) : Except Fault Condition :=
  if tokens.isEmpty then .error .empty
  else ((Text.splitWhere (Token.isKeyword "OR") tokens).mapM readAlternative).map (join .any)

/-- Reads a condition. The first fault from left to right is reported, foreign characters before
    all others. -/
def parse (text : String) : Except Fault Condition :=
  match Token.scan text.toList with
  | .error c => .error (.foreignCharacter c)
  | .ok tokens => ofTokens tokens

end Condition

end StoragePolicy
