import StoragePolicy.Text.Alphanumeric

/-!
# Tokens of a condition text

The characters of a condition text fall into four classes: blank ones, operator characters, word
characters and all others, which have no place in a condition. Tokens are the maximal runs of one
class; blank runs only separate.

## Main definitions

* `CharClass`, `CharClass.of`: The class of a character.
* `Token`: A word or an operator.
* `Token.scan`: The tokens of a text, or the first character that has no place in it.
-/

namespace StoragePolicy

namespace Condition

/-- The classes of characters in a condition text. -/
inductive CharClass where
  | blank
  | operator
  | word
  | foreign
  deriving Repr, DecidableEq

/-- The class of a character. A word is written with letters and numerals of any script and with
    underscores, points and signs. -/
def CharClass.of (c : Char) : CharClass :=
  if Text.isBlank c then .blank
  else if c = '<' || c = '>' || c = '=' || c = '!' then .operator
  else if c = '_' || c = '.' || c = '-' || c = '+' || Text.isAlphanumeric c then .word
  else .foreign

/-- A token: a maximal run of word characters or of operator characters. -/
inductive Token where
  | word (text : List Char)
  | operator (text : List Char)
  deriving Repr, DecidableEq

/-- The token of a run, if the run is not blank. -/
def Token.ofRun? (run : CharClass × List Char) : Option Token :=
  match run.1 with
  | .word => some (.word run.2)
  | .operator => some (.operator run.2)
  | .blank | .foreign => none

/-- The tokens of a text; fails with the first foreign character. -/
def Token.scan (text : List Char) : Except Char (List Token) :=
  match text.find? fun c => CharClass.of c = .foreign with
  | some c => .error c
  | none => .ok ((Text.runs CharClass.of text).filterMap Token.ofRun?)

end Condition

end StoragePolicy
