import StoragePolicy.Text.Blank
import StoragePolicy.Text.Case

/-!
# Words of a rule

A rule text is cut into words at blanks and commas. Every comma is a word of its own.

## Main definitions

* `Rule.Word`: A piece of text or a comma.
* `Rule.Word.scan`: The words of a text.
-/

namespace StoragePolicy

namespace Rule

/-- A word of a rule text. -/
inductive Word where
  | text (chars : List Char)
  | comma
  deriving Repr, DecidableEq

namespace Word

/-- Whether a word is the given keyword, in any case. -/
def isKeyword (keyword : String) : Word → Bool
  | .text chars => Text.isKeyword keyword chars
  | .comma => false

/-- Whether a word is a comma. -/
def isComma : Word → Bool
  | .text _ => false
  | .comma => true

/-- The classes of characters in a rule text. -/
inductive CharClass where
  | blank
  | comma
  | plain
  deriving Repr, DecidableEq

/-- The class of a character. -/
def CharClass.of (c : Char) : CharClass :=
  if c = ',' then .comma else if Text.isBlank c then .blank else .plain

/-- The words of a run of characters of one class. -/
def ofRun (run : CharClass × List Char) : List Word :=
  match run.1 with
  | .blank => []
  | .comma => run.2.map fun _ => .comma
  | .plain => [.text run.2]

/-- The words of a text. -/
def scan (text : List Char) : List Word := (Text.runs CharClass.of text).flatMap ofRun

end Word

end Rule

end StoragePolicy
