/-!
# Letter case

Keywords are compared without regard to the case of the ASCII letters. No other letter has a case
here: `É` and `é` are different, as are `K` (Kelvin sign) and `k`.
-/

namespace StoragePolicy

namespace Text

/-- The text with its ASCII capital letters in lower case. -/
def lower (text : List Char) : List Char := text.map Char.toLower

/-- The text with its ASCII small letters in upper case. -/
def upper (text : List Char) : List Char := text.map Char.toUpper

/-- Equality up to the case of ASCII letters. -/
def sameLetters (a b : List Char) : Bool := lower a = lower b

/-- Whether a text is the given keyword, in any case. -/
def isKeyword (keyword : String) (text : List Char) : Bool := sameLetters text keyword.toList

end Text

end StoragePolicy
