import StoragePolicy.Text.Pieces
import StoragePolicy.Text.Case

/-!
# Media types

A media type is two words with a slash between them, the second of which may have a suffix behind
a plus sign, and parameters `name=value` behind semicolons. A value may be put in quotes.

## Main definitions

* `Http.MediaType`: The two words and the suffix.
* `Http.MediaType.ofText?`: Reads a media type.
* `Http.MediaType.isJson`: Whether it stands for JSON.
-/

namespace StoragePolicy

namespace Http

/-- A media type without its parameters. -/
structure MediaType where
  kind : List Char
  subtype : List Char
  suffix : Option (List Char)

namespace MediaType

/-- Whether a character may stand in a word. -/
def isWordChar (c : Char) : Bool :=
  c.isAlphanum || "!#$%&'*+-.^_|~".toList.contains c || c = '\x60'

/-- Whether a character may stand between quotes. A quote itself may, as the first of them. -/
def isQuotedChar (c : Char) : Bool := 0x1F < c.toNat && c.toNat < 0x7F

/-- The places in the parameters of a media type. -/
inductive Place where
  /-- Before a name, where blanks may stand. -/
  | beforeName
  | inName
  /-- Before the first character of a value. -/
  | beforeValue
  | inValue
  /-- After an opening quote. -/
  | afterQuote
  | inQuotes
  /-- After a closing quote. -/
  | afterQuotes

/-- Reads one character of the parameters. -/
def step : Place → Char → Option Place
  | .beforeName, c =>
    if c = ' ' then some .beforeName else if isWordChar c then some .inName else none
  | .inName, c => if c = '=' then some .beforeValue else if isWordChar c then some .inName else none
  | .beforeValue, c =>
    if c = '"' then some .afterQuote else if isWordChar c then some .inValue else none
  | .inValue, c =>
    if c = ';' then some .beforeName else if isWordChar c then some .inValue else none
  | .afterQuote, c => if isQuotedChar c then some .inQuotes else none
  | .inQuotes, c =>
    if c = '"' then some .afterQuotes else if isQuotedChar c then some .inQuotes else none
  | .afterQuotes, c =>
    if c = ';' then some .beforeName else if c = ' ' then some .afterQuotes else none

/-- Whether the parameters may end in a place. -/
def mayEnd : Place → Bool
  | .beforeName | .beforeValue | .inValue | .afterQuotes => true
  | .inName | .afterQuote | .inQuotes => false

/-- Whether a text behind a semicolon is a list of parameters. -/
def areParameters (text : List Char) : Bool :=
  ((text.foldlM step Place.beforeName).map mayEnd).getD false

/-- Reads a media type. -/
def ofText? (text : List Char) : Option MediaType :=
  let (essence, parameters) := (Text.cutFirst (· = ';') text).getD (text, [])
  match Text.cutFirst (· = '/') essence with
  | none => none
  | some (kind, subtype) =>
    if kind.isEmpty || !kind.all isWordChar || subtype.isEmpty || !subtype.all isWordChar ||
        !areParameters parameters then none
    else
      match Text.cutLast (· = '+') subtype with
      | some (subtype, suffix) =>
        if subtype.isEmpty then some ⟨kind, '+' :: suffix, none⟩
        else some ⟨kind, subtype, some suffix⟩
      | none => some ⟨kind, subtype, none⟩

/-- Whether a media type stands for JSON: by its second word or by its suffix. -/
def isJson (t : MediaType) : Bool :=
  Text.isKeyword "application" t.kind &&
    (Text.isKeyword "json" t.subtype || (t.suffix.map (Text.isKeyword "json")).getD false)

end MediaType

end Http

end StoragePolicy
