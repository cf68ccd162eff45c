import StoragePolicy.Text.Utf8
import StoragePolicy.Text.Hex

/-!
# Percent-encoding

In a URL a byte may be written as a percent sign and two hexadecimal digits. In a form a blank may
be written as a plus sign as well.

## Main definitions

* `unescape`: The bytes that a text stands for.
* `decodePercent?`: The text that a text stands for.
* `decodeForm`: The same in a form.
* `escapeByte`: The escaped form of a byte.
* `encodeForm`: The escaped form of a text in a form.
-/

namespace StoragePolicy

namespace Text

/-- The bytes that a text stands for. A percent sign without two digits stands for itself. -/
def unescape : List Char → List UInt8
  | '%' :: a :: b :: rest =>
    match hexByte? a b with
    | some byte => byte :: unescape rest
    | none => 0x25 :: unescape (a :: b :: rest)
  | c :: rest => String.utf8EncodeChar c ++ unescape rest
  | [] => []

/-- The text that a text stands for, unless its bytes are none. -/
def decodePercent? (text : List Char) : Option String :=
  (ofBytes? (unescape text)).map String.ofList

/-- The text that a part of a form stands for. -/
def decodeForm (text : List Char) : String :=
  String.ofList (ofBytesLossy (unescape (text.map fun c => if c = '+' then ' ' else c)))

/-- The escaped form of a byte. -/
def escapeByte (b : UInt8) : List Char :=
  ['%', (Nat.digitChar (b.toNat / 16)).toUpper, (Nat.digitChar (b.toNat % 16)).toUpper]

/-- Whether a byte stands for itself in a form. -/
def isFormByte (b : UInt8) : Bool :=
  let c := Char.ofNat b.toNat
  b < 0x80 && (c.isAlphanum || c = '*' || c = '-' || c = '.' || c = '_')

/-- The escaped form of a text in a form. -/
def encodeForm (text : String) : String :=
  String.ofList ((bytesOf text.toList).flatMap fun b =>
    if isFormByte b then [Char.ofNat b.toNat] else if b = 0x20 then ['+'] else escapeByte b)

end Text

end StoragePolicy
