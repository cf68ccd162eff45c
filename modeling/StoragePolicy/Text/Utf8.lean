/-!
# Bytes of UTF-8

Texts arrive as bytes. A text is read strictly, so that one wrong byte spoils it, or leniently, so
that each longest piece that could begin a character but does not complete it counts as one
replacement character.

## Main definitions

* `bytesOf`: The bytes of a text.
* `takeChar`: The first character of some bytes, or the wrong piece at their beginning.
* `ofBytes?`, `ofBytesLossy`: The two ways to read.

## Theorems

* `takeChar_shorter`: Every step takes at least one byte, so reading ends.
-/

namespace StoragePolicy

namespace Text

/-- The bytes of a text. -/
def bytesOf (text : List Char) : List UInt8 := text.flatMap String.utf8EncodeChar

/-- How a character of several bytes goes on after its first byte: the bits in the first byte, the
    range of the second, and how many bytes follow. -/
structure Lead where
  bits : Nat
  low : UInt8
  high : UInt8
  count : Nat

/-- What a first byte says. The second byte is restricted where it could otherwise begin a number
    with a shorter form, half a surrogate pair or a number above the last code point. -/
def lead? (b : UInt8) : Option Lead :=
  if 0xC2 ≤ b && b ≤ 0xDF then some ⟨b.toNat - 0xC0, 0x80, 0xBF, 1⟩
  else if b = 0xE0 then some ⟨0, 0xA0, 0xBF, 2⟩
  else if b = 0xED then some ⟨0xD, 0x80, 0x9F, 2⟩
  else if 0xE1 ≤ b && b ≤ 0xEF then some ⟨b.toNat - 0xE0, 0x80, 0xBF, 2⟩
  else if b = 0xF0 then some ⟨0, 0x90, 0xBF, 3⟩
  else if 0xF1 ≤ b && b ≤ 0xF3 then some ⟨b.toNat - 0xF0, 0x80, 0xBF, 3⟩
  else if b = 0xF4 then some ⟨4, 0x80, 0x8F, 3⟩
  else none

/-- Takes the bytes that follow a first byte; the first of them must lie in the given range. -/
def takeTail (value : Nat) (low high : UInt8) : Nat → List UInt8 → Option Char × List UInt8
  | 0, rest => (some (Char.ofNat value), rest)
  | _ + 1, [] => (none, [])
  | count + 1, b :: rest =>
    if low ≤ b && b ≤ high then takeTail (value * 64 + (b.toNat - 0x80)) 0x80 0xBF count rest
    else (none, b :: rest)

/-- Takes the character that begins with a byte, or the piece of it that is there. -/
def takeChar (b : UInt8) (rest : List UInt8) : Option Char × List UInt8 :=
  if b < 0x80 then (some (Char.ofNat b.toNat), rest)
  else
    match lead? b with
    | some lead => takeTail lead.bits lead.low lead.high lead.count rest
    | none => (none, rest)

/-- No more bytes are left than there were. -/
theorem takeTail_shorter (value : Nat) (low high : UInt8) (count : Nat) (bytes : List UInt8) :
    (takeTail value low high count bytes).2.length ≤ bytes.length := by
  induction count generalizing value low high bytes with
  | zero => exact Nat.le_refl _
  | succ count ih =>
    cases bytes with
    | nil => exact Nat.le_refl _
    | cons b rest =>
      rw [takeTail]
      split
      · exact Nat.le_trans (ih _ _ _ rest) (Nat.le_succ _)
      · exact Nat.le_refl _

/-- Every step takes at least one byte. -/
theorem takeChar_shorter (b : UInt8) (rest : List UInt8) :
    (takeChar b rest).2.length ≤ rest.length := by
  rw [takeChar]
  split
  · exact Nat.le_refl _
  · split
    · exact takeTail_shorter _ _ _ _ _
    · exact Nat.le_refl _

/-- The characters of some bytes, nothing standing for each wrong piece. -/
def charsOf : List UInt8 → List (Option Char)
  | [] => []
  | b :: rest => (takeChar b rest).1 :: charsOf (takeChar b rest).2
termination_by bytes => bytes.length
decreasing_by exact Nat.lt_succ_of_le (takeChar_shorter b rest)

/-- The text of some bytes, unless there is a wrong one among them. -/
def ofBytes? (bytes : List UInt8) : Option (List Char) := (charsOf bytes).mapM id

/-- The text of some bytes, with replacement characters. -/
def ofBytesLossy (bytes : List UInt8) : List Char :=
  (charsOf bytes).map fun c => c.getD '\ufffd'

end Text

end StoragePolicy
