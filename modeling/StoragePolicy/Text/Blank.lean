import StoragePolicy.Text.Pieces

/-!
# Blank space, words and lines

Blank means the Unicode property White_Space. Words are the maximal runs of non-blank characters,
and lines end at a line feed, which takes one carriage return before it along.

## Main definitions

* `isBlank`: The property White_Space.
* `words`: The maximal non-blank runs.
* `trimStart`, `trimEnd`, `trim`: Removing blank ends.
* `lines`: The lines of a text.
-/

namespace StoragePolicy

namespace Text

/-- The code points of White_Space, as closed ranges. -/
def blankRanges : List (Nat × Nat) :=
  [(0x09, 0x0D), (0x20, 0x20), (0x85, 0x85), (0xA0, 0xA0), (0x1680, 0x1680), (0x2000, 0x200A),
   (0x2028, 0x2029), (0x202F, 0x202F), (0x205F, 0x205F), (0x3000, 0x3000)]

/-- Whether a code point lies in one of the closed ranges. -/
def inRanges (ranges : List (Nat × Nat)) (n : Nat) : Bool :=
  ranges.any fun range => range.1 ≤ n && n ≤ range.2

/-- A blank character: one with the property White_Space. -/
def isBlank (c : Char) : Bool := inRanges blankRanges c.toNat

/-- The words of a text: its maximal runs of non-blank characters. -/
def words (text : List Char) : List (List Char) :=
  (runs isBlank text).filterMap fun run => if run.1 then none else some run.2

/-- Removes blank characters in front. -/
def trimStart (text : List Char) : List Char := text.dropWhile isBlank

/-- Removes blank characters at the end. -/
def trimEnd (text : List Char) : List Char := dropEndWhile isBlank text

/-- Removes blank characters at both ends. -/
def trim (text : List Char) : List Char := trimEnd (trimStart text)

/-- Whether every character is blank. -/
def allBlank (text : List Char) : Bool := text.all isBlank

/-- Removes one carriage return at the end of a line that a line feed ended. -/
def dropReturn (line : List Char) : List Char := (dropTail? ['\r'] line).getD line

/-- The lines of a text. A line feed ends a line, together with a carriage return before it; what
    follows the last line feed is a line only if it is not empty. -/
def lines (text : List Char) : List (List Char) :=
  match (splitWhere (· = '\n') text).reverse with
  | [] => []
  | last :: ended =>
    (ended.reverse.map dropReturn) ++ (if last.isEmpty then [] else [last])

/-- The characters `Char.isWhitespace` knows are all blank. -/
theorem isBlank_of_isWhitespace (c : Char) (h : c.isWhitespace = true) : isBlank c = true := by
  simp only [Char.isWhitespace, Bool.or_eq_true, decide_eq_true_eq] at h
  rcases h with ((h | h) | h) | h <;> subst h <;> decide

end Text

end StoragePolicy
