import StoragePolicy.Text.Utf8
import StoragePolicy.Text.Blank
import StoragePolicy.Engine.Policies

/-!
# Metric streams

Metric lines may also arrive as a stream of bytes. The stream is read in bounded steps, each up to
the next line feed, but never further than one byte past the greatest length. A line that is too
long or is not UTF-8 ends the stream, and what was read before it counts. The last line need not be
ended.

## Main definitions

* `MetricStream.maxLine`: The greatest length of a line.
* `MetricStream.takeLine`: A bounded step.
* `MetricStream.lines`: The lines of a stream that count.
* `MetricStream.ingest`: Takes in a stream.

## Theorems

* `takeLine_append`: A step loses nothing.
* `takeLine_shorter`: Every step takes at least one byte, so reading ends.
-/

namespace StoragePolicy

namespace MetricStream

/-- The greatest length of a line in bytes, its line end included. -/
def maxLine : Nat := 8192

/-- Takes bytes up to the first line feed and with it, but no more than the limit. Gives what is
    left as well. -/
def takeLine : Nat → List UInt8 → List UInt8 × List UInt8
  | 0, bytes => ([], bytes)
  | _ + 1, [] => ([], [])
  | limit + 1, b :: rest =>
    if b = 0x0A then ([b], rest)
    else (b :: (takeLine limit rest).1, (takeLine limit rest).2)

/-- The text of a line, unless it is too long or not UTF-8. -/
def readLine? (line : List UInt8) : Option (List Char) :=
  if maxLine < line.length then none else Text.ofBytes? line

/-- A step loses nothing. -/
theorem takeLine_append (limit : Nat) (bytes : List UInt8) :
    (takeLine limit bytes).1 ++ (takeLine limit bytes).2 = bytes := by
  induction limit generalizing bytes with
  | zero => rfl
  | succ limit ih =>
    cases bytes with
    | nil => rfl
    | cons b rest =>
      rw [takeLine]
      split
      · rfl
      · rw [List.cons_append, ih]

/-- Every step takes at least one byte. -/
theorem takeLine_shorter (limit : Nat) (b : UInt8) (rest : List UInt8) :
    (takeLine (limit + 1) (b :: rest)).2.length ≤ rest.length := by
  rw [takeLine]
  split
  · exact Nat.le_refl _
  · have hlength := congrArg List.length (takeLine_append limit rest)
    rw [List.length_append] at hlength
    exact Nat.le_of_add_left_le (Nat.le_of_eq hlength)

/-- The lines up to the first that cannot be read. A limit of one byte more than a line may have
    tells a line that is too long from one that is not. -/
def readLines : List UInt8 → List (List Char)
  | [] => []
  | b :: rest =>
    match readLine? (takeLine (maxLine + 1) (b :: rest)).1 with
    | some text => text :: readLines (takeLine (maxLine + 1) (b :: rest)).2
    | none => []
termination_by bytes => bytes.length
decreasing_by exact Nat.lt_succ_of_le (takeLine_shorter maxLine b rest)

/-- The lines of a stream that count: those before the first that cannot be read, without blank
    ones. -/
def lines (bytes : List UInt8) : List String :=
  (readLines bytes).filterMap fun line =>
    if Text.allBlank line then none else some (String.ofList (Text.trimEnd line))

/-- Takes in a stream. -/
def ingest (bytes : List UInt8) : Program Engine.interface Engine.IngestReport :=
  Engine.ingestLines (lines bytes) {}

end MetricStream

end StoragePolicy
