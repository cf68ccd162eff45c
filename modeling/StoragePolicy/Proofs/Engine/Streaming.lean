import StoragePolicy.MetricStream
import StoragePolicy.Engine.Session
import StoragePolicy.Proofs.Text.Lines
import StoragePolicy.Proofs.Text.Utf8

/-!
# Streams and bodies

Metric lines come in two ways: as a stream of bytes, which is read in bounded steps, and as the text
of one request. The two cut, trim and leave out lines differently. What observers get does not
depend on it: a stream gives them the samples of its lines up to the first that cannot be read, and
if all can be read, the text of the whole stream gives them the same.

A stream is cut behind every line feed. That is said of the bytes alone, without regard to the steps
in which they are read, and without regard to characters. It agrees with the lines of the text,
because no other character has a line feed among its bytes.

## Main definitions

* `Fanout.deliverAll`: Samples that are handed to observers one after the other.
* `Fanout.sightings`, `Fanout.noting`: What observers get to see.
* `Fanout.serving`: Surroundings of the engine with these observers.
* `MetricStream.cutLines`: The pieces of a stream, each up to its line feed.
* `MetricStream.Readable`: A piece that can be read.
* `MetricStream.samples`: The samples of a stream.

## Theorems

* `cutLines_flatten`: The pieces of a stream are the stream.
* `readLines_eq`: Reading in bounded steps gives the pieces that can be read.
* `samplesOn_lines`: The samples of a text are those of its bytes.
* `run_ingestLines`: Lines are taken in one after the other.
* `run_stream`: What observers get from a stream, and from its text.
-/

namespace StoragePolicy

namespace Fanout

variable {α σ : Type}

/-- Hands samples to observers one after the other; gives how many were accepted. -/
def deliverAll (f : Fanout α) (receive : Sample → α → σ → Receipt × σ) :
    List Sample → σ → Nat × σ
  | [], s => (0, s)
  | sample :: rest, s =>
    let (accepted, s) := f.deliver sample.tenantId (receive sample) s
    let (more, s) := deliverAll f receive rest s
    (accepted + more, s)

/-- What observers get to see if samples are handed to them one after the other. -/
def sightings (f : Fanout α) (samples : List Sample) : List (α × Sample) :=
  samples.flatMap fun sample => (f.observers sample.tenantId).map fun o => (o.2, sample)

/-- Observers that also note down what they get to see. -/
def noting (receive : Sample → α → σ → Receipt × σ) (sample : Sample) (observer : α)
    (s : List (α × Sample) × σ) : Receipt × List (α × Sample) × σ :=
  let (receipt, rest) := receive sample observer s.2
  (receipt, s.1 ++ [(observer, sample)], rest)

/-- Surroundings of the engine in which these observers get the samples. -/
def serving (f : Fanout α) (receive : Sample → α → σ → Receipt × σ)
    (others : (c : Engine.Call) → σ → c.Reply × σ) : (c : Engine.Call) → σ → c.Reply × σ
  | .deliver sample, s => f.deliver sample.tenantId (receive sample) s
  | c, s => others c s

/-! ### What observers get to see -/

theorem noted_deliverTo (receive : Sample → α → σ → Receipt × σ) (sample : Sample)
    (observers : List (Nat × α)) (s : List (α × Sample) × σ) :
    (deliverTo (noting receive sample) observers s).2.1 =
      s.1 ++ observers.map fun o => (o.2, sample) := by
  induction observers generalizing s with
  | nil => exact (List.append_nil _).symm
  | cons o rest ih =>
    refine (ih (noting receive sample o.2 s).2).trans ?_
    rw [List.map_cons]
    exact List.append_assoc _ _ _

/-- Every sample is seen by all observers of its tenant, one sample after the other. -/
theorem noted_deliverAll (f : Fanout α) (receive : Sample → α → σ → Receipt × σ)
    (samples : List Sample) (s : List (α × Sample) × σ) :
    (f.deliverAll (noting receive) samples s).2.1 = s.1 ++ f.sightings samples := by
  induction samples generalizing s with
  | nil => exact (List.append_nil _).symm
  | cons sample rest ih =>
    have hfirst := noted_deliverTo receive sample (f.observers sample.tenantId) s
    refine (ih (f.deliver sample.tenantId (noting receive sample) s).2).trans ?_
    rw [deliver, hfirst, List.append_assoc, sightings, sightings, List.flatMap_cons]

end Fanout

namespace MetricStream

/-! ### The pieces of a stream -/

/-- Cuts bytes behind every line feed. No piece is empty. -/
def cutLines : List UInt8 → List (List UInt8)
  | [] => []
  | b :: rest =>
    if b = 0x0A then [b] :: cutLines rest
    else
      match cutLines rest with
      | [] => [[b]]
      | line :: lines => (b :: line) :: lines

/-- A piece that is not too long and consists of the bytes of a text. -/
def Readable (line : List UInt8) : Prop :=
  line.length ≤ maxLine ∧ ∃ text, line = Text.bytesOf text

/-- The sample on a line, if there is one. -/
def sampleOn (line : List Char) : Option Sample := (Sample.parse (String.ofList line)).toOption

theorem readLine?_eq_some_iff (line : List UInt8) (text : List Char) :
    readLine? line = some text ↔ line.length ≤ maxLine ∧ line = Text.bytesOf text := by
  rw [← Text.ofBytes?_eq_some_iff, readLine?]
  by_cases hlong : maxLine < line.length
  · rw [if_pos hlong]
    exact ⟨fun h => (nomatch h), fun h => absurd hlong (Nat.not_lt.mpr h.1)⟩
  · rw [if_neg hlong]
    exact ⟨fun h => ⟨Nat.not_lt.mp hlong, h⟩, fun h => h.2⟩

theorem readable_iff (line : List UInt8) : (readLine? line).isSome ↔ Readable line := by
  rw [Option.isSome_iff_exists, Readable]
  constructor
  · rintro ⟨text, h⟩
    rw [readLine?_eq_some_iff] at h
    exact ⟨h.1, text, h.2⟩
  · rintro ⟨hlength, text, htext⟩
    exact ⟨text, (readLine?_eq_some_iff line text).mpr ⟨hlength, htext⟩⟩

instance (line : List UInt8) : Decidable (Readable line) :=
  decidable_of_iff _ (readable_iff line)

/-- The texts of the pieces before the first that cannot be read. -/
def textsBefore (pieces : List (List UInt8)) : List (List Char) :=
  (pieces.takeWhile fun line => decide (Readable line)).filterMap Text.ofBytes?

/-- The samples on the lines of a stream before the first that cannot be read. -/
def samples (bytes : List UInt8) : List Sample := (textsBefore (cutLines bytes)).filterMap sampleOn

/-- The pieces of a stream are the stream. -/
theorem cutLines_flatten (bytes : List UInt8) : (cutLines bytes).flatten = bytes := by
  induction bytes with
  | nil => rfl
  | cons b rest ih =>
    rw [cutLines]
    split
    · rw [List.flatten_cons, ih]
      rfl
    · split
      · rename_i h
        rw [h] at ih
        rw [← ih]
        rfl
      · rename_i line lines h
        rw [h] at ih
        rw [← ih]
        rfl

theorem cutLines_append (piece rest : List UInt8) (h : ∀ b ∈ piece, decide (b = 0x0A) = false) :
    cutLines (piece ++ 0x0A :: rest) = (piece ++ [0x0A]) :: cutLines rest := by
  induction piece with
  | nil => rfl
  | cons b more ih =>
    rw [List.cons_append, cutLines, if_neg (of_decide_eq_false (h b List.mem_cons_self)),
      ih fun c hc => h c (List.mem_cons_of_mem b hc)]
    rfl

theorem cutLines_of_none (piece : List UInt8) (h : ∀ b ∈ piece, decide (b = 0x0A) = false) :
    cutLines piece = if piece.isEmpty then [] else [piece] := by
  induction piece with
  | nil => rfl
  | cons b more ih =>
    rw [cutLines, if_neg (of_decide_eq_false (h b List.mem_cons_self)),
      ih fun c hc => h c (List.mem_cons_of_mem b hc)]
    cases more <;> rfl

/-! ### Bounded steps -/

theorem takeLine_of_none (limit : Nat) (piece : List UInt8)
    (h : ∀ b ∈ piece, decide (b = 0x0A) = false) :
    takeLine limit piece = (piece.take limit, piece.drop limit) := by
  induction limit generalizing piece with
  | zero => rfl
  | succ limit ih =>
    cases piece with
    | nil => rfl
    | cons b more =>
      rw [takeLine, if_neg (of_decide_eq_false (h b List.mem_cons_self)),
        ih more fun c hc => h c (List.mem_cons_of_mem b hc)]
      rfl

/-- A step takes a piece with its line feed, or as much of it as the limit allows. -/
theorem takeLine_line (limit : Nat) (piece rest : List UInt8)
    (h : ∀ b ∈ piece, decide (b = 0x0A) = false) :
    takeLine limit (piece ++ 0x0A :: rest) =
      if piece.length < limit then (piece ++ [0x0A], rest)
      else (piece.take limit, piece.drop limit ++ 0x0A :: rest) := by
  induction limit generalizing piece with
  | zero => rfl
  | succ limit ih =>
    cases piece with
    | nil => rfl
    | cons b more =>
      rw [List.cons_append, takeLine, if_neg (of_decide_eq_false (h b List.mem_cons_self)),
        ih more fun c hc => h c (List.mem_cons_of_mem b hc), List.length_cons]
      by_cases hfits : more.length < limit
      · rw [if_pos hfits, if_pos (Nat.succ_lt_succ hfits)]
        rfl
      · rw [if_neg hfits, if_neg (by omega)]
        rfl

theorem textsBefore_cons (line : List UInt8) (lines : List (List UInt8)) :
    textsBefore (line :: lines) = match readLine? line with
      | some text => text :: textsBefore lines
      | none => [] := by
  have hreadable := readable_iff line
  rw [textsBefore, List.takeWhile_cons]
  cases hread : readLine? line with
  | none =>
    rw [hread] at hreadable
    rw [if_neg]
    · rfl
    · rw [decide_eq_true_eq, ← hreadable]
      exact Bool.false_ne_true
  | some text =>
    rw [hread] at hreadable
    have htext := (readLine?_eq_some_iff line text).mp hread
    rw [if_pos (decide_eq_true (hreadable.mp rfl)), List.filterMap_cons,
      (Text.ofBytes?_eq_some_iff line text).mpr htext.2]
    rfl

theorem readLine?_of_long (line : List UInt8) (h : maxLine < line.length) :
    readLine? line = none := if_pos h

/-- What is read of a stream, from its first step on. -/
theorem readLines_of_takeLine (bytes line rest : List UInt8) (hne : bytes ≠ [])
    (h : takeLine (maxLine + 1) bytes = (line, rest)) :
    readLines bytes = match readLine? line with
      | some text => text :: readLines rest
      | none => [] := by
  cases bytes with
  | nil => exact absurd rfl hne
  | cons b more =>
    cases hread : readLine? line with
    | some text => simp only [readLines, h, hread]
    | none => simp only [readLines, h, hread]

/-- Reading in bounded steps gives the pieces that can be read. -/
theorem readLines_eq (bytes : List UInt8) : readLines bytes = textsBefore (cutLines bytes) := by
  induction bytes using Text.pieces_induction fun b : UInt8 => decide (b = 0x0A) with
  | last piece hpiece =>
    rw [cutLines_of_none piece hpiece]
    cases piece with
    | nil =>
      rw [readLines]
      rfl
    | cons b more =>
      rw [readLines_of_takeLine _ _ _ (List.cons_ne_nil b more)
        (takeLine_of_none (maxLine + 1) _ hpiece), List.isEmpty_cons, if_neg Bool.false_ne_true,
        textsBefore_cons]
      by_cases hlong : maxLine < (b :: more).length
      · rw [readLine?_of_long _ hlong, readLine?_of_long]
        rw [List.length_take]
        omega
      · rw [List.take_of_length_le (by omega), List.drop_of_length_le (by omega), readLines]
        rfl
  | line piece b rest hpiece hb ih =>
    cases of_decide_eq_true hb
    have hne : piece ++ 0x0A :: rest ≠ [] :=
      List.append_ne_nil_of_right_ne_nil _ (List.cons_ne_nil _ _)
    have hstep := takeLine_line (maxLine + 1) piece rest hpiece
    rw [cutLines_append piece rest hpiece, textsBefore_cons, ← ih]
    by_cases hlong : maxLine < piece.length
    · -- The step ends within the piece, and so it is too long as well.
      rw [if_neg (by omega)] at hstep
      rw [readLines_of_takeLine _ _ _ hne hstep, readLine?_of_long, readLine?_of_long]
      · rw [List.length_append]
        omega
      · rw [List.length_take]
        omega
    · rw [if_pos (by omega)] at hstep
      exact readLines_of_takeLine _ _ _ hne hstep

/-! ### Samples -/

/-- Which sample is on a line does not depend on its blank ends. -/
theorem sampleOn_congr (line other : List Char) (h : Text.trim line = Text.trim other) :
    sampleOn line = sampleOn other := by
  rw [sampleOn, sampleOn, Sample.parse, Sample.parse, String.toList_ofList, String.toList_ofList, h]

theorem sampleOn_of_allBlank (line : List Char) (h : Text.allBlank line = true) :
    sampleOn line = none :=
  sampleOn_congr line [] (Text.trim_of_allBlank line h)

/-- Blank lines may be left out, and the others trimmed. -/
theorem samplesOn_unblank (cut : List Char → List Char)
    (hcut : ∀ line, Text.trim (cut line) = Text.trim line) (lines : List (List Char)) :
    (lines.filterMap fun line =>
        if Text.allBlank line then none else some (String.ofList (cut line))).filterMap
      (fun line => (Sample.parse line).toOption) = lines.filterMap sampleOn := by
  rw [List.filterMap_filterMap]
  refine List.filterMap_congr fun line _ => ?_
  by_cases hblank : Text.allBlank line = true
  · rw [if_pos hblank, sampleOn_of_allBlank line hblank]
    rfl
  · rw [if_neg hblank]
    exact sampleOn_congr (cut line) line (hcut line)

theorem samples_lines (bytes : List UInt8) :
    (lines bytes).filterMap (fun line => (Sample.parse line).toOption) = samples bytes := by
  rw [lines, samplesOn_unblank Text.trimEnd Text.trim_trimEnd, readLines_eq]
  rfl

theorem samples_metricLines (text : String) :
    (Engine.metricLines text).filterMap (fun line => (Sample.parse line).toOption) =
      (Text.lines text.toList).filterMap sampleOn :=
  samplesOn_unblank id (fun _ => rfl) (Text.lines text.toList)

theorem linefeed_not_mem (piece : List Char) (h : ∀ c ∈ piece, decide (c = '\n') = false) :
    ∀ b ∈ Text.bytesOf piece, decide (b = 0x0A) = false := by
  intro b hb
  rw [decide_eq_false_iff_not]
  rintro rfl
  exact of_decide_eq_false (h '\n' ((Text.mem_bytesOf_linefeed piece).mp hb)) rfl

/-- The samples on the lines of a text are those on the pieces of its bytes. -/
theorem samplesOn_lines (text : List Char) : (Text.lines text).filterMap sampleOn =
    ((cutLines (Text.bytesOf text)).filterMap Text.ofBytes?).filterMap sampleOn := by
  have hread : ∀ text, Text.ofBytes? (Text.bytesOf text) = some text :=
    fun text => (Text.ofBytes?_eq_some_iff _ text).mpr rfl
  -- The induction is on the ends of the lines of the text.
  induction text using Text.pieces_induction fun c : Char => decide (c = '\n') with
  | last piece hpiece =>
    rw [Text.lines_of_none piece hpiece, cutLines_of_none _ (linefeed_not_mem piece hpiece)]
    cases piece with
    | nil => rfl
    | cons c more =>
      rcases Text.takeChar_utf8EncodeChar c (Text.bytesOf more) with ⟨b, tail, hbytes, -⟩
      have hne : (Text.bytesOf (c :: more)).isEmpty = false := by
        rw [Text.bytesOf, List.flatMap_cons, hbytes]
        rfl
      rw [hne, if_neg Bool.false_ne_true, List.filterMap_cons, hread]
      rfl
  | line piece c rest hpiece hc ih =>
    cases of_decide_eq_true hc
    have hbytes : Text.bytesOf (piece ++ '\n' :: rest) =
        Text.bytesOf piece ++ 0x0A :: Text.bytesOf rest := Text.bytesOf_append piece ('\n' :: rest)
    have hpieceBytes : Text.bytesOf piece ++ [0x0A] = Text.bytesOf (piece ++ ['\n']) :=
      (Text.bytesOf_append piece ['\n']).symm
    -- A line comes without its end and a piece comes with it, but samples are read of trimmed
    -- text.
    have hsample : sampleOn (Text.dropReturn piece) = sampleOn (piece ++ ['\n']) := by
      refine sampleOn_congr _ _ ?_
      rw [Text.trim_dropReturn, Text.trim_append_blank piece '\n' (by decide)]
    rw [Text.lines_append piece rest hpiece, hbytes,
      cutLines_append _ _ (linefeed_not_mem piece hpiece), hpieceBytes, List.filterMap_cons,
      List.filterMap_cons, hread, hsample, ih]
    rfl

/-- If every piece of a stream can be read, the stream is a text. -/
theorem exists_text (bytes : List UInt8) (h : ∀ line ∈ cutLines bytes, Readable line) :
    ∃ text, bytes = Text.bytesOf text := by
  rw [← cutLines_flatten bytes]
  generalize cutLines bytes = lines at h
  induction lines with
  | nil => exact ⟨[], rfl⟩
  | cons line rest ih =>
    rcases (h line List.mem_cons_self).2 with ⟨text, rfl⟩
    rcases ih fun other hother => h other (List.mem_cons_of_mem _ hother) with ⟨more, hmore⟩
    refine ⟨text ++ more, ?_⟩
    rw [List.flatten_cons, hmore, Text.bytesOf_append]

theorem samples_of_readable (bytes : List UInt8) (h : ∀ line ∈ cutLines bytes, Readable line) :
    samples bytes = ((cutLines bytes).filterMap Text.ofBytes?).filterMap sampleOn := by
  rw [samples, textsBefore, List.takeWhile_eq_self_iff.mpr fun line hline =>
    decide_eq_true (h line hline)]

/-! ### Taking in -/

section Run

variable {α σ : Type} (f : Fanout α) (receive : Sample → α → σ → Fanout.Receipt × σ)
  (others : (c : Engine.Call) → σ → c.Reply × σ)

/-- Lines are taken in one after the other. -/
theorem run_ingestLines (lines : List String) (report : Engine.IngestReport) (s : σ) :
    let handed := f.deliverAll receive
      (lines.filterMap fun line => (Sample.parse line).toOption) s
    let outcome := (Engine.ingestLines lines report).run (f.serving receive others) s
    outcome.2 = handed.2 ∧ outcome.1.delivered = report.delivered + handed.1 ∧
      outcome.1.samples + outcome.1.rejected.length =
        report.samples + report.rejected.length + lines.length := by
  induction lines generalizing report s with
  | nil => exact ⟨rfl, rfl, rfl⟩
  | cons line rest ih =>
    rw [Engine.ingestLines, List.filterMap_cons, Engine.ingestLine]
    -- A line that holds no sample is counted as rejected, and nobody gets to see it.
    cases Sample.parse line with
    | error e =>
      rcases ih { report with rejected := report.rejected ++ [.malformedSample e] } s with
        ⟨hstate, hdelivered, hlines⟩
      refine ⟨hstate, hdelivered, hlines.trans ?_⟩
      change report.samples + (report.rejected ++ [_]).length + rest.length = _
      rw [List.length_append, List.length_singleton, List.length_cons]
      omega
    | ok sample =>
      rcases ih
        { report with
          samples := report.samples + 1
          delivered := report.delivered + (f.deliver sample.tenantId (receive sample) s).1 }
        (f.deliver sample.tenantId (receive sample) s).2 with ⟨hstate, hdelivered, hlines⟩
      refine ⟨hstate, hdelivered.trans (Nat.add_assoc _ _ _), hlines.trans ?_⟩
      change report.samples + 1 + report.rejected.length + rest.length = _
      rw [List.length_cons]
      omega

theorem length_metricLines (text : String) : (Engine.metricLines text).length =
    ((Text.lines text.toList).filter fun line => !Text.allBlank line).length := by
  rw [Engine.metricLines]
  induction Text.lines text.toList with
  | nil => rfl
  | cons line rest ih =>
    rw [List.filterMap_cons, List.filter_cons]
    by_cases hblank : Text.allBlank line = true
    · rw [if_pos hblank, hblank]
      exact ih
    · rw [if_neg hblank, if_pos (by simpa using hblank), List.length_cons, List.length_cons]
      exact congrArg (· + 1) ih

/-- Whatever observers there are and whatever they do with a sample: a stream gives them the samples
    on its lines before the first that is too long or not UTF-8, in order, and nothing else. If
    there is no such line, the stream is a text, and taking in that text does the same. Its report
    then counts every line that is not blank, and how many observers accepted each sample. -/
theorem run_stream (bytes : List UInt8) (s : σ) :
    ((ingest bytes).run (f.serving receive others) s).2 =
        (f.deliverAll receive (samples bytes) s).2 ∧
      (∀ noted othersNoting,
        ((ingest bytes).run (f.serving (Fanout.noting receive) othersNoting) (noted, s)).2.1 =
          noted ++ f.sightings (samples bytes)) ∧
      ((∀ line ∈ cutLines bytes, Readable line) →
        ∃ text, Text.ofBytes? bytes = some text ∧
          let outcome :=
            (Engine.ingest (String.ofList text)).run (f.serving receive others) s
          outcome.2 = (f.deliverAll receive (samples bytes) s).2 ∧
            outcome.1.samples + outcome.1.rejected.length =
              ((Text.lines text).filter fun line => !Text.allBlank line).length ∧
            outcome.1.delivered = (f.deliverAll receive (samples bytes) s).1) := by
  refine ⟨?_, ?_, ?_⟩
  · rw [← samples_lines]
    exact (run_ingestLines f receive others (lines bytes) {} s).1
  · intro noted othersNoting
    have hrun :=
      (run_ingestLines f (Fanout.noting receive) othersNoting (lines bytes) {} (noted, s)).1
    rw [samples_lines] at hrun
    exact (congrArg Prod.fst hrun).trans (Fanout.noted_deliverAll f receive _ (noted, s))
  · intro hreadable
    -- Without such a line the bytes are those of a text, and its lines hold the samples of the
    -- stream.
    rcases exists_text bytes hreadable with ⟨text, htext⟩
    have hsamples : samples bytes = (Engine.metricLines (String.ofList text)).filterMap
        fun line => (Sample.parse line).toOption := by
      rw [samples_of_readable bytes hreadable, samples_metricLines, String.toList_ofList,
        samplesOn_lines, htext]
    rcases run_ingestLines f receive others (Engine.metricLines (String.ofList text)) {} s with
      ⟨hstate, hdelivered, hlines⟩
    refine ⟨text, (Text.ofBytes?_eq_some_iff bytes text).mpr htext, ?_⟩
    rw [hsamples]
    refine ⟨hstate, hlines.trans ?_, hdelivered.trans (Nat.zero_add _)⟩
    rw [length_metricLines, String.toList_ofList]
    exact Nat.zero_add _

end Run

/-! ### A stream of three lines -/

/-- A line that ends in a carriage return, a blank line, and one without an end, which is no
    sample. -/
def threeLines : List Char := "PUTVAL h*t1*put_bw N:1\r\n\nN:2".toList

/-- An observer that accepts every sample, and one that refuses every sample. -/
def twoObservers : Fanout Bool := (({} : Fanout Bool).attach "t1" 1 true).attach "t1" 2 false

/-- What these observers do: the metrics of accepted samples are kept. -/
def keepMetric (sample : Sample) (accepts : Bool) (kept : List String) :
    Fanout.Receipt × List String :=
  if accepts then (.accepted, kept ++ [sample.metric]) else (.refused, kept)

theorem cutLines_threeLines : cutLines (Text.bytesOf threeLines) =
    ["PUTVAL h*t1*put_bw N:1\r\n".toList, "\n".toList, "N:2".toList].map Text.bytesOf := by
  decide

theorem readable_threeLines : ∀ line ∈ cutLines (Text.bytesOf threeLines), Readable line := by
  rw [cutLines_threeLines]
  intro line hline
  rcases List.mem_map.mp hline with ⟨text, htext, rfl⟩
  refine ⟨?_, text, rfl⟩
  revert htext text
  decide

/-- Two of the three lines are not blank, one of them is a sample, and one of the two observers
    accepts it. -/
theorem run_stream_three_lines :
    (∀ line ∈ cutLines (Text.bytesOf threeLines), Readable line) ∧
      ∃ text, Text.ofBytes? (Text.bytesOf threeLines) = some text ∧
        let outcome := (Engine.ingest (String.ofList text)).run
          (twoObservers.serving keepMetric fun c s => ((Session.exec c {}).1, s)) []
        outcome.2 = ["put_bw"] ∧ outcome.1.samples + outcome.1.rejected.length = 2 ∧
          outcome.1.delivered = 1 := by
  refine ⟨readable_threeLines, ?_⟩
  have hhanded : twoObservers.deliverAll keepMetric (samples (Text.bytesOf threeLines)) [] =
      (1, ["put_bw"]) := by
    rw [samples_of_readable _ readable_threeLines, ← samplesOn_lines]
    rfl
  rcases (run_stream twoObservers keepMetric (fun c s => ((Session.exec c {}).1, s))
    (Text.bytesOf threeLines) []).2.2 readable_threeLines with
    ⟨text, htext, hstate, hlines, hdelivered⟩
  rw [hhanded] at hstate hdelivered
  cases htext.symm.trans ((Text.ofBytes?_eq_some_iff _ threeLines).mpr rfl)
  exact ⟨_, htext, hstate, hlines.trans rfl, hdelivered⟩

end MetricStream

end StoragePolicy
