import StoragePolicy.Sample.Parser
import StoragePolicy.Proofs.Outcome
import StoragePolicy.Proofs.Text.Words

/-!
# Lines that are measurements

A line of words is cut five times on its way to a sample: at blanks, at the stars of its
identifier, at the first slash of the metric, before the ending `_tenant` and at the first colon of
the data word. What a line must look like is said here the other way round. A measurement is put
together from its parts, nothing is cut, and a line is read as a sample exactly if a measurement is
written in it that means the sample.

Only three of the parts count. The host, the kind behind the slash, what follows a third star, the
words in between and the blanks can be anything that keeps the cuts where they are.

## Main definitions

* `Sample.Putval`: The parts of a line of words.
* `Putval.Cut`: The parts do not run into each other.
* `Putval.Written`: Lines in which the parts stand.
* `Putval.Means`: Samples that the parts mean.

## Theorems

* `parse_eq_ok_iff_means`: What becomes of a line in which the parts stand.
* `exists_written`: Parts stand in every line that is read.
* `parse_iff_written`: A line is read as a sample exactly if parts stand in it that mean the sample.
-/

namespace StoragePolicy

namespace Sample

/-- The parts of a line of words, but for the command and the blanks. -/
structure Putval where
  /-- What stands before the first star of the identifier. -/
  host : List Char
  /-- What stands before the second one. -/
  tenant : List Char
  /-- The metric up to its first slash. -/
  stem : List Char
  /-- The slash and what stands behind it, up to the next star. -/
  kind : List Char
  /-- The third star and what stands behind it. -/
  more : List Char
  /-- The words between the identifier and the data word. -/
  between : List (List Char)
  /-- The last word. -/
  data : List Char

/-- The words of the two commands. -/
def commands : List (List (List Char)) := [["PUTVAL".toList], ["PUT".toList, "VAL".toList]]

namespace Putval

/-- The identifier. -/
def identifier (p : Putval) : List Char :=
  p.host ++ '*' :: (p.tenant ++ '*' :: ((p.stem ++ p.kind) ++ p.more))

/-- The words behind the command. -/
def words (p : Putval) : List (List Char) := p.identifier :: (p.between ++ [p.data])

/-- The parts of the identifier do not run into each other: a part ends where it is said to end. -/
structure Cut (p : Putval) : Prop where
  host : '*' ∉ p.host
  tenant : '*' ∉ p.tenant
  stem : '*' ∉ p.stem ∧ '/' ∉ p.stem
  kind : '*' ∉ p.kind ∧ ∀ c ∈ p.kind.head?, c = '/'
  more : ∀ c ∈ p.more.head?, c = '*'

/-- Lines in which the parts stand behind a command. -/
def Written (p : Putval) (line : List Char) : Prop :=
  p.Cut ∧ ∃ command ∈ commands, Text.Spaced (command ++ p.words) line

/-- Samples that the parts mean. The tenant and the metric are not empty, the metric is the stem
    without one ending `_tenant`, and the data word is a time and a value. -/
structure Means (p : Putval) (sample : Sample) : Prop where
  tenant : p.tenant = sample.tenantId.toList ∧ sample.tenantId ≠ ""
  metric : (p.stem = sample.metric.toList ++ tenantEnding ∨
    p.stem = sample.metric.toList ∧ ¬ tenantEnding <:+ p.stem) ∧ sample.metric ≠ ""
  data : ∃ time value, p.data = time ++ ':' :: value ∧ ':' ∉ time ∧
    readTime time = some sample.timestamp ∧ Number.readDouble value = some sample.value

/-- What the parts mean is a matter of the tenant, the stem and the data word. -/
theorem means_congr (p q : Putval) (htenant : p.tenant = q.tenant) (hstem : p.stem = q.stem)
    (hdata : p.data = q.data) (sample : Sample) : p.Means sample ↔ q.Means sample := by
  constructor
  · rintro ⟨h1, h2, h3⟩
    exact ⟨htenant ▸ h1, hstem ▸ h2, hdata ▸ h3⟩
  · rintro ⟨h1, h2, h3⟩
    exact ⟨htenant ▸ h1, hstem ▸ h2, hdata ▸ h3⟩

end Putval

/-! ### The identifier -/

theorem metricName_eq_iff (stem kind name : List Char) (hstem : '/' ∉ stem)
    (hkind : ∀ c ∈ kind.head?, c = '/') :
    metricName (stem ++ kind) = name ↔
      stem = name ++ tenantEnding ∨ stem = name ∧ ¬ tenantEnding <:+ stem := by
  have htake : (stem ++ kind).takeWhile (· ≠ '/') = stem := by
    rw [List.takeWhile_append_of_pos fun c hc => by simpa using fun h : c = '/' => hstem (h ▸ hc)]
    cases kind with
    | nil => exact List.append_nil stem
    | cons c rest => simp [hkind c rfl]
  rw [metricName, htake, Text.getD_dropTail?_eq_iff]

/-- An identifier has three parts or more. Parts behind the third one are not looked at. -/
theorem readIdentifier_eq_ok_iff (identifier tenant name : List Char) :
    readIdentifier identifier = .ok (tenant, name) ↔
      ∃ host metric rest,
        Text.splitWhere (· = '*') identifier = host :: tenant :: metric :: rest ∧
          tenant ≠ [] ∧ metricName metric = name ∧ name ≠ [] := by
  rw [readIdentifier]
  split
  -- Three parts are enough, whatever follows them.
  · rename_i host tenant' metric rest hsplit
    rw [hsplit]
    constructor
    · intro h
      by_cases htenant : tenant' = []
      · rw [htenant] at h
        exact nomatch h
      by_cases hname : metricName metric = []
      · simp [htenant, hname] at h
      · simp only [List.isEmpty_iff, if_neg htenant, if_neg hname] at h
        cases h
        exact ⟨host, metric, rest, rfl, htenant, rfl, hname⟩
    · rintro ⟨_, _, _, heq, htenant, rfl, hname⟩
      cases heq
      simp only [List.isEmpty_iff, if_neg htenant, if_neg hname]
  · rename_i hshort
    constructor
    · intro h
      exact nomatch h
    · rintro ⟨host, metric, rest, heq, -⟩
      exact absurd heq (hshort host tenant metric rest)

theorem splitWhere_identifier (p : Putval) (h : p.Cut) :
    ∃ rest, Text.splitWhere (· = '*') p.identifier
      = p.host :: p.tenant :: (p.stem ++ p.kind) :: rest := by
  have hmetric : '*' ∉ p.stem ++ p.kind := fun hmem =>
    (List.mem_append.mp hmem).elim h.stem.1 h.kind.1
  rcases Text.exists_splitWhere_append (fun c => decide (c = '*')) (p.stem ++ p.kind) p.more
    ((Text.free_iff '*' _).mpr hmetric) (fun c hc => decide_eq_true (h.more c hc)) with
    ⟨rest, hrest⟩
  refine ⟨rest, ?_⟩
  rw [Putval.identifier,
    Text.splitWhere_append _ _ _ '*' ((Text.free_iff '*' _).mpr h.host) (decide_eq_true rfl),
    Text.splitWhere_append _ _ _ '*' ((Text.free_iff '*' _).mpr h.tenant) (decide_eq_true rfl),
    hrest]

/-- What an identifier put together from its parts names. -/
theorem readIdentifier_identifier_eq_ok_iff (p : Putval) (h : p.Cut) (tenant name : List Char) :
    readIdentifier p.identifier = .ok (tenant, name) ↔
      (p.tenant = tenant ∧ tenant ≠ []) ∧
        (p.stem = name ++ tenantEnding ∨ p.stem = name ∧ ¬ tenantEnding <:+ p.stem) ∧
          name ≠ [] := by
  rcases splitWhere_identifier p h with ⟨rest, hrest⟩
  rw [readIdentifier_eq_ok_iff, hrest, ← metricName_eq_iff _ p.kind _ h.stem.2 h.kind.2]
  constructor
  · rintro ⟨_, _, _, heq, htenant, hname, hne⟩
    cases heq
    exact ⟨⟨rfl, htenant⟩, hname, hne⟩
  · rintro ⟨⟨rfl, htenant⟩, hname, hne⟩
    exact ⟨_, _, _, rfl, htenant, hname, hne⟩

/-- Where the parts of an identifier with three or more of them end. -/
theorem exists_identifier (identifier host tenant metric : List Char) (rest : List (List Char))
    (h : Text.splitWhere (· = '*') identifier = host :: tenant :: metric :: rest)
    (between : List (List Char)) (data : List Char) :
    ∃ p : Putval, p.Cut ∧ p.identifier = identifier ∧ p.between = between ∧ p.data = data := by
  rcases Text.splitWhere_eq_cons_cons _ _ _ _ _ h with ⟨a, behind, rfl, hhost, ha, htail⟩
  rcases Text.splitWhere_eq_cons_cons _ _ _ _ _ htail with ⟨b, last, rfl, htenant, hb, hlast⟩
  rcases Text.splitWhere_eq_cons _ _ _ _ hlast with ⟨more, rfl, hmetric, hmore⟩
  cases of_decide_eq_true ha
  cases of_decide_eq_true hb
  rw [Text.free_iff] at hhost htenant hmetric
  -- What stands before the first slash of the metric is the stem, and the rest of it the kind.
  have hsplit : metric.takeWhile (· ≠ '/') ++ metric.dropWhile (· ≠ '/') = metric :=
    List.takeWhile_append_dropWhile
  refine ⟨⟨host, tenant, metric.takeWhile (· ≠ '/'), metric.dropWhile (· ≠ '/'), more, between,
    data⟩, ⟨hhost, htenant, ⟨fun hmem => ?_, fun hmem => ?_⟩,
      ⟨fun hmem => ?_, fun c hc => ?_⟩, fun c hc => of_decide_eq_true (hmore c hc)⟩, ?_, rfl, rfl⟩
  · exact hmetric ((List.takeWhile_prefix _).subset hmem)
  · simpa using List.mem_takeWhile_imp hmem
  · exact hmetric ((List.dropWhile_suffix _).subset hmem)
  · have hhead := List.head?_dropWhile_not (fun c => decide (c ≠ '/')) metric
    rw [Option.mem_def.mp hc] at hhead
    simpa using hhead
  · rw [Putval.identifier, hsplit]

/-! ### The data word -/

/-- A data word is a time and a value, and the colon between them is the first one. -/
theorem readData_eq_ok_iff (data : List Char) (timestamp : Timestamp) (value : Float) :
    readData data = .ok (timestamp, value) ↔
      ∃ time digits, data = time ++ ':' :: digits ∧ ':' ∉ time ∧
        readTime time = some timestamp ∧ Number.readDouble digits = some value := by
  -- The word is cut at its first colon.
  have hcut : ∀ time digits, Text.cutFirst (· = ':') data = some (time, digits) ↔
      data = time ++ ':' :: digits ∧ ':' ∉ time := by
    intro time digits
    rw [Text.cutFirst_eq_some_iff]
    constructor
    · rintro ⟨c, rfl, hc, htime⟩
      cases of_decide_eq_true hc
      exact ⟨rfl, (Text.free_iff ':' time).mp htime⟩
    · rintro ⟨rfl, htime⟩
      exact ⟨':', rfl, decide_eq_true rfl, (Text.free_iff ':' time).mpr htime⟩
  rw [readData]
  constructor
  · intro h
    split at h
    · exact nomatch h
    rename_i time digits heq
    split at h
    · exact nomatch h
    rename_i value' hvalue
    split at h
    · exact nomatch h
    rename_i timestamp' htime
    cases h
    rcases (hcut time digits).mp heq with ⟨hdata, hfree⟩
    exact ⟨time, digits, hdata, hfree, htime, hvalue⟩
  · rintro ⟨time, digits, hdata, hfree, htime, hvalue⟩
    rw [(hcut time digits).mpr ⟨hdata, hfree⟩]
    simp only [hvalue, htime]

/-! ### The line -/

/-- Neither command begins with the first word of the other. -/
theorem dropCommand_eq_some_iff (words rest : List (List Char)) :
    dropCommand words = some rest ↔ ∃ command ∈ commands, words = command ++ rest := by
  simp only [commands, List.mem_cons, List.not_mem_nil, or_false, exists_eq_or_imp, exists_eq_left,
    List.cons_append, List.nil_append]
  cases words with
  | nil => simp [dropCommand]
  | cons first others =>
    simp only [dropCommand, List.cons.injEq]
    -- The commands differ in their first words, so that at most one of them matches.
    by_cases hone : first = "PUTVAL".toList
    · have htwo : ¬ first = "PUT".toList := by
        rw [hone]
        decide
      simp only [eq_true hone, eq_false htwo, if_true, Option.some_inj, true_and, false_and,
        or_false]
    · simp only [eq_false hone, if_false, false_and, false_or]
      cases others with
      | nil => simp
      | cons second others =>
        simp only [Bool.and_eq_true, decide_eq_true_eq, List.cons.injEq, ← and_assoc]
        by_cases htwo : first = "PUT".toList ∧ second = "VAL".toList
        · rw [if_pos htwo, Option.some_inj, eq_true htwo, true_and]
        · rw [if_neg htwo, eq_false htwo, false_and]
          exact ⟨fun h => (nomatch h), False.elim⟩

/-- What is looked at of the words behind a command. -/
theorem readPutval_words (p : Putval) (command : List (List Char)) (hcommand : command ∈ commands) :
    readPutval (command ++ p.words) = (do
      let (tenant, metric) ← readIdentifier p.identifier
      let (timestamp, value) ← readData p.data
      return { tenantId := String.ofList tenant, metric := String.ofList metric, timestamp,
               value }) := by
  have hdrop := (dropCommand_eq_some_iff (command ++ p.words) p.words).mpr ⟨command, hcommand, rfl⟩
  rw [readPutval, hdrop, Putval.words]
  cases hbetween : p.between with
  | nil => rfl
  | cons word others =>
    -- The data word is the last one, however many stand before it.
    simp only [List.cons_append]
    have hlast : (word :: (others ++ [p.data])).getLast (List.cons_ne_nil _ _) = p.data := by
      simp only [← List.cons_append, List.getLast_concat]
    rw [hlast]

theorem parse_eq_ok_iff_readPutval (line : String) (sample : Sample)
    (hbrace : (Text.trim line.toList).head? ≠ some '\x7b') :
    parse line = .ok sample ↔ readPutval (Text.words line.toList) = .ok sample := by
  rw [parse, if_neg hbrace, Outcome.mapError_eq_ok, Text.words_trim]

theorem head?_trim_of_written (p : Putval) (line : List Char) (h : p.Written line) :
    (Text.trim line).head? = some 'P' := by
  rcases h with ⟨-, command, hcommand, hspaced⟩
  rcases List.mem_cons.mp hcommand with rfl | hcommand
  · exact Text.head?_trim_of_spaced "PUTVAL".toList p.words line hspaced
  · cases List.mem_singleton.mp hcommand
    exact Text.head?_trim_of_spaced "PUT".toList ("VAL".toList :: p.words) line hspaced

/-- What becomes of a line in which the parts stand. -/
theorem parse_eq_ok_iff_means (p : Putval) (line : String) (h : p.Written line.toList)
    (sample : Sample) : parse line = .ok sample ↔ p.Means sample := by
  have hbrace : (Text.trim line.toList).head? ≠ some '\x7b' := by
    rw [head?_trim_of_written p line.toList h]
    decide
  rcases h with ⟨hcut, command, hcommand, hspaced⟩
  -- The words that stand in the line are the ones it is cut into, so only the parts are left.
  rw [parse_eq_ok_iff_readPutval line sample hbrace, (Text.spaced_iff _ _).mp hspaced,
    readPutval_words p command hcommand, Outcome.bind_eq_ok]
  constructor
  · rintro ⟨⟨tenant, metric⟩, hidentifier, hrest⟩
    rcases (Outcome.bind_eq_ok _ _ _).mp hrest with ⟨⟨timestamp, value⟩, hdata, hsample⟩
    cases hsample
    rcases (readIdentifier_identifier_eq_ok_iff p hcut tenant metric).mp hidentifier with
      ⟨⟨htenant, htenant'⟩, hmetric, hmetric'⟩
    exact ⟨⟨by rw [String.toList_ofList, htenant], by simpa using htenant'⟩,
      ⟨by rwa [String.toList_ofList], by simpa using hmetric'⟩,
      (readData_eq_ok_iff p.data timestamp value).mp hdata⟩
  · rintro ⟨⟨htenant, htenant'⟩, ⟨hmetric, hmetric'⟩, hdata⟩
    refine ⟨(sample.tenantId.toList, sample.metric.toList),
      (readIdentifier_identifier_eq_ok_iff p hcut _ _).mpr
        ⟨⟨htenant, by simpa using htenant'⟩, hmetric, by simpa using hmetric'⟩,
      (Outcome.bind_eq_ok _ _ _).mpr ⟨(sample.timestamp, sample.value),
        (readData_eq_ok_iff p.data _ _).mpr hdata, ?_⟩⟩
    simp only [String.ofList_toList]
    rfl

/-- Parts stand in every line of words that is read. -/
theorem exists_written (line : String) (sample : Sample)
    (hbrace : (Text.trim line.toList).head? ≠ some '\x7b') (h : parse line = .ok sample) :
    ∃ p : Putval, p.Written line.toList := by
  rw [parse_eq_ok_iff_readPutval line sample hbrace, readPutval] at h
  split at h
  · exact nomatch h
  · rename_i identifier data rest hdrop
    rcases (dropCommand_eq_some_iff _ _).mp hdrop with ⟨command, hcommand, hwords⟩
    rcases (Outcome.bind_eq_ok _ _ _).mp h with ⟨⟨tenant, name⟩, hidentifier, -⟩
    rcases (readIdentifier_eq_ok_iff _ _ _).mp hidentifier with ⟨host, metric, more, hsplit, -⟩
    rcases exists_identifier identifier host tenant metric more hsplit (data :: rest).dropLast
      ((data :: rest).getLast (List.cons_ne_nil data rest)) with
      ⟨p, hcut, rfl, hbetween, hdata⟩
    refine ⟨p, hcut, command, hcommand, (Text.spaced_iff _ _).mpr ?_⟩
    rw [hwords, Putval.words, hbetween, hdata, List.dropLast_append_getLast]
  · exact nomatch h

/-- A line that is no object is read as a sample exactly if parts stand in it that mean the sample.
    Two lines with the same tenant, metric and data word are read as the same sample, or both are
    none, whatever their other parts and their blanks are. -/
theorem parse_iff_written (line : String)
    (hbrace : (Text.trim line.toList).head? ≠ some '\x7b') :
    (∀ sample, parse line = .ok sample ↔
      ∃ p : Putval, p.Written line.toList ∧ p.Means sample) ∧
    ∀ p : Putval, p.Written line.toList →
      ∀ (other : String) (q : Putval), q.Written other.toList →
        q.tenant = p.tenant → q.stem = p.stem → q.data = p.data →
          ∀ sample, parse other = .ok sample ↔ parse line = .ok sample := by
  constructor
  · intro sample
    constructor
    · intro h
      rcases exists_written line sample hbrace h with ⟨p, hp⟩
      exact ⟨p, hp, (parse_eq_ok_iff_means p line hp sample).mp h⟩
    · rintro ⟨p, hp, hmeans⟩
      exact (parse_eq_ok_iff_means p line hp sample).mpr hmeans
  · intro p hp other q hq htenant hstem hdata sample
    rw [parse_eq_ok_iff_means q other hq, parse_eq_ok_iff_means p line hp]
    exact Putval.means_congr q p htenant hstem hdata sample

/-- A line with two endings, a kind, a fourth part, a word in between and many blanks. -/
theorem parse_iff_written_tabbed :
    (Text.trim "\tPUT  VAL h/x*t1*put_bw_tenant_tenant/counter/x*more a:b N:198 ".toList).head?
        ≠ some '\x7b' ∧
      parse "\tPUT  VAL h/x*t1*put_bw_tenant_tenant/counter/x*more a:b N:198 "
        = .ok { tenantId := "t1", metric := "put_bw_tenant", timestamp := .onArrival,
                value := Number.Decimal.toDouble ⟨false, 198, 0⟩ } := by
  have hbrace :
      (Text.trim "\tPUT  VAL h/x*t1*put_bw_tenant_tenant/counter/x*more a:b N:198 ".toList).head?
        ≠ some '\x7b' := by
    decide
  refine ⟨hbrace, ((parse_iff_written _ hbrace).1 _).mpr ⟨⟨"h/x".toList, "t1".toList,
    "put_bw_tenant_tenant".toList, "/counter/x".toList, "*more".toList, ["a:b".toList],
    "N:198".toList⟩, ⟨?_, ["PUT".toList, "VAL".toList], ?_, ?_⟩, ?_⟩⟩
  · exact ⟨by decide, by decide, by decide,
      ⟨by decide, fun c hc => (Option.some.inj hc).symm⟩, fun c hc => (Option.some.inj hc).symm⟩
  · decide
  · rw [Text.spaced_iff]
    decide
  · exact ⟨by decide, ⟨Or.inl (by decide), by decide⟩,
      ⟨"N".toList, "198".toList, by decide, by decide, by decide, rfl⟩⟩

end Sample

end StoragePolicy
