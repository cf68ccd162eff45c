import StoragePolicy.Api.Router
import StoragePolicy.Command.Client
import StoragePolicy.Proofs.Number.Natural
import StoragePolicy.Proofs.Outcome
import StoragePolicy.Proofs.Url.Segments

/-!
# Keys on the command line

A static policy is listed with its target and its id, and to delete it on the command line both are
given as one key with a colon between them. The key is put into a path as it is. So it is read as an
option if it begins with a dash, as more than a path if it holds a mark, as escaped if it holds a
percent sign with digits, and as another path if it holds a segment of dots. Then the engine
receives something else than what was meant, which may be the key of another policy.

The targets with which nothing of that happens are described here, and it is shown that they are all
targets with which the engine receives what was meant.

## Main definitions

* `Command.received?`: What the engine receives when words are given.
* `Command.entryKey`: The key of a static policy.
* `Command.Addressable`: The targets whose policies can be deleted by their keys.

## Theorems

* `received_deleteStatic`: The segments that the engine receives.
* `read_eq_deleteEntry_iff`: When these ask for the deletion of an entry.
* `trail_of_intact`, `decode_segmentsOf`: What is read of a key in which nothing is lost.
* `length_le_of_read`: Nothing is read as more than it is.
* `reads_iff_addressable`: The engine is asked for what was meant exactly for these targets.
-/

namespace StoragePolicy

open Text

namespace Command

/-- What the engine receives when words are given on the command line; nothing if they are
    refused. -/
def received? (engine : Url) (words : List String) : Option Http.Request := do
  let invocation ← (parse words).toOption
  let r ← (request engine (.ok "") invocation.command).toOption
  return r.received

/-- The key of a static policy: its target and its id. -/
def entryKey (targetId : String) (id : Nat) : String := targetId ++ ":" ++ Number.writeNatural id

/-- The words that delete the static policy of a key. -/
def deletion (key : String) : List String := ["delete", "static", key]

/-- The targets whose static policies can be deleted by their keys. -/
structure Addressable (targetId : String) : Prop where
  named : targetId ≠ ""
  begins : ∀ c ∈ targetId.toList.head?, c ≠ '/' ∧ c ≠ '-'
  marks : ∀ c ∈ targetId.toList, c ∉ Url.marks ∧ c ≠ '\\'
  literal : Literal targetId.toList
  /-- The container may end in dots, since the id stands behind it. -/
  segments : ∀ piece ∈ (splitWhere (· = '/') targetId.toList).dropLast,
    piece ≠ ['.'] ∧ piece ≠ ['.', '.']

/-- The characters are gone through as a list, and not as all those that there are. -/
instance (targetId : String) : Decidable (Addressable targetId) :=
  decidable_of_iff (targetId ≠ "" ∧
      targetId.toList.head?.all (fun c => c ≠ '/' ∧ c ≠ '-') = true ∧
      targetId.toList.all (fun c => c ∉ Url.marks ∧ c ≠ '\\') = true ∧ Literal targetId.toList ∧
      ∀ piece ∈ (splitWhere (· = '/') targetId.toList).dropLast, piece ≠ ['.'] ∧ piece ≠ ['.', '.'])
    (by
      simp only [Option.all_eq_true, List.all_eq_true, decide_eq_true_eq]
      exact ⟨fun ⟨named, begins, marks, literal, segments⟩ =>
          ⟨named, begins, marks, literal, segments⟩,
        fun h => ⟨h.named, h.begins, h.marks, h.literal, h.segments⟩⟩)

/-! ### The key in the words -/

/-- Digits are none of the characters that mean something else in a path. -/
theorem plain_of_digit (c : Char) (h : c.isDigit = true) :
    0x20 < c.toNat ∧ c ≠ ':' ∧ c ≠ '%' ∧ c ≠ '/' ∧ c ≠ '\\' ∧ c ∉ Url.marks := by
  have hvalue : (hexValue? c).isSome = true := by
    rw [hexValue?, if_pos h]
    rfl
  exact of_small_char (fun c => c.isDigit = true →
    0x20 < c.toNat ∧ c ≠ ':' ∧ c ≠ '%' ∧ c ≠ '/' ∧ c ≠ '\\' ∧ c ∉ Url.marks) 128 (by decide) c
      (toNat_lt_of_hexValue? c hvalue) h

theorem plain_of_mem_toDigits (id : Nat) (c : Char) (h : c ∈ Nat.toDigits 10 id) :
    0x20 < c.toNat ∧ c ≠ ':' ∧ c ≠ '%' ∧ c ≠ '/' ∧ c ≠ '\\' ∧ c ∉ Url.marks :=
  plain_of_digit c (Nat.isDigit_of_mem_toDigits (by decide) (by decide) h)

/-- The first two words name the command. -/
theorem readAll_deletion (key : String) :
    Progress.readAll {} (deletion key) =
      Progress.readAll { level := .verb .deleteStatic } [key] := rfl

theorem parse_deletion (key : String) (h : Progress.isOption key = false) :
    parse (deletion key) = .ok { command := .deleteStatic key } := by
  rw [parse, readAll_deletion, Progress.readAll, h]
  rfl

/-- A key that looks like an option is none, unless it gives the address of the engine. Either way
    no key is given. -/
theorem parse_deletion_option (key : String) (h : Progress.isOption key = true)
    (hcolon : ':' ∈ key.toList) : (parse (deletion key)).toOption = none := by
  have hdashes : key ≠ "--" := by
    rintro rfl
    exact absurd hcolon (by decide)
  have hengine : key ≠ "--engine" := by
    rintro rfl
    exact absurd hcolon (by decide)
  rw [parse, readAll_deletion, Progress.readAll, h]
  simp only [Bool.not_true, Bool.or_false, Bool.false_eq_true, if_false, hdashes, hengine]
  split
  · rfl
  · rfl

section Key

variable (targetId : String) (id : Nat)

theorem toList_entryKey : (entryKey targetId id).toList =
    targetId.toList ++ ':' :: Nat.toDigits 10 id := by
  rw [entryKey, String.toList_append, String.toList_append, Number.toList_writeNatural,
    List.append_assoc]
  rfl

theorem isOption_entryKey :
    Progress.isOption (entryKey targetId id) = true ↔ targetId.toList.head? = some '-' := by
  rw [Progress.isOption, toList_entryKey]
  rcases targetId.toList with _ | ⟨c, _ | ⟨d, rest⟩⟩
  · simp
  · by_cases hc : c = '-' <;> simp [hc]
  · by_cases hc : c = '-' <;> simp [hc]

/-- A key ends in a digit, and what stands in it is what stands in the target but for digits. -/
theorem getLast?_entryKey (c : Char) (h : c ∈ (entryKey targetId id).toList.getLast?) :
    c.isDigit = true := by
  have hne : Nat.toDigits 10 id ≠ [] := Nat.toDigits_ne_nil
  rw [toList_entryKey, List.getLast?_append, List.getLast?_cons_of_ne_nil hne] at h
  rw [List.getLast?_eq_getLast_of_ne_nil hne] at h
  cases h
  exact Nat.isDigit_of_mem_toDigits (by decide) (by decide) (List.getLast_mem hne)

end Key

/-! ### What the engine receives -/

/-- The segments that stand in the URL for the key of a static policy. -/
def trail (engine : Url) (key : String) : List String :=
  Url.resolveDots []
    (Url.segmentsOf engine.scheme (Url.taken ("policies/static/".toList ++ key.toList)))

/-- A key that looks like an option is not sent. -/
theorem head_of_received (engine : Url) (targetId : String) (id : Nat) (r : Http.Request)
    (hr : received? engine (deletion (entryKey targetId id)) = some r) :
    targetId.toList.head? ≠ some '-' := by
  intro hdash
  have hcolon : ':' ∈ (entryKey targetId id).toList := by
    rw [toList_entryKey]
    simp
  have hnone := parse_deletion_option _ ((isOption_entryKey targetId id).mpr hdash) hcolon
  rw [received?, hnone] at hr
  exact nomatch hr

section Received

variable (engine : Url) (items : List String) (hpath : engine.path = .segments items)

include hpath

/-- The segments that the engine receives when the key is no option. -/
theorem received_deleteStatic (targetId : String) (id : Nat)
    (hdash : targetId.toList.head? ≠ some '-') :
    ∃ r, received? engine (deletion (entryKey targetId id)) = some r ∧ r.method = .delete ∧
      r.segments = some ((trail engine (entryKey targetId id)).map String.toList) := by
  -- The key is no option, since it begins as the target does, and it has the colon that the
  -- command asks for.
  have hoption : Progress.isOption (entryKey targetId id) = false := by
    rw [← Bool.not_eq_true, isOption_entryKey]
    exact hdash
  have hcolon : (entryKey targetId id).toList.contains ':' = true := by
    rw [toList_entryKey]
    simp
  have hreference : ("/policies/static/" ++ entryKey targetId id).toList =
      '/' :: ("policies/static/".toList ++ (entryKey targetId id).toList) := by
    rw [String.toList_append]
    rfl
  -- A key ends in a digit, so that there is no blank at its end to be taken off.
  rcases Url.join_of_rooted engine items hpath _ _ hreference (by
    intro c hc
    have hlast : (entryKey targetId id).toList.getLast? = some c := by
      rw [← List.cons_append, List.getLast?_append, toList_entryKey, List.getLast?_append,
        List.getLast?_cons] at hc
      rw [toList_entryKey, List.getLast?_append, List.getLast?_cons]
      exact hc
    exact (plain_of_digit c (getLast?_entryKey targetId id c hlast)).1) with ⟨u, hjoin, hu⟩
  have hrequest : request engine (.ok "") (.deleteStatic (entryKey targetId id)) =
      .ok { method := .delete, url := u } := by
    simp only [request, hcolon, place, hjoin]
    rfl
  refine ⟨{ method := .delete, url := u : Request }.received, ?_, rfl, ?_⟩
  · rw [received?, parse_deletion _ hoption]
    change ((request engine (.ok "") (.deleteStatic (entryKey targetId id))).toOption.bind
      fun r => some r.received) = _
    rw [hrequest]
    rfl
  · refine Url.segments_of_sent _ _ (Url.resolveDots_ne_nil _ _ ?_)
      (Url.sent_resolveDots _ (Url.sent_segmentsOf _ _)) u.query ?_
    · rw [Url.segmentsOf]
      simpa using splitWhere_ne_nil _ _
    · rw [trail, ← hu]
      rfl

end Received

/-! ### What is asked for -/

/-- The key of an entry is cut at its last colon, and the slashes in front do not count. -/
theorem eq_of_entryKey (text targetId : String) (id : Nat)
    (h : Api.entryKey text = .ok (targetId, id)) :
    targetId ≠ "" ∧ targetId.toList.head? ≠ some '/' ∧
      ∃ idText, text.toList.dropWhile (· = '/') = targetId.toList ++ ':' :: idText ∧
        Number.readNatural idText = some id := by
  rw [Api.entryKey] at h
  dsimp only at h
  split at h
  · rename_i parts hparts
    cases h
    rcases Option.bind_eq_some_iff.mp hparts with ⟨⟨before, after⟩, hcut, hrest⟩
    rcases Option.bind_eq_some_iff.mp hrest with ⟨n, hn, hpair⟩
    split at hpair
    · exact nomatch hpair
    · rename_i hne
      cases hpair
      rcases eq_append_of_cutLast _ _ _ _ hcut with ⟨separator, hseparator, heq⟩
      rw [of_decide_eq_true hseparator] at heq
      rw [String.toList_ofList]
      -- The target is not empty, since the parser asks for this, and has no slash in front, since
      -- all of them have been dropped.
      refine ⟨fun hempty => hne ?_, fun hslash => ?_, after, heq, hn⟩
      · rw [List.isEmpty_iff, ← String.toList_ofList (l := before), hempty]
        rfl
      · have hnot := List.head?_dropWhile_not (fun c : Char => decide (c = '/')) text.toList
        rw [heq, List.head?_append, hslash] at hnot
        exact absurd hnot (by simp)
  · exact nomatch h

/-- A text that is no longer than the key that is read from it has nothing in front. -/
theorem eq_of_entryKey_of_length (text targetId : String) (id : Nat)
    (h : Api.entryKey text = .ok (targetId, id))
    (hle : text.toList.length ≤ (entryKey targetId id).toList.length) :
    text.toList.length = (entryKey targetId id).toList.length ∧
      ∃ idText, text.toList = targetId.toList ++ ':' :: idText := by
  rcases eq_of_entryKey text targetId id h with ⟨-, -, idText, hcut, hidText⟩
  have hdigits := Number.length_le_of_readNatural idText id hidText
  have hdropped := List.dropWhile_sublist (l := text.toList) fun c => decide (c = '/')
  have hlong := hdropped.length_le
  have hlength : (text.toList.dropWhile fun c => decide (c = '/')).length =
      targetId.toList.length + (idText.length + 1) := by
    rw [hcut, List.length_append, List.length_cons]
  rw [toList_entryKey, List.length_append, List.length_cons] at hle ⊢
  refine ⟨by omega, idText, ?_⟩
  rw [← hcut]
  exact (hdropped.eq_of_length (by omega)).symm

theorem entryKey_of_addressed (targetId : String) (id : Nat) (hne : targetId ≠ "")
    (hid : id ≤ Number.maxWord) (hslash : targetId.toList.head? ≠ some '/') :
    Api.entryKey (entryKey targetId id) = .ok (targetId, id) := by
  -- There is no slash in front that would be dropped.
  have hkey : (entryKey targetId id).toList.dropWhile (· = '/') =
      targetId.toList ++ ':' :: Nat.toDigits 10 id := by
    rw [toList_entryKey]
    cases htarget : targetId.toList with
    | nil => rfl
    | cons c rest =>
      rw [htarget, List.head?_cons, Ne, Option.some.injEq] at hslash
      rw [List.cons_append, List.dropWhile_cons_of_neg (by simpa using hslash)]
  -- There is no colon in the digits, so that the key is cut in front of them.
  have hcut := cutLast_append (fun c : Char => decide (c = ':')) targetId.toList
    (Nat.toDigits 10 id) ':' (fun c hc => decide_eq_false (plain_of_mem_toDigits id c hc).2.1)
    (decide_eq_true rfl)
  have hempty : targetId.toList.isEmpty = false := by
    rw [List.isEmpty_eq_false_iff]
    exact fun heq => hne (String.toList_inj.mp heq)
  rw [Api.entryKey]
  simp only [hkey, hcut, Option.bind_eq_bind, Option.bind_some, Number.readNatural_toDigits id hid,
    hempty, Bool.false_eq_true, if_false, String.ofList_toList]

theorem ofSegments?_eq_staticPolicy_iff (items : List String) (key : String) :
    Api.Route.ofSegments? items = some (.staticPolicy key) ↔
      ∃ rest, items = "policies" :: "static" :: rest ∧ key = "/".intercalate rest ∧ key ≠ "" := by
  have htail : ∀ rest : List String, ∀ route : String → Api.Route, ∀ found,
      Api.Route.ofSegments?.tail rest route = some found ↔
        "/".intercalate rest ≠ "" ∧ route ("/".intercalate rest) = found := by
    intro rest route found
    simp only [Api.Route.ofSegments?.tail]
    split
    · rename_i hempty
      simp [String.isEmpty_iff.mp hempty]
    · rename_i hempty
      rw [String.isEmpty_iff] at hempty
      simp [hempty]
  constructor
  · intro h
    unfold Api.Route.ofSegments? at h
    split at h
    case h_4 rest _ =>
      rw [htail] at h
      cases h.2
      exact ⟨rest, rfl, rfl, h.1⟩
    case h_13 =>
      rw [htail] at h
      exact nomatch h.2
    -- The other paths are of other kinds, or are no paths.
    all_goals exact absurd h (by simp)
  · rintro ⟨rest, rfl, rfl, hne⟩
    cases rest with
    | nil => exact absurd rfl hne
    | cons first more =>
      rw [Api.Route.ofSegments?]
      · exact (htail _ _ _).mpr ⟨hne, rfl⟩
      · exact List.cons_ne_nil first more

theorem decodePart_eq_ok_iff (part text : String) :
    Api.decodePart part = .ok text ↔ decodePercent? part.toList = some text := by
  rw [Api.decodePart]
  cases decodePercent? part.toList <;> simp

theorem readRoute_eq_deleteEntry_iff (r : Http.Request) (route : Api.Route) (targetId : String)
    (id : Nat) : Api.readRoute r route .delete = .ok (.deleteEntry targetId id) ↔
      ∃ key text, route = .staticPolicy key ∧ decodePercent? key.toList = some text ∧
        Api.entryKey text = .ok (targetId, id) := by
  -- A deletion on another path is one of something else.
  have hother : ∀ (α : Type) (x : Except Api.Refusal α) (f : α → Api.Operation),
      (∀ a, f a ≠ .deleteEntry targetId id) →
      (x >>= fun a => pure (f a)) ≠ .ok (.deleteEntry targetId id) := by
    intro α x f hf heq
    rcases (Outcome.bind_eq_ok _ _ _).mp heq with ⟨a, -, ha⟩
    exact hf a (Except.ok.inj ha)
  have hnone : (∀ key, route ≠ .staticPolicy key) → ¬ ∃ key text, route = .staticPolicy key ∧
      decodePercent? key.toList = some text ∧ Api.entryKey text = .ok (targetId, id) := by
    rintro hroute ⟨key, -, heq, -⟩
    exact hroute key heq
  cases route with
  | staticPolicy key =>
    constructor
    · intro h
      rcases (Outcome.bind_eq_ok _ _ _).mp h with ⟨text, htext, hrest⟩
      rcases (Outcome.bind_eq_ok _ _ _).mp hrest with ⟨parts, hparts, hend⟩
      cases hend
      exact ⟨key, text, rfl, (decodePart_eq_ok_iff key text).mp htext, hparts⟩
    · rintro ⟨key', text, heq, htext, hkey⟩
      cases heq
      refine (Outcome.bind_eq_ok _ _ _).mpr ⟨text, (decodePart_eq_ok_iff key text).mpr htext, ?_⟩
      exact (Outcome.bind_eq_ok _ _ _).mpr ⟨(targetId, id), hkey, rfl⟩
  | dynamicPolicy text =>
    exact iff_of_false (hother Nat (Api.decodeId text) .removePolicy (by simp)) (hnone (by simp))
  | objectType name =>
    exact iff_of_false (hother String (Api.decodePart name) .deleteObjectType (by simp))
      (hnone (by simp))
  | extension name item =>
    refine iff_of_false (fun h => ?_) (hnone (by simp))
    rcases (Outcome.bind_eq_ok _ _ _).mp h with ⟨name, -, hrest⟩
    exact hother String (Api.decodePart item) (.removeExtension name) (by simp) hrest
  | slo path =>
    refine iff_of_false (fun h => ?_) (hnone (by simp))
    rcases (Outcome.bind_eq_ok _ _ _).mp h with ⟨text, -, hrest⟩
    exact hother _ (Api.sloPath text) (fun parts => .deleteSlo parts.1 parts.2.1 parts.2.2)
      (by simp) hrest
  | _ => exact iff_of_false (fun h => nomatch h) (hnone (by simp))

/-- A request is read by the route that its segments make. -/
theorem read_of_segments (r : Http.Request) (hmethod : r.method = .delete) (items : List String)
    (hr : r.segments = some (items.map String.toList)) :
    Api.read r = match Api.Route.ofSegments? items with
      | none => .error .unknownPath
      | some route => Api.readRoute r route .delete := by
  have hitems : (items.map String.toList).map String.ofList = items := by
    rw [List.map_map]
    exact (List.map_congr_left fun s _ => String.ofList_toList).trans (List.map_id items)
  rw [Api.read, hr, hmethod]
  change (match Api.Route.ofSegments? ((items.map String.toList).map String.ofList) with
    | none => _
    | some route => _) = _
  rw [hitems]
  rfl

/-- The deletion of an entry is asked for by a key in the path and in no other way. -/
theorem read_eq_deleteEntry_iff (r : Http.Request) (hmethod : r.method = .delete)
    (items : List String) (hr : r.segments = some (items.map String.toList)) (targetId : String)
    (id : Nat) : Api.read r = .ok (.deleteEntry targetId id) ↔
      ∃ rest text, items = "policies" :: "static" :: rest ∧ "/".intercalate rest ≠ "" ∧
        decodePercent? ("/".intercalate rest).toList = some text ∧
        Api.entryKey text = .ok (targetId, id) := by
  rw [read_of_segments r hmethod items hr]
  cases hfound : Api.Route.ofSegments? items with
  | none =>
    refine iff_of_false (fun h => ?_) ?_
    · cases h
    · rintro ⟨rest, text, hpath, hne, -⟩
      rw [(ofSegments?_eq_staticPolicy_iff items _).mpr ⟨rest, hpath, rfl, hne⟩] at hfound
      cases hfound
  | some route =>
    dsimp only
    rw [readRoute_eq_deleteEntry_iff]
    constructor
    · rintro ⟨key, text, rfl, htext, hkey⟩
      rcases (ofSegments?_eq_staticPolicy_iff items key).mp hfound with ⟨rest, hpath, rfl, hne⟩
      exact ⟨rest, text, hpath, hne, htext, hkey⟩
    · rintro ⟨rest, text, hpath, hne, htext, hkey⟩
      rw [(ofSegments?_eq_staticPolicy_iff items _).mpr ⟨rest, hpath, rfl, hne⟩] at hfound
      cases hfound
      exact ⟨_, text, rfl, htext, hkey⟩

/-! ### Keys in which nothing is lost -/

/-- The first two segments stand as they are. -/
theorem segmentsOf_policies (scheme : String) (key : List Char) :
    Url.segmentsOf scheme ("policies/static/".toList ++ key) =
      "policies" :: "static" :: Url.segmentsOf scheme key := by
  -- Neither word has a slash in it, so that the text is cut after each of them.
  have hplain : ∀ word ∈ ["policies", "static"], ∀ c ∈ word.toList,
      Url.isSlash scheme c = false := by
    have hmarks : ["policies", "static"].all
        (fun word => word.toList.all fun c => c != '/' && c != '\\') = true := by decide
    intro word hword c hc
    have hc := List.all_eq_true.mp (List.all_eq_true.mp hmarks word hword) c hc
    rw [Bool.and_eq_true, bne_iff_ne, bne_iff_ne] at hc
    simp [Url.isSlash, hc]
  have hslash : Url.isSlash scheme '/' = true := rfl
  have hsplit : "policies/static/".toList ++ key =
      "policies".toList ++ '/' :: ("static".toList ++ '/' :: key) := rfl
  rw [Url.segmentsOf, hsplit,
    splitWhere_append _ _ _ _ (hplain "policies" (by decide)) hslash,
    splitWhere_append _ _ _ _ (hplain "static" (by decide)) hslash]
  rfl

/-- A key in which nothing is lost stands in the path as it is. -/
theorem trail_of_intact (engine : Url) (key : String) (hmarks : ∀ c ∈ key.toList, c ∉ Url.marks)
    (hsteady : ∀ s ∈ Url.segmentsOf engine.scheme key.toList, Url.Steady s) :
    trail engine key = "policies" :: "static" :: Url.segmentsOf engine.scheme key.toList := by
  have hfirst : ∀ c ∈ "policies/static/".toList, c ∉ Url.marks := by
    have hall : "policies/static/".toList.all (fun c => !Url.marks.contains c) = true := by decide
    intro c hc
    simpa using List.all_eq_true.mp hall c hc
  rw [trail, Url.taken_eq_self _ fun c hc => (List.mem_append.mp hc).elim (hfirst c) (hmarks c),
    segmentsOf_policies, Url.resolveDots_of_steady]
  · rfl
  · intro s hs
    rcases List.mem_cons.mp hs with rfl | hs
    · exact ⟨by decide, by decide⟩
    rcases List.mem_cons.mp hs with rfl | hs
    · exact ⟨by decide, by decide⟩
    · exact hsteady s hs

/-- What is read of a key that stands in the path as it is. -/
theorem decode_segmentsOf (scheme : String) (key : List Char)
    (hliteral : Literal (key.map (Url.slashed scheme))) :
    decodePercent? ("/".intercalate (Url.segmentsOf scheme key)).toList =
      some (String.ofList (key.map (Url.slashed scheme))) := by
  rw [decodePercent?_eq_some_iff, Url.unescape_segmentsOf, unescape_of_literal _ hliteral,
    String.toList_ofList]

section Key

variable (targetId : String) (id : Nat)

theorem marks_entryKey (h : ∀ c ∈ targetId.toList, c ∉ Url.marks ∧ c ≠ '\\') :
    ∀ c ∈ (entryKey targetId id).toList, c ∉ Url.marks ∧ c ≠ '\\' := by
  intro c hc
  rw [toList_entryKey, List.mem_append, List.mem_cons] at hc
  rcases hc with hc | rfl | hc
  · exact h c hc
  · decide
  · have hplain := plain_of_mem_toDigits id c hc
    exact ⟨hplain.2.2.2.2.2, hplain.2.2.2.2.1⟩

theorem literal_entryKey (h : Literal targetId.toList) :
    Literal (entryKey targetId id).toList := by
  rw [toList_entryKey]
  refine literal_append _ _ ':' (by decide) h (literal_of_not_mem _ ?_)
  rw [List.mem_cons, not_or]
  exact ⟨by decide, fun hmem => (plain_of_mem_toDigits id _ hmem).2.2.1 rfl⟩

variable (scheme : String) (h : ∀ c ∈ targetId.toList, c ∉ Url.marks ∧ c ≠ '\\')

include h

theorem slashed_entryKey :
    (entryKey targetId id).toList.map (Url.slashed scheme) = (entryKey targetId id).toList := by
  refine (List.map_congr_left fun c hc => ?_).trans (List.map_id _)
  change Url.slashed scheme c = c
  rw [Url.slashed, Url.isSlash]
  by_cases hslash : c = '/' <;> simp [hslash, (marks_entryKey targetId _ h c hc).2]

/-- The id stands behind the last segment of the target. -/
theorem splitWhere_entryKey : ∃ last,
    splitWhere (Url.isSlash scheme) (entryKey targetId id).toList =
      (splitWhere (fun c => decide (c = '/')) targetId.toList).dropLast ++
        [last ++ ':' :: Nat.toDigits 10 id] := by
  have hslash : splitWhere (Url.isSlash scheme) (entryKey targetId id).toList =
      splitWhere (fun c => decide (c = '/')) (entryKey targetId id).toList := by
    refine splitWhere_congr _ _ _ fun c hc => ?_
    simp [Url.isSlash, (marks_entryKey targetId id h c hc).2]
  rw [hslash, toList_entryKey]
  refine splitWhere_append_of_none _ _ _ fun c hc => decide_eq_false ?_
  rcases List.mem_cons.mp hc with rfl | hc
  · decide
  · exact (plain_of_mem_toDigits id c hc).2.2.2.1

/-- No segment of the key means a directory exactly if none of the target but the last does. The
    last one holds the colon. -/
theorem steady_entryKey_iff (hliteral : Literal targetId.toList) :
    (∀ s ∈ Url.segmentsOf scheme (entryKey targetId id).toList, Url.Steady s) ↔
      ∀ piece ∈ (splitWhere (fun c => decide (c = '/')) targetId.toList).dropLast,
        piece ≠ ['.'] ∧ piece ≠ ['.', '.'] := by
  have hpieces : ∀ piece ∈ splitWhere (Url.isSlash scheme) (entryKey targetId id).toList,
      Url.Steady (Url.escape Url.pathEscapes piece) ↔ piece ≠ ['.'] ∧ piece ≠ ['.', '.'] :=
    fun piece hpiece => Url.steady_escape_iff piece (literal_of_mem_splitWhere _ _ _
      (literal_entryKey targetId id hliteral) hpiece)
  rcases splitWhere_entryKey targetId id scheme h with ⟨last, hlast⟩
  rw [Url.segmentsOf, List.forall_mem_map, forall₂_congr hpieces, hlast]
  constructor
  · exact fun hall piece hpiece => hall piece (List.mem_append_left _ hpiece)
  · intro hall piece hpiece
    rcases List.mem_append.mp hpiece with hpiece | hpiece
    · exact hall piece hpiece
    -- The last piece holds the colon, so that it means no directory.
    · have hcolon : ':' ∈ piece := by
        rw [List.mem_singleton.mp hpiece]
        simp
      constructor
      · rintro rfl
        exact absurd hcolon (by decide)
      · rintro rfl
        exact absurd hcolon (by decide)

end Key

/-- Nothing is read as more than it is, and only a key in which nothing is lost as no less. -/
theorem length_le_of_read (scheme : String) (key : List Char) (rest : List String) (text : String)
    (htrail : Url.resolveDots [] (Url.segmentsOf scheme
      (Url.taken ("policies/static/".toList ++ key))) = "policies" :: "static" :: rest)
    (hne : "/".intercalate rest ≠ "")
    (htext : decodePercent? ("/".intercalate rest).toList = some text) :
    text.toList.length ≤ key.length ∧ (text.toList.length = key.length →
      (∀ c ∈ key, c ∉ Url.marks) ∧ Literal (key.map (Url.slashed scheme)) ∧
        ∀ s ∈ Url.segmentsOf scheme key, Url.Steady s) := by
  have hrest : rest ≠ [] := by
    rintro rfl
    exact hne rfl
  have hsegments : Url.segmentsOf scheme (Url.taken ("policies/static/".toList ++ key)) ≠ [] := by
    rw [Url.segmentsOf]
    simpa using splitWhere_ne_nil _ _
  -- The segments that are left are as long as what is read, and no longer than those before.
  have hleft : Url.weight ("policies" :: "static" :: rest) = 16 + (text.toList.length + 1) := by
    have hwords : leads (unescape "policies".toList) = 8 ∧
        leads (unescape "static".toList) = 6 := by decide
    rw [Url.weight_cons, Url.weight_cons, Url.weight_eq rest hrest,
      (decodePercent?_eq_some_iff _ _).mp htext, leads_bytesOf, hwords.1, hwords.2]
    omega
  have hresolved := Url.weight_resolveDots []
    (Url.segmentsOf scheme (Url.taken ("policies/static/".toList ++ key)))
  have hbefore := Url.weight_eq _ hsegments
  rw [Url.unescape_segmentsOf] at hbefore
  have hread := leads_unescape ((Url.taken ("policies/static/".toList ++ key)).map
    (Url.slashed scheme))
  have htaken := (Url.sublist_taken ("policies/static/".toList ++ key)).length_le
  have hlength : ("policies/static/".toList ++ key).length = 16 + key.length := by
    rw [List.length_append]
    rfl
  have hempty : Url.weight [] = 0 := rfl
  rw [htrail, hleft, hempty, hbefore, Nat.zero_add] at hresolved
  rw [List.length_map] at hread
  refine ⟨by omega, fun heq => ?_⟩
  have hall : Url.taken ("policies/static/".toList ++ key) = "policies/static/".toList ++ key :=
    (Url.sublist_taken _).eq_of_length (by omega)
  rw [hall] at hresolved hread
  refine ⟨fun c hc => ?_, ?_, fun s hs => ?_⟩
  · refine Url.not_mem_marks_of_mem_taken ("policies/static/".toList ++ key) c ?_
    rw [hall]
    exact List.mem_append_right _ hc
  · have hliteral := literal_of_leads _ ((Nat.le_antisymm hread (by omega)).trans
      (List.length_map _).symm)
    rw [List.map_append] at hliteral
    exact (literal_of_append _ _ hliteral).2
  · refine hresolved.2 (by omega) s ?_
    rw [segmentsOf_policies]
    exact List.mem_cons_of_mem _ (List.mem_cons_of_mem _ hs)

section Reads

variable (engine : Url) (items : List String) (hpath : engine.path = .segments items)
  (targetId : String) (id : Nat)

include hpath

/-- For an addressable target the engine is asked for what was meant. -/
theorem reads_of_addressable (hid : id ≤ Number.maxWord) (h : Addressable targetId) :
    ∃ r, received? engine (deletion (entryKey targetId id)) = some r ∧ r.method = .delete ∧
      Api.read r = .ok (.deleteEntry targetId id) := by
  have hbegins : ∀ c, c = '/' ∨ c = '-' → targetId.toList.head? ≠ some c := by
    rintro c hc heq
    have hne := h.begins c heq
    exact hc.elim hne.1 hne.2
  rcases received_deleteStatic engine items hpath targetId id (hbegins '-' (Or.inr rfl)) with
    ⟨r, hr, hmethod, hsegments⟩
  refine ⟨r, hr, hmethod, ?_⟩
  rw [read_eq_deleteEntry_iff r hmethod _ hsegments]
  have htrail := trail_of_intact engine (entryKey targetId id)
    (fun c hc => (marks_entryKey targetId id h.marks c hc).1)
    ((steady_entryKey_iff targetId id engine.scheme h.marks h.literal).mpr h.segments)
  have hslashed := slashed_entryKey targetId id engine.scheme h.marks
  -- No segment of the key stands for a step, so that the path that is sent is the one that was
  -- put together.
  have hdecode := decode_segmentsOf engine.scheme (entryKey targetId id).toList
    (by rw [hslashed]; exact literal_entryKey targetId id h.literal)
  rw [hslashed, String.ofList_toList] at hdecode
  refine ⟨_, entryKey targetId id, htrail, fun hempty => ?_, hdecode,
    entryKey_of_addressed targetId id h.named hid (hbegins '/' (Or.inl rfl))⟩
  -- An empty key would decode to the text of a key, which has a colon.
  rw [hempty, decodePercent?_eq_some_iff, toList_entryKey] at hdecode
  have hnil := bytesOf_inj [] _ hdecode
  simp at hnil

/-- The engine is asked for what was meant only for an addressable target. -/
theorem addressable_of_reads (hhost : Url.isHostScheme engine.scheme = true) (r : Http.Request)
    (hr : received? engine (deletion (entryKey targetId id)) = some r)
    (hread : Api.read r = .ok (.deleteEntry targetId id)) : Addressable targetId := by
  have hdash := head_of_received engine targetId id r hr
  rcases received_deleteStatic engine items hpath targetId id hdash with
    ⟨r', hr', hmethod, hsegments⟩
  rw [hr, Option.some.injEq] at hr'
  subst hr'
  rcases (read_eq_deleteEntry_iff r hmethod _ hsegments targetId id).mp hread with
    ⟨rest, text, htrail, hne, htext, hkey⟩
  rcases eq_of_entryKey text targetId id hkey with ⟨hnamed, hslash, -⟩
  rcases length_le_of_read engine.scheme _ rest text htrail hne htext with ⟨hle, hintact⟩
  -- Target and id are read from the whole text, so that nothing has been lost.
  rcases eq_of_entryKey_of_length text targetId id hkey hle with ⟨hsame, idText, hwhole⟩
  rcases hintact hsame with ⟨hmarks, hliteral, hsteady⟩
  have hall : text.toList = (entryKey targetId id).toList.map (Url.slashed engine.scheme) := by
    rw [trail_of_intact engine _ hmarks hsteady, List.cons.injEq, List.cons.injEq] at htrail
    have hdecode := decode_segmentsOf engine.scheme _ hliteral
    rw [htrail.2.2, htext, Option.some.injEq] at hdecode
    rw [hdecode, String.toList_ofList]
  have hself : targetId.toList.map (Url.slashed engine.scheme) = targetId.toList := by
    rw [hwhole, toList_entryKey, List.map_append] at hall
    exact (List.append_inj hall (by rw [List.length_map])).1.symm
  have hmarked : ∀ c ∈ targetId.toList, c ∉ Url.marks ∧ c ≠ '\\' := by
    intro c hc
    refine ⟨hmarks c ?_, ?_⟩
    · rw [toList_entryKey]
      exact List.mem_append_left _ hc
    · rintro rfl
      rw [← hself] at hc
      rcases List.mem_map.mp hc with ⟨d, -, hd⟩
      rw [Url.slashed] at hd
      split at hd
      · exact absurd hd (by decide)
      · rename_i hno
        exact hno (by simp [hd, Url.isSlash, hhost])
  have hplain : Literal targetId.toList := by
    rw [toList_entryKey, List.map_append, hself] at hliteral
    exact (literal_of_append _ _ hliteral).1
  refine ⟨hnamed, fun c hc => ⟨?_, ?_⟩, hmarked, hplain,
    (steady_entryKey_iff targetId id engine.scheme hmarked hplain).mp hsteady⟩
  · rintro rfl
    exact hslash hc
  · rintro rfl
    exact hdash hc

/-- The engine is asked for what was meant exactly for the addressable targets. -/
theorem reads_iff_addressable (hid : id ≤ Number.maxWord)
    (hhost : Url.isHostScheme engine.scheme = true) :
    (∃ r, received? engine (deletion (entryKey targetId id)) = some r ∧
      Api.read r = .ok (.deleteEntry targetId id)) ↔ Addressable targetId := by
  constructor
  · rintro ⟨r, hr, hread⟩
    exact addressable_of_reads engine items hpath targetId id hhost r hr hread
  · intro h
    rcases reads_of_addressable engine items hpath targetId id hid h with ⟨r, hr, -, hread⟩
    exact ⟨r, hr, hread⟩

end Reads

end Command

end StoragePolicy
