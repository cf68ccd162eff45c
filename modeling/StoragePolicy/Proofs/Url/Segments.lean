import StoragePolicy.Http.Basic
import StoragePolicy.Url.Parser
import StoragePolicy.Proofs.Text.Lines
import StoragePolicy.Proofs.Outcome
import StoragePolicy.Proofs.Text.Percent

/-!
# The segments of a path

A path that begins with a slash is put into a URL and sent. On the way it is changed more than once:
tabs and line ends are dropped, a fragment and a query are cut off, backslashes become slashes,
characters are escaped, and segments that mean the directory itself or the one above are resolved.
Whoever receives the request cuts it into segments at slashes again.

It is said here what these segments are, and what is read when they are put together and unescaped.
None of the steps makes anything longer. So a path is read as something shorter than it is, or
nothing has been lost on the way: then all that can have changed is that backslashes have become
slashes.

## Main definitions

* `Url.taken`: What of a path counts.
* `Url.slashed`: A character with every separator of segments made a slash.
* `Url.Sent`, `Url.Parted`: Segments in which no separator stands.
* `Url.Steady`: Segments that mean no directory.
* `Url.weight`: How long segments are, as they are read.

## Theorems

* `join_of_rooted`, `join_of_relative`: What is put into the URL.
* `append_intercalate_slash_inj`: Paths are told by their segments.
* `segments_of_sent`: The segments that are received are those that were sent.
* `unescape_segmentsOf`: What they are read as.
* `weight_resolveDots`: Resolving makes paths shorter, unless there is nothing to resolve.
-/

namespace StoragePolicy

namespace Url

open Text

/-! ### Escaping -/

/-- Whether a character is escaped. -/
def isEscaped (others : String) (c : Char) : Bool :=
  c.toNat < 0x20 || 0x7E < c.toNat || others.toList.contains c

theorem toList_escape (others : String) (text : List Char) :
    (escape others text).toList = escapeWhere (isEscaped others) text := by
  rw [escape, String.toList_ofList]
  rfl

/-- Digits are not escaped in a path. -/
theorem isEscaped_digit (c : Char) (h : (hexValue? c).isSome = true) :
    isEscaped pathEscapes c = false := by
  exact of_small_char (fun c => (hexValue? c).isSome = true → isEscaped pathEscapes c = false) 128
    (by decide) c (toNat_lt_of_hexValue? c h) h

theorem unescape_escape (text : List Char) :
    unescape (escape pathEscapes text).toList = unescape text := by
  rw [toList_escape]
  exact unescape_escapeWhere _ isEscaped_digit (by decide) text

/-! ### What counts of a path -/

/-- What of a path counts: no tabs and no line ends, and nothing behind a mark. -/
def taken (text : List Char) : List Char :=
  ((text.filter fun c => c != '\t' && c != '\n' && c != '\r').takeWhile
    fun c => !(c = '#')).takeWhile fun c => !(c = '?')

/-- The characters that never count, or behind which nothing counts. -/
def marks : List Char := ['\t', '\n', '\r', '#', '?']

theorem sublist_taken (text : List Char) : (taken text).Sublist text :=
  (List.takeWhile_sublist _).trans ((List.takeWhile_sublist _).trans List.filter_sublist)

theorem not_mem_marks_of_mem_taken (text : List Char) (c : Char) (h : c ∈ taken text) :
    c ∉ marks := by
  have hquestion := List.mem_takeWhile_imp h
  have hnumber := List.mem_takeWhile_imp ((List.takeWhile_sublist _).mem h)
  have hkept := List.mem_filter.mp ((List.takeWhile_sublist _).mem
    ((List.takeWhile_sublist _).mem h))
  simp only [Bool.and_eq_true, bne_iff_ne, Bool.not_eq_true', decide_eq_false_iff_not] at *
  simp [marks, hquestion, hnumber, hkept]

/-- A text counts as a whole if no mark stands in it. -/
theorem taken_eq_self (text : List Char) (h : ∀ c ∈ text, c ∉ marks) : taken text = text := by
  simp only [marks, List.mem_cons, List.not_mem_nil, or_false, not_or] at h
  have hkept : text.filter (fun c => c != '\t' && c != '\n' && c != '\r') = text :=
    List.filter_eq_self.mpr fun c hc => by simp [h c hc]
  have hnumber : text.takeWhile (fun c => !decide (c = '#')) = text :=
    List.takeWhile_eq_self_iff.mpr fun c hc => by simp [h c hc]
  rw [taken, hkept, hnumber]
  exact List.takeWhile_eq_self_iff.mpr fun c hc => by simp [h c hc]

theorem fst_cutAt (mark : Char) (text : List Char) :
    (cutAt mark text).1 = text.takeWhile fun c => !(c = mark) := by
  rw [← cutFirst_eq_takeWhile, cutAt]
  cases cutFirst (fun c => decide (c = mark)) text <;> rfl

theorem dropEndWhile_of_last (p : Char → Bool) (text : List Char)
    (h : ∀ c ∈ text.getLast?, p c = false) : dropEndWhile p text = text := by
  rw [dropEndWhile]
  cases hreverse : text.reverse with
  | nil => rw [List.dropWhile_nil, ← hreverse, List.reverse_reverse]
  | cons c rest =>
    have hlast : p c = false := h c (by rw [← List.head?_reverse, hreverse]; rfl)
    rw [List.dropWhile_cons_of_neg (by simp [hlast]), ← hreverse, List.reverse_reverse]

theorem clean_of_rooted (text : List Char)
    (hlast : ∀ c ∈ ('/' :: text).getLast?, 0x20 < c.toNat) :
    clean ('/' :: text) = '/' :: text.filter fun c => c != '\t' && c != '\n' && c != '\r' := by
  rw [clean, List.dropWhile_cons_of_neg (by decide), dropEndWhile_of_last]
  · rfl
  · intro c hc
    exact decide_eq_false (Nat.not_le.mpr (hlast c hc))

/-- The path behind a host is made of segments. -/
theorem segments_of_readHierarchy (scheme : String) (hhost : isHostScheme scheme = true)
    (text : List Char) (authority : Option Authority) (path : UrlPath)
    (h : readHierarchy scheme text = .ok (authority, path)) : ∃ items, path = .segments items := by
  have hpath : ∀ rest, ∃ items, readPath scheme rest = .segments items := by
    intro rest
    cases rest with
    | nil => exact ⟨_, rfl⟩
    | cons c rest => exact ⟨_, rfl⟩
  rw [readHierarchy] at h
  dsimp only at h
  split at h
  · rcases (Outcome.bind_eq_ok _ _ _).mp h with ⟨place, -, hend⟩
    cases hend
    exact hpath _
  · cases h
    exact hpath _

/-- The authority and the path of a URL are read behind its scheme. -/
theorem readHierarchy_of_parse (input : String) (u : Url) (h : parse input = .ok u) :
    ∃ text, readHierarchy u.scheme text = .ok (u.authority, u.path) := by
  rw [parse] at h
  cases hscheme : takeScheme (clean input.toList) with
  | none =>
    rw [hscheme] at h
    exact nomatch h
  | some parts =>
    rw [hscheme] at h
    rcases (Outcome.bind_eq_ok _ _ _).mp h with ⟨⟨authority, path⟩, hread, hu⟩
    cases hu
    exact ⟨_, hread⟩

theorem segments_of_parse (input : String) (u : Url) (h : parse input = .ok u)
    (hhost : isHostScheme u.scheme = true) : ∃ items, u.path = .segments items := by
  rcases readHierarchy_of_parse input u h with ⟨text, hread⟩
  exact segments_of_readHierarchy u.scheme hhost text u.authority u.path hread

/-- A path that begins with a slash is put in place of the path of a URL. -/
theorem join_of_rooted (base : Url) (items : List String) (hbase : base.path = .segments items)
    (reference : String) (text : List Char) (hreference : reference.toList = '/' :: text)
    (hlast : ∀ c ∈ ('/' :: text).getLast?, 0x20 < c.toNat) :
    ∃ u, join base reference = .ok u ∧
      u.path = .segments (resolveDots [] (segmentsOf base.scheme (taken text))) := by
  -- Nothing is taken off the end, and the text is cut at the first mark of either kind.
  have hclean := clean_of_rooted text hlast
  have hfirst := fst_cutAt '#' (clean reference.toList)
  have hsecond := fst_cutAt '?' (cutAt '#' (clean reference.toList)).1
  rw [hfirst, hreference, hclean, List.takeWhile_cons_of_pos (by decide),
    List.takeWhile_cons_of_pos (by decide)] at hsecond
  rw [join, hbase]
  dsimp only
  rw [hreference, hclean]
  rw [hreference, hclean, List.takeWhile_cons_of_pos (by decide)] at hfirst
  generalize cutAt '#' _ = parts at hfirst
  rcases parts with ⟨rest, fragment⟩
  cases hfirst
  dsimp only
  generalize cutAt '?' _ = parts at hsecond
  rcases parts with ⟨rest, query⟩
  cases hsecond
  have hslash : isSlash base.scheme '/' = true := rfl
  dsimp only
  rw [if_pos hslash]
  exact ⟨_, rfl, rfl⟩

/-- A text of other characters than marks and slashes at its beginning is put in place of the last
    segment. The query and the fragment of the URL are left out. -/
theorem join_of_relative (base : Url) (items : List String) (hbase : base.path = .segments items)
    (reference : String) (c : Char) (rest : List Char) (hreference : reference.toList = c :: rest)
    (hc : isSlash base.scheme c = false)
    (hplain : ∀ x ∈ c :: rest, 0x20 < x.toNat ∧ x ≠ '#' ∧ x ≠ '?') :
    join base reference = .ok { base with
      path := .segments (resolveDots items.dropLast.reverse (segmentsOf base.scheme (c :: rest)))
      query := none
      fragment := none } := by
  -- No character is taken out, and no mark cuts the text.
  have hclean : clean (c :: rest) = c :: rest := by
    have houter : ∀ x ∈ c :: rest, decide (x.toNat ≤ 0x20) = false :=
      fun x hx => decide_eq_false (Nat.not_le.mpr (hplain x hx).1)
    have hkept : ∀ x ∈ c :: rest, (x != '\t' && x != '\n' && x != '\r') = true := by
      intro x hx
      have hlarge := (hplain x hx).1
      simp only [Bool.and_eq_true, bne_iff_ne]
      refine ⟨⟨?_, ?_⟩, ?_⟩ <;> (rintro rfl; exact absurd hlarge (by decide))
    rw [clean, List.dropWhile_cons_of_neg (by simp [houter c List.mem_cons_self]),
      dropEndWhile_of_last _ _ fun x hx => houter x (List.mem_of_getLast? hx)]
    exact List.filter_eq_self.mpr hkept
  have huncut : ∀ mark, (∀ x ∈ c :: rest, x ≠ mark) →
      cutAt mark (c :: rest) = (c :: rest, none) := by
    intro mark hmark
    rw [cutAt, (cutFirst_eq_none_iff _ _).mpr fun x hx => decide_eq_false (hmark x hx)]
  rw [join, hbase]
  dsimp only
  rw [hreference, hclean, huncut '#' fun x hx => (hplain x hx).2.1]
  dsimp only
  rw [huncut '?' fun x hx => (hplain x hx).2.2]
  dsimp only
  rw [if_neg (by simp [hc])]
  rfl

/-! ### Segments that are sent -/

/-- Segments in which neither a slash stands nor a mark that ends a path. -/
def Sent (segment : String) : Prop := ∀ c ∈ segment.toList, c ≠ '/' ∧ c ≠ '#' ∧ c ≠ '?'

theorem toList_intercalate_slash (items : List String) :
    ("/".intercalate items).toList = ((items.map String.toList).intersperse ['/']).flatten := by
  rw [String.toList_intercalate]
  rfl

theorem toList_text_segments (items : List String) (hne : items ≠ []) :
    (UrlPath.segments items).text.toList = '/' :: ("/".intercalate items).toList := by
  rw [toList_intercalate_slash, UrlPath.text, String.toList_join]
  induction items with
  | nil => exact absurd rfl hne
  | cons s rest ih =>
    rw [List.map_cons, List.flatMap_cons, String.toList_append, List.map_cons]
    cases rest with
    | nil => simp
    | cons next more =>
      rw [ih (List.cons_ne_nil next more), List.map_cons, List.intersperse_cons_cons,
        List.flatten_cons, List.flatten_cons]
      rfl

theorem text_segments_append (items more : List String) :
    (UrlPath.segments (items ++ more)).text =
      (UrlPath.segments items).text ++ (UrlPath.segments more).text := by
  apply String.toList_injective
  simp only [UrlPath.text, String.toList_append, String.toList_join, List.map_append,
    List.flatMap_append]

/-- Segments are cut apart again where they have been put together. -/
theorem splitWhere_intercalate_slash (p : Char → Bool) (hslash : p '/' = true)
    (items : List String) (hne : items ≠ []) (h : ∀ s ∈ items, ∀ c ∈ s.toList, p c = false) :
    splitWhere p ("/".intercalate items).toList = items.map String.toList := by
  rw [toList_intercalate_slash]
  refine splitWhere_intersperse p _ '/' (by simpa using hne) (fun piece hpiece => ?_) hslash
  rcases List.mem_map.mp hpiece with ⟨s, hs, rfl⟩
  exact h s hs

/-- Some segments, in which no slash stands. -/
structure Parted (items : List String) : Prop where
  ne_nil : items ≠ []
  free : ∀ s ∈ items, '/' ∉ s.toList

/-- Paths with the same beginning are told by the segments behind it. -/
theorem append_intercalate_slash_inj (start : String) (items others : List String)
    (h : Parted items) (h' : Parted others) :
    start ++ "/".intercalate items = start ++ "/".intercalate others ↔ items = others := by
  have hsplit : ∀ segments, Parted segments →
      splitWhere (fun c => decide (c = '/')) ("/".intercalate segments).toList =
        segments.map String.toList := fun segments hparted =>
    splitWhere_intercalate_slash _ (decide_eq_true rfl) segments hparted.ne_nil
      fun s hs c hc => decide_eq_false fun hslash => hparted.free s hs (hslash ▸ hc)
  rw [String.append_right_inj]
  constructor
  · intro heq
    have hmap := hsplit items h
    rw [heq, hsplit others h'] at hmap
    exact List.map_injective_iff.mpr (fun _ _ heq => String.toList_injective heq) hmap.symm
  · exact congrArg _

/-- The segments that are received are those that were sent. -/
theorem segments_of_sent (r : Http.Request) (items : List String) (hne : items ≠ [])
    (hsent : ∀ s ∈ items, Sent s) (query : Option String)
    (hr : r.resource = (UrlPath.segments items).text ++ query.elim "" fun q => "?" ++ q) :
    r.segments = some (items.map String.toList) := by
  -- Neither the slashes nor the segments hold a mark, so that the path ends where the query
  -- begins.
  have hmem : ∀ c ∈ ("/".intercalate items).toList, c ≠ '#' ∧ c ≠ '?' := by
    intro c hc
    rw [toList_intercalate_slash] at hc
    rcases mem_flatten_intersperse _ _ _ hc with rfl | ⟨piece, hpiece, hc⟩
    · decide
    · rcases List.mem_map.mp hpiece with ⟨s, hs, rfl⟩
      exact (hsent s hs c hc).2
  have hpath : r.parts.1 = '/' :: ("/".intercalate items).toList := by
    have hcut : ∀ mark text, (Http.Request.cutAt mark text).1 =
        text.takeWhile fun c => !(c = mark) := by
      intro mark text
      rw [← cutFirst_eq_takeWhile, Http.Request.cutAt]
      cases cutFirst (fun c => decide (c = mark)) text <;> rfl
    rw [Http.Request.parts, hcut, hcut, hr, String.toList_append,
      toList_text_segments items hne]
    have hboth : ∀ c ∈ '/' :: ("/".intercalate items).toList, c ≠ '#' ∧ c ≠ '?' := by
      intro c hc
      rcases List.mem_cons.mp hc with rfl | hc
      · decide
      · exact hmem c hc
    generalize '/' :: ("/".intercalate items).toList = path at hboth
    rw [List.takeWhile_append_of_pos fun c hc => by simp [(hboth c hc).1],
      List.takeWhile_append_of_pos fun c hc => by simp [(hboth c hc).2]]
    cases query with
    | none => simp
    | some q => simp
  rw [Http.Request.segments, hpath]
  exact congrArg some (splitWhere_intercalate_slash _ (decide_eq_true rfl) items hne
    fun s hs c hc => decide_eq_false (hsent s hs c hc).1)

/-- What is escaped in a path can be sent, if it is one segment. -/
theorem sent_segmentsOf (scheme : String) (text : List Char) :
    ∀ s ∈ segmentsOf scheme text, Sent s := by
  intro s hs c hc
  rcases List.mem_map.mp hs with ⟨piece, hpiece, rfl⟩
  rw [toList_escape] at hc
  rcases mem_escapeWhere _ _ _ hc with ⟨hmem, hplain⟩ | rfl | hdigit
  · refine ⟨?_, ?_, ?_⟩
    · rintro rfl
      exact nomatch (of_mem_splitWhere _ _ _ hpiece '/' hmem).1
    · rintro rfl
      exact absurd hplain (by decide)
    · rintro rfl
      exact absurd hplain (by decide)
  · decide
  · refine ⟨?_, ?_, ?_⟩ <;> (rintro rfl; exact nomatch hdigit)

/-- Segments in which nothing is escaped are read as they are. -/
theorem segmentsOf_intercalate_slash (scheme : String) (items : List String) (hne : items ≠ [])
    (h : ∀ s ∈ items, ∀ c ∈ s.toList, isSlash scheme c = false ∧ isEscaped pathEscapes c = false) :
    segmentsOf scheme ("/".intercalate items).toList = items := by
  rw [segmentsOf, splitWhere_intercalate_slash (isSlash scheme) rfl items hne
    fun s hs c hc => (h s hs c hc).1, List.map_map]
  refine (List.map_congr_left fun s hs => ?_).trans (List.map_id _)
  apply String.toList_injective
  rw [Function.comp_apply, toList_escape, id]
  exact escapeWhere_of_none _ _ fun c hc => (h s hs c hc).2

/-! ### Resolving -/

/-- What has been passed when one more segment has been, and whether that is the last one. -/
def passing (passed : List String) (segment : String) (last : Bool) : List String :=
  let before := if isDoubleDot segment then passed.drop 1 else passed
  if isDoubleDot segment || isDot segment then (if last then "" :: before else before)
  else segment :: before

theorem resolveDots_cons (passed : List String) (segment : String) (rest : List String) :
    resolveDots passed (segment :: rest) =
      resolveDots (passing passed segment rest.isEmpty) rest := by
  cases rest with
  | nil =>
    rw [resolveDots, resolveDots, passing]
    by_cases hdouble : isDoubleDot segment = true
    · simp [hdouble]
    · by_cases hdot : isDot segment = true <;> simp [hdouble, hdot]
  | cons next more =>
    rw [resolveDots, passing]
    · by_cases hdouble : isDoubleDot segment = true
      · simp [hdouble]
      · by_cases hdot : isDot segment = true <;> simp [hdouble, hdot]
    · exact List.cons_ne_nil next more

/-- Segments that mean neither the directory itself nor the one above. -/
def Steady (segment : String) : Prop := isDot segment = false ∧ isDoubleDot segment = false

theorem passing_of_steady (passed : List String) (segment : String) (last : Bool)
    (h : Steady segment) : passing passed segment last = segment :: passed := by
  simp [passing, h.1, h.2]

theorem resolveDots_of_steady (passed segments : List String) (h : ∀ s ∈ segments, Steady s) :
    resolveDots passed segments = passed.reverse ++ segments := by
  induction segments generalizing passed with
  | nil => rw [resolveDots, List.append_nil]
  | cons segment rest ih =>
    rw [resolveDots_cons, passing_of_steady _ _ _ (h segment List.mem_cons_self),
      ih _ fun s hs => h s (List.mem_cons_of_mem segment hs), List.reverse_cons,
      List.append_assoc, List.singleton_append]

theorem of_mem_passing (passed : List String) (segment : String) (last : Bool) (s : String)
    (h : s ∈ passing passed segment last) : s ∈ passed ∨ s = segment ∨ s = "" := by
  have hbefore : s ∈ (if isDoubleDot segment then passed.drop 1 else passed) → s ∈ passed := by
    split
    · exact List.mem_of_mem_drop
    · exact id
  rw [passing] at h
  split at h
  · split at h
    · rcases List.mem_cons.mp h with h | h
      · exact Or.inr (Or.inr h)
      · exact Or.inl (hbefore h)
    · exact Or.inl (hbefore h)
  · rcases List.mem_cons.mp h with h | h
    · exact Or.inr (Or.inl h)
    · exact Or.inl (hbefore h)

theorem of_mem_resolveDots (segments passed : List String) (s : String)
    (h : s ∈ resolveDots passed segments) : s ∈ passed ∨ s ∈ segments ∨ s = "" := by
  induction segments generalizing passed with
  | nil =>
    rw [resolveDots] at h
    exact Or.inl (List.mem_reverse.mp h)
  | cons segment rest ih =>
    rw [resolveDots_cons] at h
    rcases ih _ h with h | h | h
    · rcases of_mem_passing _ _ _ _ h with h | h | h
      · exact Or.inl h
      · exact Or.inr (Or.inl (by rw [h]; exact List.mem_cons_self))
      · exact Or.inr (Or.inr h)
    · exact Or.inr (Or.inl (List.mem_cons_of_mem segment h))
    · exact Or.inr (Or.inr h)

/-- Something is left of every path. -/
theorem resolveDots_ne_nil (passed segments : List String) (hne : segments ≠ []) :
    resolveDots passed segments ≠ [] := by
  induction segments generalizing passed with
  | nil => exact absurd rfl hne
  | cons segment rest ih =>
    rw [resolveDots_cons]
    cases rest with
    | nil =>
      rw [resolveDots, passing, Ne, List.reverse_eq_nil_iff]
      simp only [List.isEmpty_nil, if_true]
      split <;> exact List.cons_ne_nil _ _
    | cons next more => exact ih _ (List.cons_ne_nil next more)

theorem sent_resolveDots (segments : List String) (h : ∀ s ∈ segments, Sent s) :
    ∀ s ∈ resolveDots [] segments, Sent s := by
  intro s hs
  rcases of_mem_resolveDots segments [] s hs with hs | hs | rfl
  · exact absurd hs List.not_mem_nil
  · exact h s hs
  · exact fun c hc => absurd hc (by simp)

/-- Every path that is read is made of segments that can be sent. -/
theorem sent_readPath (scheme : String) (text : List Char) (items : List String)
    (h : readPath scheme text = .segments items) : ∀ s ∈ items, Sent s := by
  cases text with
  | nil =>
    cases h
    intro s hs c hc
    split at hs
    · rw [List.mem_singleton.mp hs] at hc
      exact absurd hc (by simp)
    · exact absurd hs List.not_mem_nil
  | cons c rest =>
    cases h
    exact sent_resolveDots _ (sent_segmentsOf scheme _)

theorem sent_of_parse (input : String) (u : Url) (h : parse input = .ok u) (items : List String)
    (hitems : u.path = .segments items) : ∀ s ∈ items, Sent s := by
  rcases readHierarchy_of_parse input u h with ⟨text, hread⟩
  rw [hitems, readHierarchy] at hread
  dsimp only at hread
  split at hread
  · rcases (Outcome.bind_eq_ok _ _ _).mp hread with ⟨place, -, hend⟩
    exact sent_readPath _ _ _ (congrArg Prod.snd (Except.ok.inj hend))
  split at hread
  · exact sent_readPath _ _ _ (congrArg Prod.snd (Except.ok.inj hread))
  split at hread
  · exact nomatch congrArg Prod.snd (Except.ok.inj hread)
  · exact sent_readPath _ _ _ (congrArg Prod.snd (Except.ok.inj hread))

/-! ### What is read -/

/-- A character, with every separator of segments made a slash. -/
def slashed (scheme : String) (c : Char) : Char := if isSlash scheme c then '/' else c

/-- The segments of a path put together are the path, escaped. -/
theorem toList_intercalate_segmentsOf (scheme : String) (text : List Char) :
    ("/".intercalate (segmentsOf scheme text)).toList =
      escapeWhere (isEscaped pathEscapes) (text.map (slashed scheme)) := by
  have hplain : ∀ piece : List Char, (∀ c ∈ piece, isSlash scheme c = false) →
      piece.map (slashed scheme) = piece := by
    intro piece hpiece
    refine (List.map_congr_left fun c hc => ?_).trans (List.map_id piece)
    rw [slashed, if_neg (by rw [hpiece c hc]; exact Bool.false_ne_true), id]
  rw [toList_intercalate_slash, segmentsOf, List.map_map]
  have hcomp : (String.toList ∘ escape pathEscapes) = escapeWhere (isEscaped pathEscapes) :=
    funext fun piece => toList_escape pathEscapes piece
  rw [hcomp]
  -- The induction is on the segments that the text is cut into.
  induction text using pieces_induction (isSlash scheme) with
  | last piece hpiece =>
    rw [splitWhere_of_none _ _ hpiece, hplain piece hpiece, List.map_singleton,
      List.intersperse_singleton, List.flatten_singleton]
  | line piece a rest hpiece ha ih =>
    rw [splitWhere_append _ _ _ _ hpiece ha, List.map_cons, List.map_append, hplain piece hpiece,
      List.map_cons, escapeWhere_append]
    cases hpieces : splitWhere (isSlash scheme) rest with
    | nil => exact absurd hpieces (splitWhere_ne_nil _ rest)
    | cons next more =>
      rw [hpieces, List.map_cons] at ih
      rw [List.map_cons, List.intersperse_cons_cons, List.flatten_cons, List.flatten_cons, ih,
        slashed, if_pos ha, escapeWhere_cons_of_neg _ '/' _ (by decide)]
      rfl

/-- They are read as the path was, with slashes for the separators. -/
theorem unescape_segmentsOf (scheme : String) (text : List Char) :
    unescape ("/".intercalate (segmentsOf scheme text)).toList =
      unescape (text.map (slashed scheme)) := by
  rw [toList_intercalate_segmentsOf]
  exact unescape_escapeWhere _ isEscaped_digit (by decide) _

/-! ### Lengths -/

/-- How long segments are as they are read, each with one separator. -/
def weight (segments : List String) : Nat :=
  (segments.map fun s => leads (unescape s.toList) + 1).sum

theorem weight_cons (segment : String) (rest : List String) :
    weight (segment :: rest) = leads (unescape segment.toList) + 1 + weight rest := by
  rw [weight, List.map_cons, List.sum_cons]
  rfl

theorem weight_reverse (segments : List String) : weight segments.reverse = weight segments := by
  rw [weight, List.map_reverse, List.sum_reverse]
  rfl

theorem weight_drop (segments : List String) : weight (segments.drop 1) ≤ weight segments := by
  cases segments with
  | nil => exact Nat.le_refl _
  | cons segment rest =>
    rw [weight_cons]
    exact Nat.le_add_left _ _

/-- Segments put together are read as long as they are one by one. -/
theorem weight_eq (segments : List String) (hne : segments ≠ []) :
    weight segments = leads (unescape ("/".intercalate segments).toList) + 1 := by
  rw [toList_intercalate_slash]
  induction segments with
  | nil => exact absurd rfl hne
  | cons segment rest ih =>
    rw [weight_cons, List.map_cons]
    cases rest with
    | nil => simp [weight]
    | cons next more =>
      rw [ih (List.cons_ne_nil next more), List.map_cons, List.intersperse_cons_cons,
        List.flatten_cons, List.flatten_cons, List.singleton_append,
        unescape_append _ _ '/' (by decide), unescape_cons '/' _ (fun h => nomatch h), leads_append,
        leads_append, leads_utf8EncodeChar]
      omega

/-- Segments that mean a directory are read as one or two characters. -/
theorem weight_of_dots (segment : String) (h : isDoubleDot segment = true ∨ isDot segment = true) :
    0 < leads (unescape segment.toList) := by
  have hdots : ∀ s ∈ ["..", ".%2e", ".%2E", "%2e.", "%2E.", "%2e%2e", "%2e%2E", "%2E%2e", "%2E%2E",
      ".", "%2e", "%2E"], 0 < leads (unescape s.toList) := by decide
  refine hdots segment ?_
  rcases h with h | h
  · have hmem := List.elem_iff.mp h
    simp only [List.mem_cons, List.not_mem_nil, or_false] at hmem ⊢
    tauto
  · have hmem := List.elem_iff.mp h
    simp only [List.mem_cons, List.not_mem_nil, or_false] at hmem ⊢
    tauto

/-- A segment that means a directory makes what has been passed no longer. -/
theorem weight_passing (passed : List String) (segment : String) (last : Bool)
    (h : ¬ Steady segment) :
    weight (passing passed segment last) < weight passed + weight [segment] := by
  have hdots : isDoubleDot segment = true ∨ isDot segment = true := by
    by_contra hnone
    simp only [not_or, Bool.not_eq_true] at hnone
    exact h ⟨hnone.2, hnone.1⟩
  have hlong := weight_of_dots segment hdots
  have hbefore : weight (if isDoubleDot segment then passed.drop 1 else passed) ≤
      weight passed := by
    split
    · exact weight_drop passed
    · exact Nat.le_refl _
  have hsegment : weight [segment] = leads (unescape segment.toList) + 1 := weight_cons segment []
  rw [passing, if_pos (by simpa using hdots), hsegment]
  split
  · have hempty : leads (unescape ("" : String).toList) = 0 := by decide
    rw [weight_cons, hempty]
    omega
  · omega

/-- Resolving makes paths shorter, unless there is nothing to resolve. -/
theorem weight_resolveDots (passed segments : List String) :
    weight (resolveDots passed segments) ≤ weight passed + weight segments ∧
      (weight (resolveDots passed segments) = weight passed + weight segments →
        ∀ s ∈ segments, Steady s) := by
  induction segments generalizing passed with
  | nil =>
    rw [resolveDots, weight_reverse]
    exact ⟨Nat.le_add_right _ _, fun _ s hs => absurd hs List.not_mem_nil⟩
  | cons segment rest ih =>
    have hrest := ih (passing passed segment rest.isEmpty)
    have hsegment : weight [segment] = leads (unescape segment.toList) + 1 := weight_cons segment []
    rw [resolveDots_cons, weight_cons]
    by_cases hsteady : Steady segment
    · rw [passing_of_steady _ _ _ hsteady] at hrest ⊢
      rw [weight_cons] at hrest
      refine ⟨by omega, fun heq s hs => ?_⟩
      rcases List.mem_cons.mp hs with rfl | hs
      · exact hsteady
      · exact hrest.2 (by omega) s hs
    · have hshort := weight_passing passed segment rest.isEmpty hsteady
      exact ⟨by omega, fun heq => by omega⟩

/-- A literal segment means a directory only as it is written. -/
theorem steady_escape_iff (piece : List Char) (h : Literal piece) :
    Steady (escape pathEscapes piece) ↔ piece ≠ ['.'] ∧ piece ≠ ['.', '.'] := by
  -- A literal piece is read from its escape, so that only its own characters make a directory of
  -- it.
  have hread : ∀ other, unescape (escape pathEscapes piece).toList = bytesOf other →
      piece = other := by
    intro other hother
    rw [unescape_escape, unescape_of_literal piece h] at hother
    exact bytesOf_inj piece other hother
  constructor
  · rintro ⟨hdot, hdouble⟩
    constructor
    · rintro rfl
      exact absurd hdot (by decide)
    · rintro rfl
      exact absurd hdouble (by decide)
  · rintro ⟨hdot, hdouble⟩
    have hdots : ∀ s ∈ [".", "%2e", "%2E"], unescape s.toList = bytesOf ['.'] := by decide
    have hdoubles : ∀ s ∈ ["..", ".%2e", ".%2E", "%2e.", "%2E.", "%2e%2e", "%2e%2E", "%2E%2e",
        "%2E%2E"], unescape s.toList = bytesOf ['.', '.'] := by decide
    constructor
    · rw [← Bool.not_eq_true]
      exact fun hmem => hdot (hread _ (hdots _ (List.elem_iff.mp hmem)))
    · rw [← Bool.not_eq_true]
      exact fun hmem => hdouble (hread _ (hdoubles _ (List.elem_iff.mp hmem)))

end Url

end StoragePolicy
