import StoragePolicy.FilterService
import StoragePolicy.Proofs.Text.Form
import StoragePolicy.Proofs.Url.Segments

/-!
# Where the filter service is asked

A filter is installed or removed by a request to a path of four segments below the address of the
service. The target and the filter are written in a form there, so no character of theirs has a
meaning in a path. Two whole segments have one, `.` and `..`, and a form leaves dots as they are.
Requests for a target or a filter with one of these names go elsewhere: the segments are resolved,
and `..` takes the one before it along. What is asked for the filter `..` is no longer part of the
path then, so to install it and to remove it are one request.

Every other request goes where it should, and to no path to which one for something else goes.

## Main definitions

* `FilterService.Errand`: What is asked of the service.
* `FilterService.Plain`: Names that are not resolved.
* `FilterService.named`, `FilterService.below`: Where a request should go, and where it goes.
* `FilterService.Serves`: What is true of all requests to a service.

## Theorems

* `resolveDots_named`: What the four segments are resolved to.
* `place_eq`: The place of a request.
* `serves_of_ofText`: Where the requests to a service go.
-/

namespace StoragePolicy

namespace FilterService

open Text Url

/-- What is asked of the service for a filter of a target. -/
inductive Errand where
  | install (entry : StaticEntry)
  | uninstall

/-- The word for it in a path. -/
def Errand.verb : Errand → String
  | .install _ => "deploy"
  | .uninstall => "undeploy"

/-- The request. -/
def request (s : FilterService) (errand : Errand) (target : Target) (filter : FilterSpec) :
    Except InstallerError FilterRequest :=
  match errand with
  | .install entry => s.installRequest target filter entry
  | .uninstall => s.uninstallRequest target filter

/-- Names that mean no directory. -/
def Plain (name : String) : Prop := name ≠ "." ∧ name ≠ ".."

/-- The segments that a request should have below the address. -/
def named (id verb name : String) : List String :=
  ["filters", encodeForm id, verb, encodeForm name]

/-- What is left of the first two segments. A name `..` takes the segment before it along. -/
def front (id : String) : List String :=
  if id = ".." then [] else if id = "." then ["filters"] else ["filters", encodeForm id]

/-- What is left of the last two. A path that ends in a directory ends in an empty segment. -/
def back (verb name : String) : List String :=
  if name = ".." then [""] else if name = "." then [verb, ""] else [verb, encodeForm name]

/-- The segments that it has. -/
def below (id verb name : String) : List String := front id ++ back verb name

/-! ### Names -/

/-- Segments in which no character has a meaning in a path. -/
def Harmless (segment : String) : Prop :=
  ∀ c ∈ segment.toList, 0x20 < c.toNat ∧ c ≠ '/' ∧ c ≠ '\\' ∧ isEscaped pathEscapes c = false

/-- Letters, digits and the signs of a form have none. -/
theorem harmless_of_forall (segment : String)
    (h : ∀ c ∈ segment.toList, c.isAlphanum = true ∨ c ∈ formSigns) : Harmless segment := by
  intro c hc
  have hsmall : c.toNat < 128 := by
    rcases h c hc with halphanum | hsign
    · rcases range_of_isAlphanum c halphanum with h | h | h <;> omega
    · have hsigns : formSigns.all (fun c => c.toNat < 128) = true := by decide
      exact of_decide_eq_true (List.all_eq_true.mp hsigns c hsign)
  exact of_small_char (fun c => (c.isAlphanum = true ∨ c ∈ formSigns) →
    0x20 < c.toNat ∧ c ≠ '/' ∧ c ≠ '\\' ∧ isEscaped pathEscapes c = false) 128 (by decide) c hsmall
      (h c hc)

theorem harmless_encodeForm (text : String) : Harmless (encodeForm text) :=
  harmless_of_forall _ (mem_encodeForm text)

theorem mem_verbs (errand : Errand) : errand.verb ∈ ["deploy", "undeploy"] := by
  cases errand with
  | install entry => exact List.mem_cons_self
  | uninstall => exact List.mem_cons_of_mem _ List.mem_cons_self

theorem harmless_verb (errand : Errand) : Harmless errand.verb := by
  have hverbs : ∀ verb ∈ ["deploy", "undeploy"], verb.toList.all Char.isAlphanum = true := by
    decide
  exact harmless_of_forall _ fun c hc =>
    Or.inl (List.all_eq_true.mp (hverbs errand.verb (mem_verbs errand)) c hc)

theorem steady_verb (errand : Errand) : Steady errand.verb := by
  have hverbs : ∀ verb ∈ ["deploy", "undeploy"], Steady verb := by
    simp only [Steady]
    decide
  exact hverbs errand.verb (mem_verbs errand)

theorem harmless_named (errand : Errand) (id name : String) :
    ∀ s ∈ named id errand.verb name, Harmless s := by
  intro s hs
  simp only [named, List.mem_cons, List.not_mem_nil, or_false] at hs
  rcases hs with rfl | rfl | rfl | rfl
  · have hfilters : "filters".toList.all Char.isAlphanum = true := by decide
    exact harmless_of_forall _ fun c hc => Or.inl (List.all_eq_true.mp hfilters c hc)
  · exact harmless_encodeForm id
  · exact harmless_verb errand
  · exact harmless_encodeForm name

/-- A text is told by what its form is read as. -/
theorem eq_of_mem_spellings (text meant : String) (spellings : List String)
    (hread : ∀ s ∈ spellings, unescapeForm s.toList = bytesOf meant.toList)
    (h : encodeForm text ∈ spellings) : text = meant := by
  have hbytes := hread _ h
  rw [unescapeForm_encodeForm] at hbytes
  exact String.toList_injective (bytesOf_inj _ _ hbytes)

/-- In a form only a dot means the directory itself. -/
theorem isDot_encodeForm_iff (text : String) : isDot (encodeForm text) = true ↔ text = "." := by
  constructor
  · intro h
    exact eq_of_mem_spellings text "." _ (by decide) (List.elem_iff.mp h)
  · rintro rfl
    decide

/-- In a form only two dots mean the one above. -/
theorem isDoubleDot_encodeForm_iff (text : String) :
    isDoubleDot (encodeForm text) = true ↔ text = ".." := by
  constructor
  · intro h
    exact eq_of_mem_spellings text ".." _ (by decide) (List.elem_iff.mp h)
  · rintro rfl
    decide

theorem passing_encodeForm (passed : List String) (text : String) (last : Bool) :
    passing passed (encodeForm text) last =
      if text = ".." then (if last then "" :: passed.drop 1 else passed.drop 1)
      else if text = "." then (if last then "" :: passed else passed)
      else encodeForm text :: passed := by
  rw [passing]
  by_cases hdouble : text = ".."
  · have htrue := (isDoubleDot_encodeForm_iff text).mpr hdouble
    rw [if_pos hdouble]
    simp [htrue]
  · have hfalse : isDoubleDot (encodeForm text) = false :=
      Bool.eq_false_iff.mpr fun h => hdouble ((isDoubleDot_encodeForm_iff text).mp h)
    rw [if_neg hdouble]
    by_cases hdot : text = "."
    · have htrue := (isDot_encodeForm_iff text).mpr hdot
      rw [if_pos hdot]
      simp [hfalse, htrue]
    · have hfalse' : isDot (encodeForm text) = false :=
        Bool.eq_false_iff.mpr fun h => hdot ((isDot_encodeForm_iff text).mp h)
      rw [if_neg hdot]
      simp [hfalse, hfalse']

/-! ### Resolving -/

theorem resolveDots_front (passed : List String) (id next : String) (rest : List String) :
    resolveDots passed ("filters" :: encodeForm id :: next :: rest) =
      resolveDots ((front id).reverse ++ passed) (next :: rest) := by
  rw [resolveDots_cons, passing_of_steady _ _ _ ⟨by decide, by decide⟩, resolveDots_cons,
    passing_encodeForm, front]
  -- The name is not the last segment, so nothing is put in its place.
  split_ifs with hdouble hlast hdot hlast
  · exact nomatch hlast
  · rfl
  · exact nomatch hlast
  · rfl
  · rfl

theorem resolveDots_back (passed : List String) (verb name : String) (hverb : Steady verb) :
    resolveDots passed [verb, encodeForm name] = passed.reverse ++ back verb name := by
  rw [resolveDots_cons, passing_of_steady _ _ _ hverb, resolveDots_cons, passing_encodeForm,
    resolveDots, back]
  -- The name is the last segment, and where it means a directory an empty one is put in its place.
  split_ifs with hdouble hlast hdot hlast
  · simp
  · exact absurd rfl hlast
  · simp
  · exact absurd rfl hlast
  · simp

/-- What the four segments are resolved to. Nothing of the address is taken along, since `filters`
    stands before the first name. -/
theorem resolveDots_named (passed : List String) (id verb name : String) (hverb : Steady verb) :
    resolveDots passed (named id verb name) = passed.reverse ++ below id verb name := by
  rw [named, resolveDots_front, resolveDots_back _ _ _ hverb, below, List.reverse_append,
    List.reverse_reverse, List.append_assoc]

/-! ### The place of a request -/

theorem toList_named (id verb name : String) :
    ("/".intercalate (named id verb name)).toList = 'f' :: ("ilters/".toList ++
      ((encodeForm id).toList ++ '/' :: (verb.toList ++ '/' :: (encodeForm name).toList))) := by
  rw [toList_intercalate_slash, named]
  simp

/-- No character of the four segments ends a path, or is dropped from it. -/
theorem char_of_named (errand : Errand) (id name : String) (c : Char)
    (h : c ∈ ("/".intercalate (named id errand.verb name)).toList) :
    0x20 < c.toNat ∧ c ≠ '#' ∧ c ≠ '?' := by
  rw [toList_intercalate_slash] at h
  rcases mem_flatten_intersperse _ _ _ h with rfl | ⟨piece, hpiece, hc⟩
  · decide
  · rcases List.mem_map.mp hpiece with ⟨segment, hsegment, rfl⟩
    rcases harmless_named errand id name segment hsegment c hc with ⟨hlarge, -, -, hescaped⟩
    refine ⟨hlarge, ?_, ?_⟩ <;> (rintro rfl; exact absurd hescaped (by decide))

theorem segmentsOf_named (scheme : String) (errand : Errand) (id name : String) :
    segmentsOf scheme ("/".intercalate (named id errand.verb name)).toList =
      named id errand.verb name := by
  refine segmentsOf_intercalate_slash _ _ (List.cons_ne_nil _ _) fun segment hsegment c hc => ?_
  rcases harmless_named errand id name segment hsegment c hc with ⟨-, hslash, hback, hescaped⟩
  exact ⟨by simp [isSlash, hslash, hback], hescaped⟩

/-- The place of a request: what is left of the four segments, below the address. -/
theorem place_eq (s : FilterService) (before : List String)
    (hpath : s.address.path = .segments (before ++ [""])) (errand : Errand) (target : Target)
    (name : String) :
    s.place target errand.verb name = .ok { s.address with
      path := .segments (before ++ below target.id errand.verb name)
      query := none
      fragment := none } := by
  have htext : "filters/" ++ encodeForm target.id ++ "/" ++ errand.verb ++ "/" ++ encodeForm name =
      "/".intercalate (named target.id errand.verb name) := by
    apply String.toList_injective
    rw [toList_named]
    simp
  have hslash : isSlash s.address.scheme 'f' = false := rfl
  have hplain := char_of_named errand target.id name
  rw [toList_named] at hplain
  rw [place, htext, join_of_relative s.address _ hpath _ 'f' _ (toList_named _ _ _) hslash hplain,
    ← toList_named, segmentsOf_named, resolveDots_named _ _ _ _ (steady_verb errand),
    List.dropLast_concat, List.reverse_reverse]

/-- A request differs from others in its body, but not in what becomes of its place. -/
theorem request_eq (s : FilterService) (errand : Errand) (target : Target) (filter : FilterSpec) :
    ∃ body, s.request errand target filter =
      (s.place target errand.verb filter.name).map fun url =>
        { url, token := s.token, body } := by
  cases errand with
  | install entry =>
    rw [request, installRequest, Errand.verb]
    cases s.place target "deploy" filter.name with
    | ok url => exact ⟨_, rfl⟩
    | error e => exact ⟨.null, rfl⟩
  | uninstall =>
    rw [request, uninstallRequest, Errand.verb]
    cases s.place target "undeploy" filter.name with
    | ok url => exact ⟨_, rfl⟩
    | error e => exact ⟨.null, rfl⟩

theorem request_of_rootless (s : FilterService) (text : String)
    (hpath : s.address.path = .rootless text) (errand : Errand) (target : Target)
    (filter : FilterSpec) :
    ∃ place message, s.request errand target filter = .error (.invalidUrl place message) := by
  rcases request_eq s errand target filter with ⟨body, hrequest⟩
  rw [hrequest, place, join, hpath]
  exact ⟨_, _, rfl⟩

/-- Every request to a service with segments in its address is made. -/
theorem exists_request (s : FilterService) (before : List String)
    (hpath : s.address.path = .segments (before ++ [""])) (errand : Errand) (target : Target)
    (filter : FilterSpec) :
    ∃ r, s.request errand target filter = .ok r ∧
      r.url.path = .segments (before ++ below target.id errand.verb filter.name) := by
  rcases request_eq s errand target filter with ⟨body, hrequest⟩
  rw [hrequest, place_eq s before hpath errand target filter.name]
  exact ⟨_, rfl, rfl⟩

/-! ### Telling places apart -/

theorem back_ne_nil (verb name : String) : back verb name ≠ [] := by
  rw [back]
  split_ifs <;> exact List.cons_ne_nil _ _

theorem length_front (id : String) : (front id).length ≤ 2 := by
  rw [front]
  split_ifs <;> simp

theorem length_back (verb name : String) : (back verb name).length ≤ 2 := by
  rw [back]
  split_ifs <;> simp

theorem front_eq_iff (id other : String) :
    front other = ["filters", encodeForm id] ↔ Plain other ∧ other = id := by
  rw [front, Plain]
  split_ifs with hdouble hdot
  · simp [hdouble]
  · simp [hdot]
  · simp only [List.cons.injEq, and_true, true_and]
    exact ⟨fun h => ⟨⟨hdot, hdouble⟩, encodeForm_inj _ _ h⟩, fun h => by rw [h.2]⟩

/-- With a filter `.` a path ends as it should with the empty name, which is none of a filter. -/
theorem back_eq_iff (verb name verb' name' : String) (hname : name ≠ "") :
    back verb' name' = [verb, encodeForm name] ↔ Plain name' ∧ verb' = verb ∧ name' = name := by
  have hne : encodeForm name ≠ "" := fun h => hname (encodeForm_inj name "" h)
  rw [back, Plain]
  split_ifs with hdouble hdot
  · simp [hdouble]
  · simp [hdot, hne.symm]
  · simp only [List.cons.injEq, and_true]
    exact ⟨fun h => ⟨⟨hdot, hdouble⟩, h.1, encodeForm_inj _ _ h.2⟩,
      fun h => ⟨h.2.1, by rw [h.2.2]⟩⟩

/-- The four segments of a request are those of no other. -/
theorem below_eq_named_iff (id verb name id' verb' name' : String) (hname : name ≠ "") :
    below id' verb' name' = named id verb name ↔
      (Plain id' ∧ Plain name') ∧ id' = id ∧ verb' = verb ∧ name' = name := by
  have hnamed : named id verb name = ["filters", encodeForm id] ++ [verb, encodeForm name] := rfl
  rw [below, hnamed]
  constructor
  · intro h
    -- Neither half has more than two segments, so both have all of theirs.
    have hlength := congrArg List.length h
    simp only [List.length_append, List.length_cons, List.length_nil] at hlength
    have hfront := length_front id'
    have hback := length_back verb' name'
    rcases List.append_inj h (by simp; omega) with ⟨hids, hnames⟩
    rcases (front_eq_iff id id').mp hids with ⟨hid, rfl⟩
    rcases (back_eq_iff verb name verb' name' hname).mp hnames with ⟨hplain, rfl, rfl⟩
    exact ⟨⟨hid, hplain⟩, rfl, rfl, rfl⟩
  · rintro ⟨⟨hid, hplain⟩, rfl, rfl, rfl⟩
    rw [(front_eq_iff id' id').mpr ⟨hid, rfl⟩,
      (back_eq_iff verb' name' verb' name' hname).mpr ⟨hplain, rfl, rfl⟩]

/-- A segment below the address is empty, or one that should be there. -/
theorem of_mem_below (id verb name segment : String) (h : segment ∈ below id verb name) :
    segment = "" ∨ segment ∈ named id verb name := by
  have hfront : front id <+: ["filters", encodeForm id] := by
    rw [front]
    split_ifs
    · exact List.nil_prefix
    · exact ⟨[encodeForm id], rfl⟩
    · exact List.prefix_rfl
  -- The first half may be cut short, and in the second an empty segment may stand for the name.
  rcases List.mem_append.mp h with hmem | hmem
  · exact Or.inr (List.mem_append_left [verb, encodeForm name] (hfront.subset hmem))
  · rw [back] at hmem
    split_ifs at hmem
    · exact Or.inl (List.mem_singleton.mp hmem)
    · rcases List.mem_cons.mp hmem with rfl | hmem
      · exact Or.inr (by simp [named])
      · exact Or.inl (List.mem_singleton.mp hmem)
    · exact Or.inr (List.mem_append_right ["filters", encodeForm id] hmem)

theorem parted_named (errand : Errand) (id name : String) :
    Parted (named id errand.verb name) :=
  ⟨List.cons_ne_nil _ _,
    fun s hs hslash => (harmless_named errand id name s hs '/' hslash).2.1 rfl⟩

theorem parted_below (errand : Errand) (id name : String) :
    Parted (below id errand.verb name) := by
  refine ⟨fun hnil => back_ne_nil _ _ (List.append_eq_nil_iff.mp hnil).2, fun s hs => ?_⟩
  rcases of_mem_below id errand.verb name s hs with rfl | hs
  · simp
  · exact (parted_named errand id name).free s hs

/-! ### The address -/

/-- A path with a slash at its end. -/
def closed (path : String) : String :=
  if path.toList.getLast? = some '/' then path else path ++ "/"

/-- A path of segments ends in a slash exactly if its last segment is empty. -/
theorem getLast?_text_segments (items : List String) (hsent : ∀ s ∈ items, Sent s) :
    (UrlPath.segments items).text.toList.getLast? = some '/' ↔ items.getLast? = some "" := by
  induction items using List.reverseRecOn with
  | nil => simp [UrlPath.text]
  | append_singleton before last ih =>
    have hlast : (UrlPath.segments [last]).text.toList = '/' :: last.toList := by
      simp [UrlPath.text]
    rw [text_segments_append, String.toList_append, hlast, List.getLast?_concat]
    -- Behind the last slash stands the last segment, which has none in it.
    cases hchars : last.toList using List.reverseRecOn with
    | nil =>
      have hempty : last = "" := String.toList_injective hchars
      simp [hempty]
    | append_singleton chars c =>
      have hc : c ≠ '/' := (hsent last (by simp) c (by rw [hchars]; simp)).1
      have hne : last ≠ "" := by
        rintro rfl
        simp at hchars
      rw [← List.cons_append, ← List.append_assoc, List.getLast?_concat]
      simp [hc, hne]

theorem asDirectory_eq (u : Url) (items : List String) (h : u.path = .segments items)
    (hsent : ∀ s ∈ items, Sent s) :
    (∃ before, u.asDirectory.path = .segments (before ++ [""])) ∧
      u.asDirectory.path.text = closed u.path.text := by
  have hlast := getLast?_text_segments items hsent
  rw [asDirectory, h, closed]
  dsimp only
  by_cases hempty : items.getLast? = some ""
  · rw [if_pos hempty, if_pos (hlast.mpr hempty), h]
    rcases List.getLast?_eq_some_iff.mp hempty with ⟨before, rfl⟩
    exact ⟨⟨before, rfl⟩, rfl⟩
  · rw [if_neg hempty, if_neg fun h => hempty (hlast.mp h)]
    refine ⟨⟨items, rfl⟩, ?_⟩
    rw [text_segments_append]
    rfl

/-- Where there are no segments, a slash at the end makes none. -/
theorem rootless_asDirectory (u : Url) (text : String) (h : u.path = .rootless text) :
    ∃ text, u.asDirectory.path = .rootless text := by
  rw [asDirectory, h]
  dsimp only
  split
  · exact ⟨text, h⟩
  · exact ⟨_, rfl⟩

/-! ### Requests to a service -/

/-- Where the requests to a service go. -/
structure Serves (s : FilterService) : Prop where
  /-- Every request is made, and its path is that of the address with some segments behind it. -/
  reaches : ∀ errand target filter, ∃ r, s.request errand target filter = .ok r ∧
    r.url.path.text =
      s.address.path.text ++ "/".intercalate (below target.id errand.verb filter.name)
  /-- These are the four of the request exactly if neither of the names is resolved. -/
  named_iff : ∀ errand target filter r, filter.name ≠ "" →
    s.request errand target filter = .ok r →
      (r.url.path.text =
          s.address.path.text ++ "/".intercalate (named target.id errand.verb filter.name) ↔
        Plain target.id ∧ Plain filter.name)
  /-- Two requests go to one path exactly if the same segments are left of both. -/
  same_iff : ∀ errand target filter r, s.request errand target filter = .ok r →
    ∀ errand' target' filter' r', s.request errand' target' filter' = .ok r' →
      (r'.url.path.text = r.url.path.text ↔
        below target'.id errand'.verb filter'.name = below target.id errand.verb filter.name)
  /-- To a path of four segments that are not resolved no request for something else goes. -/
  apart : ∀ errand target filter r, filter.name ≠ "" → s.request errand target filter = .ok r →
    Plain target.id → Plain filter.name →
      ∀ errand' target' filter' r', s.request errand' target' filter' = .ok r' →
        r'.url.path.text = r.url.path.text →
          target'.id = target.id ∧ errand'.verb = errand.verb ∧ filter'.name = filter.name

theorem path_of_request (s : FilterService) (before : List String)
    (hpath : s.address.path = .segments (before ++ [""])) (errand : Errand) (target : Target)
    (filter : FilterSpec) (r : FilterRequest) (h : s.request errand target filter = .ok r) :
    r.url.path.text =
      s.address.path.text ++ "/".intercalate (below target.id errand.verb filter.name) := by
  rcases exists_request s before hpath errand target filter with ⟨r', hr', hplace⟩
  cases h.symm.trans hr'
  have hslash : (UrlPath.segments [""]).text = "/" := rfl
  have hne := (parted_below errand target.id filter.name).ne_nil
  rw [hplace, hpath, text_segments_append, text_segments_append, hslash, String.append_assoc]
  congr 1
  apply String.toList_injective
  rw [toList_text_segments _ hne, String.toList_append]
  rfl

/-- Where the requests below an address with segments go. -/
theorem serves_of_segments (s : FilterService) (before : List String)
    (hpath : s.address.path = .segments (before ++ [""])) : s.Serves := by
  have hat := path_of_request s before hpath
  -- Two requests have the same path if and only if they have the same segments below the address.
  have hsame : ∀ errand target filter r, s.request errand target filter = .ok r →
      ∀ errand' target' filter' r', s.request errand' target' filter' = .ok r' →
        (r'.url.path.text = r.url.path.text ↔
          below target'.id errand'.verb filter'.name =
            below target.id errand.verb filter.name) := by
    intro errand target filter r hr errand' target' filter' r' hr'
    rw [hat errand target filter r hr, hat errand' target' filter' r' hr',
      append_intercalate_slash_inj _ _ _ (parted_below errand' _ _) (parted_below errand _ _)]
  refine ⟨fun errand target filter => ?_, ?_, hsame, ?_⟩
  · rcases exists_request s before hpath errand target filter with ⟨r, hr, -⟩
    exact ⟨r, hr, hat errand target filter r hr⟩
  · intro errand target filter r hname hr
    rw [hat errand target filter r hr,
      append_intercalate_slash_inj _ _ _ (parted_below errand _ _) (parted_named errand _ _)]
    exact (below_eq_named_iff _ _ _ _ _ _ hname).trans (and_iff_left ⟨rfl, rfl, rfl⟩)
  · intro errand target filter r hname hr hid hplain errand' target' filter' r' hr' h
    have hbelow := (below_eq_named_iff _ errand.verb _ _ _ _ hname).mpr
      ⟨⟨hid, hplain⟩, rfl, rfl, rfl⟩
    rw [hsame errand target filter r hr errand' target' filter' r' hr', hbelow] at h
    exact ((below_eq_named_iff _ _ _ _ _ _ hname).mp h).2

/-- Where the requests to a service go. The path of the address is the one that has been given, with
    a slash at its end; below an address without segments no request is made. -/
theorem serves_of_ofText (address : String) (token : Option String) (s : FilterService)
    (h : ofText address token = .ok s) :
    ∃ u, Url.parse address = .ok u ∧
      ((s.address.path.text = closed u.path.text ∧ s.Serves) ∨
        ∃ text, u.path = .rootless text ∧
          ∀ errand target filter, ∃ place message,
            s.request errand target filter = .error (.invalidUrl place message)) := by
  rw [ofText] at h
  cases hparse : Url.parse address with
  | error fault =>
    rw [hparse] at h
    exact nomatch h
  | ok u =>
    rw [hparse] at h
    cases h
    refine ⟨u, rfl, ?_⟩
    cases hpath : u.path with
    | segments items =>
      rcases asDirectory_eq u items hpath (sent_of_parse address u hparse items hpath) with
        ⟨⟨before, hbefore⟩, htext⟩
      rw [hpath] at htext
      exact Or.inl ⟨htext, serves_of_segments _ before hbefore⟩
    | rootless text =>
      rcases rootless_asDirectory u text hpath with ⟨text', htext'⟩
      exact Or.inr ⟨text, rfl, request_of_rootless _ text' htext'⟩

/-- A service whose address has one segment. -/
def atV1 : FilterService :=
  { address :=
      { scheme := "http", authority := some { host := "h" }, path := .segments ["v1", ""] } }

theorem ofText_v1 : ofText "http://h/v1" none = .ok atV1 := by
  have hparse : Url.parse "http://h/v1" = .ok
      { scheme := "http", authority := some { host := "h" }, path := .segments ["v1"] } := by
    decide +kernel
  rw [ofText, hparse]
  rfl

/-- It is reached below `/v1/`. -/
theorem serves_of_ofText_v1 :
    ofText "http://h/v1" none = .ok atV1 ∧ atV1.address.path.text = "/v1/" ∧ atV1.Serves := by
  refine ⟨ofText_v1, rfl, ?_⟩
  rcases serves_of_ofText "http://h/v1" none atV1 ofText_v1 with
    ⟨u, -, ⟨-, hserves⟩ | ⟨text, -, hnone⟩⟩
  · exact hserves
  · -- A service without segments would make no request.
    rcases exists_request atV1 ["v1"] rfl .uninstall default ⟨"compress", .empty⟩ with ⟨r, hr, -⟩
    rcases hnone .uninstall default ⟨"compress", .empty⟩ with ⟨place, message, herror⟩
    exact nomatch herror.symm.trans hr

/-- A request for the filter `..` does not go where it should, and to install that filter and to
    remove it are one request. -/
theorem not_forall_named :
    (¬ ∀ (address : String) (token : Option String) (s : FilterService),
      ofText address token = .ok s → ∀ errand target filter r, target.id ≠ "" → filter.name ≠ "" →
        s.request errand target filter = .ok r → r.url.path.text =
          s.address.path.text ++ "/".intercalate (named target.id errand.verb filter.name)) ∧
    ¬ ∀ (address : String) (token : Option String) (s : FilterService),
      ofText address token = .ok s → ∀ errand errand' target filter r r', target.id ≠ "" →
        filter.name ≠ "" → s.request errand target filter = .ok r →
          s.request errand' target filter = .ok r' → errand.verb ≠ errand'.verb →
            r.url.path.text ≠ r'.url.path.text := by
  -- The name is a step up, so that both requests go to the address of the target.
  have hserves := serves_of_segments atV1 ["v1"] rfl
  have hreached : ∀ errand, ∃ r, atV1.request errand ⟨"t1", "alice", none⟩ ⟨"..", .empty⟩ = .ok r ∧
      r.url.path.text = "/v1/filters/t1/" :=
    fun errand => hserves.reaches errand ⟨"t1", "alice", none⟩ ⟨"..", .empty⟩
  rcases hreached .uninstall with ⟨r, hr, hpath⟩
  constructor
  · intro h
    have hnamed := h _ _ atV1 ofText_v1 .uninstall ⟨"t1", "alice", none⟩ ⟨"..", .empty⟩ r
      (by decide) (by decide) hr
    rw [hpath] at hnamed
    exact absurd hnamed (by decide)
  · intro h
    rcases hreached (.install { policyId := 1, filterName := "..", executionOrder := 1 }) with
      ⟨r', hr', hpath'⟩
    exact h _ _ atV1 ofText_v1 _ _ _ _ r r' (by decide) (by decide) hr hr' (by decide)
      (hpath.trans hpath'.symm)

end FilterService

end StoragePolicy
