import StoragePolicy.Directory
import StoragePolicy.Proofs.Policy.Target
import StoragePolicy.Proofs.Store.Frame

/-!
# The targets that a rule names

What a rule declares as a target is a text. It means a tenant of the directory or a container of
one, and it can fail to in three ways, each of which is looked for only if the one before does not
apply. Both are said here without reference to how the directory is searched, and the search is
shown to find what is meant and to fail as said. A rule then fails with the first of its targets
that fails. Otherwise it has its targets once each: of those with one id the first, in the order in
which they come first.

Targets are told apart by their ids alone. As long as no id of a tenant has a slash, what is
declared and has one id is one target. With slashes two targets may share an id, and then the second
of them is left out.

## Main definitions

* `RuleTarget.Parts`: The tenant part and the container part of what is declared.
* `Tenants.Named`: The tenant that a text names.
* `Tenants.Means`, `Tenants.Refuses`: The target that is meant, and why there is none.
* `FirstOnes`: Some of several targets, of each id the first.
* `Tenants.Resolution`: What the targets of a rule come to.

## Theorems

* `resolve_eq_ok_iff`, `resolve_eq_error_iff`: Targets are resolved to what they mean.
* `firstOnes_distinct`: Targets are kept once.
* `resolution_of_rule`: The targets of a rule are resolved, or the first failure is told.
-/

namespace StoragePolicy

open Registry

/-! ### Searching for a value -/

/-- The first entry whose value satisfies a condition is that with the least key. -/
theorem Dict.find?_entries_eq_some_iff {κ ν : Type} [SortKey κ] (d : Dict κ ν) (p : ν → Bool)
    (key : κ) (value : ν) :
    (d.entries.find? fun e => p e.2) = some (key, value) ↔
      d.get? key = some value ∧ p value = true ∧
        ∀ other found, d.get? other = some found → p found = true → ¬ other < key := by
  rw [List.find?_eq_some_iff_append]
  constructor
  · rintro ⟨hvalue, before, after, hentries, hbefore⟩
    have hascending := d.ascending
    rw [hentries] at hascending
    refine ⟨(mem_entries_iff d key value).mp (by rw [hentries]; simp), hvalue, ?_⟩
    intro other found hget hfound hlt
    have hmem := (mem_entries_iff d other found).mpr hget
    rw [hentries] at hmem
    -- What stands before the entry found does not satisfy the condition, and what stands after it
    -- has a greater key.
    rcases List.mem_append.mp hmem with hmem | hmem
    · have hnot := hbefore _ hmem
      rw [hfound] at hnot
      exact nomatch hnot
    · rcases List.mem_cons.mp hmem with heq | hmem
      · cases heq
        exact SortKey.irrefl _ hlt
      · have hgt := (List.pairwise_cons.mp (List.pairwise_append.mp hascending).2.1).1 _ hmem
        exact SortKey.irrefl _ (SortKey.trans hlt hgt)
  · rintro ⟨hget, hvalue, hleast⟩
    rcases List.append_of_mem ((mem_entries_iff d key value).mpr hget) with
      ⟨before, after, hentries⟩
    refine ⟨hvalue, before, after, hentries, fun e he => ?_⟩
    -- An entry that stands before this one has a lesser key, so that the condition fails for it.
    have hascending := d.ascending
    rw [hentries] at hascending
    have hlt := (List.pairwise_append.mp hascending).2.2 e he _ List.mem_cons_self
    have hmem : (e.1, e.2) ∈ d.entries := by
      rw [hentries]
      exact List.mem_append_left _ he
    rw [Bool.not_eq_true']
    exact Bool.eq_false_iff.mpr fun hfound =>
      hleast e.1 e.2 ((mem_entries_iff d _ _).mp hmem) hfound hlt

/-! ### What is declared -/

/-- The parts of what is declared as a target. A container is what stands behind the first slash. -/
inductive RuleTarget.Parts : RuleTarget → String → Option String → Prop
  | tenant (tenant : String) : Parts ⟨.tenant, tenant⟩ tenant none
  | container (tenant container : String) (htenant : Target.Slashless tenant)
      (hcontainer : container ≠ "") :
      Parts ⟨.container, tenant ++ "/" ++ container⟩ tenant (some container)

namespace Tenants

/-- The tenant that a text names: the one with this id, or else, of those with this name, the one
    with the least id. -/
inductive Named (t : Tenants) (text : String) : String → String → Prop
  | byId (name : String) (hid : t.names.get? text = some name) : Named t text text name
  | byName (id : String) (hid : t.names.get? text = none) (hname : t.names.get? id = some text)
      (hleast : ∀ other, t.names.get? other = some text → id ≤ other) : Named t text id text

/-- The target that is meant by what is declared. Its tenant is enabled. -/
structure Means (t : Tenants) (declared : RuleTarget) (meant : Target) : Prop where
  named : ∃ text, declared.Parts text meant.container ∧
    t.Named text meant.tenantId meant.tenantName
  enabled : meant.tenantId ∈ t.enabled

/-- Why nothing is meant by what is declared. -/
inductive Refuses (t : Tenants) (declared : RuleTarget) : EngineError → Prop
  | notAContainer (hparts : ∀ text container, ¬ declared.Parts text container) :
      Refuses t declared (.notAContainer declared.expr)
  | unknown (text : String) (container : Option String) (hparts : declared.Parts text container)
      (hid : t.names.get? text = none) (hname : ∀ id, t.names.get? id ≠ some text) :
      Refuses t declared (.unknownTenant text)
  | notEnabled (text : String) (container : Option String) (id name : String)
      (hparts : declared.Parts text container) (hnamed : t.Named text id name)
      (hdisabled : id ∉ t.enabled) : Refuses t declared (.tenantNotEnabled id)

theorem split_eq_ok_iff (declared : RuleTarget) (text : String) (container : Option String) :
    split declared.kind declared.expr = .ok (text, container) ↔
      declared.Parts text container := by
  rcases declared with ⟨kind, expr⟩
  cases kind with
  | tenant =>
    rw [split]
    constructor
    · intro h
      cases h
      exact .tenant expr
    · intro h
      cases h
      rfl
  | container =>
    rw [split]
    constructor
    · intro h
      rcases hsplit : Target.splitSlash expr with ⟨tenant, _ | inside⟩
      · rw [hsplit] at h
        exact nomatch h
      · rw [hsplit] at h
        dsimp only at h
        split at h
        · exact nomatch h
        · rename_i hinside
          cases h
          rcases (Target.splitSlash_eq_some_iff expr _ _).mp hsplit with ⟨htenant, rfl⟩
          exact .container _ _ htenant (by simpa using hinside)
    · intro h
      cases h with
      | container tenant inside htenant hinside =>
        have hsplit := (Target.splitSlash_eq_some_iff _ text inside).mpr ⟨htenant, rfl⟩
        rw [Target.withContainer] at hsplit
        rw [hsplit]
        dsimp only
        rw [if_neg (by simpa using hinside)]

/-- The only fault of what is declared is that it is no container. -/
theorem split_ok_or (declared : RuleTarget) :
    (∃ parts, split declared.kind declared.expr = .ok parts) ∨
      split declared.kind declared.expr = .error (.notAContainer declared.expr) := by
  rcases declared with ⟨kind, expr⟩
  cases kind with
  | tenant => exact .inl ⟨_, rfl⟩
  | container =>
    rw [split]
    rcases Target.splitSlash expr with ⟨tenant, _ | inside⟩
    · exact .inr rfl
    · dsimp only
      split
      · exact .inr rfl
      · exact .inl ⟨_, rfl⟩

theorem find?_eq_some_iff (t : Tenants) (text id name : String) :
    t.find? text = some (id, name) ↔ t.Named text id name := by
  rw [find?]
  cases hget : t.names.get? text with
  | some found =>
    constructor
    · intro h
      cases h
      exact .byId _ hget
    · intro h
      cases h with
      | byId _ hid => rw [hid, Option.some.injEq] at hget; rw [hget]
      | byName _ hid => rw [hid] at hget; exact nomatch hget
  -- No id is this text, so that the first entry of this name decides, and the entries are in the
  -- order of their ids.
  | none =>
    dsimp only
    rw [Dict.find?_entries_eq_some_iff t.names (fun name => decide (name = text))]
    constructor
    · rintro ⟨hid, hname, hleast⟩
      rw [decide_eq_true_eq] at hname
      subst hname
      exact .byName id hget hid fun other hother =>
        String.not_lt.mp (hleast other name hother (decide_eq_true rfl))
    · intro h
      cases h with
      | byId _ hid => rw [hid] at hget; exact nomatch hget
      | byName _ hid hname hleast =>
        refine ⟨hname, decide_eq_true rfl, fun other found hother hfound => ?_⟩
        rw [decide_eq_true_eq] at hfound
        exact String.not_lt.mpr (hleast other (hfound ▸ hother))

theorem find?_eq_none_iff (t : Tenants) (text : String) :
    t.find? text = none ↔
      t.names.get? text = none ∧ ∀ id, t.names.get? id ≠ some text := by
  rw [find?]
  cases hget : t.names.get? text with
  | some found => simp
  | none =>
    rw [List.find?_eq_none]
    constructor
    · intro h
      refine ⟨rfl, fun id hid => ?_⟩
      exact h (id, text) ((Dict.mem_entries_iff _ _ _).mpr hid) (decide_eq_true rfl)
    · rintro ⟨-, hname⟩ e he hfound
      rw [decide_eq_true_eq] at hfound
      exact hname e.1 ((Dict.mem_entries_iff _ _ _).mp (by rw [← hfound]; exact he))

/-- A text that names no tenant is not resolved. -/
theorem resolve_of_unnamed (t : Tenants) (declared : RuleTarget) (text : String)
    (container : Option String) (hparts : declared.Parts text container)
    (hfind : t.find? text = none) :
    t.resolve declared.kind declared.expr = .error (.unknownTenant text) := by
  rw [resolve, (split_eq_ok_iff declared text container).mpr hparts]
  dsimp only [bind, Except.bind]
  rw [hfind]

/-- A tenant that is named has to be enabled. -/
theorem resolve_of_named (t : Tenants) (declared : RuleTarget) (text : String)
    (container : Option String) (id name : String) (hparts : declared.Parts text container)
    (hfind : t.find? text = some (id, name)) :
    t.resolve declared.kind declared.expr =
      if t.enabled.contains id then .ok ⟨id, name, container⟩
      else .error (.tenantNotEnabled id) := by
  rw [resolve, (split_eq_ok_iff declared text container).mpr hparts]
  dsimp only [bind, Except.bind]
  rw [hfind]
  rfl

/-- What is declared is resolved and means that, or is refused and means nothing. -/
theorem resolve_cases (t : Tenants) (declared : RuleTarget) :
    (∃ meant, t.resolve declared.kind declared.expr = .ok meant ∧ t.Means declared meant) ∨
      ∃ e, t.resolve declared.kind declared.expr = .error e ∧ t.Refuses declared e := by
  rcases split_ok_or declared with ⟨⟨text, container⟩, hsplit⟩ | hsplit
  · have hparts := (split_eq_ok_iff _ _ _).mp hsplit
    rcases hfind : t.find? text with _ | ⟨id, name⟩
    · have hnone := (find?_eq_none_iff t text).mp hfind
      exact Or.inr ⟨_, resolve_of_unnamed t declared text container hparts hfind,
        .unknown text container hparts hnone.1 hnone.2⟩
    · have hresolve := resolve_of_named t declared text container id name hparts hfind
      have hnamed := (find?_eq_some_iff t _ _ _).mp hfind
      by_cases henabled : t.enabled.contains id = true
      · rw [if_pos henabled] at hresolve
        exact Or.inl ⟨_, hresolve, ⟨text, hparts, hnamed⟩, List.contains_iff_mem.mp henabled⟩
      · rw [if_neg henabled] at hresolve
        exact Or.inr ⟨_, hresolve, .notEnabled text container id name hparts hnamed
          fun hmem => henabled (List.contains_iff_mem.mpr hmem)⟩
  · refine Or.inr ⟨_, by rw [resolve, hsplit]; rfl, .notAContainer fun text container hparts => ?_⟩
    rw [(split_eq_ok_iff _ _ _).mpr hparts] at hsplit
    cases hsplit

/-- What is declared is resolved to what it means. -/
theorem resolve_eq_ok_iff (t : Tenants) (declared : RuleTarget) (meant : Target) :
    t.resolve declared.kind declared.expr = .ok meant ↔ t.Means declared meant := by
  constructor
  · intro h
    rcases resolve_cases t declared with ⟨_, hresolve, hmeans⟩ | ⟨_, hresolve, -⟩
    · cases hresolve.symm.trans h
      exact hmeans
    · cases hresolve.symm.trans h
  · rintro ⟨⟨text, hparts, hnamed⟩, henabled⟩
    rw [resolve_of_named t declared text _ _ _ hparts ((find?_eq_some_iff t _ _ _).mpr hnamed),
      if_pos (List.contains_iff_mem.mpr henabled)]

/-- What cannot be resolved is refused for the reason for which it means nothing. -/
theorem resolve_eq_error_iff (t : Tenants) (declared : RuleTarget) (e : EngineError) :
    t.resolve declared.kind declared.expr = .error e ↔ t.Refuses declared e := by
  constructor
  · intro h
    rcases resolve_cases t declared with ⟨_, hresolve, -⟩ | ⟨_, hresolve, hrefuses⟩
    · cases hresolve.symm.trans h
    · cases hresolve.symm.trans h
      exact hrefuses
  · intro h
    cases h with
    | notAContainer hparts =>
      rcases split_ok_or declared with ⟨⟨text, container⟩, hsplit⟩ | hsplit
      · exact absurd ((split_eq_ok_iff _ _ _).mp hsplit) (hparts text container)
      · rw [resolve, hsplit]
        rfl
    | unknown text container hparts hid hname =>
      exact resolve_of_unnamed t declared text container hparts
        ((find?_eq_none_iff t text).mpr ⟨hid, hname⟩)
    | notEnabled text container id name hparts hnamed hdisabled =>
      rw [resolve_of_named t declared text container id name hparts
        ((find?_eq_some_iff t _ _ _).mpr hnamed)]
      exact if_neg fun hcontains => hdisabled (List.contains_iff_mem.mp hcontains)

/-- What is declared means one target at most, and not any that is refused. -/
theorem means_inj (t : Tenants) (declared : RuleTarget) (a b : Target) (ha : t.Means declared a)
    (hb : t.Means declared b) : a = b := by
  rw [← resolve_eq_ok_iff] at ha hb
  rw [ha] at hb
  exact Except.ok.inj hb

end Tenants

/-! ### Each target once -/

/-- Some of several targets: of each id the first one, in the order in which they come first. -/
structure FirstOnes (all kept : List Target) : Prop where
  nodup : (kept.map Target.id).Nodup
  covers : ∀ target ∈ all, ∃ k ∈ kept, k.id = target.id
  first : ∀ k ∈ kept, ∃ before after, all = before ++ k :: after ∧ ∀ b ∈ before, b.id ≠ k.id
  ordered : kept.Pairwise fun k l =>
    (all.map Target.id).idxOf k.id < (all.map Target.id).idxOf l.id

namespace Tenants

theorem not_mem_distinct (seen : List String) (targets : List Target) (target : Target)
    (h : target ∈ distinct seen targets) : target.id ∉ seen := by
  induction targets generalizing seen with
  | nil => exact absurd h List.not_mem_nil
  | cons first rest ih =>
    rw [distinct] at h
    split at h
    · exact ih seen h
    · rename_i hfirst
      rcases List.mem_cons.mp h with rfl | h
      · simpa using hfirst
      · exact fun hmem => ih _ h (List.mem_cons_of_mem _ hmem)

theorem nodup_distinct (seen : List String) (targets : List Target) :
    ((distinct seen targets).map Target.id).Nodup := by
  induction targets generalizing seen with
  | nil => exact List.nodup_nil
  | cons first rest ih =>
    rw [distinct]
    split
    · exact ih seen
    · rw [List.map_cons, List.nodup_cons]
      refine ⟨fun hmem => ?_, ih _⟩
      rcases List.mem_map.mp hmem with ⟨target, htarget, heq⟩
      exact not_mem_distinct _ rest target htarget (by rw [heq]; exact List.mem_cons_self)

/-- Of every id that has not been seen a target is kept. -/
theorem covers_distinct (seen : List String) (targets : List Target) (target : Target)
    (htarget : target ∈ targets) (hseen : target.id ∉ seen) :
    ∃ k ∈ distinct seen targets, k.id = target.id := by
  induction targets generalizing seen with
  | nil => exact absurd htarget List.not_mem_nil
  | cons first rest ih =>
    rw [distinct]
    -- The target has the id of the first one, or is among the others.
    by_cases hfirst : first.id = target.id
    · rw [if_neg (by simpa [hfirst] using hseen)]
      exact ⟨first, List.mem_cons_self, hfirst⟩
    · have hrest : target ∈ rest := by
        rcases List.mem_cons.mp htarget with rfl | hrest
        · exact absurd rfl hfirst
        · exact hrest
      split
      · exact ih seen hrest hseen
      · rcases ih (first.id :: seen) hrest (by simp [hseen, Ne.symm hfirst]) with ⟨k, hk, hid⟩
        exact ⟨k, List.mem_cons_of_mem _ hk, hid⟩

/-- A target that is kept is the first of its id. -/
theorem first_distinct (seen : List String) (targets : List Target) (k : Target)
    (hk : k ∈ distinct seen targets) :
    ∃ before after, targets = before ++ k :: after ∧ ∀ b ∈ before, b.id ≠ k.id := by
  induction targets generalizing seen with
  | nil => exact absurd hk List.not_mem_nil
  | cons first rest ih =>
    -- What is kept behind the first target has not been seen, and the first one has been by then.
    have hbehind : ∀ seen, first.id ∈ seen → k ∈ distinct seen rest →
        ∃ before after, first :: rest = before ++ k :: after ∧ ∀ b ∈ before, b.id ≠ k.id := by
      intro seen hseen hmem
      rcases ih seen hmem with ⟨before, after, rfl, hbefore⟩
      refine ⟨first :: before, after, rfl, List.forall_mem_cons.mpr ⟨fun heq => ?_, hbefore⟩⟩
      exact not_mem_distinct seen _ k hmem (heq ▸ hseen)
    rw [distinct] at hk
    split at hk
    · rename_i hseen
      exact hbehind seen (List.contains_iff_mem.mp hseen) hk
    · rcases List.mem_cons.mp hk with rfl | hk
      · exact ⟨[], rest, rfl, fun b hb => absurd hb List.not_mem_nil⟩
      · exact hbehind _ List.mem_cons_self hk

/-- Targets are kept in the order in which their ids come first. -/
theorem ordered_distinct (seen : List String) (targets : List Target) :
    (distinct seen targets).Pairwise fun k l =>
      (targets.map Target.id).idxOf k.id < (targets.map Target.id).idxOf l.id := by
  induction targets generalizing seen with
  | nil => exact .nil
  | cons first rest ih =>
    -- Behind the first target no place is that of its id, so that all places move by one.
    have hshift : ∀ seen, first.id ∈ seen → ∀ k ∈ distinct seen rest,
        ((first :: rest).map Target.id).idxOf k.id = (rest.map Target.id).idxOf k.id + 1 := by
      intro seen hseen k hk
      have hne : first.id ≠ k.id := fun heq => not_mem_distinct seen rest k hk (heq ▸ hseen)
      rw [List.map_cons, List.idxOf_cons_ne _ hne]
    have hbehind : ∀ seen, first.id ∈ seen → (distinct seen rest).Pairwise fun k l =>
        ((first :: rest).map Target.id).idxOf k.id <
          ((first :: rest).map Target.id).idxOf l.id := by
      intro seen hseen
      refine (ih seen).imp_of_mem fun {k l} hk hl hlt => ?_
      rw [hshift seen hseen k hk, hshift seen hseen l hl]
      omega
    rw [distinct]
    split
    · rename_i hseen
      exact hbehind seen (List.contains_iff_mem.mp hseen)
    · refine List.pairwise_cons.mpr ⟨fun l hl => ?_, hbehind _ List.mem_cons_self⟩
      rw [hshift _ List.mem_cons_self l hl, List.map_cons, List.idxOf_cons_self]
      omega

theorem firstOnes_distinct (targets : List Target) : FirstOnes targets (distinct [] targets) where
  nodup := nodup_distinct [] targets
  covers target htarget := covers_distinct [] targets target htarget List.not_mem_nil
  first := first_distinct [] targets
  ordered := ordered_distinct [] targets

/-! ### All targets of a rule -/

/-- What the targets that a rule declares come to. -/
structure Resolution (t : Tenants) (declared : List RuleTarget)
    (outcome : Except EngineError (List Target)) : Prop where
  /-- The rule has targets if every one that it declares means something. -/
  ok_iff : (∃ kept, outcome = .ok kept) ↔ ∀ d ∈ declared, ∃ meant, t.Means d meant
  /-- Otherwise it has the error of the first one that does not. -/
  error_iff (e : EngineError) : outcome = .error e ↔
    ∃ before d after, declared = before ++ d :: after ∧
      (∀ b ∈ before, ∃ meant, t.Means b meant) ∧ t.Refuses d e
  /-- Of the targets that are meant, those with one id are kept once. -/
  kept (kept : List Target) (h : outcome = .ok kept) :
    ∃ all, List.Forall₂ t.Means declared all ∧ FirstOnes all kept
  /-- What is kept is meant. -/
  meant (kept : List Target) (h : outcome = .ok kept) : ∀ k ∈ kept, ∃ d ∈ declared, t.Means d k
  /-- Without slashes in the ids of tenants whatever is meant is kept. -/
  whole (kept : List Target) (h : outcome = .ok kept)
    (hids : ∀ id name, t.names.get? id = some name → Target.Slashless id) :
    ∀ d ∈ declared, ∀ meant, t.Means d meant → meant ∈ kept

theorem get?_of_named (t : Tenants) (text id name : String) (h : t.Named text id name) :
    t.names.get? id = some name := by
  cases h with
  | byId _ hid => exact hid
  | byName _ _ hname => exact hname

/-- Without slashes in the ids of tenants a target that is meant is told from others by its id. -/
theorem eq_of_id_eq (t : Tenants)
    (hids : ∀ id name, t.names.get? id = some name → Target.Slashless id) (d d' : RuleTarget)
    (a b : Target) (ha : t.Means d a) (hb : t.Means d' b) (h : a.id = b.id) : a = b := by
  rcases ha.named with ⟨text, -, hnamed⟩
  rcases hb.named with ⟨text', -, hnamed'⟩
  have hname := get?_of_named t _ _ _ hnamed
  have hname' := get?_of_named t _ _ _ hnamed'
  rcases (Target.id_eq_iff a b (hids _ _ hname) (hids _ _ hname')).mp h with ⟨hid, hcontainer⟩
  rw [hid, hname', Option.some.injEq] at hname
  cases a
  cases b
  simp_all

theorem mapM_resolve_eq_ok (t : Tenants) (declared : List RuleTarget) (all : List Target) :
    (declared.mapM fun d => t.resolve d.kind d.expr) = .ok all ↔
      List.Forall₂ t.Means declared all := by
  simp only [Outcome.mapM_eq_ok, resolve_eq_ok_iff]

theorem resolveAll_eq_error_iff (t : Tenants) (declared : List RuleTarget) (e : EngineError) :
    t.resolveAll declared = .error e ↔
      ∃ before d after, declared = before ++ d :: after ∧
        (∀ b ∈ before, ∃ meant, t.Means b meant) ∧ t.Refuses d e := by
  have hmap : t.resolveAll declared = .error e ↔
      (declared.mapM fun d => t.resolve d.kind d.expr) = .error e := by
    rw [resolveAll]
    cases declared.mapM fun d => t.resolve d.kind d.expr with
    | ok all => exact ⟨fun h => (nomatch h), fun h => (nomatch h)⟩
    | error e' => exact ⟨fun h => congrArg _ (Except.error.inj h),
        fun h => congrArg _ (Except.error.inj h)⟩
  simp only [hmap, Outcome.mapM_eq_error, resolve_eq_ok_iff, resolve_eq_error_iff]

theorem resolution_resolveAll (t : Tenants) (declared : List RuleTarget) :
    t.Resolution declared (t.resolveAll declared) := by
  have hkept : ∀ kept, t.resolveAll declared = .ok kept →
      ∃ all, List.Forall₂ t.Means declared all ∧ FirstOnes all kept := by
    intro kept h
    rcases (Outcome.map_eq_ok _ _ _).mp h with ⟨all, hall, rfl⟩
    exact ⟨all, (mapM_resolve_eq_ok t declared all).mp hall, firstOnes_distinct all⟩
  have hmeant : ∀ kept, t.resolveAll declared = .ok kept →
      ∀ k ∈ kept, ∃ d ∈ declared, t.Means d k := by
    intro kept h k hk
    rcases hkept kept h with ⟨all, hall, hfirst⟩
    rcases hfirst.first k hk with ⟨before, after, rfl, -⟩
    exact Outcome.exists_left_of_forall₂ hall k (by simp)
  refine ⟨⟨?_, fun hall => ?_⟩, resolveAll_eq_error_iff t declared, hkept, hmeant, ?_⟩
  · rintro ⟨kept, h⟩ d hd
    rcases hkept kept h with ⟨all, hall, -⟩
    rcases Outcome.exists_right_of_forall₂ hall d hd with ⟨meant, -, hmeans⟩
    exact ⟨meant, hmeans⟩
  · cases h : t.resolveAll declared with
    | ok kept => exact ⟨kept, rfl⟩
    | error e =>
      -- What is refused is not resolved, and what means something is.
      rcases (resolveAll_eq_error_iff t declared e).mp h with ⟨before, d, after, rfl, -, hrefused⟩
      rcases hall d (by simp) with ⟨meant, hmeans⟩
      rw [← resolve_eq_error_iff, (resolve_eq_ok_iff t d meant).mpr hmeans] at hrefused
      exact nomatch hrefused
  · intro kept h hids d hd meant hmeans
    rcases hkept kept h with ⟨all, hall, hfirst⟩
    rcases Outcome.exists_right_of_forall₂ hall d hd with ⟨found, hfound, hmeans'⟩
    rcases hfirst.covers found hfound with ⟨k, hk, hid⟩
    rcases hmeant kept h k hk with ⟨d', -, hmeansk⟩
    have hsame := eq_of_id_eq t hids d' d k found hmeansk hmeans' hid
    rwa [hsame, means_inj t d found meant hmeans' hmeans] at hk

end Tenants

namespace Registry

section Reading

variable (kind : Store.Call → Prop) (directory : Directory)
  (hnames : kind (.getFields Directory.namesKey))

include hnames

theorem makes_names : directory.names.run.Makes kind := by
  cases directory with
  | fixed tenants => exact makes_pure _ _
  | stored => exact makes_ask _ _ hnames

variable (henabled : kind (.getItems Directory.enabledKey))

include henabled

/-- The directory is read by looking at the names and at what is enabled. -/
theorem makes_read : directory.read.run.Makes kind := by
  refine makes_bind _ _ _ (makes_names kind directory hnames) fun names => ?_
  refine makes_bind _ _ _ ?_ fun enabled => makes_pure _ _
  cases directory with
  | fixed tenants => exact makes_pure _ _
  | stored => exact makes_ask _ _ henabled

theorem makes_resolveAll (targets : List RuleTarget) :
    (directory.resolveAll targets).run.Makes kind :=
  makes_bind _ _ _ (makes_read kind directory hnames henabled) fun _ => makes_ofExcept _ _

end Reading

end Registry

namespace Directory

/-- Reading the directory changes nothing. -/
theorem on_read_snd (directory : Directory) (d : Store) : (on directory.read d).2 = d := by
  refine Dict.ext_get? _ _ fun key => get?_on directory.read key ?_ d
  exact makes_read _ directory List.not_mem_nil List.not_mem_nil

/-- All targets of a rule are resolved against what the directory holds at one moment. If it cannot
    be read, the rule has the error of reading it. -/
theorem resolution_of_rule (directory : Directory) (d : Store) (rule : Rule) :
    (on (directory.resolveAll rule.targets) d).2 = d ∧
      (∀ e, (on directory.read d).1 = .error e →
        (on (directory.resolveAll rule.targets) d).1 = .error e) ∧
      ∀ t, (on directory.read d).1 = .ok t →
        t.Resolution rule.targets (on (directory.resolveAll rule.targets) d).1 := by
  -- The directory is read once, and all targets are resolved against what has been read.
  have hsame := on_read_snd directory d
  rcases hread : on directory.read d with ⟨result, d'⟩
  rw [hread] at hsame
  change d' = d at hsame
  rw [hsame] at hread
  cases result with
  | error e =>
    have hall : on (directory.resolveAll rule.targets) d = (.error e, d) :=
      on_bind_error _ _ _ _ _ hread
    rw [hall]
    exact ⟨rfl, fun e' h => congrArg _ (Except.error.inj h), fun t h => (nomatch h)⟩
  | ok tenants =>
    have hall : on (directory.resolveAll rule.targets) d = (tenants.resolveAll rule.targets, d) :=
      on_bind_ok _ _ _ _ _ hread
    rw [hall]
    refine ⟨rfl, fun e h => (nomatch h), fun t h => ?_⟩
    cases h
    exact tenants.resolution_resolveAll rule.targets

/-- Tenants of whom one has the name of another for an id, and two have one name. -/
def namesakes : Tenants where
  names := Dict.ofList [("bob", "alice"), ("t1", "alice"), ("t2", "bob"), ("t3", "carol")]
  enabled := ["t2", "bob", "t1"]

/-- A rule that compresses what some targets hold. -/
def compressFor (targets : List RuleTarget) : Rule :=
  { targets, condition := none, objectFilter := none,
    actions := [{ verb := .set, filterName := "compress" }] }

theorem resolution_of_rule_namesakes :
    let rule := compressFor [⟨.tenant, "bob"⟩, ⟨.container, "t1/a/b"⟩, ⟨.tenant, "alice"⟩,
      ⟨.tenant, "t2"⟩]
    let kept : List Target := [{ tenantId := "bob", tenantName := "alice" },
      { tenantId := "t1", tenantName := "alice", container := some "a/b" },
      { tenantId := "t2", tenantName := "bob" }]
    let refused := compressFor [⟨.tenant, "bob"⟩, ⟨.tenant, "carol"⟩, ⟨.container, "bob/"⟩]
    (on (fixed namesakes).read Dict.empty).1 = .ok namesakes ∧
      (on ((fixed namesakes).resolveAll rule.targets) Dict.empty).1 = .ok kept ∧
      namesakes.Resolution rule.targets (.ok kept) ∧
      namesakes.Resolution refused.targets (.error (.tenantNotEnabled "t3")) := by
  intro rule kept refused
  have hread : (on (fixed namesakes).read Dict.empty).1 = .ok namesakes := rfl
  have hkept : (on ((fixed namesakes).resolveAll rule.targets) Dict.empty).1 = .ok kept := by
    decide +kernel
  have hrefused : (on ((fixed namesakes).resolveAll refused.targets) Dict.empty).1 =
      .error (.tenantNotEnabled "t3") := by
    decide +kernel
  have hall := (resolution_of_rule (fixed namesakes) Dict.empty rule).2.2 namesakes hread
  have hall' := (resolution_of_rule (fixed namesakes) Dict.empty refused).2.2 namesakes hread
  rw [hkept] at hall
  rw [hrefused] at hall'
  exact ⟨hread, hkept, hall, hall'⟩

/-- A tenant with a slash in its id may share that id with a container of another tenant. -/
example : (Tenants.mk (Dict.ofList [("t1", "alice"), ("t1/a", "bob")]) ["t1", "t1/a"]).resolveAll
    [⟨.container, "t1/a"⟩, ⟨.tenant, "t1/a"⟩] =
      .ok [{ tenantId := "t1", tenantName := "alice", container := some "a" }] := by
  decide +kernel

end Directory

end StoragePolicy
