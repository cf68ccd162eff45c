import Mathlib.Data.List.Forall2

/-!
# Results that are values

A reader, a decoder or a check is a chain of steps of which each may fail. What it takes for the
chain to end in a value is said here once: every step ends in a value.

## Theorems

* `bind_eq_ok`, `map_eq_ok`, `mapError_eq_ok`: When the parts of a chain end in a value.
* `mapM_eq_ok`, `mapM_eq_ok_map`, `exists_map_of_mapM`: When a step made for each item of a list
  does.
* `mapM_eq_error`: Which error it ends in otherwise.
-/

namespace StoragePolicy

namespace Outcome

variable {ε ε' α β : Type}

theorem bind_eq_ok (x : Except ε α) (f : α → Except ε β) (b : β) :
    (x >>= f) = .ok b ↔ ∃ a, x = .ok a ∧ f a = .ok b := by
  cases x with
  | ok a =>
    constructor
    · intro h
      exact ⟨a, rfl, h⟩
    · rintro ⟨a', ha, h⟩
      cases ha
      exact h
  | error e =>
    exact ⟨fun h => (nomatch h), by rintro ⟨a', ha, -⟩; cases ha⟩

theorem map_eq_ok (x : Except ε α) (f : α → β) (b : β) :
    x.map f = .ok b ↔ ∃ a, x = .ok a ∧ f a = b := by
  cases x with
  | ok a => exact ⟨fun h => ⟨a, rfl, Except.ok.inj h⟩, by rintro ⟨a', ha, rfl⟩; cases ha; rfl⟩
  | error e => exact ⟨fun h => (nomatch h), by rintro ⟨a', ha, -⟩; cases ha⟩

theorem mapError_eq_ok (x : Except ε α) (f : ε → ε') (a : α) :
    x.mapError f = .ok a ↔ x = .ok a := by
  cases x with
  | ok a' => exact ⟨fun h => by cases h; rfl, fun h => by cases h; rfl⟩
  | error e => exact ⟨fun h => (nomatch h), fun h => (nomatch h)⟩

/-- A step that is made if there is anything to make it for has made something. -/
theorem option_mapM_eq_some (o : Option α) (f : α → Except ε β) (b : β) :
    o.mapM f = .ok (some b) ↔ ∃ a, o = some a ∧ f a = .ok b := by
  cases o with
  | none => exact ⟨fun h => (nomatch h), by rintro ⟨a, ha, -⟩; cases ha⟩
  | some a =>
    rw [Option.mapM_some]
    refine (map_eq_ok (f a) some (some b)).trans ⟨?_, ?_⟩
    · rintro ⟨b', hb, heq⟩
      exact ⟨a, rfl, hb.trans (congrArg Except.ok (Option.some.inj heq))⟩
    · rintro ⟨a', ha, hb⟩
      cases ha
      exact ⟨b, hb, rfl⟩

/-- A step made for each item of a list ends in the list of what it ends in for each. -/
theorem mapM_eq_ok (f : α → Except ε β) (items : List α) (results : List β) :
    items.mapM f = .ok results ↔ List.Forall₂ (fun a b => f a = .ok b) items results := by
  induction items generalizing results with
  | nil =>
    rw [List.mapM_nil]
    constructor
    · intro h
      cases h
      exact .nil
    · intro h
      cases h
      rfl
  | cons a rest ih =>
    rw [List.mapM_cons, bind_eq_ok]
    constructor
    · rintro ⟨b, hb, h⟩
      rcases (bind_eq_ok _ _ _).mp h with ⟨others, hothers, h⟩
      cases h
      exact .cons hb ((ih others).mp hothers)
    · intro h
      cases h with
      | cons hb hothers =>
        exact ⟨_, hb, (bind_eq_ok _ _ _).mpr ⟨_, (ih _).mpr hothers, rfl⟩⟩

/-- The same for steps whose results are made from what stands in a relation to the items. -/
theorem mapM_eq_ok_map {γ : Type} (f : α → Except ε β) (R : γ → α → Prop) (g : γ → β)
    (items : List α) (h : ∀ a ∈ items, ∀ b, f a = .ok b ↔ ∃ c, R c a ∧ b = g c)
    (results : List β) :
    items.mapM f = .ok results ↔ ∃ cs, List.Forall₂ R cs items ∧ results = cs.map g := by
  rw [mapM_eq_ok]
  constructor
  · intro hsteps
    induction hsteps with
    | nil => exact ⟨[], .nil, rfl⟩
    | @cons a b rest others hb hrest ih =>
      rcases (h a List.mem_cons_self b).mp hb with ⟨c, hc, rfl⟩
      rcases ih fun a' ha' => h a' (List.mem_cons_of_mem a ha') with ⟨cs, hcs, rfl⟩
      exact ⟨c :: cs, .cons hc hcs, rfl⟩
  · rintro ⟨cs, hcs, rfl⟩
    induction hcs with
    | nil => exact .nil
    | @cons c a others rest hc hrest ih =>
      exact .cons ((h a List.mem_cons_self _).mpr ⟨c, hc, rfl⟩)
        (ih fun a' ha' => h a' (List.mem_cons_of_mem a ha'))

/-- If what each step ends in is made from something with a property, so are all the results, and
    there are some if there are items. -/
theorem exists_map_of_mapM {γ : Type} (f : α → Except ε β) (P : γ → Prop) (g : γ → β)
    (items : List α) (hne : items ≠ []) (h : ∀ a ∈ items, ∀ b, f a = .ok b → ∃ c, P c ∧ b = g c)
    (results : List β) (hresults : items.mapM f = .ok results) :
    ∃ cs, cs ≠ [] ∧ (∀ c ∈ cs, P c) ∧ results = cs.map g := by
  rw [mapM_eq_ok] at hresults
  have hparts : ∃ cs : List γ, (∀ c ∈ cs, P c) ∧ results = cs.map g := by
    clear hne
    induction hresults with
    | nil => exact ⟨[], by simp, rfl⟩
    | @cons a b rest others hb hrest ih =>
      rcases h a List.mem_cons_self b hb with ⟨c, hc, rfl⟩
      rcases ih fun a' ha' => h a' (List.mem_cons_of_mem a ha') with ⟨cs, hcs, rfl⟩
      exact ⟨c :: cs, List.forall_mem_cons.mpr ⟨hc, hcs⟩, rfl⟩
  rcases hparts with ⟨cs, hcs, rfl⟩
  refine ⟨cs, ?_, hcs, rfl⟩
  rintro rfl
  have hlength := hresults.length_eq
  rw [List.map_nil, List.length_nil] at hlength
  exact hne (List.length_eq_zero_iff.mp hlength)

/-- A step made for each item of a list ends in the error of the first item for which it fails. -/
theorem mapM_eq_error (f : α → Except ε β) (items : List α) (e : ε) :
    items.mapM f = .error e ↔ ∃ before a after, items = before ++ a :: after ∧
      (∀ b ∈ before, ∃ result, f b = .ok result) ∧ f a = .error e := by
  induction items with
  | nil =>
    rw [List.mapM_nil]
    exact ⟨fun h => (nomatch h), fun ⟨before, a, after, h, _⟩ => by simp at h⟩
  | cons first rest ih =>
    rw [List.mapM_cons]
    cases hfirst : f first with
    | error e' =>
      -- The first item fails, so that nothing stands before it.
      constructor
      · intro h
        cases h
        exact ⟨[], first, rest, rfl, fun b hb => absurd hb List.not_mem_nil, hfirst⟩
      · rintro ⟨before, a, after, hitems, hbefore, ha⟩
        cases before with
        | nil =>
          cases hitems
          rw [hfirst] at ha
          exact congrArg Except.error (Except.error.inj ha)
        | cons b before =>
          cases hitems
          rcases hbefore first List.mem_cons_self with ⟨result, hresult⟩
          rw [hfirst] at hresult
          exact nomatch hresult
    | ok result =>
      -- The first item does not fail, so that the error comes from the rest.
      have hrest : (do
          let result ← Except.ok result
          let results ← rest.mapM f
          pure (result :: results)) = .error e ↔ rest.mapM f = .error e := by
        cases rest.mapM f with
        | error e' => exact ⟨fun h => congrArg Except.error (Except.error.inj h),
            fun h => congrArg Except.error (Except.error.inj h)⟩
        | ok results => exact ⟨fun h => (nomatch h), fun h => (nomatch h)⟩
      rw [hrest, ih]
      constructor
      · rintro ⟨before, a, after, rfl, hbefore, ha⟩
        exact ⟨first :: before, a, after, rfl,
          List.forall_mem_cons.mpr ⟨⟨result, hfirst⟩, hbefore⟩, ha⟩
      · rintro ⟨before, a, after, hitems, hbefore, ha⟩
        cases before with
        | nil =>
          cases hitems
          rw [hfirst] at ha
          exact nomatch ha
        | cons b before =>
          cases hitems
          exact ⟨before, a, after, rfl, (List.forall_mem_cons.mp hbefore).2, ha⟩

/-- Of two lists in a relation every item on the left stands in it to one on the right. -/
theorem exists_right_of_forall₂ {R : α → β → Prop} {as : List α} {bs : List β}
    (h : List.Forall₂ R as bs) (a : α) (ha : a ∈ as) : ∃ b ∈ bs, R a b := by
  rcases List.mem_iff_get.mp ha with ⟨i, rfl⟩
  rcases List.forall₂_iff_get.mp h with ⟨hlength, hget⟩
  exact ⟨_, List.get_mem bs ⟨i, hlength ▸ i.2⟩, hget i i.2 _⟩

theorem exists_left_of_forall₂ {R : α → β → Prop} {as : List α} {bs : List β}
    (h : List.Forall₂ R as bs) (b : β) (hb : b ∈ bs) : ∃ a ∈ as, R a b :=
  exists_right_of_forall₂ h.flip b hb

end Outcome

end StoragePolicy
