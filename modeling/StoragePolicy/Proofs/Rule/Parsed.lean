import StoragePolicy.Rule.Parser
import StoragePolicy.Proofs.Outcome

/-!
# What a rule is that has been read

A rule that has been read from a text has a condition that has been read itself, and its object
filter names no empty type and no size that cannot be held. These are the facts on which the stored
form of a dynamic policy rests.

## Main definitions

* `ObjectFilter.Storable`: Object filters that can be stored as texts.

## Theorems

* `condition_of_parse`: The condition of a rule has been read from a text.
* `objectFilter_of_parse`: Its object filter can be stored.
-/

namespace StoragePolicy

/-- Object filters that can be stored as texts: the type is not the empty text, and the size can be
    held. -/
structure ObjectFilter.Storable (filter : ObjectFilter) : Prop where
  objectType : filter.objectType ≠ some ""
  objectSize : ∀ size, filter.objectSize = some size → size.value ≤ Number.maxWord

namespace Rule

/-- The parts from which a rule has been read. -/
theorem parts_of_parse (line : String) (rule : Rule) (h : parse line = .ok rule) :
    ∃ sections, Sections.ofWords (Word.scan line.toList) = .ok sections ∧
      readTargets sections.targets = .ok rule.targets ∧
      sections.condition.mapM (readCondition line) = .ok rule.condition ∧
      readActions sections.actions = .ok rule.actions ∧
      sections.objectFilter.mapM readObjectFilter = .ok rule.objectFilter := by
  rw [parse] at h
  rcases (Outcome.bind_eq_ok _ _ _).mp h with ⟨sections, hsections, h⟩
  rcases (Outcome.bind_eq_ok _ _ _).mp h with ⟨targets, htargets, h⟩
  rcases (Outcome.bind_eq_ok _ _ _).mp h with ⟨condition, hcondition, h⟩
  rcases (Outcome.bind_eq_ok _ _ _).mp h with ⟨actions, hactions, h⟩
  rcases (Outcome.bind_eq_ok _ _ _).mp h with ⟨objectFilter, hfilter, h⟩
  cases h
  exact ⟨sections, (Outcome.mapError_eq_ok _ _ _).mp hsections,
    (Outcome.mapError_eq_ok _ _ _).mp htargets, hcondition,
    (Outcome.mapError_eq_ok _ _ _).mp hactions, (Outcome.mapError_eq_ok _ _ _).mp hfilter⟩

/-- The condition of a rule has been read from a text. -/
theorem condition_of_parse (line : String) (rule : Rule) (c : Condition)
    (h : parse line = .ok rule) (hc : rule.condition = some c) :
    ∃ text, Condition.parse text = .ok c := by
  rcases parts_of_parse line rule h with ⟨sections, -, -, hcondition, -⟩
  rw [hc] at hcondition
  rcases (Outcome.option_mapM_eq_some _ _ _).mp hcondition with ⟨words, -, hread⟩
  rw [readCondition] at hread
  split at hread
  · exact nomatch hread
  · exact ⟨_, (Outcome.mapError_eq_ok _ _ _).mp hread⟩

theorem storable_readObjectClause (filter : ObjectFilter) (words : List Word)
    (result : ObjectFilter) (hfilter : filter.Storable)
    (h : readObjectClause filter words = .ok result) : result.Storable := by
  rw [readObjectClause] at h
  rcases (Outcome.bind_eq_ok _ _ _).mp h with ⟨pieces, -, h⟩
  dsimp only at h
  split at h
  · split at h
    · cases h
      refine ⟨?_, hfilter.objectSize⟩
      intro hempty
      have hchars := congrArg String.toList (Option.some.inj hempty)
      rw [String.toList_ofList] at hchars
      exact nomatch hchars
    · exact nomatch h
  · split at h
    · rcases (Outcome.bind_eq_ok _ _ _).mp h with ⟨size, hsize, h⟩
      cases h
      refine ⟨hfilter.objectType, ?_⟩
      intro size' heq
      cases heq
      -- The number has been read, so that it can be held.
      rw [readSize] at hsize
      split at hsize
      · exact nomatch hsize
      · split at hsize
        · exact nomatch hsize
        · split at hsize
          · exact nomatch hsize
          · rename_i value hvalue
            cases hsize
            exact Number.readNatural_le _ _ hvalue
    · exact nomatch h

theorem storable_foldlM (pieces : List (List Word)) (filter result : ObjectFilter)
    (hfilter : filter.Storable) (h : pieces.foldlM readObjectClause filter = .ok result) :
    result.Storable := by
  induction pieces generalizing filter with
  | nil =>
    cases h
    exact hfilter
  | cons words rest ih =>
    rw [List.foldlM_cons] at h
    rcases (Outcome.bind_eq_ok _ _ _).mp h with ⟨next, hnext, h⟩
    exact ih next (storable_readObjectClause filter words next hfilter hnext) h

/-- The object filter of a rule can be stored. -/
theorem objectFilter_of_parse (line : String) (rule : Rule) (filter : ObjectFilter)
    (h : parse line = .ok rule) (hfilter : rule.objectFilter = some filter) : filter.Storable := by
  rcases parts_of_parse line rule h with ⟨sections, -, -, -, -, hread⟩
  rw [hfilter] at hread
  rcases (Outcome.option_mapM_eq_some _ _ _).mp hread with ⟨words, -, hread⟩
  exact storable_foldlM _ {} filter ⟨by simp, by simp⟩ hread

end Rule

end StoragePolicy
