import StoragePolicy.Proofs.Store.View
import StoragePolicy.Proofs.Text.ByteOrder

/-!
# Keys with a common beginning

A scan looks at a range of the keys: from the first that is not smaller than a stem to the first
that does not begin with it. In the order of texts the keys with a common beginning stand together,
and the stem itself would be the first of them, so this range is all of them. The order of texts is
that of their bytes, so nothing changes where keys are kept and compared as bytes.

The reset of a counter asks for any key that begins with one of several stems. It does not scan for
them, but it looks for the same keys, so a counter is written only where all the scans come to
nothing.

## Main definitions

* `Store.Ranges`: Lists of the keys that begin with a stem.
* `Store.Vacant`: Stores in which every scan for one of some stems comes to nothing.

## Theorems

* `prefix_of_between`: Texts with a common beginning stand together.
* `scanKeys_eq_keysUnder`: The scan finds every key that begins with the stem.
* `ranges_of_exec`: What a scan answers, and when a counter is written.
-/

namespace StoragePolicy

namespace Store

/-- No text that begins with a stem is smaller than it. -/
theorem not_lt_of_prefix (stem text : List Char) (h : stem <+: text) : ¬ text < stem := by
  induction stem generalizing text with
  | nil => exact List.not_lt_nil text
  | cons c rest ih =>
    rcases h with ⟨after, rfl⟩
    rw [List.cons_append, List.cons_lt_cons_iff]
    rintro (hlt | ⟨-, hlt⟩)
    · exact absurd hlt (Char.lt_irrefl c)
    · exact ih (rest ++ after) (List.prefix_append rest after) hlt

/-- A text between a stem and a text that begins with it begins with it, too. -/
theorem prefix_of_between (stem low high : List Char) (hlow : ¬ low < stem) (hlt : low < high)
    (hhigh : stem <+: high) : stem <+: low := by
  induction stem generalizing low high with
  | nil => exact List.nil_prefix
  | cons c rest ih =>
    rcases hhigh with ⟨after, rfl⟩
    cases low with
    | nil => exact absurd (List.nil_lt_cons c rest) hlow
    | cons d low =>
      rw [List.cons_lt_cons_iff, not_or] at hlow
      rw [List.cons_append, List.cons_lt_cons_iff] at hlt
      rcases hlt with hlt | ⟨rfl, hlt⟩
      · exact absurd hlt hlow.1
      · have hrest : ¬ low < rest := fun h => hlow.2 ⟨rfl, h⟩
        rw [List.cons_prefix_cons]
        exact ⟨rfl, ih low (rest ++ after) hrest hlt (List.prefix_append rest after)⟩

theorem takeWhile_eq_filter (stem : String) (keys : List String)
    (hsorted : keys.Pairwise fun a b => a < b) (hle : ∀ key ∈ keys, ¬ key < stem) :
    keys.takeWhile (fun key => stem.toList.isPrefixOf key.toList) =
      keys.filter fun key => stem.toList.isPrefixOf key.toList := by
  induction keys with
  | nil => rfl
  | cons key rest ih =>
    have hrest := ih hsorted.of_cons fun other hother => hle other (List.mem_cons_of_mem _ hother)
    rw [List.takeWhile_cons, List.filter_cons]
    by_cases hkey : stem.toList.isPrefixOf key.toList = true
    · simp only [hkey, if_true, hrest]
    · rw [if_neg hkey, Bool.eq_false_iff.mpr hkey]
      refine (List.filter_eq_nil_iff.mpr fun other hother hprefix => hkey ?_).symm
      rw [List.isPrefixOf_iff_prefix] at hprefix ⊢
      exact prefix_of_between _ _ _ (hle key List.mem_cons_self)
        (List.rel_of_pairwise_cons hsorted hother) hprefix

/-- The scan finds every key that begins with the stem. -/
theorem scanKeys_eq_keysUnder (s : Store) (stem : String) :
    s.scanKeys stem = s.keysUnder stem := by
  have hsorted : s.keys.Pairwise fun a b => a < b := List.pairwise_map.mpr s.ascending
  rw [scanKeys, keysUnder]
  generalize s.keys = keys at hsorted
  induction keys with
  | nil => rfl
  | cons key rest ih =>
    by_cases hlt : key < stem
    · have hkey : ¬ stem.toList.isPrefixOf key.toList = true := by
        rw [List.isPrefixOf_iff_prefix]
        exact fun hprefix => not_lt_of_prefix _ _ hprefix hlt
      rw [List.dropWhile_cons_of_pos (by simpa using hlt), List.filter_cons, if_neg hkey]
      exact ih hsorted.of_cons
    · rw [List.dropWhile_cons_of_neg (by simpa using hlt)]
      refine takeWhile_eq_filter stem _ hsorted fun other hother => ?_
      rcases List.mem_cons.mp hother with rfl | hother
      · exact hlt
      · exact fun h => hlt (String.lt_trans (List.rel_of_pairwise_cons hsorted hother) h)

/-- Lists of the keys that begin with a stem, told by the bytes of the keys. They ascend, so none
    of them stands there twice. -/
structure Ranges (s : Store) (stem : String) (keys : List String) : Prop where
  mem (key : String) : key ∈ keys ↔
    (s.get? key).isSome = true ∧ Text.bytesOf stem.toList <+: Text.bytesOf key.toList
  ascends : keys.Pairwise fun a b => Text.bytesOf a.toList < Text.bytesOf b.toList
  nodup : keys.Nodup

/-- Stores in which every scan for one of some stems comes to nothing. -/
def Vacant (s : Store) (stems : List String) : Prop :=
  ∀ stem ∈ stems, s.exec (.keys stem) = (.ok [], s)

theorem ranges_keysUnder (s : Store) (stem : String) : s.Ranges stem (s.keysUnder stem) where
  mem key := by
    rw [keysUnder, List.mem_filter, Dict.mem_keys_iff, List.isPrefixOf_iff_prefix,
      Text.bytesOf_prefix_iff]
  ascends := by
    have hsorted : s.keys.Pairwise fun a b => a < b := List.pairwise_map.mpr s.ascending
    exact (hsorted.filter _).imp fun hlt => (Text.bytesOf_lt_iff _ _).mpr hlt
  nodup := (Dict.nodup_keys s).filter _

theorem exec_keys (s : Store) (stem : String) :
    s.exec (.keys stem) = (.ok (s.keysUnder stem), s) := by
  rw [← scanKeys_eq_keysUnder]
  rfl

/-- The reset finds a key where a scan would. -/
theorem vacant_iff (s : Store) (stems : List String) :
    s.Vacant stems ↔
      (s.keys.any fun key => stems.any fun stem => stem.toList.isPrefixOf key.toList) = false := by
  have hscan : ∀ stem, s.exec (.keys stem) = (.ok [], s) ↔
      ∀ key ∈ s.keys, stem.toList.isPrefixOf key.toList = false := by
    intro stem
    rw [exec_keys]
    constructor
    · intro h key hkey
      have hnil : s.keysUnder stem = [] := Except.ok.inj (Prod.mk.inj h).1
      exact Bool.eq_false_iff.mpr (List.filter_eq_nil_iff.mp hnil key hkey)
    · intro h
      have hnil : s.keysUnder stem = [] :=
        List.filter_eq_nil_iff.mpr fun key hkey => by simp [h key hkey]
      rw [hnil]
  simp only [Vacant, hscan, List.any_eq_false, Bool.not_eq_true]
  exact ⟨fun h key hkey stem hstem => h stem hstem key hkey,
    fun h stem hstem key hkey => h key hkey stem hstem⟩

/-- A scan gives the keys that begin with its stem, each once, in the order of their bytes. A
    counter is set back exactly if there is one and the scans for all of the stems come to nothing;
    in every other case nothing is written. -/
theorem ranges_of_exec (s : Store) :
    (∀ stem, ∃ keys, s.exec (.keys stem) = (.ok keys, s) ∧ s.Ranges stem keys) ∧
      ∀ counter stems,
        ((s.exec (.resetIfVacant counter stems)).1 = .ok true ↔
          s.Vacant stems ∧ ∃ text, s.get? counter = some (.scalar text)) ∧
        ((s.exec (.resetIfVacant counter stems)).1 = .ok true →
          (s.exec (.resetIfVacant counter stems)).2 = s.insert counter (.scalar "0")) ∧
        ((s.exec (.resetIfVacant counter stems)).2 ≠ s → s.Vacant stems) := by
  refine ⟨fun stem => ⟨_, exec_keys s stem, ranges_keysUnder s stem⟩, fun counter stems => ?_⟩
  change ((s.resetIfVacant counter stems).1 = .ok true ↔ _) ∧
    ((s.resetIfVacant counter stems).1 = .ok true →
      (s.resetIfVacant counter stems).2 = s.insert counter (.scalar "0")) ∧
    ((s.resetIfVacant counter stems).2 ≠ s → s.Vacant stems)
  rw [resetIfVacant]
  by_cases hvacant : s.Vacant stems
  · rw [(vacant_iff s stems).mp hvacant, if_neg Bool.false_ne_true]
    cases hget : s.get? counter with
    | none => simp
    | some value => cases value <;> simp [hvacant]
  · -- Some key is in the way, and nothing is done.
    have hfound := hvacant
    rw [vacant_iff, Bool.not_eq_false] at hfound
    rw [if_pos hfound]
    simp [hvacant]

/-- Beside the keys with a common beginning stand a shorter one, and one with a smaller and one with
    a larger character at its end. -/
example : scanKeys (Dict.ofList [("policy", .scalar ""), ("policy/", .scalar ""),
      ("policy:", .scalar ""), ("policy:10", .scalar ""), ("policy:2", .scalar ""),
      ("policy;", .scalar "")]) "policy:" = ["policy:", "policy:10", "policy:2"] := by
  decide +kernel

end Store

end StoragePolicy
