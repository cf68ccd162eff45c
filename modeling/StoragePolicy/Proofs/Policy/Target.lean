import StoragePolicy.Proofs.Text.Pieces
import StoragePolicy.Target

/-!
# Targets and their stored form

A target is stored as its id and its name, and each is cut at its first slash when the target is
rebuilt. The container may hold any characters, since nothing behind the first slash is looked at
again. A tenant with a slash in its id or its name loses what stands behind it. So the targets that
are rebuilt are those whose tenants have no slash in either text, and of such targets the id tells
the tenant and the container.

## Main definitions

* `Target.Slashless`: Texts without a slash.

## Theorems

* `splitSlash_eq_some_iff`: Which texts are cut, and where.
* `ofStored_id_name`: The target of a record is rebuilt from its id and name.
* `rebuilt_iff_slashless`: No other target is, and ids of such targets do not coincide.
-/

namespace StoragePolicy

namespace Target

/-- Texts without a slash, with which the containers are told apart from the tenants. -/
def Slashless (text : String) : Prop := '/' ∉ text.toList

instance (text : String) : Decidable (Slashless text) := inferInstanceAs (Decidable (¬ _))

theorem splitSlash_of_slashless (tenant : String) (container : Option String)
    (h : Slashless tenant) : splitSlash (withContainer tenant container) = (tenant, container) := by
  have hslash : ∀ c ∈ tenant.toList, decide (c = '/') = false := by
    intro c hc
    rw [decide_eq_false_iff_not]
    rintro rfl
    exact h hc
  cases container with
  | none =>
    have hnone := (Text.cutFirst_eq_none_iff (· = '/') tenant.toList).mpr hslash
    rw [splitSlash, withContainer, hnone]
  | some container =>
    have htext : (withContainer tenant (some container)).toList =
        tenant.toList ++ '/' :: container.toList := by
      simp [withContainer]
    rw [splitSlash, htext, Text.cutFirst_append (· = '/') _ _ '/' hslash rfl]
    simp

/-- What stands before the first slash has none. -/
theorem slashless_splitSlash (text : String) : Slashless (splitSlash text).1 := by
  have htake : (splitSlash text).1.toList = text.toList.takeWhile fun c => !decide (c = '/') := by
    rw [← Text.cutFirst_eq_takeWhile, splitSlash]
    cases Text.cutFirst (· = '/') text.toList with
    | none => rfl
    | some sides => exact String.toList_ofList
  intro hmem
  rw [htake] at hmem
  simpa using List.all_eq_true.mp List.all_takeWhile '/' hmem

/-- A text is cut at its first slash, and nothing of it is lost. -/
theorem splitSlash_eq_some_iff (text tenant container : String) :
    splitSlash text = (tenant, some container) ↔
      Slashless tenant ∧ text = withContainer tenant (some container) := by
  constructor
  · intro h
    refine ⟨?_, ?_⟩
    · have hslashless := slashless_splitSlash text
      rwa [h] at hslashless
    · rw [splitSlash] at h
      cases hcut : Text.cutFirst (· = '/') text.toList with
      | none =>
        rw [hcut] at h
        exact nomatch h
      | some sides =>
        rw [hcut] at h
        cases h
        rcases Text.eq_append_of_cutFirst _ _ _ _ hcut with ⟨separator, hseparator, htext⟩
        rw [decide_eq_true_eq] at hseparator
        rw [← String.toList_inj, htext, hseparator]
        simp [withContainer]
  · rintro ⟨hslashless, rfl⟩
    exact splitSlash_of_slashless tenant (some container) hslashless

/-- A target whose tenant has no slash in its id and name is rebuilt from its own id and name. -/
theorem ofStored_id_name (t : Target) (hid : Slashless t.tenantId)
    (hname : Slashless t.tenantName) : ofStored t.id t.name = t := by
  rw [ofStored, id, name, splitSlash_of_slashless _ _ hid, splitSlash_of_slashless _ _ hname]

/-- No tenant of a target that has been rebuilt has a slash in its id or name. -/
theorem slashless_ofStored (targetId targetName : String) :
    Slashless (ofStored targetId targetName).tenantId ∧
      Slashless (ofStored targetId targetName).tenantName :=
  ⟨slashless_splitSlash targetId, slashless_splitSlash targetName⟩

/-- Tenants without a slash in their ids, and their containers, are told apart by the ids of the
    targets. -/
theorem id_eq_iff (t u : Target) (ht : Slashless t.tenantId) (hu : Slashless u.tenantId) :
    t.id = u.id ↔ t.tenantId = u.tenantId ∧ t.container = u.container := by
  constructor
  · intro h
    have hsplit := congrArg splitSlash h
    rw [id, id, splitSlash_of_slashless _ _ ht, splitSlash_of_slashless _ _ hu] at hsplit
    exact Prod.mk.inj hsplit
  · rintro ⟨hid, hcontainer⟩
    rw [id, id, hid, hcontainer]

/-- A target is rebuilt from its id and name exactly if its tenant has no slash in either, whatever
    its container is. Two such targets have one id only if they are one container of one tenant. -/
theorem rebuilt_iff_slashless (t : Target) :
    (ofStored t.id t.name = t ↔ Slashless t.tenantId ∧ Slashless t.tenantName) ∧
      ∀ u : Target, Slashless t.tenantId → Slashless u.tenantId →
        (t.id = u.id ↔ t.tenantId = u.tenantId ∧ t.container = u.container) := by
  refine ⟨⟨fun h => ?_, fun h => ofStored_id_name t h.1 h.2⟩, fun u => id_eq_iff t u⟩
  have hslashless := slashless_ofStored t.id t.name
  rwa [h] at hslashless

/-- The container of a target may be made of slashes, and may be empty. -/
theorem rebuilt_iff_slashless_odd_containers :
    let folder : Target := { tenantId := "t1", tenantName := "alice", container := some "/a//b/" }
    let nameless : Target := { tenantId := "t1", tenantName := "alice", container := some "" }
    ofStored folder.id folder.name = folder ∧ Slashless folder.tenantId ∧
      Slashless nameless.tenantId ∧ folder.id ≠ nameless.id := by
  intro folder nameless
  have hfolder : Slashless folder.tenantId ∧ Slashless folder.tenantName := by decide
  have hnameless : Slashless nameless.tenantId := by decide
  have hall := rebuilt_iff_slashless folder
  refine ⟨hall.1.mpr hfolder, hfolder.1, hnameless, fun h => ?_⟩
  exact absurd ((hall.2 nameless hfolder.1 hnameless).mp h).2 (by decide)

/-- With a slash in the id of a tenant two targets may have one id. -/
example : ({ tenantId := "t1/a", tenantName := "alice" } : Target).id =
    ({ tenantId := "t1", tenantName := "bob", container := some "a" } : Target).id := rfl

end Target

end StoragePolicy
