import StoragePolicy.Proofs.Store.Atomic
import StoragePolicy.Proofs.Store.Keys
import StoragePolicy.Proofs.Store.Lists

/-!
# Keys that exist hold data

A store that has come to be by calls holds no hash without fields and no list without items. Nothing
is there that could be found by its key alone: the reset of the counter and the questions whether a
policy or an object type exists look at keys only, and mean the data under them.

The calls write in three ways. A text may be put anywhere. A hash or a list is put whole, and one
that has become empty is taken away in the same step. What a batch has written before it is refused
is put back from before the batch, where there was nothing empty either.

## Main definitions

* `StoreValue.HasData`: Texts, hashes with fields and lists with items.
* `Store.Laden`: Stores all of whose values have data.
* `Store.after`: What calls make of a store, one after the other.
* `Store.Finds`: Keys under which one of the three ways to read finds something.

## Theorems

* `laden_mutate`, `laden_exec`: What a change and a call keep.
* `laden_after`: What any calls keep.
* `contains_iff_finds`: Where all values have data, a key exists if something is found under it.
* `laden_of_run`: Stores that have come to be by calls.
-/

namespace StoragePolicy

/-- Values that have data: any text, a hash with fields, a list with items. -/
def StoreValue.HasData : StoreValue → Prop
  | .scalar _ => True
  | .hash fields => fields.isEmpty = false
  | .list items => items ≠ []

namespace Store

/-- Stores all of whose values have data. -/
def Laden (s : Store) : Prop := ∀ key value, s.get? key = some value → value.HasData

/-- What calls make of a store, one after the other, be they accepted or refused. -/
def after (s : Store) (calls : List Call) : Store := calls.foldl (fun s c => (s.exec c).2) s

/-- Keys under which one of the three ways to read finds something: a text, a hash with fields or a
    list with items. -/
def Finds (s : Store) (key : String) : Prop :=
  (∃ text, (s.exec (.get key)).1 = .ok (some text)) ∨
    (∃ fields : Dict String String, (s.exec (.getFields key)).1 = .ok fields ∧
      fields.isEmpty = false) ∨
    ∃ items : List String, (s.exec (.getItems key)).1 = .ok items ∧ items ≠ []

/-! ### The three ways to write -/

section Writing

variable (s : Store) (h : s.Laden)

include h

theorem laden_insert (key : String) (value : StoreValue) (hvalue : value.HasData) :
    Laden (s.insert key value) := by
  intro other stored hstored
  rw [Dict.get?_insert] at hstored
  by_cases ho : other = key
  · rw [if_pos ho, Option.some.injEq] at hstored
    exact hstored ▸ hvalue
  · rw [if_neg ho] at hstored
    exact h other stored hstored

theorem laden_erase (key : String) : Laden (s.erase key) := by
  intro other stored hstored
  rw [Dict.get?_erase] at hstored
  by_cases ho : other = key
  · simp [ho] at hstored
  · rw [if_neg ho] at hstored
    exact h other stored hstored

/-- A hash that has become empty is not put there at all. -/
theorem laden_putHash (key : String) (fields : Dict String String) :
    (s.putHash key fields).Laden := by
  rw [putHash]
  cases hempty : fields.isEmpty with
  | true => exact laden_erase s h key
  | false => exact laden_insert s h key _ hempty

theorem laden_putList (key : String) (items : List String) : (s.putList key items).Laden := by
  rw [putList]
  cases items with
  | nil => exact laden_erase s h key
  | cons item rest => exact laden_insert s h key _ (List.cons_ne_nil item rest)

theorem laden_mutate (t : Store) (m : Mutation) (hm : s.mutate m = .ok t) : t.Laden := by
  rcases mutate_cases s t m hm with rfl | rfl | ⟨text, rfl⟩ | ⟨fields, rfl⟩ | ⟨items, rfl⟩
  · exact h
  · exact laden_erase s h m.key
  · exact laden_insert s h m.key _ trivial
  · exact laden_putHash s h m.key fields
  · exact laden_putList s h m.key items

theorem laden_increment (t : Store) (key : String) (n : Nat)
    (hn : s.increment key = .ok (n, t)) : t.Laden := by
  rcases insert_of_increment s t key n hn with ⟨text, rfl⟩
  exact laden_insert s h key _ trivial

/-- Whatever is left of a batch in the end: all of it or nothing. -/
theorem laden_applyBatch (changes : List Mutation) : (s.applyBatch changes).2.Laden :=
  applyBatch_invariant Laden s changes (fun m _ t u hm ht => laden_mutate t ht u m hm) h

/-! ### Calls -/

/-- A call leaves no value without data behind where there was none. -/
theorem laden_exec (c : Call) : (s.exec c).2.Laden := by
  cases c with
  | get key => exact h
  | getField key name => exact h
  | getFields key => exact h
  | getItems key => exact h
  | contains key => exact h
  | keys stem => exact h
  | increment key =>
    simp only [exec]
    split
    · rename_i n t hn
      exact laden_increment s h t key n hn
    · exact h
  | incrementReserving counter reservations =>
    simp only [exec, incrementReserving]
    split
    · exact h
    split
    · exact h
    · rename_i n t hn
      have ht := laden_increment s h t counter n hn
      -- If the reservation is refused, the number has been counted all the same.
      split
      · exact ht
      · rename_i t' hset
        exact laden_mutate t ht t' _ hset
  | resetIfVacant counter stems =>
    simp only [exec, resetIfVacant]
    split
    · exact h
    split
    · exact h
    · exact laden_insert s h counter _ trivial
    · exact h
  | updateField key name value =>
    simp only [exec, updateField]
    split
    · exact h
    split
    · exact laden_putHash s h key _
    · exact h
  | apply changes => exact laden_applyBatch s h changes

/-- By induction on the calls, each of which begins where the one before has ended. -/
theorem laden_after (calls : List Call) : (s.after calls).Laden := by
  induction calls generalizing s with
  | nil => exact h
  | cons c rest ih => exact ih (s.exec c).2 (laden_exec s h c)

/-! ### Keys and what is found under them -/

/-- A key exists if something is found under it, in whichever way it has to be read. -/
theorem contains_iff_finds (key : String) : Dict.contains s key = true ↔ s.Finds key := by
  rw [Dict.contains_iff]
  constructor
  · rintro ⟨value, hget⟩
    have hdata := h key value hget
    cases value with
    | scalar text =>
      refine Or.inl ⟨text, ?_⟩
      change s.scalarAt key = _
      rw [scalarAt, hget]
      rfl
    | hash fields =>
      refine Or.inr (Or.inl ⟨fields, ?_, hdata⟩)
      change s.hashAt key = _
      rw [hashAt, hget]
      rfl
    | list items =>
      refine Or.inr (Or.inr ⟨items, ?_, hdata⟩)
      change s.listAt key = _
      rw [listAt, hget]
      rfl
  · intro hfinds
    cases hget : s.get? key with
    | some value => exact ⟨value, rfl⟩
    | none =>
      -- Without a value there is no text, and the hash and the list that are read are empty.
      rcases hfinds with ⟨text, htext⟩ | ⟨fields, hfields, hne⟩ | ⟨items, hitems, hne⟩
      · change s.scalarAt key = _ at htext
        rw [scalarAt, hget] at htext
        cases htext
      · change s.hashAt key = _ at hfields
        rw [hashAt, hget] at hfields
        cases hfields
        exact absurd hne.symm Bool.false_ne_true
      · change s.listAt key = _ at hitems
        rw [listAt, hget] at hitems
        cases hitems
        exact absurd rfl hne

theorem finds_of_mem_keysUnder (stem key : String) (hkey : key ∈ s.keysUnder stem) :
    s.Finds key := by
  rw [← contains_iff_finds s h, Dict.contains, ← Dict.mem_keys_iff]
  exact (List.mem_filter.mp hkey).1

end Writing

theorem laden_empty : Laden Dict.empty := fun _ _ hget => nomatch hget

/-- After any calls to a store that was empty, batches that are refused included, no key holds a
    hash without fields or a list without items. A key is told to exist if and only if something is
    found under it, and something is found under every key that a scan gives. -/
theorem laden_of_run (calls : List Call) :
    (∀ key, (after Dict.empty calls).get? key ≠ some (.hash Dict.empty) ∧
      (after Dict.empty calls).get? key ≠ some (.list [])) ∧
    (∀ key, ∃ told, ((after Dict.empty calls).exec (.contains key)).1 = .ok told ∧
      (told = true ↔ (after Dict.empty calls).Finds key)) ∧
    ∀ stem, ∃ keys : List String, ((after Dict.empty calls).exec (.keys stem)).1 = .ok keys ∧
      ∀ key ∈ keys, (after Dict.empty calls).Finds key := by
  have hladen := laden_after Dict.empty laden_empty calls
  generalize after Dict.empty calls = s at hladen
  refine ⟨fun key => ⟨fun hget => ?_, fun hget => ?_⟩,
    fun key => ⟨_, rfl, contains_iff_finds s hladen key⟩,
    fun stem => ⟨_, congrArg Prod.fst (exec_keys s stem), finds_of_mem_keysUnder s hladen stem⟩⟩
  · exact nomatch hladen key _ hget
  · exact absurd rfl (hladen key _ hget)

/-- Changes that empty a hash and a list, and a batch that makes a list and is then refused. -/
example : (after Dict.empty [.apply [.setField "h" "a" "1", .append "l" ["x"]],
      .apply [.deleteField "h" "a"], .apply [.removeItem "l" "x"], .apply [.append "l" []],
      .apply [.append "m" ["y"], .set "n" "7", .setField "n" "b" "2"]]).keys = [] := by
  decide +kernel

end Store

end StoragePolicy
