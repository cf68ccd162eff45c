import StoragePolicy.Registry.Catalog
import StoragePolicy.Proofs.Registry.Scan

/-!
# The kinds of the keys

The registry keeps everything in one store, under keys that it puts together from a stem and a text
given by its caller. What is found under a key is of the kind that belongs to its stem, and since no
key begins with two of the stems a change that is right for one key is never wrong for another.

The counter needs more than that it is a text: it has to be a number that a counter can stand at.
Counting on gives such a number again, whatever it stands at, since numbers are kept modulo 2^64.

A call of the right kind is never refused. So what a program may call depends only on the keys, and
that a key which was found by its stem belongs to that stem is all that has to be known of a reply.

## Main definitions

* `Registry.Kind`, `Registry.Kind.Admits`: The kinds of keys, and what each may hold.
* `Registry.Keeps`: The keys of the registry with their kinds.
* `Store.Kinded`: Every key holds what its kind admits.
* `Mutation.Suits`, `Store.Call.Suits`: Changes and calls that go by the kinds.
* `Store.Call.Told`: What is known of an answer.

## Theorems

* `kindOf_of_keeps`: A key has one kind.
* `mutate_kinded`: A change that goes by the kinds is made, and keeps them.
* `exec_kinded`: A call that goes by the kinds is answered, and keeps them.
-/

namespace StoragePolicy

namespace Registry

/-- The kinds of what the keys of the registry hold. -/
inductive Kind where
  | counter
  | hash
  | list
  | scalar

/-- The values that a key of a kind may hold. A counter is a number of 64 bits, written in decimal
    digits. -/
def Kind.Admits : Kind → StoreValue → Prop
  | .counter, .scalar text => ∃ n ≤ Number.maxWord, text = Number.writeNatural n
  | .hash, .hash _ => True
  | .list, .list _ => True
  | .scalar, .scalar _ => True
  | _, _ => False

/-- The keys of the registry with their kinds. Whatever text stands behind a stem belongs to it. -/
inductive Keeps : Kind → String → Prop where
  | counter : Keeps .counter counterKey
  | reservations : Keeps .hash reservationKey
  | pipeline (targetId : String) : Keeps .hash (pipelineKey targetId)
  | record (name : String) : Keeps .hash (PolicyRecord.keyStem ++ name)
  | filter (name : String) : Keeps .hash (filterKey name)
  | objectType (name : String) : Keeps .list (objectTypeKey name)
  | objective (name : String) : Keeps .scalar (Slo.keyStem ++ name)

/-- The kind of a key, told from how it begins. -/
def kindOf (key : String) : Kind :=
  if key = counterKey then .counter
  else
    match key.toList.head? with
    | some 'o' => .list
    | some 'S' => .scalar
    | _ => .hash

/-- A key has one kind. -/
theorem kindOf_of_keeps (kind : Kind) (key : String) (h : Keeps kind key) : kindOf key = kind := by
  unfold kindOf
  -- The counter is one whole key, and the stems of lists and of texts begin like no other.
  cases h with
  | counter => exact if_pos rfl
  | reservations => rw [if_neg counterKey_ne_reservationKey.symm]; rfl
  | pipeline targetId =>
    rw [if_neg (pipelineKey_ne_counterKey targetId)]
    simp [pipelineKey, pipelineStem]
  | record name =>
    rw [if_neg (recordKey_ne_counterKey name)]
    simp [PolicyRecord.keyStem]
  | filter name =>
    have hne : filterKey name ≠ counterKey := by
      intro h
      have hchars := congrArg String.toList h
      simp [filterKey, counterKey] at hchars
    rw [if_neg hne]
    simp [filterKey]
  | objectType name =>
    have hne : objectTypeKey name ≠ counterKey := by
      intro h
      have hchars := congrArg String.toList h
      simp [objectTypeKey, objectTypeStem, counterKey] at hchars
    rw [if_neg hne]
    simp [objectTypeKey, objectTypeStem]
  | objective name =>
    have hne : Slo.keyStem ++ name ≠ counterKey := by
      intro h
      have hchars := congrArg String.toList h
      simp [Slo.keyStem, counterKey] at hchars
    rw [if_neg hne]
    simp [Slo.keyStem]

end Registry

open Registry

/-! ### What goes by the kinds -/

/-- Changes that go by the kinds of the keys. Any key may be deleted. -/
def Mutation.Suits : Mutation → Prop
  | .set key _ => Keeps .scalar key
  | .delete _ => True
  | .setField key _ _ | .deleteField key _ => Keeps .hash key
  | .append key _ | .removeItem key _ => Keeps .list key

namespace Store

/-- Calls that go by the kinds of the keys. -/
def Call.Suits : Call → Prop
  | .get key => Keeps .scalar key
  | .increment key => Keeps .counter key
  | .incrementReserving counter reservations =>
    Keeps .counter counter ∧ Keeps .hash reservations
  | .resetIfVacant counter _ => Keeps .counter counter
  | .updateField key _ _ | .getField key _ | .getFields key => Keeps .hash key
  | .getItems key => Keeps .list key
  | .contains _ | .keys _ => True
  | .apply changes => ∀ m ∈ changes, m.Suits

/-- What is known of the answer to a call: keys that are found by a stem begin with it. -/
def Call.Told : (c : Call) → c.Answer → Prop
  | .keys stem, (found : List String) => ∀ key ∈ found, ∃ rest, key = stem ++ rest
  | _, _ => True

/-- Every key of the registry holds what its kind admits. -/
def Kinded (s : Store) : Prop :=
  ∀ kind key value, Keeps kind key → s.get? key = some value → kind.Admits value

theorem kinded_empty : Kinded Dict.empty := by
  intro kind key value _ hget
  rw [Dict.get?_empty] at hget
  exact nomatch hget

section Kinded

variable {s : Store} (hs : s.Kinded)

include hs

/-! ### What is found -/

theorem Kinded.hashAt {key : String} (hkey : Keeps .hash key) :
    ∃ fields, s.hashAt key = .ok fields := by
  unfold Store.hashAt
  cases hget : s.get? key with
  | none => exact ⟨_, rfl⟩
  | some value =>
    have hvalue := hs _ _ _ hkey hget
    cases value with
    | scalar text => exact hvalue.elim
    | hash fields => exact ⟨fields, rfl⟩
    | list items => exact hvalue.elim

theorem Kinded.listAt {key : String} (hkey : Keeps .list key) :
    ∃ items, s.listAt key = .ok items := by
  unfold Store.listAt
  cases hget : s.get? key with
  | none => exact ⟨_, rfl⟩
  | some value =>
    have hvalue := hs _ _ _ hkey hget
    cases value with
    | scalar text => exact hvalue.elim
    | hash fields => exact hvalue.elim
    | list items => exact ⟨items, rfl⟩

theorem Kinded.scalarAt {key : String} (hkey : Keeps .scalar key) :
    ∃ stored, s.scalarAt key = .ok stored := by
  unfold Store.scalarAt
  cases hget : s.get? key with
  | none => exact ⟨_, rfl⟩
  | some value =>
    have hvalue := hs _ _ _ hkey hget
    cases value with
    | scalar text => exact ⟨some text, rfl⟩
    | hash fields => exact hvalue.elim
    | list items => exact hvalue.elim

/-- A counter stands at some number. -/
theorem Kinded.counts {key : String} (hkey : Keeps .counter key) : ∃ n, s.Counts key n := by
  cases hget : s.get? key with
  | none => exact ⟨0, Nat.zero_le _, Or.inr ⟨hget, rfl⟩⟩
  | some value =>
    have hvalue := hs _ _ _ hkey hget
    cases value with
    | scalar text =>
      rcases hvalue with ⟨n, hn, rfl⟩
      exact ⟨n, hn, Or.inl hget⟩
    | hash fields => exact hvalue.elim
    | list items => exact hvalue.elim

/-! ### What is put there -/

/-- A change of one key keeps the kinds if what is put there is of its kind. -/
theorem Kinded.insert {kind : Kind} {key : String} {value : StoreValue} (hkey : Keeps kind key)
    (hvalue : kind.Admits value) : Kinded (Dict.insert s key value) := by
  intro other otherKey found hother hget
  rw [Dict.get?_insert] at hget
  by_cases hsame : otherKey = key
  · rw [if_pos hsame, Option.some.injEq] at hget
    -- The kind that is asked for is the kind of the key that has been changed.
    have hkind : other = kind := by
      rw [← kindOf_of_keeps other otherKey hother, hsame, kindOf_of_keeps kind key hkey]
    rw [hkind, ← hget]
    exact hvalue
  · rw [if_neg hsame] at hget
    exact hs other otherKey found hother hget

theorem Kinded.erase (key : String) : Kinded (Dict.erase s key) := by
  intro other otherKey found hother hget
  rw [Dict.get?_erase] at hget
  by_cases hsame : otherKey = key
  · rw [if_pos hsame] at hget
    exact nomatch hget
  · rw [if_neg hsame] at hget
    exact hs other otherKey found hother hget

theorem Kinded.putHash {key : String} (fields : Dict String String) (hkey : Keeps .hash key) :
    (s.putHash key fields).Kinded := by
  unfold Store.putHash
  split
  · exact hs.erase key
  · exact hs.insert hkey trivial

theorem Kinded.putList {key : String} (items : List String) (hkey : Keeps .list key) :
    (s.putList key items).Kinded := by
  unfold Store.putList
  split
  · exact hs.erase key
  · exact hs.insert hkey trivial

/-! ### Changes -/

/-- A change that goes by the kinds is made, and keeps them. -/
theorem mutate_kinded (m : Mutation) (hm : m.Suits) :
    ∃ t, s.mutate m = .ok t ∧ t.Kinded := by
  cases m with
  | set key value => exact ⟨_, rfl, hs.insert hm trivial⟩
  | delete key => exact ⟨_, rfl, hs.erase key⟩
  | setField key name value =>
    rcases hs.hashAt hm with ⟨fields, hfields⟩
    exact ⟨_, mutate_setField s key name value fields hfields, hs.putHash _ hm⟩
  | deleteField key name =>
    rcases hs.hashAt hm with ⟨fields, hfields⟩
    exact ⟨_, mutate_deleteField s key name fields hfields, hs.putHash _ hm⟩
  | append key values =>
    rcases hs.listAt hm with ⟨items, hitems⟩
    by_cases hempty : values.isEmpty = true
    · exact ⟨s, by rw [mutate, if_pos hempty]; rfl, hs⟩
    · exact ⟨_, by rw [mutate, if_neg hempty, hitems]; rfl, hs.putList _ hm⟩
  | removeItem key value =>
    rcases hs.listAt hm with ⟨items, hitems⟩
    exact ⟨_, by rw [mutate, hitems]; rfl, hs.putList _ hm⟩

omit hs in
theorem mutateAll_kinded (changes : List Mutation) (hs : s.Kinded) (h : ∀ m ∈ changes, m.Suits) :
    ∃ t, s.mutateAll changes = (t, none) ∧ t.Kinded := by
  induction changes generalizing s with
  | nil => exact ⟨s, rfl, hs⟩
  | cons m rest ih =>
    rcases mutate_kinded hs m (h m List.mem_cons_self) with ⟨t, hm, ht⟩
    rw [mutateAll_cons_ok _ _ _ _ hm]
    exact ih ht fun other hother => h other (List.mem_cons_of_mem m hother)

/-- A counter counts on, whatever it stands at: behind the greatest number of 64 bits comes zero. -/
theorem increment_kinded {key : String} (hkey : Keeps .counter key) :
    ∃ n t, s.increment key = .ok (n, t) ∧ t.Kinded := by
  rcases hs.counts hkey with ⟨n, hle, hstands⟩
  have hbound : (n + 1) % (Number.maxWord + 1) ≤ Number.maxWord :=
    Nat.le_of_lt_succ (Nat.mod_lt _ (Nat.succ_pos _))
  have hnext : Kind.Admits .counter
      (.scalar (Number.writeNatural ((n + 1) % (Number.maxWord + 1)))) := ⟨_, hbound, rfl⟩
  refine ⟨(n + 1) % (Number.maxWord + 1), _, ?_, hs.insert hkey hnext⟩
  unfold increment
  rcases hstands with hget | ⟨hget, rfl⟩
  · simp only [scalarAt, hget, bind, Except.bind, pure, Except.pure,
      Number.readNatural_writeNatural n hle]
  · simp only [scalarAt, hget, bind, Except.bind, pure, Except.pure]

/-! ### Calls -/

/-- Taking an id is both: the counter counts on, and a field of the reservations is set. -/
theorem incrementReserving_kinded {counter reservations : String}
    (hcounter : Keeps .counter counter) (hreservations : Keeps .hash reservations) :
    ∃ n t, s.incrementReserving counter reservations = (.ok n, t) ∧ t.Kinded := by
  rcases hs.hashAt hreservations with ⟨fields, hfields⟩
  rcases increment_kinded hs hcounter with ⟨n, t, hcount, ht⟩
  rcases mutate_kinded ht (.setField reservations (Number.writeNatural n) "") hreservations with
    ⟨u, hset, hu⟩
  refine ⟨n, u, ?_, hu⟩
  rw [incrementReserving, hfields]
  dsimp only
  rw [hcount]
  dsimp only
  rw [hset]

theorem resetIfVacant_kinded {counter : String} (hcounter : Keeps .counter counter)
    (stems : List String) : ∃ b t, s.resetIfVacant counter stems = (.ok b, t) ∧ t.Kinded := by
  unfold resetIfVacant
  split
  · exact ⟨false, s, rfl, hs⟩
  · rcases hs.counts hcounter with ⟨n, -, hget | ⟨hget, -⟩⟩
    · have hzero : Kind.Admits .counter (.scalar "0") := ⟨0, Nat.zero_le _, rfl⟩
      rw [hget]
      exact ⟨true, _, rfl, hs.insert hcounter hzero⟩
    · rw [hget]
      exact ⟨false, s, rfl, hs⟩

theorem updateField_kinded {key : String} (hkey : Keeps .hash key) (name value : String) :
    ∃ b t, s.updateField key name value = (.ok b, t) ∧ t.Kinded := by
  rcases hs.hashAt hkey with ⟨fields, hfields⟩
  unfold updateField
  rw [hfields]
  dsimp only
  split
  · exact ⟨true, _, rfl, hs.putHash _ hkey⟩
  · exact ⟨false, s, rfl, hs⟩

/-- A call that goes by the kinds is answered, and keeps them. -/
theorem exec_kinded (c : Call) (hc : c.Suits) :
    ∃ answer t, s.exec c = (.ok answer, t) ∧ c.Told answer ∧ t.Kinded := by
  -- Each call needs values of a kind, and the keys that it suits hold them.
  cases c with
  | get key =>
    rcases hs.scalarAt hc with ⟨stored, hstored⟩
    exact ⟨stored, s, by rw [exec, hstored]; rfl, trivial, hs⟩
  | increment key =>
    rcases increment_kinded hs hc with ⟨n, t, hcount, ht⟩
    exact ⟨n, t, by rw [exec, hcount], trivial, ht⟩
  | incrementReserving counter reservations =>
    rcases incrementReserving_kinded hs hc.1 hc.2 with ⟨n, t, htake, ht⟩
    exact ⟨n, t, htake, trivial, ht⟩
  | resetIfVacant counter stems =>
    rcases resetIfVacant_kinded hs hc stems with ⟨b, t, hreset, ht⟩
    exact ⟨b, t, hreset, trivial, ht⟩
  | updateField key name value =>
    rcases updateField_kinded hs hc name value with ⟨b, t, hupdate, ht⟩
    exact ⟨b, t, hupdate, trivial, ht⟩
  | getField key name =>
    rcases hs.hashAt hc with ⟨fields, hfields⟩
    exact ⟨fields.get? name, s, by rw [exec, hfields]; rfl, trivial, hs⟩
  | getFields key =>
    rcases hs.hashAt hc with ⟨fields, hfields⟩
    exact ⟨fields, s, by rw [exec, hfields]; rfl, trivial, hs⟩
  | getItems key =>
    rcases hs.listAt hc with ⟨items, hitems⟩
    exact ⟨items, s, by rw [exec, hitems]; rfl, trivial, hs⟩
  | contains key => exact ⟨Dict.contains s key, s, rfl, trivial, hs⟩
  | keys stem =>
    refine ⟨s.scanKeys stem, s, rfl, ?_, hs⟩
    intro key hkey
    rw [scanKeys_eq_keysUnder, mem_keysUnder_iff] at hkey
    exact hkey.imp fun rest h => h.1
  | apply changes =>
    rcases mutateAll_kinded changes hs hc with ⟨t, hall, ht⟩
    exact ⟨(), t, applyBatch_of_mutateAll s t changes hall, trivial, ht⟩

end Kinded

end Store

end StoragePolicy
