import StoragePolicy.Proofs.Store.Frame

/-!
# All of a call or nothing

A call that is refused has done nothing. For most calls this is plain, because they look at all they
need before they write. Two have written by the time they may be refused: a batch of changes, and
the call that counts and reserves.

A batch is undone by putting back what stood under the keys of its changes before the first of them.
Whatever was made, emptied, deleted and made anew on the way stood under one of these keys, and
nothing has changed under the others, so that the store is the old one wherever the batch stopped. A
number is reserved in a hash that was looked at before the counter was written. It is still that
hash if it does not stand under the key of the counter.

## Main definitions

* `Store.Call.Apart`: A counter is kept apart from the reservations of its numbers.

## Theorems

* `foldlM_mutate`: Changes made one after the other, up to the first that is refused.
* `restore_snapshot`: A batch that is refused is undone.
* `applyBatch_cases`, `applyBatch_eq_foldlM`: What a batch comes to.
* `exec_of_refused`: A call that is refused leaves the store as it was.
* `allOrNothing_of_exec`: What calls do to the store, be they accepted or refused.
-/

namespace StoragePolicy

namespace Store

/-! ### Batches -/

/-- Changes are made one after the other, up to the first that is refused. -/
theorem foldlM_mutate (s : Store) (changes : List Mutation) :
    changes.foldlM mutate s =
      match s.mutateAll changes with
      | (t, none) => .ok t
      | (_, some e) => .error e := by
  induction changes generalizing s with
  | nil => rfl
  | cons m rest ih =>
    rw [List.foldlM_cons, mutateAll]
    cases s.mutate m with
    | error e => rfl
    | ok t => exact ih t

/-- What stood under some keys is put back. -/
theorem get?_restore_saved (s t : Store) (saved : List (String × Option StoreValue))
    (hsaved : ∀ e ∈ saved, e.2 = s.get? e.1) (key : String) :
    (t.restore saved).get? key =
      if key ∈ saved.map Prod.fst then s.get? key else t.get? key := by
  induction saved generalizing t with
  | nil => rfl
  | cons e rest ih =>
    have hrest := ih (t.set e.1 e.2) fun e' he' => hsaved e' (List.mem_cons_of_mem e he')
    rw [restore, List.foldl_cons, ← restore, hrest, Dict.get?_set, List.map_cons]
    -- A key that is saved once more further on is written there last, with what it had.
    by_cases hmem : key ∈ rest.map Prod.fst
    · rw [if_pos hmem, if_pos (List.mem_cons_of_mem _ hmem)]
    · rw [if_neg hmem]
      by_cases hkey : key = e.1
      · rw [if_pos hkey, if_pos (by rw [hkey]; exact List.mem_cons_self),
          hsaved e List.mem_cons_self, hkey]
      · rw [if_neg hkey, if_neg (by simp [hkey, hmem])]

/-- Wherever a batch has stopped, the snapshot holds whatever it may have changed. -/
theorem get?_restore_snapshot (s t : Store) (changes : List Mutation) (e : StoreError)
    (h : s.mutateAll changes = (t, some e)) (key : String) :
    (t.restore (s.snapshot changes)).get? key = s.get? key := by
  rw [get?_restore_saved s t]
  · have hkeys : (s.snapshot changes).map Prod.fst = changes.map Mutation.key := by
      rw [snapshot, List.map_map]
      rfl
    rw [hkeys]
    split
    · rfl
    · -- No change is about a key that has not been saved.
      rename_i hkey
      have hall := get?_mutateAll s changes key fun m hm heq =>
        hkey (by rw [heq]; exact List.mem_map_of_mem hm)
      rw [h] at hall
      exact hall
  · intro entry hentry
    rcases List.mem_map.mp hentry with ⟨m, -, rfl⟩
    rfl

/-- A batch that is refused is undone. -/
theorem restore_snapshot (s t : Store) (changes : List Mutation) (e : StoreError)
    (h : s.mutateAll changes = (t, some e)) : t.restore (s.snapshot changes) = s :=
  Dict.ext_get? _ _ (get?_restore_snapshot s t changes e h)

/-- All the changes of a batch are made, or none of them. -/
theorem applyBatch_cases (s : Store) (changes : List Mutation) :
    (∃ t, s.mutateAll changes = (t, none) ∧ s.applyBatch changes = (.ok (), t)) ∨
      ∃ t e, s.mutateAll changes = (t, some e) ∧ s.applyBatch changes = (.error e, s) := by
  rw [applyBatch]
  rcases hall : s.mutateAll changes with ⟨t, _ | e⟩
  · exact Or.inl ⟨t, rfl, rfl⟩
  · exact Or.inr ⟨t, e, rfl, congrArg (Prod.mk (Except.error e))
      (restore_snapshot s t changes e hall)⟩

/-- What the changes of a batch keep, the batch keeps. -/
theorem applyBatch_invariant (P : Store → Prop) (s : Store) (changes : List Mutation)
    (hstep : ∀ m ∈ changes, ∀ t u : Store, t.mutate m = .ok u → P t → P u) (h : P s) :
    P (s.applyBatch changes).2 := by
  have hall := mutateAll_invariant P s changes hstep h
  rcases applyBatch_cases s changes with ⟨t, hm, hdone⟩ | ⟨t, e, -, hrefused⟩
  · rw [hm] at hall
    rw [hdone]
    exact hall
  · rw [hrefused]
    exact h

/-- A batch does what its changes do one after the other, or nothing. -/
theorem applyBatch_eq_foldlM (s : Store) (changes : List Mutation) :
    s.applyBatch changes =
      match changes.foldlM mutate s with
      | .ok t => (.ok (), t)
      | .error e => (.error e, s) := by
  rw [foldlM_mutate]
  rcases applyBatch_cases s changes with ⟨t, hall, hdone⟩ | ⟨t, e, hall, hrefused⟩
  · rw [hdone, hall]
  · rw [hrefused, hall]

/-! ### Numbers that are reserved -/

/-- A counter is kept apart from the reservations of its numbers. -/
def Call.Apart : Call → Prop
  | .incrementReserving counter reservations => counter ≠ reservations
  | _ => True

/-- A counter that has been written is not taken back, since the reservation is not refused. -/
theorem incrementReserving_of_refused (s : Store) (counter reservations : String)
    (hne : counter ≠ reservations) (e : StoreError)
    (h : (s.incrementReserving counter reservations).1 = .error e) :
    (s.incrementReserving counter reservations).2 = s := by
  rw [incrementReserving] at h ⊢
  cases hhash : s.hashAt reservations with
  | error e' => rfl
  | ok reserved =>
    rw [hhash] at h
    cases hcount : s.increment counter with
    | error e' => rfl
    | ok counted =>
      rcases counted with ⟨n, t⟩
      -- The hash that was looked at first is still there when the number is put into it.
      have hkept : t.hashAt reservations = .ok reserved := by
        rw [hashAt_congr t s _ (get?_increment s t counter reservations n hcount hne.symm), hhash]
      simp only [hcount, mutate_setField t _ _ _ reserved hkept] at h
      cases h

/-! ### Any call -/

/-- A call that is refused leaves the store as it was. -/
theorem exec_of_refused (s : Store) (c : Call) (hc : c.Apart) (e : StoreError)
    (h : (s.exec c).1 = .error e) : (s.exec c).2 = s := by
  cases c with
  | get key => rfl
  | getField key name => rfl
  | getFields key => rfl
  | getItems key => rfl
  | contains key => rfl
  | keys stem => rfl
  | increment key =>
    simp only [exec] at h ⊢
    split at h
    · cases h
    · rfl
  | incrementReserving counter reservations =>
    exact incrementReserving_of_refused s counter reservations hc e h
  | resetIfVacant counter stems =>
    simp only [exec, resetIfVacant] at h ⊢
    split
    · rfl
    · rename_i hvacant
      rw [if_neg hvacant] at h
      cases hget : s.get? counter with
      | none => rfl
      | some value =>
        rw [hget] at h
        -- Only a text is written over, and that is not refused.
        cases value with
        | scalar text => cases h
        | hash fields => rfl
        | list items => rfl
  | updateField key name value =>
    simp only [exec, updateField] at h ⊢
    cases hhash : s.hashAt key with
    | error e' => rfl
    | ok fields =>
      rw [hhash] at h
      dsimp only at h ⊢
      split at h
      · cases h
      · cases h
  | apply changes =>
    rw [exec] at h ⊢
    rcases applyBatch_cases s changes with ⟨t, -, hdone⟩ | ⟨t, e', -, hrefused⟩
    · rw [hdone] at h
      cases h
    · rw [hrefused]

/-- Whatever a store holds, a call that is refused leaves it as it was, if it does not reserve
    numbers under the key at which they are counted. Several changes that are accepted together
    come to what they come to one after the other. -/
theorem allOrNothing_of_exec (s : Store) :
    (∀ c : Call, c.Apart → ∀ e, (s.exec c).1 = .error e → (s.exec c).2 = s) ∧
      ∀ changes, s.exec (.apply changes) =
        match changes.foldlM mutate s with
        | .ok t => (.ok (), t)
        | .error e => (.error e, s) :=
  ⟨fun c hc e h => exec_of_refused s c hc e h, applyBatch_eq_foldlM s⟩

/-- A hash and a list. -/
def hashAndList : Store :=
  Dict.ofList [("h", .hash (Dict.ofList [("a", "1")])), ("l", .list ["x"])]

/-- Changes that empty a hash, make a list and then a hash of it and in the end a text, to which a
    field cannot be given. -/
def restless : List Mutation :=
  [.deleteField "h" "a", .append "h" ["x", "y"], .removeItem "h" "x", .removeItem "h" "y",
    .delete "l", .setField "h" "b" "2", .set "n" "7", .delete "h", .set "h" "text",
    .setField "h" "c" "3", .set "l" "text"]

theorem allOrNothing_of_exec_restless : Call.Apart (.apply restless) ∧
    (hashAndList.exec (.apply restless)).1 = .error (.wrongType "h") ∧
    (hashAndList.exec (.apply restless)).2 = hashAndList ∧
    hashAndList.exec (.apply (restless.take 9)) = (.ok (),
      Dict.ofList [("h", .scalar "text"), ("n", .scalar "7")]) ∧
    Call.Apart (.incrementReserving "l" "h") ∧
    (hashAndList.exec (.incrementReserving "l" "h")).2 = hashAndList := by
  have hall := allOrNothing_of_exec hashAndList
  have hrefused : (hashAndList.exec (.apply restless)).1 = .error (.wrongType "h") := rfl
  have hapart : Call.Apart (.incrementReserving "l" "h") := by
    rw [Call.Apart]
    decide
  exact ⟨trivial, hrefused, hall.1 _ trivial _ hrefused, hall.2 _, hapart,
    hall.1 _ hapart (.wrongType "l") rfl⟩

/-- Where numbers are counted and reserved under one key, a call that is refused has counted. -/
example : exec Dict.empty (.incrementReserving "n" "n") =
    (.error (.wrongType "n"), Dict.ofList [("n", .scalar "1")]) := rfl

end Store

end StoragePolicy
