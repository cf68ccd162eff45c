/-!
# Ordered dictionaries

A dictionary maps keys to values. Its entries are kept in strictly ascending order of the keys, so
two dictionaries with the same content are the same value, and a scan from some key on is a scan
of a tail of the entries.

## Main definitions

* `SortKey`: A type of keys with a decidable strict order in which any two keys compare.
* `Dict`: The dictionary.
* `Dict.get?`, `Dict.insert`, `Dict.erase`, `Dict.alter`: Access by key.
* `Dict.keys`, `Dict.values`: The content in key order.

## Theorems

* `get?_insert`, `get?_erase`: What a change does to the view of a dictionary by key.
* `ext_get?`: A dictionary is determined by that view.
* `mem_entries_iff`: The entries are the pairs that `get?` answers with.
-/

namespace StoragePolicy

/-- A type of keys, strictly ordered, in which of two different keys one is the smaller. -/
class SortKey (κ : Type) extends LT κ where
  decLt : DecidableRel (fun a b : κ => a < b)
  decEq : DecidableEq κ
  irrefl : ∀ a : κ, ¬ a < a
  trans : ∀ {a b c : κ}, a < b → b < c → a < c
  connected : ∀ a b : κ, ¬ a < b → ¬ b < a → a = b

namespace SortKey

variable {κ : Type} [SortKey κ]

instance (a b : κ) : Decidable (a < b) := SortKey.decLt a b

instance : DecidableEq κ := SortKey.decEq

end SortKey

/-- Numbers in their usual order. -/
instance : SortKey Nat where
  decLt := fun _ _ => inferInstance
  decEq := inferInstance
  irrefl := Nat.lt_irrefl
  trans := Nat.lt_trans
  connected := fun _ _ h h' => Nat.le_antisymm (Nat.not_lt.mp h') (Nat.not_lt.mp h)

/-- Strings in the order of their code points, which is also that of their UTF-8 bytes. -/
instance : SortKey String where
  decLt := fun _ _ => inferInstance
  decEq := inferInstance
  irrefl := String.lt_irrefl
  trans := String.lt_trans
  connected := fun _ _ h h' => String.le_antisymm (String.not_lt.mp h') (String.not_lt.mp h)

/-- A dictionary: entries in strictly ascending order of their keys. -/
structure Dict (κ ν : Type) [SortKey κ] where
  entries : List (κ × ν)
  ascending : entries.Pairwise fun a b => a.1 < b.1

namespace Dict

variable {κ ν : Type} [SortKey κ]

/-- The entry of a key, in a list of ascending entries. -/
def find (key : κ) : List (κ × ν) → Option ν
  | [] => none
  | (k, v) :: rest => if key = k then some v else find key rest

/-- Puts an entry into its place in a list of ascending entries. -/
def place (key : κ) (value : ν) : List (κ × ν) → List (κ × ν)
  | [] => [(key, value)]
  | (k, v) :: rest =>
    if key < k then (key, value) :: (k, v) :: rest
    else if k < key then (k, v) :: place key value rest
    else (key, value) :: rest

/-- An entry after placing one is the new one or an old one. -/
theorem mem_place (key : κ) (value : ν) (entries : List (κ × ν)) (e : κ × ν)
    (h : e ∈ place key value entries) : e = (key, value) ∨ e ∈ entries := by
  induction entries with
  | nil => exact Or.inl (List.mem_singleton.mp h)
  | cons head rest ih =>
    rw [place] at h
    split at h
    · rcases List.mem_cons.mp h with h | h
      · exact Or.inl h
      · exact Or.inr h
    · split at h
      · rcases List.mem_cons.mp h with h | h
        · exact Or.inr (h ▸ List.mem_cons_self)
        · exact (ih h).imp id (List.mem_cons_of_mem _)
      · rcases List.mem_cons.mp h with h | h
        · exact Or.inl h
        · exact Or.inr (List.mem_cons_of_mem _ h)

/-- Placing an entry keeps ascending entries ascending. -/
theorem pairwise_place (key : κ) (value : ν) (entries : List (κ × ν))
    (h : entries.Pairwise fun a b => a.1 < b.1) :
    (place key value entries).Pairwise fun a b => a.1 < b.1 := by
  induction entries with
  | nil => exact List.pairwise_singleton _ _
  | cons head rest ih =>
    have hhead := (List.pairwise_cons.mp h).1
    have hrest := (List.pairwise_cons.mp h).2
    rw [place]
    split
    · rename_i hlt
      refine List.pairwise_cons.mpr ⟨fun e he => ?_, h⟩
      rcases List.mem_cons.mp he with he | he
      · exact he ▸ hlt
      · exact SortKey.trans hlt (hhead e he)
    · rename_i hle
      split
      · rename_i hlt
        refine List.pairwise_cons.mpr ⟨fun e he => ?_, ih hrest⟩
        rcases mem_place key value rest e he with he | he
        · exact he ▸ hlt
        · exact hhead e he
      · rename_i hge
        -- Neither key is the smaller, so the new entry replaces one of its own key.
        have hkey : key = head.1 := SortKey.connected key head.1 hle hge
        exact List.pairwise_cons.mpr ⟨fun e he => by simpa [hkey] using hhead e he, hrest⟩

/-- The dictionary without entries. -/
def empty : Dict κ ν := ⟨[], List.Pairwise.nil⟩

instance : Inhabited (Dict κ ν) := ⟨empty⟩

instance : EmptyCollection (Dict κ ν) := ⟨empty⟩

/-- The value of a key, if it has one. -/
def get? (d : Dict κ ν) (key : κ) : Option ν := find key d.entries

/-- Whether a key has a value. -/
def contains (d : Dict κ ν) (key : κ) : Bool := (d.get? key).isSome

/-- Gives a key a value, in place of the one it may have. -/
def insert (d : Dict κ ν) (key : κ) (value : ν) : Dict κ ν :=
  ⟨place key value d.entries, pairwise_place key value d.entries d.ascending⟩

/-- Takes away the value of a key. -/
def erase (d : Dict κ ν) (key : κ) : Dict κ ν :=
  ⟨d.entries.filter fun e => !decide (e.1 = key), d.ascending.filter _⟩

/-- Sets or takes away the value of a key. -/
def set (d : Dict κ ν) (key : κ) : Option ν → Dict κ ν
  | some value => d.insert key value
  | none => d.erase key

/-- Changes the value of a key that has one. -/
def adjust (d : Dict κ ν) (key : κ) (change : ν → ν) : Dict κ ν :=
  match d.get? key with
  | some value => d.insert key (change value)
  | none => d

/-- The keys, in ascending order. -/
def keys (d : Dict κ ν) : List κ := d.entries.map Prod.fst

/-- The values, in the order of their keys. -/
def values (d : Dict κ ν) : List ν := d.entries.map Prod.snd

/-- Whether there is no entry. -/
def isEmpty (d : Dict κ ν) : Bool := d.entries.isEmpty

/-- The number of entries. -/
def size (d : Dict κ ν) : Nat := d.entries.length

/-- The dictionary of a list of entries; of several with one key the last counts. -/
def ofList (entries : List (κ × ν)) : Dict κ ν :=
  entries.foldl (fun d e => d.insert e.1 e.2) empty

/-- What placing an entry does to the answers. -/
theorem find_place (key other : κ) (value : ν) (entries : List (κ × ν)) :
    find other (place key value entries) =
      if other = key then some value else find other entries := by
  induction entries with
  | nil => rfl
  | cons head rest ih =>
    rw [place]
    split
    · rfl
    · rename_i hle
      split
      · rename_i hlt
        rw [find, find, ih]
        by_cases h : other = head.1
        · -- The head's key is not the new one, since it is smaller.
          have hne : ¬ head.1 = key := fun hk => SortKey.irrefl key (by rwa [hk] at hlt)
          rw [if_pos h, if_neg (h ▸ hne), if_pos h]
        · simp [h]
      · rename_i hge
        have hkey : key = head.1 := SortKey.connected key head.1 hle hge
        rw [find, find, ← hkey]
        by_cases h : other = key <;> simp [h]

/-- What leaving out the entries of a key does to the answers. -/
theorem find_filter (key other : κ) (entries : List (κ × ν)) :
    find other (entries.filter fun e => !decide (e.1 = key)) =
      if other = key then none else find other entries := by
  induction entries with
  | nil => simp [find]
  | cons head rest ih =>
    by_cases h : head.1 = key
    · rw [List.filter_cons_of_neg (by simp [h]), ih, find]
      by_cases ho : other = key
      · simp [ho]
      · simp [ho, h]
    · rw [List.filter_cons_of_pos (by simp [h]), find, find, ih]
      by_cases ho : other = key
      · subst ho
        simp [Ne.symm h]
      · simp [ho]

@[simp] theorem get?_empty (key : κ) : (empty : Dict κ ν).get? key = none := rfl

/-- Giving a key a value changes the answer for this key alone. -/
@[simp] theorem get?_insert (d : Dict κ ν) (key other : κ) (value : ν) :
    (d.insert key value).get? other = if other = key then some value else d.get? other :=
  find_place key other value d.entries

/-- Taking away a key's value changes the answer for this key alone. -/
@[simp] theorem get?_erase (d : Dict κ ν) (key other : κ) :
    (d.erase key).get? other = if other = key then none else d.get? other :=
  find_filter key other d.entries

/-- Setting a key changes the answer for this key alone. -/
@[simp] theorem get?_set (d : Dict κ ν) (key other : κ) (value : Option ν) :
    (d.set key value).get? other = if other = key then value else d.get? other := by
  cases value <;> simp [set]

/-- A key that is found stands among the entries. -/
theorem mem_of_find (key : κ) (value : ν) (entries : List (κ × ν))
    (h : find key entries = some value) : (key, value) ∈ entries := by
  induction entries with
  | nil => simp [find] at h
  | cons head rest ih =>
    rw [find] at h
    split at h
    · rename_i hk
      simp only [Option.some.injEq] at h
      rw [hk, ← h]
      exact List.mem_cons_self
    · exact List.mem_cons_of_mem _ (ih h)

/-- An entry of ascending entries is found by its key. -/
theorem find_of_mem (entries : List (κ × ν)) (h : entries.Pairwise fun a b => a.1 < b.1)
    (e : κ × ν) (he : e ∈ entries) : find e.1 entries = some e.2 := by
  induction entries with
  | nil => exact absurd he List.not_mem_nil
  | cons head rest ih =>
    have hhead := (List.pairwise_cons.mp h).1
    rw [find]
    rcases List.mem_cons.mp he with he | he
    · simp [he]
    · -- A later entry has a larger key than the head.
      have hne : ¬ e.1 = head.1 := fun hk => SortKey.irrefl head.1 (by
        have := hhead e he
        rwa [hk] at this)
      rw [if_neg hne]
      exact ih (List.pairwise_cons.mp h).2 he

/-- The entries are the pairs that look-up answers with. -/
theorem mem_entries_iff (d : Dict κ ν) (key : κ) (value : ν) :
    (key, value) ∈ d.entries ↔ d.get? key = some value :=
  ⟨find_of_mem d.entries d.ascending (key, value), mem_of_find key value d.entries⟩

/-- Ascending entries are determined by their members. -/
theorem entries_eq_of_mem_iff (xs ys : List (κ × ν)) (hx : xs.Pairwise fun a b => a.1 < b.1)
    (hy : ys.Pairwise fun a b => a.1 < b.1) (h : ∀ e, e ∈ xs ↔ e ∈ ys) : xs = ys := by
  induction xs generalizing ys with
  | nil =>
    cases ys with
    | nil => rfl
    | cons y ys => exact absurd ((h y).mpr List.mem_cons_self) List.not_mem_nil
  | cons x xs ih =>
    cases ys with
    | nil => exact absurd ((h x).mp List.mem_cons_self) List.not_mem_nil
    | cons y ys =>
      have hx1 := (List.pairwise_cons.mp hx).1
      have hy1 := (List.pairwise_cons.mp hy).1
      -- Each head is the least entry of its list, and both lists have the same entries.
      have hxy : x = y := by
        rcases List.mem_cons.mp ((h x).mp List.mem_cons_self) with he | he
        · exact he
        · rcases List.mem_cons.mp ((h y).mpr List.mem_cons_self) with he' | he'
          · exact he'.symm
          · exact absurd (SortKey.trans (hx1 y he') (hy1 x he)) (SortKey.irrefl _)
      subst hxy
      have htail : xs = ys := by
        refine ih ys (List.pairwise_cons.mp hx).2 (List.pairwise_cons.mp hy).2 fun e => ?_
        constructor
        · intro he
          rcases List.mem_cons.mp ((h e).mp (List.mem_cons_of_mem _ he)) with he' | he'
          · exact absurd (he' ▸ hx1 e he) (SortKey.irrefl _)
          · exact he'
        · intro he
          rcases List.mem_cons.mp ((h e).mpr (List.mem_cons_of_mem _ he)) with he' | he'
          · exact absurd (he' ▸ hy1 e he) (SortKey.irrefl _)
          · exact he'
      rw [htail]

/-- A dictionary is determined by its answers. -/
theorem ext_get? (a b : Dict κ ν) (h : ∀ key, a.get? key = b.get? key) : a = b := by
  have he : a.entries = b.entries := by
    refine entries_eq_of_mem_iff a.entries b.entries a.ascending b.ascending fun e => ?_
    rw [show e = (e.1, e.2) from rfl, mem_entries_iff, mem_entries_iff, h]
  cases a
  cases b
  simp only [mk.injEq]
  exact he

end Dict

instance {κ ν : Type} [SortKey κ] [Repr κ] [Repr ν] : Repr (Dict κ ν) where
  reprPrec d n := reprPrec d.entries n

end StoragePolicy
