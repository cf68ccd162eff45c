import StoragePolicy.Proofs.Text.Utf8

/-!
# The order of bytes

Texts are ordered by their characters here, and by their bytes where they are kept. The two orders
are one. A character with a higher number is written in no fewer bytes, and of two characters that
are written in equally many the bytes differ first where the numbers do, read in groups of six bits
from the highest on. That one text begins with another is likewise the same for both, since a text
is read from its bytes whatever follows.

## Theorems

* `utf8EncodeChar_lt`: The order of single characters, whatever follows them.
* `bytesOf_lt_iff`: The order of texts.
* `bytesOf_prefix_iff`: Texts that begin with another.
-/

namespace StoragePolicy

namespace Text

/-- Bytes are compared at the first place at which they differ. -/
theorem cons_lt_cons (m n : Nat) (bytes more : List UInt8) (hn : n < 256) (hle : m ≤ n)
    (hrest : m = n → bytes < more) : UInt8.ofNat m :: bytes < UInt8.ofNat n :: more := by
  rw [List.cons_lt_cons_iff]
  by_cases heq : m = n
  · exact Or.inr ⟨congrArg UInt8.ofNat heq, hrest heq⟩
  · refine Or.inl ?_
    rw [UInt8.lt_iff_toNat_lt, toNat_ofNat_lt m (by omega), toNat_ofNat_lt n hn]
    omega

/-- A lower character stands before a higher one by the bytes of both, whatever follows. -/
theorem utf8EncodeChar_lt (c d : Char) (h : c < d) (bytes more : List UInt8) :
    String.utf8EncodeChar c ++ bytes < String.utf8EncodeChar d ++ more := by
  have hlt : c.val.toNat < d.val.toNat := UInt32.lt_iff_toNat_lt.mp h
  have hbound : d.val.toNat < 0x110000 := by
    rcases d.valid with hd | ⟨-, hd⟩
    · exact Nat.lt_trans hd (by decide)
    · exact hd
  rw [String.utf8EncodeChar, String.utf8EncodeChar]
  generalize c.val.toNat = v at hlt
  generalize d.val.toNat = w at hlt hbound
  -- The higher character takes at least as many bytes, and if it takes more its first byte is the
  -- greater one.
  by_cases hone : w ≤ 0x7F
  · rw [if_pos hone, if_pos (by omega : v ≤ 0x7F)]
    exact cons_lt_cons _ _ _ _ (by omega) (by omega) (by omega)
  by_cases htwo : w ≤ 0x7FF
  · rw [if_neg hone, if_pos htwo]
    split
    · exact cons_lt_cons _ _ _ _ (by omega) (by omega) (by omega)
    · rw [if_pos (by omega : v ≤ 0x7FF)]
      refine cons_lt_cons _ _ _ _ (by omega) (by omega) fun hfirst => ?_
      exact cons_lt_cons _ _ _ _ (by omega) (by omega) (by omega)
  by_cases hthree : w ≤ 0xFFFF
  · rw [if_neg hone, if_neg htwo, if_pos hthree]
    split
    · exact cons_lt_cons _ _ _ _ (by omega) (by omega) (by omega)
    split
    · exact cons_lt_cons _ _ _ _ (by omega) (by omega) (by omega)
    · rw [if_pos (by omega : v ≤ 0xFFFF)]
      refine cons_lt_cons _ _ _ _ (by omega) (by omega) fun hfirst => ?_
      refine cons_lt_cons _ _ _ _ (by omega) (by omega) fun hsecond => ?_
      exact cons_lt_cons _ _ _ _ (by omega) (by omega) (by omega)
  · rw [if_neg hone, if_neg htwo, if_neg hthree]
    split
    · exact cons_lt_cons _ _ _ _ (by omega) (by omega) (by omega)
    split
    · exact cons_lt_cons _ _ _ _ (by omega) (by omega) (by omega)
    split
    · exact cons_lt_cons _ _ _ _ (by omega) (by omega) (by omega)
    · refine cons_lt_cons _ _ _ _ (by omega) (by omega) fun hfirst => ?_
      refine cons_lt_cons _ _ _ _ (by omega) (by omega) fun hsecond => ?_
      refine cons_lt_cons _ _ _ _ (by omega) (by omega) fun hthird => ?_
      exact cons_lt_cons _ _ _ _ (by omega) (by omega) (by omega)

theorem bytesOf_cons (c : Char) (rest : List Char) :
    bytesOf (c :: rest) = String.utf8EncodeChar c ++ bytesOf rest := rfl

theorem bytesOf_lt (text other : List Char) (h : text < other) : bytesOf text < bytesOf other := by
  induction text generalizing other with
  | nil =>
    cases other with
    | nil => exact absurd h (List.not_lt_nil [])
    | cons d more =>
      rcases takeChar_utf8EncodeChar d [] with ⟨b, tail, hbytes, -⟩
      rw [bytesOf_cons, hbytes]
      exact List.nil_lt_cons b _
  | cons c rest ih =>
    cases other with
    | nil => exact absurd h (List.not_lt_nil _)
    | cons d more =>
      rcases List.cons_lt_cons_iff.mp h with hlt | ⟨rfl, hrest⟩
      · exact utf8EncodeChar_lt c d hlt _ _
      · exact List.append_left_lt (ih more hrest)

/-- Texts are ordered as their bytes are. -/
theorem bytesOf_lt_iff (a b : String) : bytesOf a.toList < bytesOf b.toList ↔ a < b := by
  refine ⟨fun h => ?_, bytesOf_lt a.toList b.toList⟩
  by_contra hnot
  -- Otherwise they are equal or stand in the other order, and so do their bytes.
  by_cases heq : a = b
  · subst heq
    exact List.lt_irrefl _ h
  · have hother : b < a := by
      by_contra hneither
      exact heq (String.le_antisymm (String.not_lt.mp hneither) (String.not_lt.mp hnot))
    exact List.lt_asymm h (bytesOf_lt b.toList a.toList hother)

/-- A text begins with another one if its bytes do. -/
theorem bytesOf_prefix_iff (stem text : List Char) :
    bytesOf stem <+: bytesOf text ↔ stem <+: text := by
  constructor
  · rintro ⟨rest, hrest⟩
    have hread := charsOf_bytesOf_append stem rest
    have hall := charsOf_bytesOf_append text []
    rw [hrest, ← List.append_nil (bytesOf text), hall] at hread
    have hchars : stem.map some <+: text.map some :=
      ⟨charsOf rest, by rw [← hread, charsOf, List.append_nil]⟩
    exact (List.prefix_map_iff_of_injective (Option.some_injective Char)).mp hchars
  · rintro ⟨rest, rfl⟩
    rw [bytesOf_append]
    exact List.prefix_append _ _

end Text

end StoragePolicy
