import StoragePolicy.Text.Utf8
import Mathlib.Data.List.Basic
import Mathlib.Tactic.IntervalCases

/-!
# Reading and writing UTF-8

The bytes of a text are read back as that text, and bytes that are read as a text are the bytes of
it. So there is one way to write every text, and bytes are refused exactly if they are those of no
text. Everything else that is said about reading, like that texts may be read piece by piece, is
seen from the side of writing, where it is plain.

A character is written in one of four lengths, and its first byte tells which. In each length the
number of a character lies in a range of its own; that is what the restriction of the second byte
is for.

## Theorems

* `takeChar_utf8EncodeChar`, `eq_of_takeChar`: One character.
* `ofBytes?_eq_some_iff`: Bytes are read as a text if they are its bytes.
* `charsOf_bytesOf_append`: Texts may be read piece by piece.
* `mem_bytesOf_linefeed`: A line feed is a byte of its own, and part of no other character.
-/

namespace StoragePolicy

namespace Text

/-! ### First bytes -/

theorem toNat_ofNat_lt (n : Nat) (h : n < 256) : (UInt8.ofNat n).toNat = n := by
  rw [UInt8.toNat_ofNat', Nat.mod_eq_of_lt h]

theorem eq_ofNat_of_toNat (b : UInt8) (n : Nat) (h : b.toNat = n) : b = UInt8.ofNat n := by
  rw [← h, UInt8.ofNat_toNat]

theorem lead?_two (x : Nat) (h : 2 ≤ x) (h' : x < 32) :
    lead? (UInt8.ofNat (x + 0xC0)) = some ⟨x, 0x80, 0xBF, 1⟩ := by
  interval_cases x <;> rfl

theorem lead?_three (x : Nat) (h : x < 16) : lead? (UInt8.ofNat (x + 0xE0)) =
    some ⟨x, if x = 0 then 0xA0 else 0x80, if x = 13 then 0x9F else 0xBF, 2⟩ := by
  interval_cases x <;> rfl

theorem lead?_four (x : Nat) (h : x ≤ 4) : lead? (UInt8.ofNat (x + 0xF0)) =
    some ⟨x, if x = 0 then 0x90 else 0x80, if x = 4 then 0x8F else 0xBF, 3⟩ := by
  interval_cases x <;> rfl

/-- The first byte of a character of several bytes begins one of two, of three or of four. -/
theorem lead?_cases (b : UInt8) (lead : Lead) (h : lead? b = some lead) :
    (∃ x, 2 ≤ x ∧ x < 32 ∧ b = UInt8.ofNat (x + 0xC0)) ∨
      (∃ x < 16, b = UInt8.ofNat (x + 0xE0)) ∨ ∃ x ≤ 4, b = UInt8.ofNat (x + 0xF0) := by
  have hrange : 0xC2 ≤ b.toNat ∧ b.toNat ≤ 0xF4 := by
    by_contra hout
    have hnone : lead? b = none := by
      simp only [lead?, UInt8.le_iff_toNat_le, ← UInt8.toNat_inj, Bool.and_eq_true,
        decide_eq_true_eq, UInt8.reduceToNat]
      repeat' rw [if_neg (by omega)]
    rw [hnone] at h
    exact nomatch h
  by_cases htwo : b.toNat < 0xE0
  · exact Or.inl ⟨b.toNat - 0xC0, by omega, by omega, eq_ofNat_of_toNat b _ (by omega)⟩
  · by_cases hthree : b.toNat < 0xF0
    · exact Or.inr (Or.inl ⟨b.toNat - 0xE0, by omega, eq_ofNat_of_toNat b _ (by omega)⟩)
    · exact Or.inr (Or.inr ⟨b.toNat - 0xF0, by omega, eq_ofNat_of_toNat b _ (by omega)⟩)

/-! ### One character -/

theorem takeTail_zero (value : Nat) (low high : UInt8) (rest : List UInt8) :
    takeTail value low high 0 rest = (some (Char.ofNat value), rest) := rfl

/-- A byte in its range is taken as six bits more. -/
theorem takeTail_succ (value n count : Nat) (low high : UInt8) (rest : List UInt8) (hn : n < 64)
    (hlow : low.toNat ≤ n + 0x80) (hhigh : n + 0x80 ≤ high.toNat) :
    takeTail value low high (count + 1) (UInt8.ofNat (n + 0x80) :: rest) =
      takeTail (value * 64 + n) 0x80 0xBF count rest := by
  have hnat := toNat_ofNat_lt (n + 0x80) (by omega)
  rw [takeTail, hnat, Nat.add_sub_cancel, if_pos]
  rw [Bool.and_eq_true, decide_eq_true_eq, decide_eq_true_eq, UInt8.le_iff_toNat_le,
    UInt8.le_iff_toNat_le, hnat]
  exact ⟨hlow, hhigh⟩

/-- A byte behind the second is taken as six bits more. -/
theorem takeTail_byte (value n count : Nat) (rest : List UInt8) (hn : n < 64) :
    takeTail value 0x80 0xBF (count + 1) (UInt8.ofNat (n + 0x80) :: rest) =
      takeTail (value * 64 + n) 0x80 0xBF count rest :=
  takeTail_succ value n count 0x80 0xBF rest hn (Nat.le_add_left _ _)
    (Nat.add_le_add_right (Nat.le_of_lt_succ hn) 0x80)

/-- Where a character is taken a byte in its range stands in front. -/
theorem takeTail_eq_some (value count : Nat) (low high : UInt8) (bytes rest : List UInt8)
    (c : Char) (hlow : 0x80 ≤ low.toNat) (hhigh : high.toNat ≤ 0xBF)
    (h : takeTail value low high (count + 1) bytes = (some c, rest)) :
    ∃ n more, bytes = UInt8.ofNat (n + 0x80) :: more ∧ n < 64 ∧ low.toNat ≤ n + 0x80 ∧
      n + 0x80 ≤ high.toNat ∧
      takeTail (value * 64 + n) 0x80 0xBF count more = (some c, rest) := by
  cases bytes with
  | nil => cases h
  | cons b more =>
    rw [takeTail] at h
    split at h
    · rename_i hin
      rw [Bool.and_eq_true, decide_eq_true_eq, decide_eq_true_eq, UInt8.le_iff_toNat_le,
        UInt8.le_iff_toNat_le] at hin
      refine ⟨b.toNat - 0x80, more, ?_, by omega, by omega, by omega, h⟩
      rw [← eq_ofNat_of_toNat b _ (by omega)]
    · cases h

/-- Behind the first byte of several comes what follows it. -/
theorem takeChar_of_lead? (first : Nat) (lead : Lead) (rest : List UInt8) (hfirst : 0x80 ≤ first)
    (hbyte : first < 256) (hlead : lead? (UInt8.ofNat first) = some lead) :
    takeChar (UInt8.ofNat first) rest =
      takeTail lead.bits lead.low lead.high lead.count rest := by
  rw [takeChar, hlead, if_neg]
  rw [UInt8.lt_iff_toNat_lt, toNat_ofNat_lt first hbyte]
  exact Nat.not_lt.mpr hfirst

/-- A character is read from its bytes, whatever follows. -/
theorem takeChar_utf8EncodeChar (c : Char) (rest : List UInt8) :
    ∃ b tail, String.utf8EncodeChar c = b :: tail ∧ takeChar b (tail ++ rest) = (some c, rest) := by
  have hvalid : c.toNat < 0xD800 ∨ 0xDFFF < c.toNat ∧ c.toNat < 0x110000 := c.valid
  have hc : Char.ofNat c.toNat = c := Char.ofNat_toNat c
  have hval : c.val.toNat = c.toNat := rfl
  rw [String.utf8EncodeChar, hval]
  generalize c.toNat = v at hvalid hc
  by_cases hone : v ≤ 0x7F
  · refine ⟨UInt8.ofNat v, [], if_pos hone, ?_⟩
    have hnat := toNat_ofNat_lt v (by omega)
    rw [takeChar, if_pos, hnat, hc]
    · rfl
    · rw [UInt8.lt_iff_toNat_lt, hnat]
      exact Nat.lt_succ_of_le hone
  by_cases htwo : v ≤ 0x7FF
  · refine ⟨_, _, (if_neg hone).trans (if_pos htwo), ?_⟩
    rw [takeChar_of_lead? _ _ _ (by omega) (by omega) (lead?_two _ (by omega) (by omega))]
    rw [List.cons_append, takeTail_byte _ _ _ _ (by omega), List.nil_append, takeTail_zero,
      show v / 64 % 32 * 64 + v % 64 = v by omega, hc]
  by_cases hthree : v ≤ 0xFFFF
  · refine ⟨_, _, (if_neg hone).trans ((if_neg htwo).trans (if_pos hthree)), ?_⟩
    rw [takeChar_of_lead? _ _ _ (by omega) (by omega) (lead?_three _ (by omega))]
    -- The second byte has bounds of its own, and the number lies where they are kept.
    refine (takeTail_succ _ _ _ _ _ _ (by omega) ?_ ?_).trans ?_
    · dsimp only
      split
      · change 0xA0 ≤ _
        omega
      · exact Nat.le_add_left _ _
    · dsimp only
      split
      · change _ ≤ 0x9F
        omega
      · exact Nat.add_le_add_right (by omega : v / 64 % 64 ≤ 63) 0x80
    · refine (takeTail_byte _ _ 0 rest (by omega)).trans ?_
      rw [takeTail_zero]
      dsimp only
      rw [show (v / 4096 % 16 * 64 + v / 64 % 64) * 64 + v % 64 = v by omega, hc]
  · refine ⟨_, _, (if_neg hone).trans ((if_neg htwo).trans (if_neg hthree)), ?_⟩
    rw [takeChar_of_lead? _ _ _ (by omega) (by omega) (lead?_four _ (by omega))]
    refine (takeTail_succ _ _ _ _ _ _ (by omega) ?_ ?_).trans ?_
    · dsimp only
      split
      · change 0x90 ≤ _
        omega
      · exact Nat.le_add_left _ _
    · dsimp only
      split
      · change _ ≤ 0x8F
        omega
      · exact Nat.add_le_add_right (by omega : v / 4096 % 64 ≤ 63) 0x80
    · refine (takeTail_byte _ _ 1 (_ :: rest) (by omega)).trans ?_
      rw [takeTail_byte _ _ _ _ (by omega), takeTail_zero]
      dsimp only
      rw [show ((v / 262144 % 8 * 64 + v / 4096 % 64) * 64 + v / 64 % 64) * 64 + v % 64 = v by
        omega, hc]

/-- The bytes of the character of a number. -/
theorem utf8EncodeChar_ofNat (v : Nat) (hvalid : v < 0xD800 ∨ 0xDFFF < v ∧ v < 0x110000) :
    String.utf8EncodeChar (Char.ofNat v) =
      if v ≤ 0x7F then [UInt8.ofNat v]
      else if v ≤ 0x7FF then [UInt8.ofNat (v / 64 % 32 + 0xC0), UInt8.ofNat (v % 64 + 0x80)]
      else if v ≤ 0xFFFF then
        [UInt8.ofNat (v / 4096 % 16 + 0xE0), UInt8.ofNat (v / 64 % 64 + 0x80),
          UInt8.ofNat (v % 64 + 0x80)]
      else
        [UInt8.ofNat (v / 262144 % 8 + 0xF0), UInt8.ofNat (v / 4096 % 64 + 0x80),
          UInt8.ofNat (v / 64 % 64 + 0x80), UInt8.ofNat (v % 64 + 0x80)] := by
  have hchar : Char.ofNat v = Char.ofNatAux v hvalid := dif_pos hvalid
  have hval : (Char.ofNat v).val.toNat = v := by
    rw [hchar]
    rfl
  rw [String.utf8EncodeChar, hval]

/-- A character that is read from two bytes. -/
theorem eq_of_takeTail_two (x : Nat) (bytes rest : List UInt8) (c : Char) (hlow : 2 ≤ x)
    (hhigh : x < 32) (h : takeTail x 0x80 0xBF 1 bytes = (some c, rest)) :
    UInt8.ofNat (x + 0xC0) :: bytes = String.utf8EncodeChar c ++ rest := by
  rcases takeTail_eq_some _ _ _ _ _ _ _ (by decide) (by decide) h with
    ⟨n, more, rfl, hn, -, -, hdone⟩
  cases hdone
  rw [utf8EncodeChar_ofNat _ (by omega), if_neg (by omega), if_pos (by omega),
    show (x * 64 + n) / 64 % 32 = x by omega, show (x * 64 + n) % 64 = n by omega]
  rfl

/-- A character that is read from three bytes. -/
theorem eq_of_takeTail_three (x : Nat) (bytes rest : List UInt8) (c : Char) (hx : x < 16)
    (h : takeTail x (if x = 0 then 0xA0 else 0x80) (if x = 13 then 0x9F else 0xBF) 2 bytes =
      (some c, rest)) :
    UInt8.ofNat (x + 0xE0) :: bytes = String.utf8EncodeChar c ++ rest := by
  rcases takeTail_eq_some _ _ _ _ _ _ _ (by split <;> decide) (by split <;> decide) h with
    ⟨n, more, rfl, hn, hlow, hhigh, hmore⟩
  rcases takeTail_eq_some _ _ _ _ _ _ _ (by decide) (by decide) hmore with
    ⟨n', more', rfl, hn', -, -, hdone⟩
  cases hdone
  -- Neither a shorter form nor half of a surrogate pair.
  have hlow : x = 0 → 32 ≤ n := by
    intro hx
    rw [if_pos hx] at hlow
    change 0xA0 ≤ _ at hlow
    omega
  have hhigh : x = 13 → n < 32 := by
    intro hx
    rw [if_pos hx] at hhigh
    change _ ≤ 0x9F at hhigh
    omega
  rw [utf8EncodeChar_ofNat _ (by omega), if_neg (by omega), if_neg (by omega),
    if_pos (by omega), show ((x * 64 + n) * 64 + n') / 4096 % 16 = x by omega,
    show ((x * 64 + n) * 64 + n') / 64 % 64 = n by omega,
    show ((x * 64 + n) * 64 + n') % 64 = n' by omega]
  rfl

/-- A character that is read from four bytes. -/
theorem eq_of_takeTail_four (x : Nat) (bytes rest : List UInt8) (c : Char) (hx : x ≤ 4)
    (h : takeTail x (if x = 0 then 0x90 else 0x80) (if x = 4 then 0x8F else 0xBF) 3 bytes =
      (some c, rest)) :
    UInt8.ofNat (x + 0xF0) :: bytes = String.utf8EncodeChar c ++ rest := by
  rcases takeTail_eq_some _ _ _ _ _ _ _ (by split <;> decide) (by split <;> decide) h with
    ⟨n, more, rfl, hn, hlow, hhigh, hmore⟩
  rcases takeTail_eq_some _ _ _ _ _ _ _ (by decide) (by decide) hmore with
    ⟨n', more', rfl, hn', -, -, hmore'⟩
  rcases takeTail_eq_some _ _ _ _ _ _ _ (by decide) (by decide) hmore' with
    ⟨n'', more'', rfl, hn'', -, -, hdone⟩
  cases hdone
  -- Neither a shorter form nor a number above the last code point.
  have hlow : x = 0 → 16 ≤ n := by
    intro hx
    rw [if_pos hx] at hlow
    change 0x90 ≤ _ at hlow
    omega
  have hhigh : x = 4 → n < 16 := by
    intro hx
    rw [if_pos hx] at hhigh
    change _ ≤ 0x8F at hhigh
    omega
  rw [utf8EncodeChar_ofNat _ (by omega), if_neg (by omega), if_neg (by omega),
    if_neg (by omega), show (((x * 64 + n) * 64 + n') * 64 + n'') / 262144 % 8 = x by omega,
    show (((x * 64 + n) * 64 + n') * 64 + n'') / 4096 % 64 = n by omega,
    show (((x * 64 + n) * 64 + n') * 64 + n'') / 64 % 64 = n' by omega,
    show (((x * 64 + n) * 64 + n') * 64 + n'') % 64 = n'' by omega]
  rfl

/-- The bytes from which a character is read are its own. -/
theorem eq_of_takeChar (b : UInt8) (bytes rest : List UInt8) (c : Char)
    (h : takeChar b bytes = (some c, rest)) : b :: bytes = String.utf8EncodeChar c ++ rest := by
  rw [takeChar] at h
  split at h
  · rename_i hone
    rw [UInt8.lt_iff_toNat_lt] at hone
    have hone : b.toNat < 0x80 := hone
    cases h
    rw [utf8EncodeChar_ofNat _ (by omega), if_pos (by omega), UInt8.ofNat_toNat]
    rfl
  split at h
  -- The first byte says how many bytes follow, and there is a form for each number.
  · rename_i lead hlead
    rcases lead?_cases b lead hlead with ⟨x, hx, hx', rfl⟩ | ⟨x, hx, rfl⟩ | ⟨x, hx, rfl⟩
    · rw [lead?_two x hx hx', Option.some.injEq] at hlead
      subst hlead
      exact eq_of_takeTail_two x bytes rest c hx hx' h
    · rw [lead?_three x hx, Option.some.injEq] at hlead
      subst hlead
      exact eq_of_takeTail_three x bytes rest c hx h
    · rw [lead?_four x hx, Option.some.injEq] at hlead
      subst hlead
      exact eq_of_takeTail_four x bytes rest c hx h
  · cases h

/-! ### Texts -/

theorem charsOf_cons (b : UInt8) (rest : List UInt8) :
    charsOf (b :: rest) = (takeChar b rest).1 :: charsOf (takeChar b rest).2 := by
  rw [charsOf]

theorem bytesOf_append (text more : List Char) :
    bytesOf (text ++ more) = bytesOf text ++ bytesOf more := List.flatMap_append

/-- The bytes of a text are read as its characters, whatever follows. -/
theorem charsOf_bytesOf_append (text : List Char) (rest : List UInt8) :
    charsOf (bytesOf text ++ rest) = text.map some ++ charsOf rest := by
  induction text with
  | nil => rfl
  | cons c text ih =>
    rcases takeChar_utf8EncodeChar c (bytesOf text ++ rest) with ⟨b, tail, hbytes, htake⟩
    rw [bytesOf, List.flatMap_cons, hbytes, List.append_assoc, List.cons_append, charsOf_cons]
    change (takeChar b (tail ++ (bytesOf text ++ rest))).1 ::
      charsOf (takeChar b (tail ++ (bytesOf text ++ rest))).2 = _
    rw [htake, ih]
    rfl

theorem mapM_map_some (text : List Char) : (text.map some).mapM id = some text := by
  induction text with
  | nil => rfl
  | cons c text ih =>
    rw [List.map_cons, List.mapM_cons, ih]
    rfl

theorem eq_map_some_of_mapM (chars : List (Option Char)) (text : List Char)
    (h : chars.mapM id = some text) : chars = text.map some := by
  induction chars generalizing text with
  | nil =>
    cases h
    rfl
  | cons c chars ih =>
    rw [List.mapM_cons] at h
    cases c with
    | none => exact nomatch h
    | some c =>
      cases hrest : chars.mapM id with
      | none =>
        rw [hrest] at h
        exact nomatch h
      | some more =>
        rw [hrest] at h
        cases h
        rw [List.map_cons, ih more hrest]

/-- Bytes that are all read as characters are the bytes of those. -/
theorem eq_bytesOf_of_charsOf (bytes : List UInt8) (text : List Char)
    (h : charsOf bytes = text.map some) : bytes = bytesOf text := by
  induction text generalizing bytes with
  | nil =>
    cases bytes with
    | nil => rfl
    | cons b rest =>
      rw [charsOf_cons] at h
      cases h
  | cons c text ih =>
    cases bytes with
    | nil =>
      rw [charsOf] at h
      cases h
    | cons b rest =>
      rw [charsOf_cons, List.map_cons, List.cons.injEq] at h
      rw [eq_of_takeChar b rest (takeChar b rest).2 c (Prod.ext h.1 rfl), ih _ h.2]
      rfl

/-- Bytes are read as a text exactly if they are its bytes. -/
theorem ofBytes?_eq_some_iff (bytes : List UInt8) (text : List Char) :
    ofBytes? bytes = some text ↔ bytes = bytesOf text := by
  constructor
  · intro h
    exact eq_bytesOf_of_charsOf bytes text (eq_map_some_of_mapM _ text h)
  · rintro rfl
    have h := charsOf_bytesOf_append text []
    rw [List.append_nil, charsOf, List.append_nil] at h
    rw [ofBytes?, h, mapM_map_some]

/-! ### Line feeds -/

/-- The bytes of a character of several bytes are none of the first half of all bytes. -/
theorem linefeed_ne (n k : Nat) (hk : 0x80 ≤ k) (hbound : n + k < 256) :
    (0x0A : UInt8) ≠ UInt8.ofNat (n + k) := by
  intro heq
  have hnat := congrArg UInt8.toNat heq
  have hten : (0x0A : UInt8).toNat = 10 := rfl
  rw [toNat_ofNat_lt (n + k) hbound] at hnat
  omega

theorem eq_linefeed_of_mem (c : Char) (h : 0x0A ∈ String.utf8EncodeChar c) : c = '\n' := by
  rw [String.utf8EncodeChar] at h
  split at h
  · rename_i hone
    rw [List.mem_singleton] at h
    have hnat := congrArg UInt8.toNat h
    rw [toNat_ofNat_lt _ (by omega)] at hnat
    exact Char.ext (UInt32.toNat_inj.mp hnat.symm)
  · exfalso
    split at h
    · simp only [List.mem_cons, List.not_mem_nil, or_false] at h
      rcases h with h | h
      all_goals exact linefeed_ne _ _ (by omega) (by omega) h
    · split at h
      · simp only [List.mem_cons, List.not_mem_nil, or_false] at h
        rcases h with h | h | h
        all_goals exact linefeed_ne _ _ (by omega) (by omega) h
      · simp only [List.mem_cons, List.not_mem_nil, or_false] at h
        rcases h with h | h | h | h
        all_goals exact linefeed_ne _ _ (by omega) (by omega) h

/-- A line feed is a byte of its own, and part of no other character. -/
theorem mem_bytesOf_linefeed (text : List Char) : 0x0A ∈ bytesOf text ↔ '\n' ∈ text := by
  rw [bytesOf, List.mem_flatMap]
  constructor
  · rintro ⟨c, hc, hmem⟩
    rw [← eq_linefeed_of_mem c hmem]
    exact hc
  · intro h
    exact ⟨'\n', h, by decide⟩

end Text

end StoragePolicy
