import StoragePolicy.Proofs.Condition.Reread
import StoragePolicy.Proofs.Monitor.Rising

/-!
# Conditions without their grouping

A condition is a tree, and its written form has no brackets. `AND` binds tighter than `OR` when it
is read, so a tree of any depth is read back with two levels: alternatives of comparisons. Where
alternatives are joined by "all" with something else, the last of them takes in what follows it and
the first of them what stands before it, and so the tree that is read holds where the one that was
written does not. A tree in which that does not occur is read back as one that holds exactly when it
does, though its levels may differ.

## Main definitions

* `Condition.WellFormed`: Trees without empty nodes, over comparisons of metrics that are words.
* `Condition.alternatives`: The alternatives of comparisons that a tree is written as.
* `Condition.Ungrouped`: Trees that join no alternatives by "all".
* `Condition.holdsAsWritten`: Whether one of the written alternatives holds.

## Theorems

* `text_eq_ofAtoms`: A tree is written like its alternatives.
* `parse_text_of_wellFormed`: It is read back, and what is read holds when an alternative does.
* `holdsAsWritten_of_ungrouped`: That is when the tree holds, if no grouping is lost.
-/

namespace StoragePolicy

namespace Condition

/-! ### Trees and what they are written as -/

mutual

/-- Trees without empty nodes, over comparisons of metrics that are words and none that joins. -/
def WellFormed : Condition → Prop
  | .compare metric op threshold => (⟨metric, op, threshold⟩ : Atom).Proper
  | .all conditions => conditions ≠ [] ∧ WellFormedIn conditions
  | .any conditions => conditions ≠ [] ∧ WellFormedIn conditions

/-- The same for every tree of a list. -/
def WellFormedIn : List Condition → Prop
  | [] => True
  | c :: rest => WellFormed c ∧ WellFormedIn rest

end

/-- Alternatives joined by `AND` with others: the last of the one and the first of the others become
    one alternative. -/
def glue : List (List Atom) → List (List Atom) → List (List Atom)
  | [], others => others
  | [atoms], [] => [atoms]
  | [atoms], first :: rest => (atoms ++ first) :: rest
  | atoms :: next :: more, others => atoms :: glue (next :: more) others

mutual

/-- The alternatives that a tree is written as, each of them given by its comparisons. -/
def alternatives : Condition → List (List Atom)
  | .compare metric op threshold => [[⟨metric, op, threshold⟩]]
  | .all conditions => gluedIn conditions
  | .any conditions => alternativesIn conditions

/-- The alternatives of the trees of a list, one after the other. -/
def alternativesIn : List Condition → List (List Atom)
  | [] => []
  | c :: rest => alternatives c ++ alternativesIn rest

/-- The alternatives of the trees of a list, joined by `AND`. -/
def gluedIn : List Condition → List (List Atom)
  | [] => []
  | c :: rest => glue (alternatives c) (gluedIn rest)

end

/-- Whether one of the alternatives holds that a tree is written as. -/
def holdsAsWritten (values : MetricValues) (c : Condition) : Bool :=
  c.alternatives.any fun atoms => atoms.all fun a => a.condition.holds values

mutual

/-- Trees that join no alternatives by "all": of several conditions that have to hold, each is
    written as one alternative. -/
def Ungrouped : Condition → Prop
  | .compare _ _ _ => True
  | .all conditions => UngroupedIn conditions ∧
      (conditions.length = 1 ∨ ∀ c ∈ conditions, c.alternatives.length = 1)
  | .any conditions => UngroupedIn conditions

/-- The same for every tree of a list. -/
def UngroupedIn : List Condition → Prop
  | [] => True
  | c :: rest => Ungrouped c ∧ UngroupedIn rest

end

/-- Alternatives of which there is one, each of at least one comparison of a metric that is a
    word. -/
def Written (alternatives : List (List Atom)) : Prop :=
  alternatives ≠ [] ∧ ∀ atoms ∈ alternatives, atoms ≠ [] ∧ ∀ a ∈ atoms, a.Proper

/-! ### Alternatives put together -/

theorem glue_nil (first : List (List Atom)) : glue first [] = first := by
  induction first with
  | nil => rfl
  | cons atoms rest ih =>
    cases rest with
    | nil => rfl
    | cons next more => rw [glue, ih]

theorem written_append (first second : List (List Atom)) (hfirst : Written first)
    (hsecond : Written second) : Written (first ++ second) := by
  refine ⟨List.append_ne_nil_of_left_ne_nil hfirst.1 second, fun atoms hatoms => ?_⟩
  rcases List.mem_append.mp hatoms with h | h
  · exact hfirst.2 atoms h
  · exact hsecond.2 atoms h

theorem written_glue (first second : List (List Atom)) (hfirst : Written first)
    (hsecond : Written second) : Written (glue first second) := by
  induction first with
  | nil => exact absurd rfl hfirst.1
  | cons atoms rest ih =>
    have hatoms := hfirst.2 atoms List.mem_cons_self
    cases rest with
    | nil =>
      cases second with
      | nil => exact absurd rfl hsecond.1
      | cons other others =>
        have hother := hsecond.2 other List.mem_cons_self
        refine ⟨List.cons_ne_nil _ _, List.forall_mem_cons.mpr ⟨⟨?_, fun a ha => ?_⟩, ?_⟩⟩
        · exact List.append_ne_nil_of_left_ne_nil hatoms.1 other
        · exact (List.mem_append.mp ha).elim (hatoms.2 a) (hother.2 a)
        · exact fun more hmore => hsecond.2 more (List.mem_cons_of_mem _ hmore)
    | cons next more =>
      have hrest := ih ⟨List.cons_ne_nil _ _, fun other hother =>
        hfirst.2 other (List.mem_cons_of_mem _ hother)⟩
      exact ⟨List.cons_ne_nil _ _, List.forall_mem_cons.mpr ⟨hatoms, hrest.2⟩⟩

theorem separated_append (keyword : String) (first second : List (List Token)) (hfirst : first ≠ [])
    (hsecond : second ≠ []) : separated keyword (first ++ second) =
      separated keyword first ++ .word keyword.toList :: separated keyword second := by
  induction first with
  | nil => exact absurd rfl hfirst
  | cons piece rest ih =>
    cases rest with
    | nil => exact separated_cons keyword piece second hsecond
    | cons next more =>
      rw [List.cons_append, separated_cons keyword piece _ (by simp),
        separated_cons keyword piece _ (List.cons_ne_nil next more),
        ih (List.cons_ne_nil next more), List.append_assoc, List.cons_append]

theorem tokensOf_cons (atoms : List Atom) (rest : List (List Atom)) (h : rest ≠ []) :
    tokensOf (atoms :: rest) =
      separated "AND" (atoms.map Atom.tokens) ++ .word "OR".toList :: tokensOf rest := by
  rw [tokensOf, List.map_cons, separated_cons "OR" _ _ (by simpa using h), ← tokensOf]

/-- Alternatives one after the other are written with `OR` between them. -/
theorem tokensOf_append (first second : List (List Atom)) (hfirst : first ≠ [])
    (hsecond : second ≠ []) :
    tokensOf (first ++ second) = tokensOf first ++ .word "OR".toList :: tokensOf second := by
  rw [tokensOf, List.map_append, separated_append "OR" _ _ (by simpa using hfirst)
    (by simpa using hsecond), tokensOf, tokensOf]

/-- Alternatives that are joined are written with `AND` between them. -/
theorem tokensOf_glue (first second : List (List Atom)) (hfirst : Written first)
    (hsecond : Written second) :
    tokensOf (glue first second) = tokensOf first ++ .word "AND".toList :: tokensOf second := by
  induction first with
  | nil => exact absurd rfl hfirst.1
  | cons atoms rest ih =>
    cases rest with
    | nil =>
      cases second with
      | nil => exact absurd rfl hsecond.1
      | cons other others =>
        -- Here the two meet: the last alternative goes on with the first of the others.
        have hpieces : separated "AND" ((atoms ++ other).map Atom.tokens) =
            tokensOf [atoms] ++
              .word "AND".toList :: separated "AND" (other.map Atom.tokens) := by
          rw [List.map_append]
          exact separated_append "AND" _ _ (by simpa using (hfirst.2 atoms List.mem_cons_self).1)
            (by simpa using (hsecond.2 other List.mem_cons_self).1)
        cases others with
        | nil => exact hpieces
        | cons next more =>
          have hne : next :: more ≠ [] := List.cons_ne_nil next more
          rw [glue, tokensOf_cons _ _ hne, hpieces, tokensOf_cons other _ hne, List.append_assoc,
            List.cons_append]
    | cons next more =>
      have hrest : Written (next :: more) := ⟨List.cons_ne_nil _ _, fun other hother =>
        hfirst.2 other (List.mem_cons_of_mem _ hother)⟩
      rw [glue, tokensOf_cons _ _ (written_glue _ _ hrest hsecond).1, ih hrest,
        tokensOf_cons atoms _ hrest.1, List.append_assoc, List.cons_append]

/-! ### Trees are written like their alternatives -/

mutual

theorem written_alternatives (c : Condition) (h : c.WellFormed) : Written c.alternatives := by
  cases c with
  | compare metric op threshold =>
    exact ⟨List.cons_ne_nil _ _, by simpa [alternatives, WellFormed] using h⟩
  | all conditions => exact (written_of_wellFormedIn conditions h.1 h.2).2
  | any conditions => exact (written_of_wellFormedIn conditions h.1 h.2).1

theorem written_of_wellFormedIn (conditions : List Condition) (hne : conditions ≠ [])
    (h : WellFormedIn conditions) :
    Written (alternativesIn conditions) ∧ Written (gluedIn conditions) := by
  cases conditions with
  | nil => exact absurd rfl hne
  | cons c rest =>
    have hc := written_alternatives c h.1
    rw [alternativesIn, gluedIn]
    cases rest with
    | nil => 
      rw [alternativesIn, gluedIn, List.append_nil, glue_nil]
      exact ⟨hc, hc⟩
    | cons next more =>
      have hrest := written_of_wellFormedIn (next :: more) (List.cons_ne_nil _ _) h.2
      exact ⟨written_append _ _ hc hrest.1, written_glue _ _ hc hrest.2⟩

end

theorem toList_joined_cons (separator : String) (c next : Condition) (more : List Condition) :
    (joined separator (c :: next :: more)).toList =
      c.text.toList ++ (separator.toList ++ (joined separator (next :: more)).toList) := by
  simp [joined]

mutual

/-- A tree is written like its alternatives. -/
theorem toList_text_alternatives (c : Condition) (h : c.WellFormed) :
    c.text.toList = Token.render (tokensOf c.alternatives) := by
  cases c with
  | compare metric op threshold => exact toList_text_condition ⟨metric, op, threshold⟩
  | all conditions =>
    rw [text]
    exact (toList_joined_wellFormedIn conditions h.1 h.2).2
  | any conditions =>
    rw [text]
    exact (toList_joined_wellFormedIn conditions h.1 h.2).1

theorem toList_joined_wellFormedIn (conditions : List Condition) (hne : conditions ≠ [])
    (h : WellFormedIn conditions) :
    (joined " OR " conditions).toList = Token.render (tokensOf (alternativesIn conditions)) ∧
      (joined " AND " conditions).toList = Token.render (tokensOf (gluedIn conditions)) := by
  -- The induction is that of the recursion of the definitions: a list of one condition has no
  -- join.
  cases conditions with
  | nil => exact absurd rfl hne
  | cons c rest =>
    have htext := toList_text_alternatives c h.1
    have hc := written_alternatives c h.1
    rw [alternativesIn, gluedIn]
    cases rest with
    | nil =>
      rw [alternativesIn, gluedIn, List.append_nil, glue_nil, joined, joined]
      exact ⟨htext, htext⟩
    | cons next more =>
      have hlist := List.cons_ne_nil next more
      have hrest := written_of_wellFormedIn (next :: more) hlist h.2
      rcases toList_joined_wellFormedIn (next :: more) hlist h.2 with ⟨hor, hand⟩
      have htokens : ∀ pieces : List (List Atom), Written pieces → tokensOf pieces ≠ [] :=
        fun pieces hpieces =>
          tokensOf_ne_nil pieces hpieces.1 fun atoms hatoms => (hpieces.2 atoms hatoms).1
      rw [toList_joined_cons, toList_joined_cons, hor, hand, htext,
        tokensOf_append _ _ hc.1 hrest.1.1, tokensOf_glue _ _ hc hrest.2,
        Token.render_append _ _ (htokens _ hc) (List.cons_ne_nil _ _),
        Token.render_append _ _ (htokens _ hc) (List.cons_ne_nil _ _),
        Token.render_cons _ _ (htokens _ hrest.1), Token.render_cons _ _ (htokens _ hrest.2)]
      exact ⟨rfl, rfl⟩

end

/-- A tree is written like its alternatives, and these are read back from it. -/
theorem parse_text_of_wellFormed (c : Condition) (h : c.WellFormed) :
    parse c.text = .ok (ofAtoms c.alternatives) := by
  have hwritten := written_alternatives c h
  have htext : c.text = (ofAtoms c.alternatives).text := by
    rw [← String.toList_inj, toList_text_alternatives c h,
      toList_text c.alternatives fun atoms hatoms => (hwritten.2 atoms hatoms).1]
  rw [htext]
  exact parse_text_ofAtoms c.alternatives hwritten.1 hwritten.2

/-! ### What is read back -/

theorem holdAll_conditions (values : MetricValues) (atoms : List Atom) :
    holdAll values (atoms.map Atom.condition) =
      atoms.all fun a => a.condition.holds values := by
  induction atoms with
  | nil => rfl
  | cons a rest ih => rw [List.map_cons, holdAll, List.all_cons, ih]

/-- A condition of alternatives holds when one of them does. -/
theorem holds_ofAtoms_eq_any (values : MetricValues) (alternatives : List (List Atom)) :
    (ofAtoms alternatives).holds values =
      alternatives.any fun atoms => atoms.all fun a => a.condition.holds values := by
  rw [ofAtoms, holds_join_any]
  induction alternatives with
  | nil => rfl
  | cons atoms rest ih =>
    rw [List.map_cons, holdAny, holds_join_all, holdAll_conditions, List.any_cons, ih]

/-- What is read back from a tree holds when one of its alternatives does. -/
theorem holds_ofAtoms (values : MetricValues) (c : Condition) :
    (ofAtoms c.alternatives).holds values = c.holdsAsWritten values :=
  holds_ofAtoms_eq_any values c.alternatives

/-- One alternative joined with one is one. -/
theorem glue_single (atoms : List Atom) (others : List (List Atom)) (h : others.length = 1) :
    glue [atoms] others = [atoms ++ others.flatten] := by
  rcases List.length_eq_one_iff.mp h with ⟨other, rfl⟩
  rw [glue, List.flatten_singleton]

theorem length_gluedIn (conditions : List Condition) (hne : conditions ≠ [])
    (h : ∀ c ∈ conditions, c.alternatives.length = 1) : (gluedIn conditions).length = 1 := by
  induction conditions with
  | nil => exact absurd rfl hne
  | cons c rest ih =>
    rcases List.length_eq_one_iff.mp (h c List.mem_cons_self) with ⟨atoms, hatoms⟩
    rw [gluedIn, hatoms]
    cases rest with
    | nil => rfl
    | cons next more =>
      rw [glue_single _ _ (ih (List.cons_ne_nil _ _) fun other hother =>
        h other (List.mem_cons_of_mem _ hother))]
      rfl

/-- Conditions that are written as one alternative each hold all if that of all of them does. -/
theorem holdAll_of_single (values : MetricValues) (conditions : List Condition)
    (hne : conditions ≠ []) (hsingle : ∀ c ∈ conditions, c.alternatives.length = 1)
    (h : ∀ c ∈ conditions, c.holds values = c.holdsAsWritten values) :
    holdAll values conditions =
      (gluedIn conditions).any fun atoms => atoms.all fun a => a.condition.holds values := by
  induction conditions with
  | nil => exact absurd rfl hne
  | cons c rest ih =>
    rcases List.length_eq_one_iff.mp (hsingle c List.mem_cons_self) with ⟨atoms, hatoms⟩
    have hc := h c List.mem_cons_self
    rw [holdsAsWritten, hatoms] at hc
    rw [holdAll, hc, gluedIn, hatoms]
    cases rest with
    | nil => simp [holdAll, gluedIn, glue_nil]
    | cons next more =>
      have hlist := List.cons_ne_nil next more
      have hlater : ∀ other ∈ next :: more, other ∈ c :: next :: more :=
        fun other hother => List.mem_cons_of_mem _ hother
      rw [ih hlist (fun other hother => hsingle other (hlater other hother))
        fun other hother => h other (hlater other hother)]
      -- The rest has one alternative as well when it is glued, so that there is one to join to
      -- the first.
      have hone := length_gluedIn (next :: more) hlist fun other hother =>
        hsingle other (hlater other hother)
      rcases List.length_eq_one_iff.mp hone with ⟨others, hothers⟩
      rw [hothers, glue_single atoms [others] rfl]
      simp

mutual

/-- A tree holds when one of its alternatives does, if no grouping is lost. -/
theorem holdsAsWritten_of_ungrouped (values : MetricValues) (c : Condition) (hc : c.WellFormed)
    (h : c.Ungrouped) : c.holds values = c.holdsAsWritten values := by
  cases c with
  | compare metric op threshold =>
    simp [holdsAsWritten, alternatives, Atom.condition]
  | all conditions =>
    have hall := (holdAny_of_ungrouped values conditions hc.2 h.1).1
    rw [holds, holdsAsWritten, alternatives]
    rcases h.2 with hone | hsingle
    · rcases List.length_eq_one_iff.mp hone with ⟨c, rfl⟩
      rw [gluedIn, gluedIn, glue_nil, holdAll, hall c (List.mem_singleton_self c)]
      simp [holdAll, holdsAsWritten]
    · exact holdAll_of_single values conditions hc.1 hsingle hall
  | any conditions =>
    rw [holds, holdsAsWritten, alternatives]
    exact (holdAny_of_ungrouped values conditions hc.2 h).2

theorem holdAny_of_ungrouped (values : MetricValues) (conditions : List Condition)
    (hc : WellFormedIn conditions) (h : UngroupedIn conditions) :
    (∀ c ∈ conditions, c.holds values = c.holdsAsWritten values) ∧
      holdAny values conditions =
        (alternativesIn conditions).any fun atoms =>
          atoms.all fun a => a.condition.holds values := by
  cases conditions with
  | nil => exact ⟨fun c hc => absurd hc List.not_mem_nil, rfl⟩
  | cons c rest =>
    have hfirst := holdsAsWritten_of_ungrouped values c hc.1 h.1
    have hrest := holdAny_of_ungrouped values rest hc.2 h.2
    refine ⟨List.forall_mem_cons.mpr ⟨hfirst, hrest.1⟩, ?_⟩
    rw [holdAny, alternativesIn, List.any_append, hrest.2, hfirst, holdsAsWritten]

end

end Condition

end StoragePolicy
