import StoragePolicy.Engine.Monitoring
import StoragePolicy.Proofs.Condition.RoundTrip
import StoragePolicy.Proofs.Number.Shortest
import StoragePolicy.Proofs.Rule.Parsed

/-!
# Conditions read twice

The record of a dynamic policy holds the condition of its rule as a text, and the monitor of the
policy watches for what is read from that text. Doubles are read back from their texts, so a
condition that has been read once is read the second time as the same tree, with the same metrics,
comparisons and thresholds. Hence the monitor watches for what the rule says.

There is but one double that is not a number, so that thresholds need not be compared up to it.

## Theorems

* `parse_text_eq`: A condition that has been read is read back from what is written of it.
* `reread_of_parse`: The text that a record holds says the same as the rule.
-/

namespace StoragePolicy

namespace Condition

/-- Alternatives of comparisons are read back from what is written of them. -/
theorem parse_text_ofAtoms (alternatives : List (List Atom)) (hne : alternatives ≠ [])
    (hproper : ∀ atoms ∈ alternatives, atoms ≠ [] ∧ ∀ a ∈ atoms, a.Proper) :
    parse (ofAtoms alternatives).text = .ok (ofAtoms alternatives) := by
  have hread := parse_text id Number.readDouble_writeDouble alternatives hne hproper
  have hsame : (alternatives.map fun atoms =>
      atoms.map fun a => { a with threshold := id a.threshold }) = alternatives := by
    simp
  rw [hsame] at hread
  exact hread

/-- A condition that has been read is read back from what is written of it. -/
theorem parse_text_eq (text : String) (c : Condition) (h : parse text = .ok c) :
    parse c.text = .ok c := by
  rcases isRead_of_parse text c h with ⟨alternatives, hne, hproper, rfl⟩
  exact parse_text_ofAtoms alternatives hne hproper

/-- The condition of a rule that has been read is read back from its written form. -/
theorem parse_conditionText (line : String) (rule : Rule) (conditionText : String)
    (hrule : Rule.parse line = .ok rule) (htext : rule.conditionText = some conditionText) :
    ∃ c, rule.condition = some c ∧ parse conditionText = .ok c := by
  rcases Option.map_eq_some_iff.mp htext with ⟨c, hc, rfl⟩
  rcases Rule.condition_of_parse line rule c hrule hc with ⟨text, hparse⟩
  exact ⟨c, hc, parse_text_eq text c hparse⟩

/-- A condition that has been read is read back from what is written of it as the same tree. So the
    text that the record of a policy holds is read as a condition that holds, on any values of the
    metrics, exactly when the condition of the rule does. -/
theorem reread_of_parse :
    (∀ (text : String) (c : Condition), parse text = .ok c → parse c.text = .ok c) ∧
      ∀ (line : String) (rule : Rule), Rule.parse line = .ok rule → rule.isDynamic = true →
        ∃ c conditionText, rule.condition = some c ∧ rule.conditionText = some conditionText ∧
          ∀ (settings : Engine.Settings) (id : Nat) (target : Target) (action : FilterAction)
            (index : Nat), ∃ stored,
              parse (Engine.newRecord settings id line conditionText rule target action
                index).conditionText = .ok stored ∧
              ∀ values, stored.holds values = c.holds values := by
  refine ⟨parse_text_eq, fun line rule hrule hdynamic => ?_⟩
  rcases Option.isSome_iff_exists.mp hdynamic with ⟨c, hc⟩
  have htext : rule.conditionText = some c.text := by
    rw [Rule.conditionText, hc]
    rfl
  rcases parse_conditionText line rule c.text hrule htext with ⟨c', hc', hparse⟩
  rw [hc] at hc'
  cases hc'
  exact ⟨c, c.text, hc, htext, fun _ _ _ _ _ => ⟨c, hparse, fun _ => rfl⟩⟩

/-- A condition with five comparisons, two of them with values that have no digits, and the
    condition of a rule. -/
theorem reread_of_parse_alternatives :
    (∃ c, parse "a<=-0 and b != inf OR c=NAN Or d >1e3 AND e>= .5" = .ok c ∧
      parse c.text = .ok c) ∧
      ∃ rule c conditionText,
        Rule.parse "TENANT alice, TENANT bob WHEN put_bw > 100 or get_ops<5 DO SET compress" =
          .ok rule ∧ rule.condition = some c ∧ rule.conditionText = some conditionText ∧
        ∃ stored, parse (Engine.newRecord {} 1
            "TENANT alice, TENANT bob WHEN put_bw > 100 or get_ops<5 DO SET compress"
            conditionText rule ⟨"t1", "alice", none⟩ ⟨.set, "compress", none, none, false, false⟩
            0).conditionText = .ok stored ∧
          ∀ values, stored.holds values = c.holds values := by
  -- That both texts are read is evaluated. What they are read as comes from the general theorem.
  have hcondition : (parse "a<=-0 and b != inf OR c=NAN Or d >1e3 AND e>= .5").toOption.isSome =
      true := by
    decide +kernel
  have hrule : ((Rule.parse
      "TENANT alice, TENANT bob WHEN put_bw > 100 or get_ops<5 DO SET compress").toOption.map
        Rule.isDynamic) = some true := by
    decide +kernel
  constructor
  · cases hparse : parse "a<=-0 and b != inf OR c=NAN Or d >1e3 AND e>= .5" with
    | error fault =>
      rw [hparse] at hcondition
      exact nomatch hcondition
    | ok c => exact ⟨c, rfl, reread_of_parse.1 _ c hparse⟩
  · cases hparse : Rule.parse
        "TENANT alice, TENANT bob WHEN put_bw > 100 or get_ops<5 DO SET compress" with
    | error fault =>
      rw [hparse] at hrule
      exact nomatch hrule
    | ok rule =>
      rw [hparse] at hrule
      rcases reread_of_parse.2 _ rule hparse (Option.some.inj hrule) with
        ⟨c, conditionText, hc, htext, hstored⟩
      exact ⟨rule, c, conditionText, rfl, hc, htext, hstored _ _ _ _ _⟩

end Condition

end StoragePolicy
