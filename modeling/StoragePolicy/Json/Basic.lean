import StoragePolicy.Number.Decimal

/-!
# JSON values

Structured data as it is stored in policy entries and exchanged with clients. A number keeps
whether it is a natural number, a negative whole number or anything else, because identifiers and
sizes must be natural numbers: `5.0` is none.

## Main definitions

* `Numeral`: The three kinds of numbers.
* `Json`: The values.
* `Json.member?`: A member of an object.
* `Json.mergeMembers`: The members of one object over those of another.
-/

namespace StoragePolicy

/-- A number of a JSON value. -/
inductive Numeral where
  /-- A whole number from 0 to `Number.maxWord`. -/
  | natural (n : Nat)
  /-- The whole number `-n`, where `n` is from 1 to 2^63. -/
  | negative (n : Nat)
  /-- Any other number. -/
  | double (x : Float)
  deriving Repr, DecidableEq

/-- The number as a double. -/
def Numeral.toDouble : Numeral → Float
  | .natural n => Number.Decimal.toDouble ⟨false, n, 0⟩
  | .negative n => Number.Decimal.toDouble ⟨true, n, 0⟩
  | .double x => x

/-- A JSON value. The members of an object keep their order. -/
inductive Json where
  | null
  | bool (value : Bool)
  | number (value : Numeral)
  | string (value : String)
  | array (items : List Json)
  | object (members : List (String × Json))
  deriving Repr, Inhabited

namespace Json

/-- A natural number as a value. -/
def natural (n : Nat) : Json := .number (.natural n)

/-- A text, or null where there is none. -/
def ofOption {α : Type} (encode : α → Json) : Option α → Json
  | some a => encode a
  | none => .null

/-- The value of the first member of the given name. -/
def find? (name : String) (members : List (String × Json)) : Option Json :=
  (members.find? fun m => m.1 = name).map Prod.snd

/-- The member of an object, if the value is an object that has it. -/
def member? (name : String) : Json → Option Json
  | .object members => find? name members
  | _ => none

/-- Gives a member of an object a value: in its place if the object has it, at the end if not. -/
def setMember (members : List (String × Json)) (name : String) (value : Json) :
    List (String × Json) :=
  match members with
  | [] => [(name, value)]
  | m :: rest =>
    if m.1 = name then (name, value) :: rest else m :: setMember rest name value

/-- The members of an object with those of a patch put over them. Members that the patch does not
    name are kept, and no member is merged in depth. -/
def mergeMembers (members patch : List (String × Json)) : List (String × Json) :=
  patch.foldl (fun merged m => setMember merged m.1 m.2) members

/-- Setting a member changes the answer for its name alone. -/
theorem find?_setMember (members : List (String × Json)) (name other : String) (value : Json) :
    find? other (setMember members name value) =
      if other = name then some value else find? other members := by
  induction members with
  | nil =>
    by_cases h : other = name
    · simp [setMember, find?, h]
    · simp [setMember, find?, h, Ne.symm h]
  | cons m rest ih =>
    rw [setMember]
    by_cases hm : m.1 = name
    · by_cases h : other = name
      · simp [find?, hm, h]
      · simp [find?, hm, h, Ne.symm h]
    · rw [if_neg hm]
      simp only [find?] at ih ⊢
      by_cases h : m.1 = other
      · have hne : ¬ other = name := h ▸ hm
        simp [h, hne]
      · simp only [List.find?_cons, h, decide_false]
        exact ih

end Json

end StoragePolicy
