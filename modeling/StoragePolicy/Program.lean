/-!
# Programs

A program is a computation that makes calls to its surroundings, one at a time, and goes on with
what they reply. What the calls do is not part of the program: it is run against a state that
answers them, or stepped call by call beside other programs. Every program is a finite tree, so
that both end.

## Main definitions

* `Interface`: The calls a program can make, and the type of each reply.
* `Program`: The programs over an interface.
* `Program.run`: Runs a program against a state.
* `Program.embed`: A program over one interface as a program over another.

## Theorems

* `run_bind`: Running one program after another.
* `run_embed`: Running an embedded program.
-/

namespace StoragePolicy

/-- The calls that a program can make, each with the type of its reply. -/
structure Interface where
  Call : Type
  Reply : Call → Type

/-- A program over an interface, ending in a value of type `α`. -/
inductive Program (I : Interface) (α : Type) : Type where
  /-- Ends with a value. -/
  | done (a : α)
  /-- Makes a call and goes on with its reply. -/
  | call (c : I.Call) (next : I.Reply c → Program I α)

namespace Program

variable {I J : Interface} {α β γ σ : Type}

/-- Runs one program and then another with its value. -/
def bind : Program I α → (α → Program I β) → Program I β
  | .done a, f => f a
  | .call c next, f => .call c fun r => (next r).bind f

instance : Monad (Program I) where
  pure := .done
  bind := bind

/-- Makes one call and ends with its reply. -/
def perform (c : I.Call) : Program I (I.Reply c) := .call c .done

/-- Runs a program against a state that replies to each call. -/
def run (exec : (c : I.Call) → σ → I.Reply c × σ) : Program I α → σ → α × σ
  | .done a, s => (a, s)
  | .call c next, s =>
    let (r, s) := exec c s
    (next r).run exec s

/-- A program over one interface as a program over another, given the call that stands for each
    call. -/
def embed (map : (c : I.Call) → Program J (I.Reply c)) : Program I α → Program J α
  | .done a => .done a
  | .call c next => (map c).bind fun r => (next r).embed map

@[simp] theorem pure_eq_done (a : α) : (pure a : Program I α) = .done a := rfl

@[simp] theorem bind_eq_bind (p : Program I α) (f : α → Program I β) : p >>= f = p.bind f := rfl

@[simp] theorem done_bind (a : α) (f : α → Program I β) : (done a).bind f = f a := rfl

@[simp] theorem call_bind (c : I.Call) (next : I.Reply c → Program I α) (f : α → Program I β) :
    (call c next).bind f = .call c fun r => (next r).bind f := rfl

/-- A program followed by nothing is that program. -/
theorem bind_done (p : Program I α) : p.bind .done = p := by
  induction p with
  | done a => rfl
  | call c next ih => simp only [call_bind, ih]

/-- Three programs in a row may be grouped either way. -/
theorem bind_assoc (p : Program I α) (f : α → Program I β) (g : β → Program I γ) :
    (p.bind f).bind g = p.bind fun a => (f a).bind g := by
  induction p with
  | done a => rfl
  | call c next ih => simp only [call_bind, ih]

instance : LawfulMonad (Program I) :=
  LawfulMonad.mk' (Program I) bind_done (fun _ _ => rfl) bind_assoc

/-- Running one program after another hands the state on. -/
theorem run_bind (exec : (c : I.Call) → σ → I.Reply c × σ) (p : Program I α)
    (f : α → Program I β) (s : σ) :
    (p.bind f).run exec s = (f (p.run exec s).1).run exec (p.run exec s).2 := by
  induction p generalizing s with
  | done a => rfl
  | call c next ih => simp only [call_bind, run, ih]

/-- Running an embedded program is running the program, if each call that stands for another
    does the same to the part of the state which that one knows. -/
theorem run_embed {τ : Type} (exec : (c : I.Call) → σ → I.Reply c × σ)
    (exec' : (c : J.Call) → τ → J.Reply c × τ) (map : (c : I.Call) → Program J (I.Reply c))
    (view : τ → σ) (put : τ → σ → τ) (hput : ∀ t, put t (view t) = t)
    (hview : ∀ t s, view (put t s) = s) (hputput : ∀ t s s', put (put t s) s' = put t s')
    (hmap : ∀ c t, (map c).run exec' t = ((exec c (view t)).1, put t (exec c (view t)).2))
    (p : Program I α) (t : τ) :
    (p.embed map).run exec' t = ((p.run exec (view t)).1, put t (p.run exec (view t)).2) := by
  induction p generalizing t with
  | done a => simp only [embed, run, hput]
  | call c next ih => simp only [embed, run_bind, hmap, ih, run, hview, hputput]

end Program

end StoragePolicy
