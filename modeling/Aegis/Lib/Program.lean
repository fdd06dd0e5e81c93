import Mathlib.Logic.Function.Basic

/-! Procedures that issue commands one at a time and go on by the replies: their runs, and what
they keep to when other parties move the state between their commands. -/

/-- A procedure is done, or it issues a command and goes on by the reply. -/
inductive Program {κ : Type} (Reply : κ → Type) (α : Type) where
  | done (a : α)
  | issue (c : κ) (next : Reply c → Program Reply α)

namespace Program

variable {κ σ : Type} {Reply : κ → Type} {α β : Type}

def bind : Program Reply α → (α → Program Reply β) → Program Reply β
  | done a, f => f a
  | issue c next, f => issue c fun r => (next r).bind f

instance : Monad (Program Reply) where
  pure := done
  bind := bind

/-- The procedure that issues one command and returns its reply. -/
def command (c : κ) : Program Reply (Reply c) := issue c done

@[simp]
theorem bind_done (p : Program Reply α) : p.bind done = p := by
  induction p with
  | done a => rfl
  | issue c next ih => exact congrArg (issue c) (funext ih)

theorem bind_bind {γ : Type} (p : Program Reply α) (f : α → Program Reply β)
    (g : β → Program Reply γ) : (p.bind f).bind g = p.bind fun a => (f a).bind g := by
  induction p with
  | done a => rfl
  | issue c next ih => exact congrArg (issue c) (funext ih)

instance : LawfulMonad (Program Reply) :=
  .mk' (Program Reply) (fun p => bind_done p) (fun _ _ => rfl) bind_bind

/-- Carry out every command of a procedure, one after the other. -/
def run (answer : σ → (c : κ) → Reply c × σ) : Program Reply α → σ → α × σ
  | done a, s => (a, s)
  | issue c next, s => run answer (next (answer s c).1) (answer s c).2

section Run

variable {answer : σ → (c : κ) → Reply c × σ}

@[simp]
theorem run_pure (a : α) (s : σ) : run answer (pure a : Program Reply α) s = (a, s) := rfl

@[simp]
theorem run_command (c : κ) (s : σ) : run answer (command c) s = answer s c := rfl

/-- The second part of a procedure runs from where the first ended. -/
@[simp]
theorem run_bind (p : Program Reply α) (f : α → Program Reply β) (s : σ) :
    run answer (p >>= f) s = run answer (f (run answer p s).1) (run answer p s).2 := by
  show run answer (p.bind f) s = _
  induction p generalizing s with
  | done a => rfl
  | issue c next ih =>
    show run answer ((next (answer s c).1).bind f) (answer s c).2 = _
    rw [ih]
    rfl

end Run

/-- Every command of a procedure is issued in a state that allows it, however the state moves
within `rely` before each of them. -/
def Safe (step : σ → (c : κ) → Reply c → σ → Prop) (rely : σ → σ → Prop) (ok : σ → κ → Prop) :
    Program Reply α → σ → Prop
  | done _, _ => True
  | issue c next, s => ∀ t, rely s t → ok t c ∧ ∀ r u, step t c r u → Safe step rely ok (next r) u

section Safe

variable {step : σ → (c : κ) → Reply c → σ → Prop} {rely : σ → σ → Prop} {ok : σ → κ → Prop}

theorem safe_command_bind {c : κ} {f : Reply c → Program Reply α} {s : σ} :
    Safe step rely ok (command c >>= f) s ↔
      ∀ t, rely s t → ok t c ∧ ∀ r u, step t c r u → Safe step rely ok (f r) u := Iff.rfl

/-- A safe procedure stays so where one follows it that is safe anywhere. -/
theorem Safe.bind {p : Program Reply α} {f : α → Program Reply β} {s : σ}
    (h : Safe step rely ok p s) (hf : ∀ a t, Safe step rely ok (f a) t) :
    Safe step rely ok (p >>= f) s := by
  show Safe step rely ok (p.bind f) s
  induction p generalizing s with
  | done a => exact hf a s
  | issue c next ih =>
    intro t ht
    exact ⟨(h t ht).1, fun r u hu => ih r ((h t ht).2 r u hu)⟩

/-- What the other parties do leaves a procedure safe. -/
theorem Safe.of_rely (htrans : ∀ s t u, rely s t → rely t u → rely s u) {p : Program Reply α}
    {s t : σ} (h : Safe step rely ok p s) (ht : rely s t) : Safe step rely ok p t := by
  cases p with
  | done a => trivial
  | issue c next => exact fun u hu => h u (htrans s t u ht hu)

variable {c : κ} {next : Reply c → Program Reply α} {s : σ}

/-- The command that comes next is allowed where it is issued. -/
theorem Safe.allowed (hrefl : ∀ s, rely s s) (h : Safe step rely ok (issue c next) s) : ok s c :=
  (h s (hrefl s)).1

/-- Its own commands leave a procedure safe. -/
theorem Safe.answered (hrefl : ∀ s, rely s s) (h : Safe step rely ok (issue c next) s)
    {r : Reply c} {u : σ} (hu : step s c r u) : Safe step rely ok (next r) u :=
  (h s (hrefl s)).2 r u hu

end Safe

end Program
