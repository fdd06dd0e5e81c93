import Aegis.Lib.Program
import Mathlib.Tactic.Basic

/-! What a procedure returns, and what it has asked by then, where every reply is one that a
contract allows; and procedures whose commands other procedures carry out. -/
namespace Program

variable {κ κ' σ : Type} {Reply : κ → Type} {Reply' : κ' → Type} {α β : Type}

/-- A command with the reply to it. -/
abbrev Exchange (Reply : κ → Type) := Σ c, Reply c

/-- The exchanges of a run, in their order. -/
def trace (answer : σ → (c : κ) → Reply c × σ) : Program Reply α → σ → List (Exchange Reply)
  | done _, _ => []
  | issue c next, s =>
    ⟨c, (answer s c).1⟩ :: trace answer (next (answer s c).1) (answer s c).2

/-! ### Contracts -/

/-- Whatever replies the contract allows, the exchanges and the result satisfy the
postcondition. -/
def Ensures (allows : (c : κ) → Reply c → Prop) :
    Program Reply α → (List (Exchange Reply) → α → Prop) → Prop
  | done a, post => post [] a
  | issue c next, post => ∀ r, allows c r → Ensures allows (next r) fun t => post (⟨c, r⟩ :: t)

section Ensures

variable {allows allows' : (c : κ) → Reply c → Prop} {p : Program Reply α}
  {post post' : List (Exchange Reply) → α → Prop}

@[simp]
theorem ensures_pure {a : α} : Ensures allows (pure a) post ↔ post [] a := Iff.rfl

@[simp]
theorem ensures_command {c : κ} {post : List (Exchange Reply) → Reply c → Prop} :
    Ensures allows (command c) post ↔ ∀ r, allows c r → post [⟨c, r⟩] r := Iff.rfl

theorem Ensures.mono (h : Ensures allows p post) (himp : ∀ t a, post t a → post' t a) :
    Ensures allows p post' := by
  induction p generalizing post post' with
  | done a => exact himp [] a h
  | issue c next ih => exact fun r hr => ih r (h r hr) fun t a => himp (⟨c, r⟩ :: t) a

/-- A contract that allows less ensures as much. -/
theorem Ensures.weaken (h : Ensures allows p post) (himp : ∀ c r, allows' c r → allows c r) :
    Ensures allows' p post := by
  induction p generalizing post with
  | done a => exact h
  | issue c next ih => exact fun r hr => ih r (h r (himp c r hr))

theorem Ensures.and (h : Ensures allows p post) (h' : Ensures allows p post') :
    Ensures allows p fun t a => post t a ∧ post' t a := by
  induction p generalizing post post' with
  | done a => exact ⟨h, h'⟩
  | issue c next ih => exact fun r hr => ih r (h r hr) (h' r hr)

@[simp]
theorem ensures_bind {f : α → Program Reply β} {post : List (Exchange Reply) → β → Prop} :
    Ensures allows (p >>= f) post ↔
      Ensures allows p fun t a => Ensures allows (f a) fun u => post (t ++ u) := by
  show Ensures allows (p.bind f) post ↔ _
  induction p generalizing post with
  | done a => exact Iff.rfl
  | issue c next ih => exact forall₂_congr fun r _ => ih r

/-- A run whose replies the contract allows ends as the procedure ensures. -/
theorem Ensures.run {answer : σ → (c : κ) → Reply c × σ} (h : Ensures allows p post)
    (hallows : ∀ s c, allows c (answer s c).1) (s : σ) :
    post (trace answer p s) (Program.run answer p s).1 := by
  induction p generalizing post s with
  | done a => exact h
  | issue c next ih => exact ih _ (h _ (hallows s c)) _

end Ensures

/-! ### Substitution -/

/-- The procedure with each command carried out by a procedure of its own. -/
def through (impl : (c : κ) → Program Reply' (Reply c)) : Program Reply α → Program Reply' α
  | done a => pure a
  | issue c next => impl c >>= fun r => (next r).through impl

variable {impl : (c : κ) → Program Reply' (Reply c)} {p : Program Reply α}

@[simp]
theorem through_pure (a : α) : (pure a : Program Reply α).through impl = pure a := rfl

@[simp]
theorem through_command (c : κ) : (command c).through impl = impl c := bind_done (impl c)

@[simp]
theorem through_bind (f : α → Program Reply β) :
    (p >>= f).through impl = p.through impl >>= fun a => (f a).through impl := by
  show (p.bind f).through impl = _
  induction p with
  | done a => rfl
  | issue c next ih =>
    show (impl c >>= fun r => ((next r).bind f).through impl) = _
    simp only [ih, through, bind_assoc]

/-- The outer procedure runs as if each of its commands were answered by the inner run. -/
theorem run_through {answer : σ → (c : κ') → Reply' c × σ} (s : σ) :
    run answer (p.through impl) s = run (fun s c => run answer (impl c) s) p s := by
  induction p generalizing s with
  | done a => rfl
  | issue c next ih =>
    show run answer (impl c >>= fun r => (next r).through impl) s = _
    rw [run_bind, ih]
    rfl

/-- Inner exchanges that carry out the outer ones one after the other. -/
inductive Carried (made : (c : κ) → Reply c → List (Exchange Reply') → Prop) :
    List (Exchange Reply) → List (Exchange Reply') → Prop where
  | nil : Carried made [] []
  | cons {c : κ} {r : Reply c} {outer : List (Exchange Reply)} {t inner : List (Exchange Reply')}
      (hmade : made c r t) (hrest : Carried made outer inner) :
      Carried made (⟨c, r⟩ :: outer) (t ++ inner)

/-- Every inner exchange is there for an outer one. -/
theorem Carried.exists_of_mem {made : (c : κ) → Reply c → List (Exchange Reply') → Prop}
    {outer : List (Exchange Reply)} {inner : List (Exchange Reply')} {y : Exchange Reply'}
    (h : Carried made outer inner) (hy : y ∈ inner) :
    ∃ c r t, ⟨c, r⟩ ∈ outer ∧ made c r t ∧ y ∈ t := by
  induction h with
  | nil => cases hy
  | cons hmade _ ih =>
    rcases List.mem_append.mp hy with hy | hy
    · exact ⟨_, _, _, .head _, hmade, hy⟩
    · obtain ⟨c, r, t, hmem, hmade', hyt⟩ := ih hy
      exact ⟨c, r, t, .tail _ hmem, hmade', hyt⟩

/-- Something happens in the outer exchanges exactly where it shows in the inner ones, if it does so
exchange by exchange. -/
theorem Carried.exists_iff {made : (c : κ) → Reply c → List (Exchange Reply') → Prop}
    {outer : List (Exchange Reply)} {inner : List (Exchange Reply')}
    {p : Exchange Reply → Prop} {q : Exchange Reply' → Prop} (h : Carried made outer inner)
    (hiff : ∀ c r t, ⟨c, r⟩ ∈ outer → made c r t → (p ⟨c, r⟩ ↔ ∃ y ∈ t, q y)) :
    (∃ x ∈ outer, p x) ↔ ∃ y ∈ inner, q y := by
  induction h with
  | nil => simp
  | cons hmade _ ih =>
    have hhead := hiff _ _ _ (.head _) hmade
    have htail := ih fun c r t hmem => hiff c r t (.tail _ hmem)
    simp only [List.mem_cons, List.mem_append, or_and_right, exists_or, exists_eq_left, hhead,
      htail]

/-- Where each command is passed on as one, so is the trace. -/
theorem Carried.eq_map {f : Exchange Reply → Exchange Reply'} {outer : List (Exchange Reply)}
    {inner : List (Exchange Reply')} (h : Carried (fun c r t => t = [f ⟨c, r⟩]) outer inner) :
    inner = outer.map f := by
  induction h with
  | nil => rfl
  | cons hmade _ ih =>
    subst hmade
    rw [ih]
    rfl

/-- What the outer procedure ensures of its exchanges, the whole ensures of the inner ones that
carry them out, where the inner procedures keep the outer contract. -/
theorem Ensures.through {allows : (c : κ) → Reply c → Prop}
    {allows' : (c : κ') → Reply' c → Prop}
    {made : (c : κ) → Reply c → List (Exchange Reply') → Prop}
    {post : List (Exchange Reply) → α → Prop}
    (himpl : ∀ c, Ensures allows' (impl c) fun t r => allows c r ∧ made c r t)
    (h : Ensures allows p post) :
    Ensures allows' (p.through impl) fun t a => ∃ outer, post outer a ∧ Carried made outer t := by
  induction p generalizing post with
  | done a => exact ⟨[], h, .nil⟩
  | issue c next ih =>
    apply ensures_bind.mpr
    apply (himpl c).mono
    rintro t r ⟨hallows, hmade⟩
    apply (ih r (h r hallows)).mono
    rintro inner a ⟨outer, hpost, hinner⟩
    exact ⟨⟨c, r⟩ :: outer, hpost, .cons hmade hinner⟩

end Program
