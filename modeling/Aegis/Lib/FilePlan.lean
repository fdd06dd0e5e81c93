import Aegis.Lib.FileRun

/-! The operations that a program performs one after another, up to the first fault. -/
namespace FileTree
open Text

/-- An operation: one that changes nothing, a write to an open file, or a removal. -/
inductive Act where
  | ask
  | write (q : Path) (offset : ℕ) (bytes : Bytes)
  | unlink (q : Path)
  deriving DecidableEq

namespace Act

/-- The place that it writes to or removes. -/
def place : Act → Option Path
  | ask => none
  | write q _ _ | unlink q => some q

def effect : Act → Tree → Tree
  | ask, t => t
  | write q offset bytes, t => t.spliceAt q offset bytes
  | unlink q, t => t.remove q

/-- What is left of it after a fault. -/
def cut : Act → ℕ → Tree → Tree
  | write q offset bytes, n, t => t.spliceAt q offset (bytes.take n)
  | ask, _, t => t
  | unlink _, _, t => t

/-- The operation that does what a fault leaves of it. -/
def trim : Act → ℕ → Act
  | write q offset bytes, n => write q offset (bytes.take n)
  | ask, _ | unlink _, _ => ask

end Act

/-- The tree after the operations. -/
def effects (as : List Act) (t : Tree) : Tree := as.foldl (fun t a => a.effect t) t

/-- The operations up to the first fault. -/
def play : List Act → World → Option Fault × World
  | [], w => (none, w)
  | a :: as, w =>
    match w.fault 0 with
    | some f => (some f, w.next (a.cut f.progress w.tree))
    | none => play as (w.next (a.effect w.tree))

variable {as bs : List Act} {w w' : World} {f : Fault} {t : Tree}

@[simp] theorem effects_nil (t : Tree) : effects [] t = t := rfl

@[simp] theorem effects_cons (a : Act) (as : List Act) (t : Tree) :
    effects (a :: as) t = effects as (a.effect t) := rfl

theorem effects_append (as bs : List Act) (t : Tree) :
    effects (as ++ bs) t = effects bs (effects as t) :=
  List.foldl_append

theorem effects_replicate_ask (n : ℕ) (t : Tree) : effects (List.replicate n .ask) t = t := by
  induction n with
  | zero => rfl
  | succ n ih => exact ih

/-- What is removed is gone, and the rest stays. -/
theorem node_effects_unlink {ps : List Path} {p : Path} (hp : p ≠ []) :
    (effects (ps.map .unlink) t).node p = if p ∈ ps then none else t.node p := by
  induction ps generalizing t with
  | nil => rw [if_neg List.not_mem_nil]; rfl
  | cons q ps ih =>
    rw [List.map_cons, effects_cons, ih, Act.effect]
    by_cases hrest : p ∈ ps
    · rw [if_pos hrest, if_pos (List.mem_cons_of_mem _ hrest)]
    · rw [if_neg hrest]
      by_cases hq : p = q
      · subst hq
        rw [if_pos List.mem_cons_self, Tree.node_remove_self hp]
      · rw [if_neg (by simp [hq, hrest]), Tree.node_remove_of_ne hq]

theorem play_faultless (as : List Act) (t : Tree) :
    play as ⟨t, []⟩ = (none, ⟨effects as t, []⟩) := by
  induction as generalizing t with
  | nil => rfl
  | cons a as ih => exact ih _

theorem play_append (as bs : List Act) (w : World) : play (as ++ bs) w = match play as w with
    | (none, u) => play bs u
    | (some f, u) => (some f, u) := by
  induction as generalizing w with
  | nil => rfl
  | cons a as ih =>
    rw [List.cons_append, play, play]
    cases w.fault 0 with
    | some f => rfl
    | none => exact ih _

/-- Operations that meet no fault are all performed. -/
theorem play_eq_none (h : play as w = (none, w')) : w'.tree = effects as w.tree := by
  induction as generalizing w with
  | nil =>
    cases h
    rfl
  | cons a as ih =>
    rw [play] at h
    cases hf : w.fault 0 with
    | some f =>
      rw [hf] at h
      cases h
    | none =>
      rw [hf] at h
      exact ih h

/-- No fault among the operations is none among the first of them. -/
theorem play_left (h : play (as ++ bs) w = (none, w')) : ∃ u, play as w = (none, u) := by
  rw [play_append] at h
  rcases hplay : play as w with ⟨_ | f, u⟩
  · exact ⟨u, rfl⟩
  · rw [hplay] at h
    cases h

/-- What is performed up to the first fault, with what is left of the operation that meets it. -/
def performed : List Act → List (Option Fault) → List Act
  | [], _ => []
  | a :: as, faults =>
    match faults.head?.join with
    | some f => [a.trim f.progress]
    | none => a :: performed as faults.tail

theorem Act.effect_trim (a : Act) (n : ℕ) (t : Tree) : (a.trim n).effect t = a.cut n t := by
  cases a <;> rfl

theorem World.fault_zero (w : World) : w.fault 0 = w.faults.head?.join := by
  rw [World.fault, List.head?_eq_getElem?]

/-- The operations leave what those performed do. -/
theorem tree_play (as : List Act) (w : World) :
    (play as w).2.tree = effects (performed as w.faults) w.tree := by
  induction as generalizing w with
  | nil => rfl
  | cons a as ih =>
    rw [play, performed, World.fault_zero]
    cases w.faults.head?.join with
    | some f => exact (a.effect_trim f.progress w.tree).symm
    | none => exact ih _

/-- Operations that come before the first fault are performed. -/
theorem performed_append (as bs : List Act) (faults : List (Option Fault)) :
    performed (as ++ bs) (List.replicate as.length none ++ faults) = as ++ performed bs faults := by
  induction as with
  | nil => rfl
  | cons a as ih =>
    show a :: performed (as ++ bs) (List.replicate as.length none ++ faults) = _
    rw [ih, List.cons_append]

theorem performed_of_play (h : play as w = (none, w')) : performed as w.faults = as := by
  induction as generalizing w with
  | nil => rfl
  | cons a as ih =>
    rw [play, World.fault_zero] at h
    rw [performed]
    cases hf : w.faults.head?.join with
    | some f =>
      rw [hf] at h
      cases h
    | none =>
      rw [hf] at h
      have hrest : performed as w.faults.tail = as := ih h
      simp only [hrest]

/-- The first of the operations are performed, and a part of one more. -/
theorem performed_cases (as : List Act) (faults : List (Option Fault)) :
    performed as faults = as ∨ ∃ before a n after, as = before ++ a :: after ∧
      performed as faults = before ++ [a.trim n] := by
  induction as generalizing faults with
  | nil => exact .inl rfl
  | cons a as ih =>
    rw [performed]
    cases faults.head?.join with
    | some f => exact .inr ⟨[], a, f.progress, as, rfl, rfl⟩
    | none =>
      rcases ih faults.tail with hall | ⟨before, b, n, after, has, hdone⟩
      · exact .inl (by simp only [hall])
      · exact .inr ⟨a :: before, b, n, after, by rw [has, List.cons_append],
          by simp only [hdone, List.cons_append]⟩

namespace Run

variable {α β ε : Type} {m : Run IoError α} {a : α} {b : β}

/-- The program performs the operations and returns, or stops at the first fault with its error. -/
def Follows (m : Run IoError α) (t : Tree) (as : List Act) (a : α) : Prop :=
  ∀ faults, eval m ⟨t, faults⟩ = match play as ⟨t, faults⟩ with
    | (none, u) => (.ok a, u)
    | (some f, u) => (.error (.other f.text), u)

theorem Follows.faultless (h : Follows m t as a) :
    eval m ⟨t, []⟩ = (.ok a, ⟨effects as t, []⟩) := by
  rw [h, play_faultless]

/-- A program that succeeds has performed its operations. -/
theorem Follows.of_ok {a' : α} (h : Follows m w.tree as a) (hok : (eval m w).1 = .ok a') :
    ∃ u, play as w = (none, u) ∧ eval m w = (.ok a, u) := by
  have heval := h w.faults
  rcases hplay : play as w with ⟨_ | f, u⟩
  · rw [show play as ⟨w.tree, w.faults⟩ = (none, u) from hplay] at heval
    exact ⟨u, rfl, heval⟩
  · rw [show play as ⟨w.tree, w.faults⟩ = (some f, u) from hplay] at heval
    rw [show eval m w = _ from heval] at hok
    cases hok

theorem Follows.tree (h : Follows m t as a) (faults : List (Option Fault)) :
    (eval m ⟨t, faults⟩).2.tree = effects (performed as faults) t := by
  have htree := tree_play as ⟨t, faults⟩
  rw [h faults]
  rcases hplay : play as ⟨t, faults⟩ with ⟨_ | f, u⟩
  · rw [hplay] at htree
    exact htree
  · rw [hplay] at htree
    exact htree

/-- A program that succeeds has performed them all. -/
theorem Follows.performed_of_ok {faults : List (Option Fault)} {a' : α} (h : Follows m t as a)
    (hok : (eval m ⟨t, faults⟩).1 = .ok a') : performed as faults = as := by
  obtain ⟨u, hplay, -⟩ := h.of_ok (w := ⟨t, faults⟩) hok
  exact performed_of_play hplay

theorem Follows.pure (a : α) (t : Tree) : Follows (pure a) t [] a := fun _ => rfl

theorem Follows.bind {g : α → Run IoError β} (hm : Follows m t as a)
    (hg : Follows (g a) (effects as t) bs b) : Follows (m >>= g) t (as ++ bs) b := by
  intro faults
  rw [eval_bind, hm faults, play_append]
  rcases hplay : play as ⟨t, faults⟩ with ⟨_ | f, u⟩
  · have htree := play_eq_none hplay
    have hu := hg u.faults
    rw [← htree] at hu
    exact hu
  · rfl

/-- A program that passes an error of another on. -/
theorem Follows.attempt {g : Except IoError α → Run IoError β} (hm : Follows m t as a)
    (herr : ∀ text, g (.error (.other text)) = throw (.other text))
    (hg : Follows (g (.ok a)) (effects as t) bs b) :
    Follows (Run.attempt m >>= g) t (as ++ bs) b := by
  intro faults
  rw [eval_bind, eval_attempt, hm faults, play_append]
  rcases hplay : play as ⟨t, faults⟩ with ⟨_ | f, u⟩
  · have htree := play_eq_none hplay
    have hu := hg u.faults
    rw [← htree] at hu
    exact hu
  · simp only [herr]
    rfl

theorem Follows.query {ask : Tree → Except IoError α} (h : ask t = .ok a) :
    Follows (query ask) t [.ask] a := by
  intro faults
  rw [eval_query_met, play]
  cases World.fault ⟨t, faults⟩ 0 with
  | some f => rfl
  | none =>
    simp only [h]
    rfl

theorem Follows.writeAll (q : Path) (offset : ℕ) (bytes : Bytes) (t : Tree) :
    Follows (writeAll q offset bytes) t [.write q offset bytes] () := by
  intro faults
  rw [Run.writeAll, eval_fallible_met, play]
  cases World.fault ⟨t, faults⟩ 0 <;> rfl

theorem Follows.unlink (q : Path) (t : Tree) :
    Follows (Run.change fun t => .ok ((), t.remove q)) t [.unlink q] () := by
  intro faults
  rw [Run.change, eval_fallible_met, play]
  cases World.fault ⟨t, faults⟩ 0 <;> rfl

theorem Follows.unlinkAll (ps : List Path) (t : Tree) :
    Follows (unlinkAll ps) t (ps.map .unlink) () := by
  induction ps generalizing t with
  | nil => exact .pure () t
  | cons p ps ih => exact (Follows.unlink p t).bind (ih _)

theorem Follows.removeDirAll {p : Path} {ps : List Path} (h : t.doomed p = .ok ps) :
    Follows (removeDirAll p) t (.ask :: ps.map .unlink) () :=
  (Follows.query h).bind (.unlinkAll ps t)

end Run
end FileTree
