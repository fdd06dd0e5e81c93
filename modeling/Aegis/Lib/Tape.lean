import Mathlib.Data.List.Basic
import Mathlib.Data.Nat.Notation

/-! A tape that is read once, from front to back: what is read in pieces lies apart on it. -/
namespace Tape

variable {α : Type}

/-- The `n` symbols of the tape from `pos` on. -/
def window (tape : ℕ → α) (pos n : ℕ) : List α := (List.range n).map fun i => tape (pos + i)

@[simp] theorem length_window (tape : ℕ → α) (pos n : ℕ) : (window tape pos n).length = n := by
  simp [window]

/-- Every list is read from some tape. -/
theorem exists_window [Inhabited α] (as : List α) : ∃ tape, window tape 0 as.length = as := by
  refine ⟨fun i => as.getD i default, List.ext_getElem (by simp) fun i hi _ => ?_⟩
  rw [length_window] at hi
  simp [window, hi]

/-- Lists read in turn between two places of the tape, with some of the tape passed over. -/
inductive Pieces (tape : ℕ → α) : ℕ → List (List α) → ℕ → Prop
  | done (pos : ℕ) : Pieces tape pos [] pos
  | pass {pos stop : ℕ} {ps : List (List α)} (n : ℕ) (h : Pieces tape (pos + n) ps stop) :
    Pieces tape pos ps stop
  | take {pos stop : ℕ} {ps : List (List α)} (n : ℕ) (h : Pieces tape (pos + n) ps stop) :
    Pieces tape pos (window tape pos n :: ps) stop

namespace Pieces

variable {tape : ℕ → α} {pos mid stop : ℕ} {ps qs : List (List α)}

theorem append (h : Pieces tape pos ps mid) (hq : Pieces tape mid qs stop) :
    Pieces tape pos (ps ++ qs) stop := by
  induction h with
  | done pos => exact hq
  | pass n _ ih => exact .pass n (ih hq)
  | take n _ ih => exact .take n (ih hq)

/-- A piece is a window of the tape behind the start. -/
theorem window_of_mem (h : Pieces tape pos ps stop) {p : List α} (hp : p ∈ ps) :
    ∃ a, pos ≤ a ∧ p = window tape a p.length := by
  induction h with
  | done pos => cases hp
  | @pass pos stop ps n _ ih =>
    obtain ⟨a, hle, heq⟩ := ih hp
    exact ⟨a, Nat.le_trans (Nat.le_add_right pos n) hle, heq⟩
  | @take pos stop ps n _ ih =>
    rcases List.mem_cons.mp hp with rfl | hp
    · exact ⟨pos, Nat.le_refl pos, by rw [length_window]⟩
    · obtain ⟨a, hle, heq⟩ := ih hp
      exact ⟨a, Nat.le_trans (Nat.le_add_right pos n) hle, heq⟩

/-- Of two pieces the one read first ends before the other begins. -/
theorem pairwise_apart (h : Pieces tape pos ps stop) : ps.Pairwise fun p q =>
    ∃ a b, pos ≤ a ∧ a + p.length ≤ b ∧ p = window tape a p.length ∧ q = window tape b q.length := by
  induction h with
  | done pos => exact .nil
  | @pass pos stop ps n _ ih =>
    exact ih.imp fun ⟨a, b, ha, hab, hp, hq⟩ =>
      ⟨a, b, Nat.le_trans (Nat.le_add_right pos n) ha, hab, hp, hq⟩
  | @take pos stop ps n hrest ih =>
    refine .cons (fun q hq => ?_) (ih.imp fun ⟨a, b, ha, hab, hp, hq⟩ =>
      ⟨a, b, Nat.le_trans (Nat.le_add_right pos n) ha, hab, hp, hq⟩)
    obtain ⟨b, hle, heq⟩ := hrest.window_of_mem hq
    exact ⟨pos, b, Nat.le_refl pos, by rwa [length_window], by rw [length_window], heq⟩

end Pieces

end Tape
