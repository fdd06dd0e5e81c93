import Mathlib.Data.List.Basic
import Mathlib.Data.List.Lattice

/-! Files that lines are appended to: which lines are whole after some appends, of which some break
off before the end of their line. -/
namespace LineLog

section Lines

variable {α : Type} [DecidableEq α] (newline : α)

/-- The lines of a file that are ended. -/
def lines (file : List α) : List (List α) := (file.splitOn newline).dropLast

/-- What is behind the last newline. -/
def remainder (file : List α) : List α := (file.splitOn newline).getLastD []

variable {newline}

theorem splitOn_eq (file : List α) :
    file.splitOn newline = lines newline file ++ [remainder newline file] := by
  have hne := List.splitOn_ne_nil newline file
  rw [lines, remainder, List.getLastD_eq_getLast?, List.getLast?_eq_some_getLast hne,
    Option.getD_some, List.dropLast_append_getLast hne]

/-- A text without a newline goes behind the last one. -/
theorem splitOn_append {text : List α} (h : newline ∉ text) (file : List α) :
    (file ++ text).splitOn newline =
      lines newline file ++ [remainder newline file ++ text] := by
  induction file with
  | nil => exact List.splitOn_eq_singleton h
  | cons a file ih =>
    have hfile : file.splitOn newline = lines newline file ++ [remainder newline file] :=
      splitOn_eq file
    have hcons : (a :: file).splitOn newline =
        lines newline (a :: file) ++ [remainder newline (a :: file)] := splitOn_eq (a :: file)
    rw [List.splitOn_cons_eq_if_modifyHead, hfile] at hcons
    rw [List.cons_append, List.splitOn_cons_eq_if_modifyHead, ih]
    split_ifs at hcons ⊢ with ha
    · rw [← List.cons_append] at hcons
      obtain ⟨hlines, hlast⟩ := List.append_inj' hcons rfl
      rw [← hlines, ← List.singleton_inj.mp hlast, List.cons_append]
    · cases hl : lines newline file with
      | nil =>
        rw [hl, List.nil_append, List.modifyHead_cons, ← List.nil_append [_ :: _]] at hcons
        obtain ⟨hlines, hlast⟩ := List.append_inj' hcons rfl
        rw [← hlines, ← List.singleton_inj.mp hlast]
        rfl
      | cons line rest =>
        rw [hl, List.cons_append, List.modifyHead_cons, ← List.cons_append] at hcons
        obtain ⟨hlines, hlast⟩ := List.append_inj' hcons rfl
        rw [← hlines, ← List.singleton_inj.mp hlast]
        rfl

theorem lines_append {text : List α} (h : newline ∉ text) (file : List α) :
    lines newline (file ++ text) = lines newline file := by
  rw [lines, splitOn_append h, List.dropLast_concat]

theorem remainder_append {text : List α} (h : newline ∉ text) (file : List α) :
    remainder newline (file ++ text) = remainder newline file ++ text := by
  rw [remainder, splitOn_append h, List.getLastD_concat]

theorem splitOn_append_line {line : List α} (h : newline ∉ line) (file : List α) :
    (file ++ (line ++ [newline])).splitOn newline =
      lines newline file ++ [remainder newline file ++ line] ++ [[]] := by
  rw [← List.append_assoc, List.splitOn_append_cons_self, splitOn_append h]
  rfl

/-- A line with its newline ends what was behind the last one. -/
theorem lines_append_line {line : List α} (h : newline ∉ line) (file : List α) :
    lines newline (file ++ (line ++ [newline])) =
      lines newline file ++ [remainder newline file ++ line] := by
  rw [lines, splitOn_append_line h, List.dropLast_concat]

theorem remainder_append_line {line : List α} (h : newline ∉ line) (file : List α) :
    remainder newline (file ++ (line ++ [newline])) = [] := by
  rw [remainder, splitOn_append_line h, List.getLastD_concat]

end Lines

/-! ### Appends -/

/-- What one append writes: a line with its newline, or a part of one. -/
inductive Piece (α : Type) where
  | whole (line : List α)
  | part (text : List α)

namespace Piece

variable {α : Type}

def bytes (newline : α) : Piece α → List α
  | whole line => line ++ [newline]
  | part text => text

def text : Piece α → List α
  | whole text | part text => text

/-- The line that is appended as a whole. -/
def line? : Piece α → Option (List α)
  | whole line => some line
  | part _ => none

/-- Some of a line is written, but not all of it. -/
def Torn : Piece α → Prop
  | whole _ => False
  | part text => text ≠ []

end Piece

section Appends

variable {α : Type} {newline : α}

def appendAll (newline : α) (file : List α) (as : List (Piece α)) : List α :=
  file ++ as.flatMap (Piece.bytes newline)

/-- The lines some appends end, with what was left before them. -/
def ended : List α → List (Piece α) → List (List α)
  | _, [] => []
  | left, .whole line :: as => (left ++ line) :: ended [] as
  | left, .part text :: as => ended (left ++ text) as

/-- Nothing is left where a line is appended. -/
def Clean : List α → List (Piece α) → Prop
  | _, [] => True
  | left, .whole _ :: as => left = [] ∧ Clean [] as
  | left, .part text :: as => Clean (left ++ text) as

variable {as : List (Piece α)}

theorem appendAll_cons (file : List α) (a : Piece α) (as : List (Piece α)) :
    appendAll newline file (a :: as) = appendAll newline (file ++ a.bytes newline) as := by
  rw [appendAll, List.flatMap_cons, ← List.append_assoc]
  rfl

theorem lines_appendAll [DecidableEq α] (h : ∀ a ∈ as, newline ∉ a.text) (file : List α) :
    lines newline (appendAll newline file as) =
      lines newline file ++ ended (remainder newline file) as := by
  induction as generalizing file with
  | nil => rw [appendAll, List.flatMap_nil, List.append_nil, ended, List.append_nil]
  | cons a as ih =>
    have hrest := ih fun b hb => h b (List.mem_cons_of_mem _ hb)
    rw [appendAll_cons, hrest]
    cases a with
    | whole line =>
      have hplain : newline ∉ line := h _ List.mem_cons_self
      rw [Piece.bytes, lines_append_line hplain, remainder_append_line hplain, ended,
        List.append_assoc, List.singleton_append]
    | part text =>
      have hplain : newline ∉ text := h _ List.mem_cons_self
      rw [Piece.bytes, lines_append hplain, remainder_append hplain, ended]

theorem length_ended (left : List α) (as : List (Piece α)) :
    (ended left as).length = (as.filterMap Piece.line?).length := by
  induction as generalizing left with
  | nil => rfl
  | cons a as ih =>
    cases a with
    | whole line => rw [ended, List.length_cons, ih]; rfl
    | part text => rw [ended, ih]; rfl

/-- The lines that are ended are the appended ones exactly if nothing was left before any. -/
theorem ended_eq_iff (left : List α) (as : List (Piece α)) :
    ended left as = as.filterMap Piece.line? ↔ Clean left as := by
  induction as generalizing left with
  | nil => exact iff_of_true rfl trivial
  | cons a as ih =>
    cases a with
    | whole line =>
      have hline : (Piece.whole line :: as).filterMap Piece.line? =
          line :: as.filterMap Piece.line? := rfl
      rw [ended, hline, List.cons.injEq, ih, Clean, List.append_left_eq_self]
    | part text =>
      have hline : (Piece.part text :: as).filterMap Piece.line? =
          as.filterMap Piece.line? := rfl
      rw [ended, hline, ih, Clean]

/-- Nothing is left before any line if nothing is left at the start and no line comes after a part
of one. -/
theorem clean_iff (left : List α) (as : List (Piece α)) : Clean left as ↔
    ((∃ a ∈ as, a.line?.isSome) → left = []) ∧
      as.Pairwise fun a b => a.Torn → b.line? = none := by
  induction as generalizing left with
  | nil => simp [Clean]
  | cons a as ih =>
    cases a with
    | whole line =>
      rw [Clean, ih, List.pairwise_cons]
      constructor
      · rintro ⟨hleft, -, hrest⟩
        exact ⟨fun _ => hleft, fun b _ htorn => htorn.elim, hrest⟩
      · rintro ⟨hleft, -, hrest⟩
        exact ⟨hleft ⟨_, List.mem_cons_self, rfl⟩, fun _ => rfl, hrest⟩
    | part text =>
      rw [Clean, ih, List.pairwise_cons]
      constructor
      · rintro ⟨hleft, hrest⟩
        refine ⟨?_, fun b hb htorn => ?_, hrest⟩
        · rintro ⟨b, hb, hline⟩
          rcases List.mem_cons.mp hb with rfl | hb
          · cases hline
          · exact (List.append_eq_nil_iff.mp (hleft ⟨b, hb, hline⟩)).1
        · by_contra hline
          have hall := hleft ⟨b, hb, Option.isSome_iff_ne_none.mpr hline⟩
          exact htorn (List.append_eq_nil_iff.mp hall).2
      · rintro ⟨hleft, htorn, hrest⟩
        refine ⟨?_, hrest⟩
        rintro ⟨b, hb, hline⟩
        have htext : text = [] := by
          by_contra hne
          rw [htorn b hb hne] at hline
          cases hline
        rw [hleft ⟨b, List.mem_cons_of_mem _ hb, hline⟩, htext]
        rfl

/-- The appended lines are there, each as a line that was not there before, exactly if nothing was
left before any of them. -/
theorem sublist_lines_iff [DecidableEq α] (h : ∀ a ∈ as, newline ∉ a.text) (file : List α) :
    (as.filterMap Piece.line?).Sublist
        ((lines newline (appendAll newline file as)).drop (lines newline file).length) ↔
      ((∃ a ∈ as, a.line?.isSome) → remainder newline file = []) ∧
        as.Pairwise fun a b => a.Torn → b.line? = none := by
  rw [lines_appendAll h, List.drop_left, ← clean_iff, ← ended_eq_iff]
  constructor
  · intro hsub
    exact (hsub.eq_of_length (length_ended _ _).symm).symm
  · intro heq
    rw [heq]

end Appends

end LineLog
