import Aegis.Lib.Text
import Mathlib.Algebra.GroupWithZero.Nat
import Mathlib.Data.List.Forall2

/-! Tables of text in left-aligned columns, and their cells read back from the lines. -/
namespace Table

abbrev Cell := List Char

/-- The widths of the columns, those of their widest cells. -/
def widths (header : List Cell) (rows : List (List Cell)) : List ℕ :=
  rows.foldl (fun ws row => List.zipWith (fun w cell => max w cell.length) ws row)
    (header.map List.length)

/-- The cells of a row beside the widths of their columns; every one but the last is padded to its
column and a gutter of two spaces. -/
def padded : List (ℕ × Cell) → List Char
  | [] => []
  | [(_, cell)] => cell
  | (w, cell) :: rest => cell ++ List.replicate (w - cell.length + 2) ' ' ++ padded rest

/-- The lines of the rows, each ended. -/
def text (ws : List ℕ) (rows : List (List Cell)) : List Char :=
  rows.flatMap fun row => padded (ws.zip row) ++ ['\n']

/-- The table without the whitespace at its end. -/
def render (header : List Cell) (rows : List (List Cell)) : List Char :=
  Text.trimEnd (text (widths header rows) (header :: rows))

/-! ### Reading back -/

/-- A line cut at the columns of these widths. -/
def cut : List ℕ → List Char → List Cell
  | [], _ => []
  | [_], line => [line]
  | w :: ws, line => line.take w :: cut ws (line.drop (w + 2))

/-- A cell without the spaces behind it. -/
def bare (cell : Cell) : Cell := cell.rdropWhile (· = ' ')

/-- The cells of every line. -/
def read (ws : List ℕ) (cs : List Char) : List (List Cell) :=
  (cs.splitOn '\n').map fun line => (cut ws line).map bare

theorem bare_append_spaces (cell : Cell) (n : ℕ) :
    bare (cell ++ List.replicate n ' ') = bare cell := by
  unfold bare
  induction n with
  | zero => rw [List.replicate_zero, List.append_nil]
  | succ n ih =>
    rw [List.replicate_succ', ← List.append_assoc, List.rdropWhile_concat_pos _ _ _ (by decide), ih]

/-- No cell is wider than its column. -/
def Fits (ws : List ℕ) (row : List Cell) : Prop :=
  List.Forall₂ (fun w cell => cell.length ≤ w) ws row

theorem cut_padded {ws : List ℕ} {row : List Cell} (h : Fits ws row) :
    (cut ws (padded (ws.zip row))).map bare = row.map bare := by
  induction h with
  | nil => rfl
  | @cons w cell ws row hfits hrest ih =>
    cases hrest with
    | nil => rfl
    | @cons w' cell' ws row hfits' hrest =>
      have hlen : (cell ++ List.replicate (w - cell.length + 2) ' ').length = w + 2 := by
        simp only [List.length_append, List.length_replicate]
        omega
      have htake : (cell ++ List.replicate (w - cell.length + 2) ' ').take w =
          cell ++ List.replicate (w - cell.length) ' ' := by
        rw [List.take_append, List.take_of_length_le hfits, List.take_replicate]
        congr 2
        omega
      show bare (List.take w (_ ++ _)) :: (cut (w' :: ws) (List.drop (w + 2) (_ ++ _))).map bare = _
      rw [List.take_append_of_le_length (by omega), htake, bare_append_spaces,
        List.drop_left' hlen]
      exact congrArg (bare cell :: ·) ih

/-! ### The widths -/

theorem fits_lengths (row : List Cell) : Fits (row.map List.length) row := by
  induction row with
  | nil => exact .nil
  | cons cell row ih => exact .cons le_rfl ih

/-- Widening the columns by a row of as many cells keeps what fits, and the row fits. -/
theorem fits_widen {ws : List ℕ} {row other : List Cell} (h : Fits ws other)
    (hlen : row.length = ws.length) :
    Fits (List.zipWith (fun w cell => max w cell.length) ws row) other ∧
      Fits (List.zipWith (fun w cell => max w cell.length) ws row) row := by
  induction h generalizing row with
  | nil =>
    obtain rfl := List.length_eq_zero_iff.mp hlen
    exact ⟨.nil, .nil⟩
  | @cons w cell ws other hfits hrest ih =>
    cases row with
    | nil => cases hlen
    | cons cell' row =>
      obtain ⟨hother, hrow⟩ := ih (Nat.succ.inj hlen)
      exact ⟨.cons (hfits.trans (le_max_left ..)) hother, .cons (le_max_right ..) hrow⟩

theorem fits_foldl {rows : List (List Cell)} {ws : List ℕ} {other : List Cell} (h : Fits ws other)
    (hrows : ∀ row ∈ rows, row.length = ws.length) :
    let ws' := rows.foldl (fun ws row => List.zipWith (fun w cell => max w cell.length) ws row) ws
    Fits ws' other ∧ ∀ row ∈ rows, Fits ws' row := by
  induction rows generalizing ws other with
  | nil => exact ⟨h, nofun⟩
  | cons row rows ih =>
    have hrow := hrows row List.mem_cons_self
    obtain ⟨hother, hself⟩ := fits_widen h hrow
    have hlen : ∀ r ∈ rows, r.length =
        (List.zipWith (fun w cell => max w cell.length) ws row).length := by
      intro r hr
      rw [hrows r (List.mem_cons_of_mem _ hr), List.length_zipWith, hrow, min_self]
    obtain ⟨hother', hrest⟩ := ih hother hlen
    obtain ⟨hself', -⟩ := ih hself hlen
    refine ⟨hother', ?_⟩
    rintro r (_ | ⟨_, hr⟩)
    · exact hself'
    · exact hrest r hr

theorem fits_widths {header : List Cell} {rows : List (List Cell)}
    (hrows : ∀ row ∈ rows, row.length = header.length) :
    ∀ row ∈ header :: rows, Fits (widths header rows) row := by
  have hlengths : ∀ row ∈ rows, row.length = (header.map List.length).length := by simpa using hrows
  obtain ⟨hheader, hrest⟩ := fits_foldl (fits_lengths header) hlengths
  rintro row (_ | ⟨_, hr⟩)
  · exact hheader
  · exact hrest row hr

/-! ### The lines -/

theorem text_eq_intercalate (ws : List ℕ) {rows : List (List Cell)} (h : rows ≠ []) :
    text ws rows =
      ['\n'].intercalate (rows.map fun row => padded (ws.zip row)) ++ ['\n'] := by
  induction rows with
  | nil => exact absurd rfl h
  | cons row rows ih =>
    cases rows with
    | nil => simp [text, List.intercalate]
    | cons row' rows =>
      have hrest := ih (by simp)
      rw [text, List.flatMap_cons, ← text, hrest]
      simp [List.intercalate_cons_cons]

theorem newline_mem_padded {ws : List ℕ} {row : List Cell} (h : Fits ws row) :
    '\n' ∈ padded (ws.zip row) ↔ ∃ cell ∈ row, '\n' ∈ cell := by
  induction h with
  | nil => simp [padded]
  | @cons w cell ws row hfits hrest ih =>
    cases hrest with
    | nil => simp [padded]
    | @cons w' cell' ws row hfits' hrest =>
      have hspace : '\n' ∉ List.replicate (w - cell.length + 2) ' ' := by
        simp [List.mem_replicate]
      show '\n' ∈ cell ++ List.replicate (w - cell.length + 2) ' ' ++
        padded ((w' :: ws).zip (cell' :: row)) ↔ _
      rw [List.mem_append, List.mem_append, ih]
      simp [hspace]

theorem length_splitOn (c : Char) (cs : List Char) : (cs.splitOn c).length = cs.count c + 1 := by
  induction cs with
  | nil => rfl
  | cons d cs ih =>
    rw [List.splitOn_cons_eq_if_modifyHead, List.count_cons]
    split_ifs with h
    · rw [List.length_cons, ih]
    · rw [List.length_modifyHead, ih, Nat.add_zero]

theorem count_intercalate (c : Char) (l : List Char) (ls : List (List Char)) :
    ([c].intercalate (l :: ls)).count c = ((l :: ls).map (List.count c)).sum + ls.length := by
  induction ls generalizing l with
  | nil => simp [List.intercalate]
  | cons l' ls ih =>
    rw [List.intercalate_cons_cons, List.count_append, List.count_append, ih]
    simp
    omega

theorem padded_concat (zs : List (ℕ × Cell)) (w : ℕ) (last : Cell) :
    ∃ pre, padded (zs ++ [(w, last)]) = pre ++ last := by
  induction zs with
  | nil => exact ⟨[], rfl⟩
  | cons z zs ih =>
    obtain ⟨pre, hpre⟩ := ih
    have hcons : padded (z :: zs ++ [(w, last)]) =
        z.2 ++ List.replicate (z.1 - z.2.length + 2) ' ' ++ padded (zs ++ [(w, last)]) := by
      cases zs <;> rfl
    exact ⟨_, by rw [hcons, hpre, ← List.append_assoc]⟩

/-- A row ends with its last cell. -/
theorem padded_zip_concat {ws : List ℕ} {cells : List Cell} {last : Cell}
    (h : Fits ws (cells ++ [last])) : ∃ pre, padded (ws.zip (cells ++ [last])) = pre ++ last := by
  have hlen := h.length_eq
  obtain ⟨ws, w, rfl⟩ := (List.eq_nil_or_concat ws).resolve_left (by rintro rfl; simp at hlen)
  rw [List.concat_eq_append] at hlen ⊢
  rw [List.zip_append (by simpa using hlen)]
  exact padded_concat _ w last

/-- The last cell of the last row ends in a character that is no whitespace. -/
def Closed (rows : List (List Cell)) : Prop :=
  ∃ front cells cell c, rows = front ++ [cells ++ [cell ++ [c]]] ∧ Text.isWhitespace c = false

theorem render_eq {header : List Cell} {rows : List (List Cell)}
    (hrows : ∀ row ∈ rows, row.length = header.length) (hclosed : Closed (header :: rows)) :
    render header rows = ['\n'].intercalate
      ((header :: rows).map fun row => padded ((widths header rows).zip row)) := by
  obtain ⟨front, cells, cell, c, heq, hc⟩ := hclosed
  have hfits := fits_widths hrows
  obtain ⟨pre, hpre⟩ := padded_zip_concat (hfits (cells ++ [cell ++ [c]]) (by simp [heq]))
  have hkeep : ∀ cs : List Char, (cs ++ [c]).rdropWhile Text.isWhitespace = cs ++ [c] :=
    fun cs => List.rdropWhile_concat_neg _ _ _ (by simp [hc])
  have htext : text (widths header rows) (header :: rows) =
      text (widths header rows) front ++ pre ++ cell ++ [c] ++ ['\n'] := by
    rw [heq, text, List.flatMap_append, List.flatMap_singleton, hpre, ← text]
    simp only [List.append_assoc]
  have hlines := text_eq_intercalate (widths header rows) (List.cons_ne_nil header rows)
  rw [htext] at hlines
  unfold render Text.trimEnd
  rw [htext, List.rdropWhile_concat_pos _ _ _ (by decide), hkeep]
  exact List.append_cancel_right hlines

/-- The table reads back, cell by cell, exactly where no cell has a line break. -/
theorem read_render_iff {header : List Cell} {rows : List (List Cell)}
    (hrows : ∀ row ∈ rows, row.length = header.length) (hclosed : Closed (header :: rows)) :
    read (widths header rows) (render header rows) = (header :: rows).map (List.map bare) ↔
      ∀ row ∈ header :: rows, ∀ cell ∈ row, '\n' ∉ cell := by
  have hfits := fits_widths hrows
  have hbreak : ∀ row ∈ header :: rows,
      '\n' ∈ padded ((widths header rows).zip row) ↔ ∃ cell ∈ row, '\n' ∈ cell :=
    fun row hrow => newline_mem_padded (hfits row hrow)
  rw [read, render_eq hrows hclosed]
  constructor
  · intro h row hrow cell hcell hmem
    have hlen := congrArg List.length h
    simp only [List.length_map, length_splitOn, List.map_cons, count_intercalate,
      List.length_cons] at hlen
    have hzero : (((header :: rows).map fun row => padded ((widths header rows).zip row)).map
        (List.count '\n')).sum = 0 := by
      simp only [List.map_cons]
      omega
    have hcount := List.sum_eq_zero_iff_forall_eq_nat.mp hzero _
      (List.mem_map_of_mem (List.mem_map_of_mem hrow))
    exact List.count_eq_zero.mp hcount ((hbreak row hrow).mpr ⟨cell, hcell, hmem⟩)
  · intro h
    rw [List.splitOn_intercalate _ _ (by simp)]
    · rw [List.map_map]
      exact List.map_congr_left fun row hrow => cut_padded (hfits row hrow)
    · intro l hl
      obtain ⟨row, hrow, rfl⟩ := List.mem_map.mp hl
      rw [hbreak row hrow]
      rintro ⟨cell, hcell, hmem⟩
      exact h row hrow cell hcell hmem

end Table
