import Mathlib.Data.List.Basic
import Mathlib.Data.List.DropRight

/-! String operations of the source language's standard library, on lists of characters. -/
namespace Text

/-- The Unicode `White_Space` property. -/
def isWhitespace (c : Char) : Bool :=
  let n := c.toNat
  (9 ≤ n && n ≤ 13) || n == 0x20 || n == 0x85 || n == 0xA0 || n == 0x1680 ||
    (0x2000 ≤ n && n ≤ 0x200A) || n == 0x2028 || n == 0x2029 || n == 0x202F || n == 0x205F ||
    n == 0x3000

def trim (s : String) : String :=
  String.ofList
    ((s.toList.dropWhile isWhitespace).reverse.dropWhile isWhitespace).reverse

theorem trim_of_forall {s : String} (h : ∀ c ∈ s.toList, isWhitespace c = false) : trim s = s := by
  have hkeep : ∀ cs : List Char, (∀ c ∈ cs, isWhitespace c = false) →
      cs.dropWhile isWhitespace = cs := by
    intro cs hcs
    cases cs with
    | nil => rfl
    | cons c cs => rw [List.dropWhile_cons_of_neg (by simp [hcs c])]
  unfold trim
  rw [hkeep _ h, hkeep _ fun c hc => h c (List.mem_reverse.mp hc), List.reverse_reverse,
    String.ofList_toList]

theorem isWhitespace_of_isDigit {c : Char} (h : c.isDigit = true) : isWhitespace c = false := by
  have hc : 48 ≤ c.toNat ∧ c.toNat ≤ 57 := by
    rw [Char.isDigit, Bool.and_eq_true, decide_eq_true_iff, decide_eq_true_iff] at h
    exact ⟨UInt32.le_iff_toNat_le.mp h.1, UInt32.le_iff_toNat_le.mp h.2⟩
  simp only [isWhitespace, Bool.or_eq_false_iff, Bool.and_eq_false_iff, decide_eq_false_iff_not,
    beq_eq_false_iff_ne]
  omega

/-- The maximal runs of characters that are not whitespace. -/
def splitWhitespace (cs : List Char) : List (List Char) :=
  (cs.splitOnP isWhitespace).filter (· ≠ [])

/-- Decimal digits, with an optional plus sign, of a number below `bound`. -/
def parseUnsigned (bound : ℕ) (cs : List Char) : Option ℕ :=
  let ds := match cs with
    | '+' :: ds => ds
    | ds => ds
  if ds ≠ [] ∧ ds.all Char.isDigit then
    let n := ds.foldl (fun n c => 10 * n + (c.toNat - '0'.toNat)) 0
    if n < bound then some n else none
  else none

def stripPrefix (pre cs : List Char) : Option (List Char) :=
  if pre <+: cs then some (cs.drop pre.length) else none

/-- What follows the last occurrence of a separator that does not overlap itself, if it
occurs. -/
def afterLast (sep : List Char) : List Char → Option (List Char)
  | [] => none
  | c :: cs => (afterLast sep cs).or (stripPrefix sep (c :: cs))

/-- Append a relative path to a directory; an absolute one replaces it. -/
def joinPath (dir path : String) : String :=
  if "/".toList <+: path.toList then path
  else if dir = "" ∨ dir.toList.getLast? = some '/' then dir ++ path
  else dir ++ "/" ++ path

theorem joinPath_ne_empty {path : String} (dir : String) (h : path ≠ "") :
    joinPath dir path ≠ "" := by
  unfold joinPath
  split_ifs <;> simp [h]

/-- Relative paths are told apart where they are appended to one directory. -/
theorem joinPath_inj {dir path path' : String} (h : ¬ "/".toList <+: path.toList)
    (h' : ¬ "/".toList <+: path'.toList) (he : joinPath dir path = joinPath dir path') :
    path = path' := by
  unfold joinPath at he
  rw [if_neg h, if_neg h'] at he
  apply String.toList_inj.mp
  split_ifs at he <;> simpa using congrArg String.toList he

/-- A path ends as what was appended. -/
theorem getLast?_joinPath {path : String} (dir : String) (h : path ≠ "") :
    (joinPath dir path).toList.getLast? = path.toList.getLast? := by
  have hne : path.toList ≠ [] := fun hnil => h (String.toList_eq_nil_iff.mp hnil)
  unfold joinPath
  split_ifs
  · rfl
  · rw [String.toList_append, List.getLast?_append_of_ne_nil _ hne]
  · rw [String.toList_append, List.getLast?_append_of_ne_nil _ hne]

-- two joined paths are compared by their parts, never by the characters of the result
attribute [irreducible] joinPath

/-- The parts around the last occurrence of `c`. -/
def rsplitOnce (c : Char) (cs : List Char) : Option (List Char × List Char) :=
  if c ∈ cs then
    let back := cs.reverse.takeWhile (· ≠ c)
    some (cs.take (cs.length - back.length - 1), back.reverse)
  else none

/-- The parts stand around a separator that the second does not contain. -/
theorem rsplitOnce_eq_some {c : Char} {cs a b : List Char} :
    rsplitOnce c cs = some (a, b) ↔ cs = a ++ c :: b ∧ c ∉ b := by
  have hsplit : ∀ a b : List Char, c ∉ b → rsplitOnce c (a ++ c :: b) = some (a, b) := by
    intro a b hb
    have hrev : (a ++ c :: b).reverse = b.reverse ++ c :: a.reverse := by simp
    have hback : (a ++ c :: b).reverse.takeWhile (· ≠ c) = b.reverse := by
      rw [hrev, List.takeWhile_append_of_pos]
      · simp
      · intro d hd
        have hne : d ≠ c := fun he => hb (he ▸ List.mem_reverse.mp hd)
        simpa using hne
    have hlen : (a ++ c :: b).length - b.reverse.length - 1 = a.length := by
      simp only [List.length_append, List.length_cons, List.length_reverse]
      omega
    have hmem : c ∈ a ++ c :: b := by simp
    unfold rsplitOnce
    rw [if_pos hmem]
    dsimp only
    rw [hback, hlen, List.take_left, List.reverse_reverse]
  constructor
  · intro h
    have hmem : c ∈ cs := by
      by_contra hn
      rw [rsplitOnce, if_neg hn] at h
      cases h
    -- the last occurrence is the first one from behind
    obtain ⟨back, front, hrev, hback⟩ := List.eq_append_cons_of_mem (List.mem_reverse.mpr hmem)
    have hcs : cs = front.reverse ++ c :: back.reverse := by
      rw [← List.reverse_reverse cs, hrev]
      simp
    have hback' : c ∉ back.reverse := fun hm => hback (List.mem_reverse.mp hm)
    rw [hcs, hsplit _ _ hback'] at h
    obtain ⟨rfl, rfl⟩ := Prod.mk.inj (Option.some.inj h)
    exact ⟨hcs, hback'⟩
  · rintro ⟨rfl, hb⟩
    exact hsplit a b hb

/-- A numeral is digits, after a plus sign or without one. -/
theorem mem_of_parseUnsigned {bound n : ℕ} {cs : List Char} (h : parseUnsigned bound cs = some n) :
    ∀ c ∈ cs, c = '+' ∨ c.isDigit = true := by
  unfold parseUnsigned at h
  dsimp only at h
  split_ifs at h with hdigits
  have hall := List.all_eq_true.mp hdigits.2
  intro c hc
  split at hall
  · rcases List.mem_cons.mp hc with rfl | hin
    · exact .inl rfl
    · exact .inr (hall c hin)
  · exact .inr (hall c hc)

/-- The pieces of a text around the occurrences of a character. -/
def split (c : Char) (s : String) : List String := (s.toList.splitOn c).map String.ofList

/-- The first pieces of a text around the occurrences of a character, at most `n`; the last of `n`
pieces is what is left. -/
def splitn (c : Char) : ℕ → List Char → List (List Char)
  | 0, _ => []
  | 1, cs => [cs]
  | n + 2, cs =>
    match cs.dropWhile (· ≠ c) with
    | [] => [cs]
    | _ :: rest => cs.takeWhile (· ≠ c) :: splitn c (n + 1) rest

theorem splitn_append_cons {c : Char} {a : List Char} (h : c ∉ a) (n : ℕ) (b : List Char) :
    splitn c (n + 2) (a ++ c :: b) = a :: splitn c (n + 1) b := by
  have ha : ∀ d ∈ a, decide (d ≠ c) = true := by
    intro d hd
    simpa using fun he : d = c => h (he ▸ hd)
  rw [splitn, List.dropWhile_append_of_pos ha, List.takeWhile_append_of_pos ha,
    List.dropWhile_cons_of_neg (by simp), List.takeWhile_cons_of_neg (by simp), List.append_nil]

/-- A numeral is read as the number it is printed for. -/
theorem parseUnsigned_toDigits {bound n : ℕ} (h : n < bound) :
    parseUnsigned bound (Nat.toDigits 10 n) = some n := by
  have hdigit : ∀ c ∈ Nat.toDigits 10 n, c.isDigit = true :=
    fun c hc => Nat.isDigit_of_mem_toDigits (by decide) (by decide) hc
  have hvalue : (Nat.toDigits 10 n).foldl (fun m c => 10 * m + (c.toNat - '0'.toNat)) 0 = n := by
    rw [← Nat.ofDigitChars_eq_foldl, Nat.ofDigitChars_ten_toDigits]
  unfold parseUnsigned
  split
  · next hplus => exact absurd (hdigit '+' (by rw [hplus]; exact List.mem_cons_self)) (by decide)
  · dsimp only
    rw [if_pos ⟨Nat.toDigits_ne_nil, List.all_eq_true.mpr hdigit⟩, hvalue, if_pos h]

/-- The text without the whitespace at its end. -/
def trimEnd (cs : List Char) : List Char := cs.rdropWhile isWhitespace

/-- The text with the first occurrence of a pattern replaced. -/
def replaceFirst (pat rep : List Char) : List Char → List Char
  | [] => if pat = [] then rep else []
  | c :: cs =>
    match stripPrefix pat (c :: cs) with
    | some rest => rep ++ rest
    | none => c :: replaceFirst pat rep cs

/-- The lines of a text; one that is ended loses its newline and a carriage return before it. -/
def lines (s : String) : List String :=
  let pieces := s.toList.splitOn '\n'
  let ended := pieces.dropLast.map fun line =>
    if line.getLast? = some '\r' then line.dropLast else line
  let last := pieces.getLastD []
  (if last = [] then ended else ended ++ [last]).map String.ofList

example : lines "a\r\n\nb\r" = ["a", "", "b\r"] := by decide

theorem dropWhile_append_cons {c : Char} (h : isWhitespace c = false) (a b : List Char) :
    (a ++ c :: b).dropWhile isWhitespace = a.dropWhile isWhitespace ++ c :: b := by
  have hc : ¬ isWhitespace c = true := by simp [h]
  induction a with
  | nil => rw [List.nil_append, List.dropWhile_cons_of_neg hc, List.dropWhile_nil, List.nil_append]
  | cons d a ih =>
    rw [List.cons_append, List.dropWhile_cons, List.dropWhile_cons]
    split_ifs with hd
    · exact ih
    · rfl

/-- A character that is no whitespace keeps what is before it from the end, and what is behind it
from the start. -/
theorem trim_append_cons {c : Char} (h : isWhitespace c = false) (a b : List Char) :
    trim (String.ofList (a ++ c :: b)) = String.ofList (a.dropWhile isWhitespace ++
      c :: (b.reverse.dropWhile isWhitespace).reverse) := by
  unfold trim
  rw [String.toList_ofList, dropWhile_append_cons h]
  have hrev : (a.dropWhile isWhitespace ++ c :: b).reverse =
      b.reverse ++ c :: (a.dropWhile isWhitespace).reverse := by simp
  rw [hrev, dropWhile_append_cons h]
  simp

theorem trim_dropWhile (a : List Char) :
    trim (String.ofList (a.dropWhile isWhitespace)) = trim (String.ofList a) := by
  unfold trim
  rw [String.toList_ofList, String.toList_ofList, List.dropWhile_idempotent]

theorem split_append_cons {c : Char} {a : List Char} (h : c ∉ a) (b : List Char) :
    split c (String.ofList (a ++ c :: b)) = String.ofList a :: split c (String.ofList b) := by
  unfold split
  rw [String.toList_ofList, String.toList_ofList, List.splitOn_append_cons_self,
    List.splitOn_eq_singleton h, List.singleton_append, List.map_cons]

/-- What stands before the first separator, whatever stands behind it. -/
theorem trim_first_piece {c : Char} {a : List Char} (h : isWhitespace c = false) (ha : c ∉ a)
    (b : List Char) :
    trim ((split c (trim (String.ofList (a ++ c :: b)))).headD "") = trim (String.ofList a) := by
  have hstart : c ∉ a.dropWhile isWhitespace :=
    fun hmem => ha ((List.dropWhile_suffix isWhitespace).subset hmem)
  rw [trim_append_cons h, split_append_cons hstart, List.headD_cons, trim_dropWhile]

theorem trim_append_cons_ne_empty {c : Char} (h : isWhitespace c = false) (a b : List Char) :
    trim (String.ofList (a ++ c :: b)) ≠ "" := by
  rw [trim_append_cons h]
  intro he
  have hnil := congrArg String.toList he
  simp at hnil

end Text
