import Aegis.Lib.JsonText

/-! The preference files of a browser: one `user_pref(name, literal);` per statement, string
literals with few escapes, and comments. A printer of such files is read back exactly where it
escapes with what the reader knows. -/
namespace UserJs
open Json Text

/-! ### The reader -/

inductive Mode where
  | blank
  | line
  | block

def isBlank (c : Char) : Bool :=
  c = ' ' || c = '\n' || c = '\t' || c = '\r' || c.toNat = 11 || c.toNat = 12

/-- What follows blanks and comments; a block comment has to be closed. -/
def skip : Mode → List Char → Option (List Char)
  | .blank, '/' :: '/' :: cs => skip .line cs
  | .blank, '/' :: '*' :: cs => skip .block cs
  | .blank, '#' :: cs => skip .line cs
  | .blank, c :: cs => if isBlank c then skip .blank cs else some (c :: cs)
  | .line, c :: cs => if c = '\n' ∨ c = '\r' then skip .blank cs else skip .line cs
  | .block, '*' :: '/' :: cs => skip .blank cs
  | .block, _ :: cs => skip .block cs
  | .block, [] => none
  | _, [] => some []

def expect (c : Char) (cs : List Char) : Option (List Char) := do
  stripPrefix [c] (← skip .blank cs)

/-- The quotes, the backslash and the two line ends; no other letter may follow a backslash. -/
def readEscape (c : Char) : Option Char :=
  if c = '"' ∨ c.toNat = 39 ∨ c = '\\' then some c
  else if c = 'n' then some '\n'
  else if c = 'r' then some '\r'
  else none

/-- A character of a string literal; none is the null character, however it is written. -/
def readChar : List Char → Option (Char × List Char)
  | '\\' :: 'x' :: a :: b :: cs => do
    let a ← hexDigit a
    let b ← hexDigit b
    if 16 * a + b = 0 then none else return (Char.ofNat (16 * a + b), cs)
  | '\\' :: 'u' :: cs => do
    let (c, cs) ← readUnicode cs
    if c.toNat = 0 then none else return (c, cs)
  | '\\' :: c :: cs => (readEscape c).map (·, cs)
  | c :: cs => if c = '\\' ∨ c.toNat = 0 then none else some (c, cs)
  | [] => none

/-- The characters of a literal up to the quote it was opened with. -/
def readString (q : Char) : ℕ → List Char → Option (List Char × List Char)
  | 0, _ => none
  | fuel + 1, cs => do
    if cs.head? = some q then return ([], cs.tail)
    let (c, cs) ← readChar cs
    let (s, cs) ← readString q fuel cs
    return (c :: s, cs)

def readLiteral (fuel : ℕ) : List Char → Option (String × List Char)
  | c :: cs =>
    if c = '"' ∨ c.toNat = 39 then
      (readString c fuel cs).map fun (s, cs) => (String.ofList s, cs)
    else none
  | [] => none

/-- A number of 32 bits with an optional sign. -/
def readInt (cs : List Char) : Option (Number × List Char) := do
  let (negative, cs) := match cs with
    | '-' :: cs => (true, cs)
    | '+' :: cs => (false, cs)
    | cs => (false, cs)
  let (ds, cs) ← readDigits cs
  let n := Nat.ofDigitChars 10 ds 0
  if n < 2 ^ 31 ∨ negative = true ∧ n = 2 ^ 31 then return (⟨negative, n, [], none⟩, cs)
  else none

def readValue (fuel : ℕ) (cs : List Char) : Option (Value × List Char) :=
  match readLiteral fuel cs with
  | some (s, cs) => some (.string s, cs)
  | none =>
    match stripPrefix "true".toList cs, stripPrefix "false".toList cs with
    | some cs, _ => some (.bool true, cs)
    | none, some cs => some (.bool false, cs)
    | none, none => (readInt cs).map fun (n, cs) => (.number n, cs)

/-- One statement. -/
def readPref (fuel : ℕ) (cs : List Char) : Option ((String × Value) × List Char) := do
  let cs ← stripPrefix "user_pref".toList (← skip .blank cs)
  let cs ← expect '(' cs
  let (name, cs) ← readLiteral fuel (← skip .blank cs)
  let cs ← expect ',' cs
  let (v, cs) ← readValue fuel (← skip .blank cs)
  let cs ← expect ')' cs
  let cs ← expect ';' cs
  return ((name, v), cs)

def readPrefs : ℕ → List Char → Option (List (String × Value))
  | 0, _ => none
  | fuel + 1, cs => do
    let cs ← skip .blank cs
    if cs = [] then return []
    let (p, cs) ← readPref fuel cs
    return p :: (← readPrefs fuel cs)

/-- The preferences a file sets: of statements with one name the last counts. -/
def read (cs : List Char) : Option (List (String × Value)) :=
  (readPrefs (cs.length + 1) cs).map sortMembers

/-! ### The printer -/

/-- A statement; the name is printed as it is. -/
def statement (σ : Style) (p : String × Value) : List Char :=
  "user_pref".toList ++ '(' :: '"' :: (p.1.toList ++ '"' :: ',' :: ' ' ::
    (compact σ p.2 ++ [')', ';', '\n']))

/-- A line of comment and the statements. -/
def print (σ : Style) (comment : List Char) (ps : List (String × Value)) : List Char :=
  "//".toList ++ comment ++ '\n' :: ps.flatMap (statement σ)

/-- What is printed for a clean character, and for the numbers in `Q`, is read back; what is
printed for another character is refused. -/
structure Prints (σ : Style) (Clean : Char → Prop) (Q : Number → Prop) : Prop where
  escape : ∀ c cs, Clean c → readChar (σ.escape c ++ cs) = some (c, cs)
  refuses : ∀ c cs, ¬ Clean c → readChar (σ.escape c ++ cs) = none
  head : ∀ c, ∃ d ds, σ.escape c = d :: ds ∧ d ≠ '"'
  number : ∀ n cs, Q n → readInt (σ.number n ++ ')' :: cs) = some (n, ')' :: cs)
  number_head : ∀ n, Q n → ∃ d ds, σ.number n = d :: ds ∧ d.isDigit = true

/-- A name that needs no escape. -/
def PlainName (s : String) : Prop := ∀ c ∈ s.toList, c ≠ '"' ∧ c ≠ '\\' ∧ c.toNat ≠ 0

/-- A string, a boolean or a number in `Q`. -/
def Scalar (Q : Number → Prop) : Value → Prop
  | .string _ | .bool _ => True
  | .number n => Q n
  | _ => False

/-- Every character of the value is clean, if it is a string. -/
def CleanValue (Clean : Char → Prop) : Value → Prop
  | .string s => ∀ c ∈ s.toList, Clean c
  | _ => True

section Print

variable {σ : Style} {Clean : Char → Prop} {Q : Number → Prop} {cs : List Char} {fuel : ℕ}

theorem skip_blank {c : Char} (hc : isBlank c = false) (hslash : c ≠ '/') (hhash : c ≠ '#') :
    skip .blank (c :: cs) = some (c :: cs) := by
  rw [skip.eq_def]
  split <;> simp_all

theorem skip_line {comment : List Char} (h : ∀ c ∈ comment, c ≠ '\n' ∧ c ≠ '\r') :
    skip .line (comment ++ '\n' :: cs) = skip .blank cs := by
  induction comment with
  | nil => rfl
  | cons c comment ih =>
    have hc := h c List.mem_cons_self
    rw [List.cons_append, skip, if_neg (by simp [hc])]
    exact ih fun d hd => h d (List.mem_cons_of_mem c hd)

theorem expect_cons {c : Char} (hc : isBlank c = false) (hslash : c ≠ '/') (hhash : c ≠ '#') :
    expect c (c :: cs) = some cs := by
  rw [expect, skip_blank hc hslash hhash]
  simp [stripPrefix]

theorem readString_close (q : Char) : readString q (fuel + 1) (q :: cs) = some ([], cs) := by
  simp [readString]

theorem readString_char {q c d : Char} {ds : List Char} (hd : d ≠ q)
    (h : readChar (d :: ds) = some (c, cs)) :
    readString q (fuel + 1) (d :: ds) = (readString q fuel cs).map fun r => (c :: r.1, r.2) := by
  rw [readString, if_neg (by simpa using hd), h]
  show (readString q fuel cs).bind _ = _
  cases readString q fuel cs <;> rfl

theorem readString_stuck {q d : Char} {ds : List Char} (hd : d ≠ q)
    (h : readChar (d :: ds) = none) : readString q (fuel + 1) (d :: ds) = none := by
  rw [readString, if_neg (by simpa using hd), h]
  rfl

theorem readString_flatMap (h : Prints σ Clean Q) {s : List Char} (hs : ∀ c ∈ s, Clean c)
    (hf : s.length < fuel) :
    readString '"' fuel (s.flatMap σ.escape ++ '"' :: cs) = some (s, cs) := by
  induction s generalizing fuel with
  | nil =>
    obtain ⟨n, rfl⟩ : ∃ n, fuel = n + 1 := ⟨fuel - 1, by simp at hf; omega⟩
    exact readString_close '"'
  | cons c s ih =>
    obtain ⟨n, rfl⟩ : ∃ n, fuel = n + 1 := ⟨fuel - 1, by simp at hf; omega⟩
    obtain ⟨d, ds, hc, hd⟩ := h.head c
    have hchar := h.escape c (s.flatMap σ.escape ++ '"' :: cs) (hs c List.mem_cons_self)
    have hrest := ih (fun c' hc' => hs c' (List.mem_cons_of_mem c hc')) (by simpa using hf)
    rw [List.flatMap_cons, List.append_assoc]
    rw [hc, List.cons_append] at hchar ⊢
    rw [readString_char hd hchar, hrest]
    rfl

/-- One character that is not clean spoils the literal. -/
theorem readString_refuses (h : Prints σ Clean Q) {s : List Char} (hs : ∃ c ∈ s, ¬ Clean c) :
    readString '"' fuel (s.flatMap σ.escape ++ '"' :: cs) = none := by
  induction s generalizing fuel with
  | nil => simp at hs
  | cons c s ih =>
    cases fuel with
    | zero => rfl
    | succ n =>
      obtain ⟨d, ds, hc, hd⟩ := h.head c
      by_cases hclean : Clean c
      · have hrest : ∃ c ∈ s, ¬ Clean c := by
          obtain ⟨c', hc', hbad⟩ := hs
          rcases List.mem_cons.mp hc' with rfl | hin
          · exact absurd hclean hbad
          · exact ⟨c', hin, hbad⟩
        have hchar := h.escape c (s.flatMap σ.escape ++ '"' :: cs) hclean
        rw [List.flatMap_cons, List.append_assoc]
        rw [hc, List.cons_append] at hchar ⊢
        rw [readString_char hd hchar, ih hrest]
        rfl
      · have hchar := h.refuses c (s.flatMap σ.escape ++ '"' :: cs) hclean
        rw [List.flatMap_cons, List.append_assoc]
        rw [hc, List.cons_append] at hchar ⊢
        exact readString_stuck hd hchar

theorem quote_append (escape : Char → List Char) (s : String) (cs : List Char) :
    quote escape s ++ cs = '"' :: (s.toList.flatMap escape ++ '"' :: cs) := by
  simp [quote]

theorem readLiteral_quote (fuel : ℕ) (cs : List Char) : readLiteral fuel ('"' :: cs) =
    (readString '"' fuel cs).map fun (s, cs) => (String.ofList s, cs) := rfl

/-- A plain name is read as it is. -/
theorem readString_plain {s : List Char} (hs : ∀ c ∈ s, c ≠ '"' ∧ c ≠ '\\' ∧ c.toNat ≠ 0)
    (hf : s.length < fuel) : readString '"' fuel (s ++ '"' :: cs) = some (s, cs) := by
  induction s generalizing fuel with
  | nil =>
    obtain ⟨n, rfl⟩ : ∃ n, fuel = n + 1 := ⟨fuel - 1, by simp at hf; omega⟩
    exact readString_close '"'
  | cons c s ih =>
    obtain ⟨n, rfl⟩ : ∃ n, fuel = n + 1 := ⟨fuel - 1, by simp at hf; omega⟩
    obtain ⟨hquote, hslash, hnull⟩ := hs c List.mem_cons_self
    have hrest := ih (fun c' hc' => hs c' (List.mem_cons_of_mem c hc')) (by simpa using hf)
    have hchar : readChar (c :: (s ++ '"' :: cs)) = some (c, s ++ '"' :: cs) := by
      rw [readChar.eq_def]
      split <;> simp_all
    rw [List.cons_append, readString_char hquote hchar, hrest]
    rfl

theorem Prints.escape_ne (h : Prints σ Clean Q) (c : Char) : σ.escape c ≠ [] := by
  obtain ⟨d, ds, hc, -⟩ := h.head c
  simp [hc]

theorem stripPrefix_of_ne {p d : Char} {pre : List Char} (h : d ≠ p) :
    stripPrefix (p :: pre) (d :: cs) = none := by
  simp [stripPrefix, Ne.symm h]

theorem readValue_number {n : Number} {d : Char} {ds : List Char} (hd : d.isDigit = true)
    (h : readInt (d :: ds) = some (n, cs)) : readValue fuel (d :: ds) = some (.number n, cs) := by
  have hne (c : Char) (hc : c.isDigit = false) : d ≠ c := by
    rintro rfl
    exact Bool.false_ne_true (hc.symm.trans hd)
  have hquote : readLiteral fuel (d :: ds) = none := by
    have hapos : d.toNat ≠ 39 := by
      intro h39
      rw [show d = Char.ofNat 39 by rw [← h39, Char.ofNat_toNat]] at hd
      exact absurd hd (by decide)
    rw [readLiteral, if_neg (by simp [hne '"' (by decide), hapos])]
  have htrue : stripPrefix "true".toList (d :: ds) = none :=
    stripPrefix_of_ne (hne 't' (by decide))
  have hfalse : stripPrefix "false".toList (d :: ds) = none :=
    stripPrefix_of_ne (hne 'f' (by decide))
  simp only [readValue, hquote, htrue, hfalse, h, Option.map_some]

/-- A clean value at the head of a text is read back. -/
theorem readValue_compact (h : Prints σ Clean Q) {v : Value} (hv : Scalar Q v)
    (hclean : CleanValue Clean v) (hf : (compact σ v).length < fuel) :
    readValue fuel (compact σ v ++ ')' :: cs) = some (v, ')' :: cs) := by
  cases v with
  | null => cases hv
  | array vs => cases hv
  | object ms => cases hv
  | string s =>
    have hlen : s.toList.length < fuel := by
      have hle := length_le_flatMap h.escape_ne s.toList
      rw [compact, length_quote] at hf
      omega
    rw [compact, quote_append, readValue, readLiteral_quote, readString_flatMap h hclean hlen]
    simp
  | bool b => cases b <;> rfl
  | number n =>
    obtain ⟨d, ds, hd, hdigit⟩ := h.number_head n hv
    have hnum := h.number n cs hv
    rw [compact]
    rw [hd, List.cons_append] at hnum ⊢
    exact readValue_number hdigit hnum

/-- A value that is not clean is refused. -/
theorem readValue_refuses (h : Prints σ Clean Q) {v : Value} (hclean : ¬ CleanValue Clean v) :
    readValue fuel (compact σ v ++ ')' :: cs) = none := by
  cases v with
  | null => exact absurd trivial hclean
  | array vs => exact absurd trivial hclean
  | object ms => exact absurd trivial hclean
  | bool b => exact absurd trivial hclean
  | number n => exact absurd trivial hclean
  | string s =>
    have hbad : ∃ c ∈ s.toList, ¬ Clean c := by
      simpa [CleanValue] using hclean
    rw [compact, quote_append, readValue, readLiteral_quote, readString_refuses h hbad]
    rfl

/-- A statement up to what follows it. -/
theorem statement_append (σ : Style) (p : String × Value) (cs : List Char) :
    statement σ p ++ cs = "user_pref".toList ++ '(' :: '"' :: (p.1.toList ++ '"' :: ',' :: ' ' ::
      (compact σ p.2 ++ ')' :: ';' :: '\n' :: cs)) := by
  unfold statement
  -- the literal would be evaluated by every attempt to rewrite inside it
  generalize "user_pref".toList = pre
  simp only [List.append_assoc, List.cons_append, List.nil_append]

theorem length_statement (σ : Style) (p : String × Value) :
    p.1.toList.length + (compact σ p.2).length < (statement σ p).length := by
  unfold statement
  generalize "user_pref".toList = pre
  simp only [List.length_append, List.length_cons]
  omega

/-- What is read of a statement is what is read of its value. -/
theorem readPref_statement {p : String × Value} (hname : PlainName p.1)
    (hf : p.1.toList.length < fuel) {d : Char} {ds : List Char} (hd : compact σ p.2 = d :: ds)
    (hblank : isBlank d = false) (hslash : d ≠ '/') (hhash : d ≠ '#') :
    readPref fuel (statement σ p ++ cs) =
      (readValue fuel (compact σ p.2 ++ ')' :: ';' :: '\n' :: cs)).bind fun r =>
        ((expect ')' r.2).bind (expect ';')).map fun cs => ((p.1, r.1), cs) := by
  have huser : ∀ rest, skip .blank ("user_pref".toList ++ rest) =
      some ("user_pref".toList ++ rest) :=
    fun rest => skip_blank (c := 'u') rfl (by decide) (by decide)
  have hstrip : ∀ rest, stripPrefix "user_pref".toList ("user_pref".toList ++ rest) = some rest :=
    fun rest => by simp [stripPrefix]
  have hquote : ∀ rest, skip .blank ('"' :: rest) = some ('"' :: rest) :=
    fun rest => skip_blank rfl (by decide) (by decide)
  have hvalue : ∀ rest, skip .blank (' ' :: (compact σ p.2 ++ rest)) =
      some (compact σ p.2 ++ rest) := by
    intro rest
    rw [skip, if_pos (by decide), hd, List.cons_append, skip_blank hblank hslash hhash]
    all_goals simp
  have hname' : readLiteral fuel ('"' :: (p.1.toList ++ '"' :: ',' :: ' ' ::
      (compact σ p.2 ++ ')' :: ';' :: '\n' :: cs))) =
      some (p.1, ',' :: ' ' :: (compact σ p.2 ++ ')' :: ';' :: '\n' :: cs)) := by
    rw [readLiteral_quote, readString_plain hname hf]
    show some (String.ofList p.1.toList, _) = _
    rw [String.ofList_toList]
  unfold readPref
  rw [statement_append, huser]
  simp only [Option.bind_eq_bind, Option.bind_some, hstrip]
  rw [expect_cons rfl (by decide) (by decide), Option.bind_some, hquote, Option.bind_some,
    hname', Option.bind_some, expect_cons rfl (by decide) (by decide), Option.bind_some, hvalue,
    Option.bind_some]
  generalize readValue fuel (compact σ p.2 ++ ')' :: ';' :: '\n' :: cs) = r
  rcases r with _ | ⟨v, cs'⟩
  · rfl
  · simp only [Option.bind_some]
    cases (expect ')' cs') with
    | none => rfl
    | some cs'' =>
      simp only [Option.bind_some]
      cases (expect ';' cs'') <;> rfl

theorem compact_head (h : Prints σ Clean Q) {v : Value} (hv : Scalar Q v) :
    ∃ d ds, compact σ v = d :: ds ∧ isBlank d = false ∧ d ≠ '/' ∧ d ≠ '#' := by
  cases v with
  | null => cases hv
  | array vs => cases hv
  | object ms => cases hv
  | bool b =>
    cases b
    · exact ⟨'f', _, rfl, rfl, by decide, by decide⟩
    · exact ⟨'t', _, rfl, rfl, by decide, by decide⟩
  | string s => exact ⟨'"', _, rfl, rfl, by decide, by decide⟩
  | number n =>
    obtain ⟨d, ds, hd, hdigit⟩ := h.number_head n hv
    have hne (c : Char) (hc : c.isDigit = false) : d ≠ c := by
      rintro rfl
      exact Bool.false_ne_true (hc.symm.trans hdigit)
    have h11 : d.toNat ≠ 11 := fun he => hne (Char.ofNat 11) (by decide) (by
      rw [← he, Char.ofNat_toNat])
    have h12 : d.toNat ≠ 12 := fun he => hne (Char.ofNat 12) (by decide) (by
      rw [← he, Char.ofNat_toNat])
    refine ⟨d, ds, hd, ?_, hne '/' (by decide), hne '#' (by decide)⟩
    simp [isBlank, hne ' ' (by decide), hne '\n' (by decide), hne '\t' (by decide),
      hne '\r' (by decide), h11, h12]

theorem readPref_clean (h : Prints σ Clean Q) {p : String × Value} (hname : PlainName p.1)
    (hv : Scalar Q p.2) (hclean : CleanValue Clean p.2) (hf : (statement σ p).length ≤ fuel) :
    readPref fuel (statement σ p ++ cs) = some (p, '\n' :: cs) := by
  obtain ⟨d, ds, hd, hblank, hslash, hhash⟩ := compact_head h hv
  have hlen := length_statement σ p
  rw [readPref_statement hname (by omega) hd hblank hslash hhash,
    readValue_compact h hv hclean (by omega), Option.bind_some]
  rw [expect_cons rfl (by decide) (by decide), Option.bind_some,
    expect_cons rfl (by decide) (by decide)]
  rfl

theorem readPref_refuses (h : Prints σ Clean Q) {p : String × Value} (hname : PlainName p.1)
    (hv : Scalar Q p.2) (hclean : ¬ CleanValue Clean p.2) (hf : p.1.toList.length < fuel) :
    readPref fuel (statement σ p ++ cs) = none := by
  obtain ⟨d, ds, hd, hblank, hslash, hhash⟩ := compact_head h hv
  rw [readPref_statement hname hf hd hblank hslash hhash, readValue_refuses h hclean]
  rfl

theorem readPrefs_newline (cs : List Char) :
    readPrefs fuel ('\n' :: cs) = readPrefs fuel cs := by
  cases fuel with
  | zero => rfl
  | succ n =>
    have hskip : skip .blank ('\n' :: cs) = skip .blank cs := by
      rw [skip, if_pos (by decide)]
      all_goals simp
    rw [readPrefs, readPrefs, hskip]

theorem readPrefs_statement (p : String × Value) (cs : List Char) :
    readPrefs (fuel + 1) (statement σ p ++ cs) = (readPref fuel (statement σ p ++ cs)).bind fun r =>
      (readPrefs fuel r.2).map (r.1 :: ·) := by
  have hhead : ∃ rest, statement σ p ++ cs = 'u' :: rest := ⟨_, rfl⟩
  obtain ⟨rest, hrest⟩ := hhead
  have hskip : skip .blank (statement σ p ++ cs) = some (statement σ p ++ cs) := by
    rw [hrest]
    exact skip_blank rfl (by decide) (by decide)
  have hne : statement σ p ++ cs ≠ [] := by simp [hrest]
  rw [readPrefs, hskip]
  simp only [Option.bind_eq_bind, Option.bind_some, if_neg hne]
  cases readPref fuel (statement σ p ++ cs) with
  | none => rfl
  | some r =>
    simp only [Option.bind_some]
    cases readPrefs fuel r.2 <;> rfl

/-- Clean statements are read one after the other. -/
theorem readPrefs_clean (h : Prints σ Clean Q) {ps : List (String × Value)}
    (hps : ∀ p ∈ ps, PlainName p.1 ∧ Scalar Q p.2 ∧ CleanValue Clean p.2)
    (hf : (ps.flatMap (statement σ)).length < fuel) :
    readPrefs fuel (ps.flatMap (statement σ)) = some ps := by
  induction ps generalizing fuel with
  | nil =>
    obtain ⟨n, rfl⟩ : ∃ n, fuel = n + 1 := ⟨fuel - 1, by simp at hf; omega⟩
    rfl
  | cons p ps ih =>
    obtain ⟨n, rfl⟩ : ∃ n, fuel = n + 1 := ⟨fuel - 1, by omega⟩
    obtain ⟨hname, hv, hclean⟩ := hps p List.mem_cons_self
    rw [List.flatMap_cons, List.length_append] at hf
    have hlen := length_statement σ p
    rw [List.flatMap_cons, readPrefs_statement, readPref_clean h hname hv hclean (by omega),
      Option.bind_some, readPrefs_newline,
      ih (fun p' hp' => hps p' (List.mem_cons_of_mem p hp')) (by omega)]
    rfl

/-- One statement whose value is not clean spoils the file. -/
theorem readPrefs_refuses (h : Prints σ Clean Q) {ps : List (String × Value)}
    (hps : ∀ p ∈ ps, PlainName p.1 ∧ Scalar Q p.2) (hbad : ∃ p ∈ ps, ¬ CleanValue Clean p.2)
    (hf : (ps.flatMap (statement σ)).length < fuel) :
    readPrefs fuel (ps.flatMap (statement σ)) = none := by
  induction ps generalizing fuel with
  | nil => simp at hbad
  | cons p ps ih =>
    obtain ⟨n, rfl⟩ : ∃ n, fuel = n + 1 := ⟨fuel - 1, by omega⟩
    obtain ⟨hname, hv⟩ := hps p List.mem_cons_self
    rw [List.flatMap_cons, List.length_append] at hf
    have hlen := length_statement σ p
    rw [List.flatMap_cons, readPrefs_statement]
    by_cases hclean : CleanValue Clean p.2
    · have hrest : ∃ p ∈ ps, ¬ CleanValue Clean p.2 := by
        obtain ⟨p', hp', hbad'⟩ := hbad
        rcases List.mem_cons.mp hp' with rfl | hin
        · exact absurd hclean hbad'
        · exact ⟨p', hin, hbad'⟩
      rw [readPref_clean h hname hv hclean (by omega), Option.bind_some, readPrefs_newline,
        ih (fun p' hp' => hps p' (List.mem_cons_of_mem p hp')) hrest (by omega)]
      rfl
    · rw [readPref_refuses h hname hv hclean (by omega)]
      rfl

theorem readPrefs_print {comment : List Char} (hcomment : ∀ c ∈ comment, c ≠ '\n' ∧ c ≠ '\r')
    (ps : List (String × Value)) (fuel : ℕ) :
    readPrefs fuel (print σ comment ps) = readPrefs fuel (ps.flatMap (statement σ)) := by
  cases fuel with
  | zero => rfl
  | succ n =>
    have hskip : skip .blank (print σ comment ps) = skip .blank (ps.flatMap (statement σ)) := by
      unfold print
      rw [List.append_assoc]
      exact skip_line hcomment
    rw [readPrefs, readPrefs, hskip]

/-- Printed preferences are read back, and exactly as they were, when and only when every string
among them is clean. -/
theorem read_print_iff (h : Prints σ Clean Q) {comment : List Char}
    (hcomment : ∀ c ∈ comment, c ≠ '\n' ∧ c ≠ '\r') {ps : List (String × Value)}
    (hsorted : Sorted ps) (hps : ∀ p ∈ ps, PlainName p.1 ∧ Scalar Q p.2) :
    read (print σ comment ps) = some ps ↔ ∀ p ∈ ps, CleanValue Clean p.2 := by
  have hlen : (ps.flatMap (statement σ)).length < (print σ comment ps).length + 1 := by
    unfold print
    simp only [List.length_append, List.length_cons]
    omega
  rw [read, readPrefs_print hcomment]
  constructor
  · intro hread p hp
    by_contra hclean
    rw [readPrefs_refuses h hps ⟨p, hp, hclean⟩ hlen] at hread
    cases hread
  · intro hclean
    rw [readPrefs_clean h (fun p hp => ⟨(hps p hp).1, (hps p hp).2, hclean p hp⟩) hlen,
      Option.map_some, hsorted.sortMembers_self]

end Print

end UserJs
