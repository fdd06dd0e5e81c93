import Aegis.Lib.Json

/-! Reading JSON text, and that a printer of compact text is read back. -/
namespace Json
open Text

/-! ### The reader -/

def isSpace (c : Char) : Bool := c = ' ' || c = '\n' || c = '\t' || c = '\r'

def skipSpace (cs : List Char) : List Char := cs.dropWhile isSpace

def hexQuad : List Char → Option (ℕ × List Char)
  | a :: b :: c :: d :: cs => do
    let a ← hexDigit a
    let b ← hexDigit b
    let c ← hexDigit c
    let d ← hexDigit d
    return (((16 * a + b) * 16 + c) * 16 + d, cs)
  | _ => none

/-- The character that a code unit, or a surrogate pair, behind `\u` stands for. -/
def readUnicode (cs : List Char) : Option (Char × List Char) := do
  let (n, cs) ← hexQuad cs
  if n < 0xD800 ∨ 0xE000 ≤ n then return (Char.ofNat n, cs)
  else if 0xDC00 ≤ n then none
  else match cs with
    | '\\' :: 'u' :: cs => do
      let (m, cs) ← hexQuad cs
      if 0xDC00 ≤ m ∧ m < 0xE000 then
        return (Char.ofNat (0x10000 + (n - 0xD800) * 0x400 + (m - 0xDC00)), cs)
      else none
    | _ => none

/-- The character that one letter behind a backslash stands for. -/
def readEscape : Char → Option Char
  | '"' => some '"'
  | '\\' => some '\\'
  | '/' => some '/'
  | 'b' => some (Char.ofNat 8)
  | 'f' => some (Char.ofNat 12)
  | 'n' => some (Char.ofNat 10)
  | 'r' => some (Char.ofNat 13)
  | 't' => some (Char.ofNat 9)
  | _ => none

/-- A character of a string literal. -/
def readChar : List Char → Option (Char × List Char)
  | '\\' :: 'u' :: cs => readUnicode cs
  | '\\' :: c :: cs => (readEscape c).map fun d => (d, cs)
  | c :: cs => if c.toNat < 0x20 ∨ c = '"' ∨ c = '\\' then none else some (c, cs)
  | [] => none

/-- The characters of a string literal up to its closing quote. -/
def readString : ℕ → List Char → Option (List Char × List Char)
  | 0, _ => none
  | _ + 1, '"' :: cs => some ([], cs)
  | fuel + 1, cs => do
    let (c, cs) ← readChar cs
    let (s, cs) ← readString fuel cs
    return (c :: s, cs)

/-- One digit or more. -/
def readDigits (cs : List Char) : Option (List Char × List Char) :=
  let (ds, cs) := cs.span Char.isDigit
  if ds = [] then none else some (ds, cs)

def readWhole (cs : List Char) : Option (ℕ × List Char) := do
  let (ds, cs) ← readDigits cs
  if ds.head? = some '0' ∧ ds ≠ ['0'] then none
  else return (Nat.ofDigitChars 10 ds 0, cs)

def readFraction : List Char → Option (List (Fin 10) × List Char)
  | '.' :: cs => do
    let (ds, cs) ← readDigits cs
    return (ds.map fun d => Fin.ofNat 10 (d.toNat - '0'.toNat), cs)
  | cs => some ([], cs)

def readExponent : List Char → Option (Option ℤ × List Char)
  | c :: cs =>
    if c = 'e' ∨ c = 'E' then
      let (negative, cs) := match cs with
        | '-' :: cs => (true, cs)
        | '+' :: cs => (false, cs)
        | cs => (false, cs)
      (readDigits cs).map fun (ds, cs) =>
        let n : ℤ := Nat.ofDigitChars 10 ds 0
        (some (if negative then -n else n), cs)
    else some (none, c :: cs)
  | [] => some (none, [])

def readNumber (cs : List Char) : Option (Number × List Char) := do
  let (negative, cs) := match cs with
    | '-' :: cs => (true, cs)
    | cs => (false, cs)
  let (whole, cs) ← readWhole cs
  let (fraction, cs) ← readFraction cs
  let (exponent, cs) ← readExponent cs
  return (⟨negative, whole, fraction, exponent⟩, cs)

mutual

/-- A value at the head of a text, and what follows it. -/
def readValue : ℕ → List Char → Option (Value × List Char)
  | 0, _ => none
  | fuel + 1, cs =>
    match skipSpace cs with
    | 'n' :: cs => (stripPrefix "ull".toList cs).map (Value.null, ·)
    | 't' :: cs => (stripPrefix "rue".toList cs).map (Value.bool true, ·)
    | 'f' :: cs => (stripPrefix "alse".toList cs).map (Value.bool false, ·)
    | '"' :: cs => (readString fuel cs).map fun (s, cs) => (.string (String.ofList s), cs)
    | '[' :: cs =>
      match skipSpace cs with
      | ']' :: cs => some (.array [], cs)
      | cs => (readItems fuel cs).map fun (vs, cs) => (.array vs, cs)
    | '{' :: cs =>
      match skipSpace cs with
      | '}' :: cs => some (.object [], cs)
      | cs => (readMembers fuel cs).map fun (ms, cs) => (.object ms, cs)
    | cs => (readNumber cs).map fun (n, cs) => (.number n, cs)

/-- The items of an array that has some. -/
def readItems : ℕ → List Char → Option (List Value × List Char)
  | 0, _ => none
  | fuel + 1, cs => do
    let (v, cs) ← readValue fuel cs
    match skipSpace cs with
    | ',' :: cs => (readItems fuel cs).map fun (vs, cs) => (v :: vs, cs)
    | ']' :: cs => some ([v], cs)
    | _ => none

/-- The members of an object that has some. -/
def readMembers : ℕ → List Char → Option (List (String × Value) × List Char)
  | 0, _ => none
  | fuel + 1, cs =>
    match skipSpace cs with
    | '"' :: cs => do
      let (k, cs) ← readString fuel cs
      match skipSpace cs with
      | ':' :: cs => do
        let (v, cs) ← readValue fuel cs
        match skipSpace cs with
        | ',' :: cs =>
          (readMembers fuel cs).map fun (ms, cs) => ((String.ofList k, v) :: ms, cs)
        | '}' :: cs => some ([(String.ofList k, v)], cs)
        | _ => none
      | _ => none
    | _ => none

end

/-- The value of a text, which has nothing else but space. -/
def read (cs : List Char) : Option Value := do
  let (v, rest) ← readValue (cs.length + 1) cs
  if skipSpace rest = [] then some v else none

/-- No value begins with a zero byte. -/
theorem read_zero (cs : List Char) : read (Char.ofNat 0 :: cs) = none := by
  have hvalue : readValue ((Char.ofNat 0 :: cs).length + 1) (Char.ofNat 0 :: cs) = none := by
    rw [readValue]
    rfl
  rw [read, hvalue]
  rfl

/-! ### What a printer has to keep to -/

/-- A text that continues no number. -/
def Ends (cs : List Char) : Prop :=
  ∀ c ∈ cs.head?, c.isDigit = false ∧ c ≠ '.' ∧ c ≠ 'e' ∧ c ≠ 'E'

/-- What a number begins with. -/
def NumberHead (d : Char) : Prop := d = '-' ∨ d.isDigit = true

instance (d : Char) : Decidable (NumberHead d) := inferInstanceAs (Decidable (_ ∨ _))

/-- What is printed for the characters, and for the numbers in `Q`, is read back. -/
structure Style.Readable (σ : Style) (Q : Number → Prop) : Prop where
  escape : ∀ c cs, readChar (σ.escape c ++ cs) = some (c, cs)
  escape_head : ∀ c, ∃ d ds, σ.escape c = d :: ds ∧ d ≠ '"'
  number : ∀ n cs, Q n → Ends cs → readNumber (σ.number n ++ cs) = some (n, cs)
  number_head : ∀ n, Q n → ∃ d ds, σ.number n = d :: ds ∧ NumberHead d

section Readable

variable {σ : Style} {Q : Number → Prop} {cs : List Char} {fuel : ℕ}

theorem readString_flatMap (h : σ.Readable Q) (s : List Char) (hf : s.length < fuel) :
    readString fuel (s.flatMap σ.escape ++ '"' :: cs) = some (s, cs) := by
  induction s generalizing fuel with
  | nil =>
    obtain ⟨n, rfl⟩ : ∃ n, fuel = n + 1 := ⟨fuel - 1, by simp at hf; omega⟩
    rfl
  | cons c s ih =>
    obtain ⟨n, rfl⟩ : ∃ n, fuel = n + 1 := ⟨fuel - 1, by simp at hf; omega⟩
    obtain ⟨d, ds, hc, hd⟩ := h.escape_head c
    have hchar := h.escape c (s.flatMap σ.escape ++ '"' :: cs)
    rw [List.flatMap_cons, List.append_assoc]
    rw [hc, List.cons_append] at hchar ⊢
    rw [readString.eq_3 _ _ fun _ he => hd (List.cons.inj he).1, hchar]
    simp [ih (by simpa using hf)]

theorem Style.Readable.escape_ne (h : σ.Readable Q) (c : Char) : σ.escape c ≠ [] := by
  obtain ⟨d, ds, hc, -⟩ := h.escape_head c
  simp [hc]

omit σ Q cs fuel in
theorem length_le_flatMap {escape : Char → List Char} (h : ∀ c, escape c ≠ []) (s : List Char) :
    s.length ≤ (s.flatMap escape).length := by
  induction s with
  | nil => simp
  | cons c s ih =>
    have hc := List.length_pos_iff.mpr (h c)
    rw [List.flatMap_cons, List.length_append, List.length_cons]
    omega

theorem skipSpace_cons {c : Char} (h : isSpace c = false) : skipSpace (c :: cs) = c :: cs :=
  List.dropWhile_cons_of_neg (by simp [h])

theorem ends_cons {c : Char} (h : c = ',' ∨ c = ']' ∨ c = '}') : Ends (c :: cs) := by
  intro d hd
  obtain rfl : c = d := by simpa using hd
  rcases h with rfl | rfl | rfl <;> decide

theorem NumberHead.ne {d c : Char} (h : NumberHead d) (hc : ¬ NumberHead c) : d ≠ c := by
  rintro rfl
  exact hc h

theorem NumberHead.not_space {d : Char} (h : NumberHead d) : isSpace d = false := by
  have hne := h.ne (c := ' ') (by decide)
  have hline := h.ne (c := '\n') (by decide)
  have htab := h.ne (c := '\t') (by decide)
  have hreturn := h.ne (c := '\r') (by decide)
  simp [isSpace, hne, hline, htab, hreturn]

/-- What a value begins with. -/
theorem compact_head (h : σ.Readable Q) (v : Value) (hv : Every (fun _ => True) Q v) :
    ∃ c ds, compact σ v = c :: ds ∧ isSpace c = false ∧ c ≠ ']' := by
  cases v with
  | null => exact ⟨'n', _, rfl, rfl, by decide⟩
  | bool b =>
    cases b
    · exact ⟨'f', _, rfl, rfl, by decide⟩
    · exact ⟨'t', _, rfl, rfl, by decide⟩
  | number n =>
    obtain ⟨d, ds, hd, hhead⟩ := h.number_head n hv
    exact ⟨d, ds, hd, hhead.not_space, hhead.ne (by decide)⟩
  | string s => exact ⟨'"', _, rfl, rfl, by decide⟩
  | array vs => exact ⟨'[', _, rfl, rfl, by decide⟩
  | object ms => exact ⟨'{', _, rfl, rfl, by decide⟩

theorem readValue_number (h : σ.Readable Q) {n : Number} (hn : Q n) (hcs : Ends cs) :
    readValue (fuel + 1) (σ.number n ++ cs) = some (.number n, cs) := by
  have hread := h.number n cs hn hcs
  obtain ⟨d, ds, hd, hhead⟩ := h.number_head n hn
  rw [hd, List.cons_append] at hread ⊢
  rw [readValue, skipSpace_cons hhead.not_space]
  have hne (c : Char) (hc : ¬ NumberHead c) (rest : List Char) : d :: (ds ++ cs) ≠ c :: rest :=
    fun he => hhead.ne hc (List.cons.inj he).1
  split
  · exact absurd ‹_› (hne _ (by decide) _)
  · exact absurd ‹_› (hne _ (by decide) _)
  · exact absurd ‹_› (hne _ (by decide) _)
  · exact absurd ‹_› (hne _ (by decide) _)
  · exact absurd ‹_› (hne _ (by decide) _)
  · exact absurd ‹_› (hne _ (by decide) _)
  · rw [hread]
    rfl

theorem readValue_string (h : σ.Readable Q) (s : String)
    (hf : (quote σ.escape s).length ≤ fuel + 1) :
    readValue (fuel + 1) (quote σ.escape s ++ cs) = some (.string s, cs) := by
  have hlen := length_le_flatMap h.escape_ne s.toList
  have hread : readString fuel (s.toList.flatMap σ.escape ++ '"' :: cs) = some (s.toList, cs) := by
    apply readString_flatMap h
    simp only [quote, List.length_append, List.length_cons, List.length_nil] at hf
    omega
  rw [quote, List.append_assoc, List.cons_append, readValue, skipSpace_cons rfl]
  show (readString fuel (s.toList.flatMap σ.escape ++ '"' :: cs)).map _ = _
  rw [hread]
  simp

theorem length_quote (escape : Char → List Char) (s : String) :
    (quote escape s).length = (s.toList.flatMap escape).length + 2 := by
  simp only [quote, List.length_append, List.length_cons, List.length_nil]

theorem quote_append (escape : Char → List Char) (s : String) (cs : List Char) :
    quote escape s ++ cs = '"' :: (s.toList.flatMap escape ++ '"' :: cs) := by
  rw [quote, List.append_assoc, List.cons_append]
  rfl

/-- The key of a member and its value, up to what follows. -/
theorem readMembers_key (h : σ.Readable Q) {k : String} {v : Value}
    (hk : (quote σ.escape k).length ≤ fuel)
    (hv : readValue fuel (compact σ v ++ cs) = some (v, cs)) :
    readMembers (fuel + 1) (quote σ.escape k ++ ':' :: compact σ v ++ cs) =
      match skipSpace cs with
      | ',' :: cs => (readMembers fuel cs).map fun (ms, cs) => ((k, v) :: ms, cs)
      | '}' :: cs => some ([(k, v)], cs)
      | _ => none := by
  have hlen := length_le_flatMap h.escape_ne k.toList
  rw [length_quote] at hk
  have hread : readString fuel (k.toList.flatMap σ.escape ++ '"' :: ':' :: (compact σ v ++ cs)) =
      some (k.toList, ':' :: (compact σ v ++ cs)) := readString_flatMap h _ (by omega)
  rw [List.append_assoc, List.cons_append, quote_append, readMembers, skipSpace_cons rfl]
  simp only [hread, Option.bind_eq_bind, Option.bind_some]
  rw [skipSpace_cons (c := ':') rfl]
  simp only [hv, Option.bind_some, String.ofList_toList]

theorem compactAll_head (h : σ.Readable Q) (v : Value) (vs : List Value)
    (hv : Every (fun _ => True) Q v) :
    ∃ c ds, compactAll σ (v :: vs) = c :: ds ∧ isSpace c = false ∧ c ≠ ']' := by
  obtain ⟨c, ds, hc, hspace, hclose⟩ := compact_head h v hv
  cases vs with
  | nil => exact ⟨c, ds, hc, hspace, hclose⟩
  | cons w vs =>
    refine ⟨c, ds ++ ',' :: compactAll σ (w :: vs), ?_, hspace, hclose⟩
    rw [compactAll_cons_cons, hc, List.cons_append]

theorem readValue_array {c : Char} (hspace : isSpace c = false) (hclose : c ≠ ']') :
    readValue (fuel + 1) ('[' :: c :: cs) =
      (readItems fuel (c :: cs)).map fun (vs, cs) => (.array vs, cs) := by
  rw [readValue, skipSpace_cons rfl]
  show (match skipSpace (c :: cs) with
    | ']' :: cs => some (Value.array [], cs)
    | cs => (readItems fuel cs).map fun (vs, cs) => (Value.array vs, cs)) = _
  rw [skipSpace_cons hspace]
  split
  · exact absurd (List.cons.inj ‹_›).1 hclose
  · rfl

theorem compactMembers_head (m : String × Value) (ms : List (String × Value)) :
    ∃ ds, compactMembers σ (m :: ms) = '"' :: ds := by
  cases ms with
  | nil => exact ⟨_, rfl⟩
  | cons n ms => exact ⟨_, rfl⟩

theorem readValue_object : readValue (fuel + 1) ('{' :: '"' :: cs) =
    (readMembers fuel ('"' :: cs)).map fun (ms, cs) => (.object ms, cs) := by
  rw [readValue, skipSpace_cons rfl]
  rfl

mutual

/-- A printed value is read back, with enough fuel. -/
theorem readValue_compact (h : σ.Readable Q) (v : Value) (fuel : ℕ) (cs : List Char)
    (hv : Every (fun _ => True) Q v) (hcs : Ends cs) (hf : (compact σ v).length ≤ fuel) :
    readValue fuel (compact σ v ++ cs) = some (v, cs) := by
  obtain ⟨c, ds, hc, -, -⟩ := compact_head h v hv
  obtain ⟨n, rfl⟩ : ∃ n, fuel = n + 1 := ⟨fuel - 1, by rw [hc] at hf; simp at hf; omega⟩
  cases v with
  | null => rfl
  | bool b => cases b <;> rfl
  | number m => exact readValue_number h hv hcs
  | string s => exact readValue_string h s hf
  | array vs =>
    cases vs with
    | nil => rfl
    | cons w vs =>
      simp only [compact, List.length_append, List.length_cons, List.length_nil] at hf
      have hitems := readItems_compactAll h (w :: vs) n cs nofun hv (by omega)
      obtain ⟨d, ds, hd, hspace, hclose⟩ := compactAll_head h w vs hv.1
      have htext : compact σ (.array (w :: vs)) ++ cs =
          '[' :: (compactAll σ (w :: vs) ++ ']' :: cs) := by simp [compact]
      rw [hd, List.cons_append] at hitems htext
      rw [htext, readValue_array hspace hclose, hitems]
      rfl
  | object ms =>
    cases ms with
    | nil => rfl
    | cons m ms =>
      simp only [compact, List.length_append, List.length_cons, List.length_nil] at hf
      have hmembers := readMembers_compactMembers h (m :: ms) n cs nofun hv (by omega)
      obtain ⟨ds, hd⟩ := compactMembers_head (σ := σ) m ms
      have htext : compact σ (.object (m :: ms)) ++ cs =
          '{' :: (compactMembers σ (m :: ms) ++ '}' :: cs) := by simp [compact]
      rw [hd, List.cons_append] at hmembers htext
      rw [htext, readValue_object, hmembers]
      rfl

theorem readItems_compactAll (h : σ.Readable Q) (vs : List Value) (fuel : ℕ) (cs : List Char)
    (hne : vs ≠ []) (hv : EveryItem (fun _ => True) Q vs)
    (hf : (compactAll σ vs).length < fuel) :
    readItems fuel (compactAll σ vs ++ ']' :: cs) = some (vs, cs) := by
  obtain ⟨n, rfl⟩ : ∃ n, fuel = n + 1 := ⟨fuel - 1, by omega⟩
  match vs with
  | [] => exact absurd rfl hne
  | [v] =>
    have hread := readValue_compact h v n (']' :: cs) hv.1 (ends_cons (by simp))
      (by rw [compactAll] at hf; omega)
    rw [compactAll, readItems, hread]
    rfl
  | v :: w :: vs =>
    rw [compactAll_cons_cons, List.length_append, List.length_cons] at hf
    have hread := readValue_compact h v n (',' :: (compactAll σ (w :: vs) ++ ']' :: cs)) hv.1
      (ends_cons (by simp)) (by omega)
    have hrest := readItems_compactAll h (w :: vs) n cs nofun hv.2 (by omega)
    rw [compactAll_cons_cons, List.append_assoc, List.cons_append, readItems, hread]
    show (readItems n (compactAll σ (w :: vs) ++ ']' :: cs)).map _ = _
    rw [hrest]
    rfl

theorem readMembers_compactMembers (h : σ.Readable Q) (ms : List (String × Value)) (fuel : ℕ)
    (cs : List Char) (hne : ms ≠ []) (hm : EveryMember (fun _ => True) Q ms)
    (hf : (compactMembers σ ms).length < fuel) :
    readMembers fuel (compactMembers σ ms ++ '}' :: cs) = some (ms, cs) := by
  obtain ⟨n, rfl⟩ : ∃ n, fuel = n + 1 := ⟨fuel - 1, by omega⟩
  match ms with
  | [] => exact absurd rfl hne
  | [(k, v)] =>
    rw [compactMembers, List.length_append, List.length_cons] at hf
    have hread := readValue_compact h v n ('}' :: cs) hm.2.1 (ends_cons (by simp)) (by omega)
    rw [compactMembers, readMembers_key h (by omega) hread]
    rfl
  | (k, v) :: m :: ms =>
    rw [compactMembers_cons_cons, List.length_append, List.length_append, List.length_cons,
      List.length_cons] at hf
    have hread := readValue_compact h v n
      (',' :: (compactMembers σ (m :: ms) ++ '}' :: cs)) hm.2.1 (ends_cons (by simp)) (by omega)
    have hrest := readMembers_compactMembers h (m :: ms) n cs nofun hm.2.2 (by omega)
    rw [compactMembers_cons_cons, List.append_assoc, List.cons_append,
      readMembers_key h (by omega) hread]
    show (readMembers n (compactMembers σ (m :: ms) ++ '}' :: cs)).map _ = _
    rw [hrest]
    rfl

end

/-- Reading is the inverse of printing. -/
theorem read_compact (h : σ.Readable Q) (v : Value) (hv : Every (fun _ => True) Q v) :
    read (compact σ v) = some v := by
  have hread := readValue_compact h v ((compact σ v).length + 1) [] hv nofun (by omega)
  rw [List.append_nil] at hread
  rw [read, hread]
  rfl

end Readable

/-- Printing tells values apart. -/
theorem compact_injective {σ : Style} {Q : Number → Prop} (h : σ.Readable Q) {v w : Value}
    (hv : Every (fun _ => True) Q v) (hw : Every (fun _ => True) Q w)
    (he : compact σ v = compact σ w) : v = w := by
  have hread := read_compact h v hv
  rw [he, read_compact h w hw] at hread
  exact (Option.some.inj hread).symm

end Json
