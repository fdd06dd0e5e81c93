import Aegis.Lib.JsonText

/-! Text on several lines is read back, at whatever depth it was printed. -/
namespace Json
open Text

section Space

variable {fuel : ℕ} {cs : List Char}

theorem skipSpace_skipSpace (cs : List Char) : skipSpace (skipSpace cs) = skipSpace cs :=
  List.dropWhile_idempotent isSpace cs

/-- Space in front of a value is passed over. -/
theorem readValue_skipSpace (fuel : ℕ) (cs : List Char) :
    readValue fuel (skipSpace cs) = readValue fuel cs := by
  cases fuel with
  | zero => rfl
  | succ n => rw [readValue, readValue, skipSpace_skipSpace]

theorem readItems_skipSpace (fuel : ℕ) (cs : List Char) :
    readItems fuel (skipSpace cs) = readItems fuel cs := by
  cases fuel with
  | zero => rfl
  | succ n => rw [readItems, readItems, readValue_skipSpace]

theorem readMembers_skipSpace (fuel : ℕ) (cs : List Char) :
    readMembers fuel (skipSpace cs) = readMembers fuel cs := by
  cases fuel with
  | zero => rfl
  | succ n => rw [readMembers, readMembers, skipSpace_skipSpace]

theorem skipSpace_lineAt (depth : ℕ) (cs : List Char) :
    skipSpace (lineAt depth ++ cs) = skipSpace cs := by
  apply List.dropWhile_append_of_pos
  intro c hc
  rcases List.mem_cons.mp hc with rfl | hc
  · rfl
  · rw [List.eq_of_mem_replicate hc]
    rfl

/-- A new line continues no number. -/
theorem ends_lineAt (depth : ℕ) (cs : List Char) : Ends (lineAt depth ++ cs) := by
  intro d hd
  obtain rfl : '\n' = d := by simpa [lineAt] using hd
  decide

end Space

section Pretty

variable {σ : Style} {Q : Number → Prop} {fuel : ℕ} {cs : List Char}

theorem prettyAll_cons_cons (depth : ℕ) (v w : Value) (vs : List Value) :
    prettyAll σ depth (v :: w :: vs) =
      lineAt depth ++ pretty σ depth v ++ ',' :: prettyAll σ depth (w :: vs) := rfl

theorem prettyMembers_cons_cons (depth : ℕ) (k : String) (v : Value) (m : String × Value)
    (ms : List (String × Value)) :
    prettyMembers σ depth ((k, v) :: m :: ms) = lineAt depth ++ quote σ.escape k ++ ": ".toList ++
      pretty σ depth v ++ ',' :: prettyMembers σ depth (m :: ms) := rfl

/-- What a value begins with. -/
theorem pretty_head (h : σ.Readable Q) (depth : ℕ) (v : Value) (hv : Every (fun _ => True) Q v) :
    ∃ c ds, pretty σ depth v = c :: ds ∧ isSpace c = false ∧ c ≠ ']' := by
  cases v with
  | null => exact ⟨'n', _, rfl, rfl, by decide⟩
  | bool b =>
    cases b
    · exact ⟨'f', _, rfl, rfl, by decide⟩
    · exact ⟨'t', _, rfl, rfl, by decide⟩
  | number n =>
    obtain ⟨d, ds, hd, hhead⟩ := h.number_head n hv
    exact ⟨d, ds, hd, hhead.not_space, hhead.ne (by decide)⟩
  | string s => exact ⟨'"', _, rfl, rfl, by decide⟩
  | array vs => cases vs <;> exact ⟨'[', _, rfl, rfl, by decide⟩
  | object ms => cases ms <;> exact ⟨'{', _, rfl, rfl, by decide⟩

/-- The items of an array begin on a new line, with no bracket. -/
theorem prettyAll_head (h : σ.Readable Q) (depth : ℕ) (v : Value) (vs : List Value)
    (hv : Every (fun _ => True) Q v) :
    ∃ c ds, prettyAll σ depth (v :: vs) = lineAt depth ++ c :: ds ∧ isSpace c = false ∧
      c ≠ ']' := by
  obtain ⟨c, ds, hc, hspace, hclose⟩ := pretty_head h depth v hv
  cases vs with
  | nil => exact ⟨c, ds, congrArg (lineAt depth ++ ·) hc, hspace, hclose⟩
  | cons w vs =>
    refine ⟨c, ds ++ ',' :: prettyAll σ depth (w :: vs), ?_, hspace, hclose⟩
    rw [prettyAll_cons_cons, hc, List.append_assoc, List.cons_append]

theorem prettyMembers_head (depth : ℕ) (m : String × Value) (ms : List (String × Value)) :
    ∃ ds, prettyMembers σ depth (m :: ms) = lineAt depth ++ '"' :: ds := by
  obtain ⟨k, v⟩ := m
  cases ms with
  | nil => exact ⟨_, by rw [prettyMembers, List.append_assoc, List.append_assoc, quote_append]⟩
  | cons n ms =>
    exact ⟨_, by rw [prettyMembers_cons_cons, List.append_assoc, List.append_assoc,
      List.append_assoc, quote_append]⟩

/-- A member at the start of a line: its key and its value, up to what follows. -/
theorem readMembers_line (h : σ.Readable Q) {depth : ℕ} {k : String} {v : Value}
    (hk : (quote σ.escape k).length ≤ fuel)
    (hv : readValue fuel (pretty σ depth v ++ cs) = some (v, cs)) :
    readMembers (fuel + 1)
        (lineAt depth ++ quote σ.escape k ++ ": ".toList ++ pretty σ depth v ++ cs) =
      match skipSpace cs with
      | ',' :: cs => (readMembers fuel cs).map fun (ms, cs) => ((k, v) :: ms, cs)
      | '}' :: cs => some ([(k, v)], cs)
      | _ => none := by
  have hlen := length_le_flatMap h.escape_ne k.toList
  rw [length_quote] at hk
  have hread : readString fuel
      (k.toList.flatMap σ.escape ++ '"' :: ':' :: ' ' :: (pretty σ depth v ++ cs)) =
      some (k.toList, ':' :: ' ' :: (pretty σ depth v ++ cs)) := readString_flatMap h _ (by omega)
  have hvalue : readValue fuel (' ' :: (pretty σ depth v ++ cs)) = some (v, cs) := by
    rw [← readValue_skipSpace]
    show readValue fuel (skipSpace (pretty σ depth v ++ cs)) = _
    rw [readValue_skipSpace, hv]
  have htext : lineAt depth ++ quote σ.escape k ++ ": ".toList ++ pretty σ depth v ++ cs =
      lineAt depth ++ '"' ::
        (k.toList.flatMap σ.escape ++ '"' :: ':' :: ' ' :: (pretty σ depth v ++ cs)) := by
    simp [quote]
  rw [htext, ← readMembers_skipSpace, skipSpace_lineAt, skipSpace_cons rfl, readMembers,
    skipSpace_cons rfl]
  simp only [hread, Option.bind_eq_bind, Option.bind_some]
  rw [skipSpace_cons (c := ':') rfl, String.ofList_toList]
  show (readValue fuel (' ' :: (pretty σ depth v ++ cs))).bind _ = _
  exact congrArg (Option.bind · _) hvalue

mutual

/-- A printed value is read back, with enough fuel. -/
theorem readValue_pretty (h : σ.Readable Q) (v : Value) (depth fuel : ℕ) (cs : List Char)
    (hv : Every (fun _ => True) Q v) (hcs : Ends cs) (hf : (pretty σ depth v).length ≤ fuel) :
    readValue fuel (pretty σ depth v ++ cs) = some (v, cs) := by
  obtain ⟨c, ds, hc, -, -⟩ := pretty_head h depth v hv
  obtain ⟨n, rfl⟩ : ∃ n, fuel = n + 1 := ⟨fuel - 1, by rw [hc] at hf; simp at hf; omega⟩
  cases v with
  | null => rfl
  | bool b => cases b <;> rfl
  | number m => exact readValue_number h hv hcs
  | string s => exact readValue_string h s hf
  | array vs =>
    cases vs with
    | nil => rfl
    | cons w vs =>
      simp only [pretty, List.length_append, List.length_cons, List.length_nil] at hf
      have hitems := readItems_prettyAll h (w :: vs) depth (depth + 1) n cs nofun hv (by omega)
      obtain ⟨d, ds, hd, hspace, hclose⟩ := prettyAll_head h (depth + 1) w vs hv.1
      have htext : pretty σ depth (.array (w :: vs)) ++ cs =
          '[' :: (prettyAll σ (depth + 1) (w :: vs) ++ (lineAt depth ++ ']' :: cs)) := by
        simp [pretty]
      rw [← readItems_skipSpace, hd, List.append_assoc, skipSpace_lineAt, List.cons_append,
        skipSpace_cons hspace] at hitems
      rw [htext, hd, List.append_assoc, List.cons_append, readValue, skipSpace_cons rfl]
      show (match skipSpace (lineAt (depth + 1) ++ d :: (ds ++ (lineAt depth ++ ']' :: cs))) with
        | ']' :: cs => some (Value.array [], cs)
        | cs => (readItems n cs).map fun (vs, cs) => (Value.array vs, cs)) = _
      rw [skipSpace_lineAt, skipSpace_cons hspace]
      split
      · exact absurd (List.cons.inj ‹_›).1 hclose
      · rw [hitems]
        rfl
  | object ms =>
    cases ms with
    | nil => rfl
    | cons m ms =>
      simp only [pretty, List.length_append, List.length_cons, List.length_nil] at hf
      have hmembers :=
        readMembers_prettyMembers h (m :: ms) depth (depth + 1) n cs nofun hv (by omega)
      obtain ⟨ds, hd⟩ := prettyMembers_head (σ := σ) (depth + 1) m ms
      have htext : pretty σ depth (.object (m :: ms)) ++ cs =
          '{' :: (prettyMembers σ (depth + 1) (m :: ms) ++ (lineAt depth ++ '}' :: cs)) := by
        simp [pretty]
      rw [← readMembers_skipSpace, hd, List.append_assoc, skipSpace_lineAt, List.cons_append,
        skipSpace_cons rfl] at hmembers
      rw [htext, hd, List.append_assoc, List.cons_append, readValue, skipSpace_cons rfl]
      show (match skipSpace (lineAt (depth + 1) ++ '"' :: (ds ++ (lineAt depth ++ '}' :: cs))) with
        | '}' :: cs => some (Value.object [], cs)
        | cs => (readMembers n cs).map fun (ms, cs) => (Value.object ms, cs)) = _
      rw [skipSpace_lineAt, skipSpace_cons rfl]
      show (readMembers n ('"' :: (ds ++ (lineAt depth ++ '}' :: cs)))).map _ = _
      rw [hmembers]
      rfl

/-- The items of an array at `depth`, up to the bracket on the line of `outer`. -/
theorem readItems_prettyAll (h : σ.Readable Q) (vs : List Value) (outer depth fuel : ℕ)
    (cs : List Char) (hne : vs ≠ []) (hv : EveryItem (fun _ => True) Q vs)
    (hf : (prettyAll σ depth vs).length < fuel) :
    readItems fuel (prettyAll σ depth vs ++ (lineAt outer ++ ']' :: cs)) = some (vs, cs) := by
  obtain ⟨n, rfl⟩ : ∃ n, fuel = n + 1 := ⟨fuel - 1, by omega⟩
  match vs with
  | [] => exact absurd rfl hne
  | [v] =>
    have hlen : (pretty σ depth v).length ≤ n := by
      simp only [prettyAll, List.length_append] at hf
      omega
    have hread := readValue_pretty h v depth n (lineAt outer ++ ']' :: cs) hv.1
      (ends_lineAt outer _) hlen
    rw [prettyAll, List.append_assoc, ← readItems_skipSpace, skipSpace_lineAt,
      readItems_skipSpace, readItems, hread]
    simp only [Option.bind_eq_bind, Option.bind_some]
    rw [skipSpace_lineAt, skipSpace_cons rfl]
    rfl
  | v :: w :: vs =>
    rw [prettyAll_cons_cons, List.length_append, List.length_append, List.length_cons] at hf
    have hread := readValue_pretty h v depth n
      (',' :: (prettyAll σ depth (w :: vs) ++ (lineAt outer ++ ']' :: cs))) hv.1
      (ends_cons (by simp)) (by omega)
    have hrest := readItems_prettyAll h (w :: vs) outer depth n cs nofun hv.2 (by omega)
    rw [prettyAll_cons_cons, List.append_assoc, List.append_assoc, ← readItems_skipSpace,
      skipSpace_lineAt, readItems_skipSpace, List.cons_append, readItems, hread]
    simp only [Option.bind_eq_bind, Option.bind_some]
    rw [skipSpace_cons rfl]
    show (readItems n (prettyAll σ depth (w :: vs) ++ (lineAt outer ++ ']' :: cs))).map _ = _
    rw [hrest]
    rfl

theorem readMembers_prettyMembers (h : σ.Readable Q) (ms : List (String × Value))
    (outer depth fuel : ℕ) (cs : List Char) (hne : ms ≠ [])
    (hm : EveryMember (fun _ => True) Q ms) (hf : (prettyMembers σ depth ms).length < fuel) :
    readMembers fuel (prettyMembers σ depth ms ++ (lineAt outer ++ '}' :: cs)) =
      some (ms, cs) := by
  obtain ⟨n, rfl⟩ : ∃ n, fuel = n + 1 := ⟨fuel - 1, by omega⟩
  match ms with
  | [] => exact absurd rfl hne
  | [(k, v)] =>
    simp only [prettyMembers, List.length_append] at hf
    have hread := readValue_pretty h v depth n (lineAt outer ++ '}' :: cs) hm.2.1
      (ends_lineAt outer _) (by omega)
    rw [prettyMembers, readMembers_line h (by omega) hread, skipSpace_lineAt, skipSpace_cons rfl]
    rfl
  | (k, v) :: m :: ms =>
    rw [prettyMembers_cons_cons] at hf
    simp only [List.length_append, List.length_cons] at hf
    have hread := readValue_pretty h v depth n
      (',' :: (prettyMembers σ depth (m :: ms) ++ (lineAt outer ++ '}' :: cs))) hm.2.1
      (ends_cons (by simp)) (by omega)
    have hrest := readMembers_prettyMembers h (m :: ms) outer depth n cs nofun hm.2.2 (by omega)
    rw [prettyMembers_cons_cons, List.append_assoc, List.cons_append,
      readMembers_line h (by omega) hread, skipSpace_cons rfl]
    show (readMembers n (prettyMembers σ depth (m :: ms) ++ (lineAt outer ++ '}' :: cs))).map _ = _
    rw [hrest]
    rfl

end

/-- Reading is the inverse of printing on several lines. -/
theorem read_pretty (h : σ.Readable Q) (depth : ℕ) (v : Value)
    (hv : Every (fun _ => True) Q v) : read (pretty σ depth v) = some v := by
  have hread := readValue_pretty h v depth ((pretty σ depth v).length + 1) [] hv nofun (by omega)
  rw [List.append_nil] at hread
  rw [read, hread]
  rfl

end Pretty

end Json
