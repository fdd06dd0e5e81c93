import Aegis.Lib.Bytes
import Mathlib.Data.List.Nodup
import Mathlib.Data.String.Basic

/-! JSON values, maps with sorted keys, compact text and text on several lines. -/
namespace Json
open Text

/-- A number literal: its sign, integer part, fraction digits and exponent. -/
structure Number where
  negative : Bool
  whole : ℕ
  fraction : List (Fin 10)
  exponent : Option ℤ
  deriving DecidableEq

def Number.ofNat (n : ℕ) : Number := ⟨false, n, [], none⟩

/-- The members of an object stand in document order, where a key may repeat. -/
inductive Value where
  | null
  | bool (b : Bool)
  | number (n : Number)
  | string (s : String)
  | array (vs : List Value)
  | object (ms : List (String × Value))

section Members

variable {κ α : Type*} [LinearOrder κ]

/-- Insert into members that are sorted by key, replacing the value of an equal key. -/
def insertMember (k : κ) (v : α) : List (κ × α) → List (κ × α)
  | [] => [(k, v)]
  | m :: ms =>
    if k < m.1 then (k, v) :: m :: ms
    else if k = m.1 then (k, v) :: ms
    else m :: insertMember k v ms

/-- The map that members describe: of equal keys the last one counts. -/
def sortMembers (ms : List (κ × α)) : List (κ × α) :=
  ms.foldl (fun acc m => insertMember m.1 m.2 acc) []

def keys (ms : List (κ × α)) : List κ := ms.map Prod.fst

/-- Keys are strictly increasing. -/
def Sorted (ms : List (κ × α)) : Prop := ms.Pairwise fun m n => m.1 < n.1

theorem mem_insertMember {k : κ} {v : α} {ms : List (κ × α)} {m : κ × α}
    (h : m ∈ insertMember k v ms) : m = (k, v) ∨ m ∈ ms := by
  induction ms with
  | nil => simpa [insertMember] using h
  | cons n ms ih =>
    unfold insertMember at h
    split_ifs at h
    · simpa using h
    · simp only [List.mem_cons] at h ⊢
      tauto
    · simp only [List.mem_cons] at h ⊢
      rcases h with h | h
      · exact .inr (.inl h)
      · exact (ih h).imp_right .inr

theorem Sorted.insertMember {k : κ} {v : α} {ms : List (κ × α)} (h : Sorted ms) :
    Sorted (insertMember k v ms) := by
  induction ms with
  | nil => simp [Sorted, Json.insertMember]
  | cons m ms ih =>
    obtain ⟨hm, hms⟩ := List.pairwise_cons.mp h
    unfold Json.insertMember
    split_ifs with hlt heq
    · refine List.pairwise_cons.mpr ⟨fun n hn => ?_, h⟩
      rcases List.mem_cons.mp hn with rfl | hn
      · exact hlt
      · exact hlt.trans (hm n hn)
    · exact List.pairwise_cons.mpr ⟨fun n hn => heq ▸ hm n hn, hms⟩
    · refine List.pairwise_cons.mpr ⟨fun n hn => ?_, ih hms⟩
      rcases mem_insertMember hn with rfl | hn
      · exact lt_of_le_of_ne (not_lt.mp hlt) (Ne.symm heq)
      · exact hm n hn

theorem sorted_sortMembers (ms : List (κ × α)) : Sorted (sortMembers ms) := by
  suffices h : ∀ acc : List (κ × α), Sorted acc →
      Sorted (ms.foldl (fun acc m => insertMember m.1 m.2 acc) acc) from h [] List.Pairwise.nil
  induction ms with
  | nil => exact fun acc h => h
  | cons m ms ih => exact fun acc h => ih _ h.insertMember

theorem insertMember_perm {k : κ} {v : α} {ms : List (κ × α)} (h : k ∉ keys ms) :
    (insertMember k v ms).Perm ((k, v) :: ms) := by
  induction ms with
  | nil => exact .refl _
  | cons m ms ih =>
    simp only [keys, List.map_cons, List.mem_cons, not_or] at h
    unfold insertMember
    rw [if_neg h.1]
    split_ifs
    · exact .refl _
    · exact ((ih h.2).cons m).trans (.swap _ _ _)

/-- Members with distinct keys are only put in order. -/
theorem sortMembers_perm {ms : List (κ × α)} (h : (keys ms).Nodup) : (sortMembers ms).Perm ms := by
  suffices hacc : ∀ acc : List (κ × α), (keys (acc ++ ms)).Nodup →
      (ms.foldl (fun acc m => insertMember m.1 m.2 acc) acc).Perm (acc ++ ms) from hacc [] h
  clear h
  induction ms with
  | nil => intro acc _; simp
  | cons m ms ih =>
    intro acc hacc
    have hm : m.1 ∉ keys acc := by
      simp only [keys, List.map_append, List.map_cons, List.nodup_append, List.mem_cons] at hacc
      exact fun hm => hacc.2.2 _ hm _ (.inl rfl) rfl
    have hp : (insertMember m.1 m.2 acc ++ ms).Perm (acc ++ m :: ms) :=
      ((insertMember_perm hm).append_right ms).trans List.perm_middle.symm
    exact (ih _ ((hp.map Prod.fst).nodup_iff.mpr hacc)).trans hp

/-- There is one sorted arrangement of given members. -/
theorem Sorted.eq_of_perm {ms ns : List (κ × α)} (hm : Sorted ms) (hn : Sorted ns)
    (h : ms.Perm ns) : ms = ns :=
  h.eq_of_pairwise (fun _ _ _ _ hab hba => absurd hba hab.asymm) hm hn

theorem sorted_iff {ms : List (κ × α)} : Sorted ms ↔ (keys ms).Pairwise (· < ·) :=
  List.pairwise_map.symm

theorem Sorted.nodup_keys {ms : List (κ × α)} (h : Sorted ms) : (keys ms).Nodup :=
  (sorted_iff.mp h).imp ne_of_lt

theorem Sorted.sortMembers_eq {ms ns : List (κ × α)} (hn : Sorted ns) (h : ms.Perm ns) :
    sortMembers ms = ns :=
  (sorted_sortMembers ms).eq_of_perm hn
    ((sortMembers_perm ((h.map Prod.fst).nodup_iff.mpr hn.nodup_keys)).trans h)

theorem Sorted.sortMembers_self {ms : List (κ × α)} (h : Sorted ms) : sortMembers ms = ms :=
  h.sortMembers_eq (.refl ms)

/-- It is enough to compare the members as sets. -/
theorem Sorted.sortMembers_of_mem_iff {ms ns : List (κ × α)} (hn : Sorted ns)
    (hk : (keys ms).Nodup) (h : ∀ m, m ∈ ms ↔ m ∈ ns) : sortMembers ms = ns :=
  hn.sortMembers_eq ((List.perm_ext_iff_of_nodup (List.Nodup.of_map _ hk)
    (List.Nodup.of_map _ hn.nodup_keys)).mpr h)

/-- Equal maps give a key equal values. -/
theorem value_eq_of_sortMembers_eq {ms ns : List (κ × α)} (hm : (keys ms).Nodup)
    (hn : (keys ns).Nodup) (h : sortMembers ms = sortMembers ns) {k : κ} {v w : α}
    (hv : (k, v) ∈ ms) (hw : (k, w) ∈ ns) : v = w := by
  have hperm : ms.Perm ns :=
    (sortMembers_perm hm).symm.trans (h ▸ sortMembers_perm hn)
  have hin : (k, v) ∈ ns := hperm.mem_iff.mp hv
  exact congrArg Prod.snd (List.inj_on_of_nodup_map hn hin hw rfl)

theorem insertMember_append {k : κ} {v w : α} {ms : List (κ × α)} (ns : List (κ × α))
    (h : ∀ l ∈ keys ms, l < k) : insertMember k v (ms ++ (k, w) :: ns) = ms ++ (k, v) :: ns := by
  induction ms with
  | nil => simp [insertMember]
  | cons m ms ih =>
    have hm : m.1 < k := h m.1 (by simp [keys])
    rw [List.cons_append, insertMember, if_neg hm.asymm, if_neg hm.ne',
      ih fun l hl => h l (by simp [keys] at hl ⊢; exact .inr hl), List.cons_append]

end Members

/-! Sorting every object of a value. -/

mutual

def sortKeys : Value → Value
  | .null => .null
  | .bool b => .bool b
  | .number n => .number n
  | .string s => .string s
  | .array vs => .array (sortAll vs)
  | .object ms => .object (sortMembers (sortEach ms))

def sortAll : List Value → List Value
  | [] => []
  | v :: vs => sortKeys v :: sortAll vs

def sortEach : List (String × Value) → List (String × Value)
  | [] => []
  | (k, v) :: ms => (k, sortKeys v) :: sortEach ms

end

theorem sortAll_eq_map (vs : List Value) : sortAll vs = vs.map sortKeys := by
  induction vs with
  | nil => rfl
  | cons v vs ih => rw [sortAll, ih, List.map_cons]

/-! Compact text. -/

/-- What a printer leaves to choice: how it writes a character of a string, and a number. -/
structure Style where
  escape : Char → List Char
  number : Number → List Char

def quote (escape : Char → List Char) (s : String) : List Char :=
  '"' :: s.toList.flatMap escape ++ ['"']

mutual

def compact (σ : Style) : Value → List Char
  | .null => "null".toList
  | .bool true => "true".toList
  | .bool false => "false".toList
  | .number n => σ.number n
  | .string s => quote σ.escape s
  | .array vs => '[' :: compactAll σ vs ++ [']']
  | .object ms => '{' :: compactMembers σ ms ++ ['}']

def compactAll (σ : Style) : List Value → List Char
  | [] => []
  | [v] => compact σ v
  | v :: vs => compact σ v ++ ',' :: compactAll σ vs

def compactMembers (σ : Style) : List (String × Value) → List Char
  | [] => []
  | [(k, v)] => quote σ.escape k ++ ':' :: compact σ v
  | (k, v) :: ms => quote σ.escape k ++ ':' :: compact σ v ++ ',' :: compactMembers σ ms

end

/-! Text on several lines, two blanks deeper with each array or object. -/

def lineAt (depth : ℕ) : List Char := '\n' :: List.replicate (2 * depth) ' '

mutual

def pretty (σ : Style) (depth : ℕ) : Value → List Char
  | .null => "null".toList
  | .bool true => "true".toList
  | .bool false => "false".toList
  | .number n => σ.number n
  | .string s => quote σ.escape s
  | .array [] => "[]".toList
  | .array (v :: vs) => '[' :: prettyAll σ (depth + 1) (v :: vs) ++ lineAt depth ++ [']']
  | .object [] => "{}".toList
  | .object (m :: ms) => '{' :: prettyMembers σ (depth + 1) (m :: ms) ++ lineAt depth ++ ['}']

def prettyAll (σ : Style) (depth : ℕ) : List Value → List Char
  | [] => []
  | [v] => lineAt depth ++ pretty σ depth v
  | v :: vs => lineAt depth ++ pretty σ depth v ++ ',' :: prettyAll σ depth vs

def prettyMembers (σ : Style) (depth : ℕ) : List (String × Value) → List Char
  | [] => []
  | [(k, v)] => lineAt depth ++ quote σ.escape k ++ ": ".toList ++ pretty σ depth v
  | (k, v) :: ms =>
    lineAt depth ++ quote σ.escape k ++ ": ".toList ++ pretty σ depth v ++
      ',' :: prettyMembers σ depth ms

end

/-! A predicate on every string and number of a value. -/

section Every

variable (P : String → Prop) (Q : Number → Prop)

mutual

def Every : Value → Prop
  | .null => True
  | .bool _ => True
  | .number n => Q n
  | .string s => P s
  | .array vs => EveryItem vs
  | .object ms => EveryMember ms

def EveryItem : List Value → Prop
  | [] => True
  | v :: vs => Every v ∧ EveryItem vs

def EveryMember : List (String × Value) → Prop
  | [] => True
  | (k, v) :: ms => P k ∧ Every v ∧ EveryMember ms

end

theorem everyItem_iff (vs : List Value) : EveryItem P Q vs ↔ ∀ v ∈ vs, Every P Q v := by
  induction vs with
  | nil => simp [EveryItem]
  | cons v vs ih => simp [EveryItem, ih]

end Every

theorem quote_congr {σ τ : Style} {s : String} (h : ∀ c ∈ s.toList, σ.escape c = τ.escape c) :
    quote σ.escape s = quote τ.escape s := by
  unfold quote
  rw [List.flatMap_congr h]

section Congr

variable {σ τ : Style}

theorem compactAll_cons_cons (v w : Value) (vs : List Value) :
    compactAll σ (v :: w :: vs) = compact σ v ++ ',' :: compactAll σ (w :: vs) := rfl

theorem compactMembers_cons_cons (k : String) (v : Value) (m : String × Value)
    (ms : List (String × Value)) : compactMembers σ ((k, v) :: m :: ms) =
      quote σ.escape k ++ ':' :: compact σ v ++ ',' :: compactMembers σ (m :: ms) := rfl

mutual

/-- Two printers that agree on the strings and numbers of a value print it alike. -/
theorem compact_congr (v : Value)
    (h : Every (fun s => ∀ c ∈ s.toList, σ.escape c = τ.escape c)
      (fun n => σ.number n = τ.number n) v) : compact σ v = compact τ v := by
  cases v with
  | null => rfl
  | bool b => cases b <;> rfl
  | number n => exact h
  | string s => exact quote_congr h
  | array vs => rw [compact, compact, compactAll_congr vs h]
  | object ms => rw [compact, compact, compactMembers_congr ms h]

theorem compactAll_congr (vs : List Value)
    (h : EveryItem (fun s => ∀ c ∈ s.toList, σ.escape c = τ.escape c)
      (fun n => σ.number n = τ.number n) vs) : compactAll σ vs = compactAll τ vs := by
  match vs with
  | [] => rfl
  | [v] => exact compact_congr v h.1
  | v :: w :: vs =>
    rw [compactAll_cons_cons, compactAll_cons_cons, compact_congr v h.1,
      compactAll_congr (w :: vs) h.2]

theorem compactMembers_congr (ms : List (String × Value))
    (h : EveryMember (fun s => ∀ c ∈ s.toList, σ.escape c = τ.escape c)
      (fun n => σ.number n = τ.number n) ms) : compactMembers σ ms = compactMembers τ ms := by
  match ms with
  | [] => rfl
  | [(k, v)] => rw [compactMembers, compactMembers, quote_congr h.1, compact_congr v h.2.1]
  | (k, v) :: m :: ms =>
    rw [compactMembers_cons_cons, compactMembers_cons_cons, quote_congr h.1, compact_congr v h.2.1,
      compactMembers_congr (m :: ms) h.2.2]

end

end Congr

section Chars

-- the linter does not see the hypotheses through the mutual calls
set_option linter.unusedSectionVars false

variable {σ : Style} {P : Char → Prop} (hmark : ∀ c ∈ "{}[]\",:nulltruefalse".toList, P c)
  (hescape : ∀ c, ∀ d ∈ σ.escape c, P d) (hnumber : ∀ n, ∀ c ∈ σ.number n, P c)

include hmark hescape

theorem forall_quote (s : String) : ∀ c ∈ quote σ.escape s, P c := by
  intro c hc
  simp only [quote, List.mem_append, List.mem_cons, List.mem_flatMap, List.not_mem_nil,
    or_false] at hc
  rcases hc with (rfl | ⟨d, -, hd⟩) | rfl
  · exact hmark _ (by decide)
  · exact hescape d c hd
  · exact hmark _ (by decide)

include hnumber

mutual

/-- The characters of compact text are those of its strings, its numbers and its marks. -/
theorem forall_compact (v : Value) : ∀ c ∈ compact σ v, P c := by
  cases v with
  | null =>
    have hsub : "null".toList ⊆ "{}[]\",:nulltruefalse".toList := by decide
    exact fun c hc => hmark c (hsub hc)
  | bool b =>
    have htrue : "true".toList ⊆ "{}[]\",:nulltruefalse".toList := by decide
    have hfalse : "false".toList ⊆ "{}[]\",:nulltruefalse".toList := by decide
    cases b with
    | true => exact fun c hc => hmark c (htrue hc)
    | false => exact fun c hc => hmark c (hfalse hc)
  | number n => exact hnumber n
  | string s => exact forall_quote hmark hescape s
  | array vs =>
    intro c hc
    rw [compact, List.mem_append, List.mem_cons, List.mem_singleton] at hc
    rcases hc with (rfl | hc) | rfl
    · exact hmark _ (by decide)
    · exact forall_compactAll vs c hc
    · exact hmark _ (by decide)
  | object ms =>
    intro c hc
    rw [compact, List.mem_append, List.mem_cons, List.mem_singleton] at hc
    rcases hc with (rfl | hc) | rfl
    · exact hmark _ (by decide)
    · exact forall_compactMembers ms c hc
    · exact hmark _ (by decide)

theorem forall_compactAll (vs : List Value) : ∀ c ∈ compactAll σ vs, P c := by
  match vs with
  | [] => exact nofun
  | [v] => exact forall_compact v
  | v :: w :: vs =>
    intro c hc
    rw [compactAll_cons_cons, List.mem_append, List.mem_cons] at hc
    rcases hc with hc | rfl | hc
    · exact forall_compact v c hc
    · exact hmark _ (by decide)
    · exact forall_compactAll (w :: vs) c hc

theorem forall_compactMembers (ms : List (String × Value)) :
    ∀ c ∈ compactMembers σ ms, P c := by
  match ms with
  | [] => exact nofun
  | [(k, v)] =>
    intro c hc
    rw [compactMembers, List.mem_append, List.mem_cons] at hc
    rcases hc with hc | rfl | hc
    · exact forall_quote hmark hescape k c hc
    · exact hmark _ (by decide)
    · exact forall_compact v c hc
  | (k, v) :: m :: ms =>
    intro c hc
    rw [compactMembers_cons_cons, List.mem_append, List.mem_append, List.mem_cons,
      List.mem_cons] at hc
    rcases hc with (hc | rfl | hc) | rfl | hc
    · exact forall_quote hmark hescape k c hc
    · exact hmark _ (by decide)
    · exact forall_compact v c hc
    · exact hmark _ (by decide)
    · exact forall_compactMembers (m :: ms) c hc

end

end Chars

end Json
