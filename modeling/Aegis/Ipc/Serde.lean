import Aegis.Lib.JsonPretty
import Aegis.Update.Manifest

/-! What serialisers and deserialisers derive to, and the JSON of a value as bytes. Every type that
is sent carries the proof that it is read back. -/
namespace Aegis
open Json Text Deserialize

/-! ### The printed text is read back -/

/-- The numbers that occur are integers without a sign. -/
def Plain (n : Number) : Prop := ∃ k, n = .ofNat k

def PlainValue (v : Value) : Prop := Every (fun _ => True) Plain v

theorem char_eq {c : Char} {n : ℕ} (h : c.toNat = n) : c = Char.ofNat n := by
  rw [← h, Char.ofNat_toNat]

theorem readChar_plain {c : Char} (hspecial : ¬ (c = '"' ∨ c = '\\')) (hcontrol : ¬ c.toNat < 0x20)
    (cs : List Char) : readChar (c :: cs) = some (c, cs) := by
  obtain ⟨hquote, hslash⟩ := not_or.mp hspecial
  rw [readChar.eq_def]
  split
  · exact absurd (List.cons.inj ‹_›).1 hslash
  · exact absurd (List.cons.inj ‹_›).1 hslash
  · obtain ⟨rfl, rfl⟩ := List.cons.inj ‹_›
    rw [if_neg (by simp only [hcontrol, hquote, hslash, or_self, not_false_eq_true])]
  · cases ‹_ :: _ = []›

theorem readChar_unicodeEscape {c : Char} (h : c.toNat < 0x20) (cs : List Char) :
    readChar (unicodeEscape c ++ cs) = some (c, cs) := by
  have hdigits : unicodeEscape c ++ cs = '\\' :: 'u' :: Nat.digitChar (c.toNat / 16 ^ 3 % 16) ::
      Nat.digitChar (c.toNat / 16 ^ 2 % 16) :: Nat.digitChar (c.toNat / 16 ^ 1 % 16) ::
      Nat.digitChar (c.toNat / 16 ^ 0 % 16) :: cs := rfl
  have hvalue : ((16 * (c.toNat / 16 ^ 3 % 16) + c.toNat / 16 ^ 2 % 16) * 16 +
      c.toNat / 16 ^ 1 % 16) * 16 + c.toNat / 16 ^ 0 % 16 = c.toNat := by omega
  rw [hdigits, readChar, readUnicode, hexQuad]
  rw [hexDigit_digitChar (Nat.mod_lt _ (by decide)), hexDigit_digitChar (Nat.mod_lt _ (by decide)),
    hexDigit_digitChar (Nat.mod_lt _ (by decide)), hexDigit_digitChar (Nat.mod_lt _ (by decide))]
  simp only [Option.bind_eq_bind, Option.bind_some, Option.pure_def, hvalue, Char.ofNat_toNat]
  rw [if_pos (.inl (by omega))]

theorem readChar_escape (c : Char) (cs : List Char) :
    readChar (serdeStyle.escape c ++ cs) = some (c, cs) := by
  unfold serdeStyle commonEscape
  dsimp only
  split_ifs with hspecial h8 h9 h10 h12 h13 hcontrol
  · rcases hspecial with rfl | rfl <;> rfl
  · obtain rfl := char_eq h8
    rfl
  · obtain rfl := char_eq h9
    rfl
  · obtain rfl := char_eq h10
    rfl
  · obtain rfl := char_eq h12
    rfl
  · obtain rfl := char_eq h13
    rfl
  · exact readChar_unicodeEscape hcontrol cs
  · exact readChar_plain hspecial hcontrol cs

theorem escape_head (c : Char) : ∃ d ds, serdeStyle.escape c = d :: ds ∧ d ≠ '"' := by
  unfold serdeStyle commonEscape
  dsimp only
  split_ifs with hspecial h8 h9 h10 h12 h13 hcontrol
  case neg => exact ⟨c, [], rfl, fun h => hspecial (.inl h)⟩
  all_goals exact ⟨'\\', _, rfl, by decide⟩

theorem readDigits_append {ds cs : List Char} (hd : ∀ d ∈ ds, d.isDigit = true) (hne : ds ≠ [])
    (hcs : Ends cs) : readDigits (ds ++ cs) = some (ds, cs) := by
  have hspan : (ds ++ cs).span Char.isDigit = (ds, cs) := by
    rw [List.span_eq_takeWhile_dropWhile, List.takeWhile_append_of_pos hd,
      List.dropWhile_append_of_pos hd]
    cases cs with
    | nil => simp
    | cons c cs =>
      have hc := (hcs c rfl).1
      rw [List.takeWhile_cons_of_neg (by simp [hc]), List.dropWhile_cons_of_neg (by simp [hc]),
        List.append_nil]
  unfold readDigits
  rw [hspan]
  exact if_neg hne

/-- A positive number is printed without a leading zero. -/
theorem head_toDigits {n : ℕ} (h : 0 < n) : (Nat.toDigits 10 n).head? ≠ some '0' := by
  induction n using Nat.strongRecOn with
  | ind n ih =>
    by_cases hlt : n < 10
    · rw [Nat.toDigits_of_lt_base hlt]
      have hall : ∀ m : Fin 10, 0 < m.val → Nat.digitChar m.val ≠ '0' := by decide
      simpa using hall ⟨n, hlt⟩ h
    · rw [Nat.toDigits_of_base_le (by decide) (by omega)]
      have hrec := ih (n / 10) (by omega) (by omega)
      cases hd : Nat.toDigits 10 (n / 10) with
      | nil => exact absurd hd Nat.toDigits_ne_nil
      | cons d ds =>
        rw [hd] at hrec
        simpa using hrec

theorem isDigit_toDigits (k : ℕ) : ∀ d ∈ Nat.toDigits 10 k, d.isDigit = true :=
  fun _ hd => Nat.isDigit_of_mem_toDigits (by decide) (by decide) hd

theorem readWhole_toDigits (k : ℕ) {cs : List Char} (hcs : Ends cs) :
    readWhole (Nat.toDigits 10 k ++ cs) = some (k, cs) := by
  rw [readWhole, readDigits_append (isDigit_toDigits k) Nat.toDigits_ne_nil hcs]
  simp only [Option.bind_eq_bind, Option.bind_some]
  rw [if_neg, Nat.ofDigitChars_ten_toDigits]
  · rfl
  · rintro ⟨hzero, hne⟩
    rcases Nat.eq_zero_or_pos k with rfl | hpos
    · exact hne (Nat.toDigits_zero 10)
    · exact head_toDigits hpos hzero

theorem readFraction_of_ends {cs : List Char} (hcs : Ends cs) :
    readFraction cs = some ([], cs) := by
  unfold readFraction
  split
  · exact absurd rfl (hcs '.' rfl).2.1
  · rfl

theorem readExponent_of_ends {cs : List Char} (hcs : Ends cs) :
    readExponent cs = some (none, cs) := by
  cases cs with
  | nil => rfl
  | cons c cs =>
    obtain ⟨-, -, he, hE⟩ := hcs c rfl
    exact if_neg (by simp only [he, hE, or_self, not_false_eq_true])

theorem readNumber_toDigits (k : ℕ) {cs : List Char} (hcs : Ends cs) :
    readNumber (Nat.toDigits 10 k ++ cs) = some (.ofNat k, cs) := by
  have hwhole := readWhole_toDigits k hcs
  obtain ⟨d, ds, hd⟩ := List.exists_cons_of_ne_nil (Nat.toDigits_ne_nil : Nat.toDigits 10 k ≠ [])
  have hdigit := isDigit_toDigits k d (by simp [hd])
  have hsign : d ≠ '-' := by rintro rfl; exact absurd hdigit (by decide)
  rw [hd, List.cons_append] at hwhole ⊢
  unfold readNumber
  split
  rename_i negative cs' heq
  split at heq
  · exact absurd (List.cons.inj ‹_›).1 hsign
  · obtain ⟨rfl, rfl⟩ := Prod.mk.inj heq
    simp only [hwhole, Option.bind_eq_bind, Option.bind_some, readFraction_of_ends hcs,
      readExponent_of_ends hcs]
    rfl

theorem serdeStyle_readable : serdeStyle.Readable Plain where
  escape := readChar_escape
  escape_head := escape_head
  number := by
    rintro n cs ⟨k, rfl⟩ hcs
    exact readNumber_toDigits k hcs
  number_head := by
    rintro n ⟨k, rfl⟩
    obtain ⟨d, ds, hd⟩ := List.exists_cons_of_ne_nil (Nat.toDigits_ne_nil : Nat.toDigits 10 k ≠ [])
    exact ⟨d, ds, hd, .inr (isDigit_toDigits k d (by simp [hd]))⟩

/-! ### Types that are sent -/

/-- A type with its derived serialiser and deserialiser, which reads what is written. -/
class Wire (α : Type) where
  toValue : α → Value
  ofValue : Value → Option α
  plain : ∀ a, PlainValue (toValue a)
  ofValue_toValue : ∀ a, ofValue (toValue a) = some a

/-- A value is not written as null, so that it can be told from a missing one. -/
class Wire.NonNull (α : Type) [Wire α] : Prop where
  ne_null : ∀ a : α, toValue a ≠ .null

open Wire

section Basic

variable {α : Type}

instance : Wire Bool where
  toValue := .bool
  ofValue
    | .bool b => some b
    | _ => none
  plain _ := trivial
  ofValue_toValue _ := rfl

instance : Wire String where
  toValue := .string
  ofValue := string
  plain _ := trivial
  ofValue_toValue _ := rfl

instance : NonNull String := ⟨fun _ => nofun⟩

theorem unsigned_natValue {n bound : ℕ} (h : n < bound) : unsigned bound (natValue n) = some n :=
  if_pos h

/-- An unsigned integer of a type with `bound` values. -/
@[reducible] def Wire.unsigned (bound : ℕ) (ofNat : ℕ → α) (toNat : α → ℕ)
    (hlt : ∀ a, toNat a < bound)
    (hof : ∀ a, ofNat (toNat a) = a) : Wire α where
  toValue a := natValue (toNat a)
  ofValue v := (Deserialize.unsigned bound v).map ofNat
  plain a := ⟨toNat a, rfl⟩
  ofValue_toValue a := by rw [unsigned_natValue (hlt a), Option.map_some, hof]

instance : Wire (BitVec 16) := .unsigned (2 ^ 16) (BitVec.ofNat 16) BitVec.toNat BitVec.isLt
  fun _ => BitVec.ofNat_toNat ..

instance : Wire (BitVec 32) := .unsigned (2 ^ 32) (BitVec.ofNat 32) BitVec.toNat BitVec.isLt
  fun _ => BitVec.ofNat_toNat ..

instance : NonNull (BitVec 32) := ⟨fun _ => nofun⟩

instance : Wire UInt64 := .unsigned (2 ^ 64) UInt64.ofNat UInt64.toNat UInt64.toNat_lt
  fun _ => UInt64.ofNat_toNat

instance [Wire α] [NonNull α] : Wire (Option α) where
  toValue := optionValue toValue
  ofValue := nullable ofValue
  plain
    | none => trivial
    | some a => plain a
  ofValue_toValue
    | none => rfl
    | some a => by
      have hread := ofValue_toValue a
      show nullable ofValue (toValue a) = some (some a)
      unfold nullable
      split
      · exact absurd ‹_› (NonNull.ne_null a)
      · rw [hread]
        rfl

theorem mapM_map {β γ : Type} {f : α → β} {g : β → Option γ} {h : α → γ}
    (hg : ∀ a, g (f a) = some (h a)) (as : List α) : (as.map f).mapM g = some (as.map h) := by
  induction as with
  | nil => rfl
  | cons a as ih =>
    rw [List.map_cons, List.mapM_cons, hg, ih]
    rfl

instance [Wire α] : Wire (List α) where
  toValue as := .array (as.map toValue)
  ofValue := list ofValue
  plain as := by
    apply (everyItem_iff _ _ _).mpr
    intro v hv
    obtain ⟨a, -, rfl⟩ := List.mem_map.mp hv
    exact plain a
  ofValue_toValue as := by
    show (as.map toValue).mapM ofValue = some as
    rw [mapM_map (h := id) ofValue_toValue, List.map_id]

/-- A type that is written as another one. -/
@[reducible] def Wire.map {β : Type} [Wire β] (f : β → Option α) (g : α → β)
    (h : ∀ a, f (g a) = some a) :
    Wire α where
  toValue a := toValue (g a)
  ofValue v := (ofValue v).bind f
  plain a := plain (g a)
  ofValue_toValue a := by rw [ofValue_toValue, Option.bind_some, h]

/-- The name of a variant in a table of names. -/
def nameIn [DecidableEq α] (names : List (String × α)) (a : α) : String :=
  ((names.find? fun n => n.2 = a).map Prod.fst).getD ""

/-- An enumeration whose variants have no data, with the names it is renamed to. -/
@[reducible] def Wire.variants [DecidableEq α] (names : List (String × α))
    (h : ∀ a, names.lookup (nameIn names a) = some a) : Wire α where
  toValue a := .string (nameIn names a)
  ofValue := unitVariant names
  plain _ := trivial
  ofValue_toValue := h

end Basic

/-! ### Structures -/

theorem filter_key_eq_nil {k : String} {ms : List (String × Value)} (h : k ∉ keys ms) :
    ms.filter (fun m => m.1 = k) = [] := by
  apply List.filter_eq_nil_iff.mpr
  intro m hm
  have hne : m.1 ≠ k := fun he => h (he ▸ List.mem_map_of_mem hm)
  simpa using hne

theorem member_cons_self {k : String} {v : Value} {ms : List (String × Value)} (h : k ∉ keys ms) :
    member k ((k, v) :: ms) = some (some v) := by
  unfold member
  rw [List.filter_cons_of_pos (by simp), filter_key_eq_nil h]

theorem member_of_mem {m : String × Value} {ms : List (String × Value)} (hn : (keys ms).Nodup)
    (h : m ∈ ms) : member m.1 ms = some (some m.2) := by
  induction ms with
  | nil => cases h
  | cons n ms ih =>
    obtain ⟨hnot, hn⟩ := List.nodup_cons.mp hn
    rcases List.mem_cons.mp h with rfl | h
    · exact member_cons_self hnot
    · have hne : n.1 ≠ m.1 := fun he => hnot (he ▸ List.mem_map_of_mem h)
      unfold member
      rw [List.filter_cons_of_neg (by simpa using hne)]
      exact ih hn h

/-- The fields of a structure: how they are written, and read by name or by position. -/
structure Record (α : Type) where
  names : List String
  write : α → List (String × Value)
  named : List (String × Value) → Option α
  listed : List Value → Option α
  keys_write : ∀ a, keys (write a) = names
  plain : ∀ a, ∀ m ∈ write a, PlainValue m.2
  named_of_member : ∀ a ms, (∀ m ∈ write a, member m.1 ms = some (some m.2)) → named ms = some a
  listed_write : ∀ a, listed ((write a).map Prod.snd) = some a

namespace Record

variable {α β : Type}

/-- No field; an array has no more items. -/
def nil : Record Unit where
  names := []
  write _ := []
  named _ := some ()
  listed vs := if vs = [] then some () else none
  keys_write _ := rfl
  plain _ := nofun
  named_of_member _ _ _ := rfl
  listed_write _ := rfl

/-- A field in front of others: `absent` is its value where an object lacks it, `short` where an
array ends before it. -/
def cons [Wire α] (name : String) (absent short : Option α) (r : Record β) : Record (α × β) where
  names := name :: r.names
  write a := (name, toValue a.1) :: r.write a.2
  named ms :=
    match member name ms with
    | some (some v) => do return (← ofValue v, ← r.named ms)
    | some none => do return (← absent, ← r.named ms)
    | none => none
  listed
    | v :: vs => do return (← ofValue v, ← r.listed vs)
    | [] => do return (← short, ← r.listed [])
  keys_write a := by rw [keys, List.map_cons, ← keys, r.keys_write]
  plain a m hm := by
    rcases List.mem_cons.mp hm with rfl | hm
    · exact Wire.plain a.1
    · exact r.plain a.2 m hm
  named_of_member a ms h := by
    rw [h _ List.mem_cons_self,
      r.named_of_member a.2 ms fun m hm => h m (List.mem_cons_of_mem _ hm)]
    simp [ofValue_toValue]
  listed_write a := by
    rw [List.map_cons]
    simp [ofValue_toValue, r.listed_write]

/-- A field without a default. -/
def required [Wire α] (name : String) (r : Record β) : Record (α × β) := cons name none none r

def defaulted [Wire α] (name : String) (a : α) (r : Record β) : Record (α × β) :=
  cons name (some a) (some a) r

/-- A field of an optional type without a default, which an object may lack all the same. -/
def optional [Wire (Option α)] (name : String) (r : Record β) : Record (Option α × β) :=
  cons name (some none) none r

/-- The fields of a structure, given as a tuple. -/
def of (fields : α → β) (make : β → α) (h : ∀ a, make (fields a) = a) (r : Record β) :
    Record α where
  names := r.names
  write a := r.write (fields a)
  named ms := (r.named ms).map make
  listed vs := (r.listed vs).map make
  keys_write a := r.keys_write (fields a)
  plain a := r.plain (fields a)
  named_of_member a ms hm := by rw [r.named_of_member _ ms hm, Option.map_some, h]
  listed_write a := by rw [r.listed_write, Option.map_some, h]

variable (r : Record α)

theorem plain_object (ms : List (String × Value)) (h : ∀ m ∈ ms, PlainValue m.2) :
    PlainValue (.object ms) := by
  induction ms with
  | nil => trivial
  | cons m ms ih =>
    exact ⟨trivial, h m List.mem_cons_self, ih fun n hn => h n (List.mem_cons_of_mem _ hn)⟩

/-- What is read from an object or an array. -/
def read : Value → Option α
  | .object ms => r.named ms
  | .array vs => r.listed vs
  | _ => none

theorem read_write (h : r.names.Nodup) (a : α) : r.read (.object (r.write a)) = some a := by
  apply r.named_of_member
  intro m hm
  exact member_of_mem (by rwa [r.keys_write]) hm

/-- A structure with fields of different names. -/
@[reducible] def wire (h : r.names.Nodup) : Wire α where
  toValue a := .object (r.write a)
  ofValue := r.read
  plain a := plain_object _ (r.plain a)
  ofValue_toValue := r.read_write h

end Record

/-! ### Tagged variants -/

section Tagged

variable {α β : Type}

/-- The content of a variant under its tag in one object: the members other than the tag, or the
items behind it. -/
def Deserialize.tagged (tag : String) (variant : String → Value → Option α) : Value → Option α
  | .object ms =>
    match member tag ms with
    | some (some (.string s)) => variant s (.object (ms.filter fun m => m.1 ≠ tag))
    | _ => none
  | .array (.string s :: vs) => variant s (.array vs)
  | _ => none

theorem tagged_cons {tag s : String} {ms : List (String × Value)} (h : tag ∉ keys ms)
    (variant : String → Value → Option α) :
    tagged tag variant (.object ((tag, .string s) :: ms)) = variant s (.object ms) := by
  have hother : ms.filter (fun m => m.1 ≠ tag) = ms := by
    apply List.filter_eq_self.mpr
    intro m hm
    have hne : m.1 ≠ tag := fun he => h (he ▸ List.mem_map_of_mem hm)
    simpa using hne
  simp only [tagged, member_cons_self h]
  rw [List.filter_cons_of_neg (by simp), hother]

/-- Tag and content of a variant in two members, the content perhaps missing. -/
def Deserialize.adjacent (tag content : String) (names : List (String × β))
    (variant : β → Option Value → Option α) : Value → Option α
  | .object ms => do variant (← required tag (unitVariant names) ms) (← member content ms)
  | .array [t, v] => do variant (← unitVariant names t) (some v)
  | _ => none

theorem adjacent_object {tag content s : String} {names : List (String × β)} {b : β}
    {body : Option Value} (hne : tag ≠ content) (hname : names.lookup s = some b)
    (variant : β → Option Value → Option α) :
    adjacent tag content names variant
      (.object ((tag, .string s) :: (body.map fun v => (content, v)).toList)) =
      variant b body := by
  cases body with
  | none => simp [adjacent, required, member, unitVariant, hne, hname]
  | some v => simp [adjacent, required, member, unitVariant, hne, hne.symm, hname]

/-- An enumeration whose variants are told apart by a tag, with their data as the content. -/
@[reducible] def Wire.adjacent [DecidableEq β] (tag content : String) (names : List (String × β))
    (kind : α → β) (body : α → Option Value) (ofBody : β → Option Value → Option α)
    (hne : tag ≠ content) (hnames : ∀ b, names.lookup (nameIn names b) = some b)
    (hplain : ∀ a, ∀ v ∈ body a, PlainValue v) (hread : ∀ a, ofBody (kind a) (body a) = some a) :
    Wire α where
  toValue a := .object ((tag, .string (nameIn names (kind a))) ::
    ((body a).map fun v => (content, v)).toList)
  ofValue := Deserialize.adjacent tag content names ofBody
  plain a := by
    apply Record.plain_object
    intro m hm
    rcases List.mem_cons.mp hm with rfl | hm
    · trivial
    · obtain ⟨v, hv, rfl⟩ := Option.map_eq_some_iff.mp (Option.mem_toList.mp hm)
      exact hplain a v hv
  ofValue_toValue a := by rw [adjacent_object hne (hnames (kind a)), hread]

/-- What the content of a variant without data may be. -/
def Deserialize.unitContent (a : α) : Option Value → Option α
  | none | some .null => some a
  | _ => none

/-- The content of a variant with one value, `absent` where it is missing. -/
def Deserialize.newtypeContent [Wire β] (absent : Option β) (f : β → α) :
    Option Value → Option α
  | none => absent.map f
  | some v => (ofValue v).map f

/-- The content of a variant with fields. -/
def Deserialize.structContent (r : Record β) (f : β → α) : Option Value → Option α
  | none => none
  | some v => (r.read v).map f

theorem newtypeContent_toValue [Wire β] (absent : Option β) (f : β → α) (b : β) :
    newtypeContent absent f (some (toValue b)) = some (f b) := by
  rw [newtypeContent, ofValue_toValue, Option.map_some]

theorem structContent_write {r : Record β} (h : r.names.Nodup) (f : β → α) (b : β) :
    structContent r f (some (.object (r.write b))) = some (f b) := by
  rw [structContent, r.read_write h, Option.map_some]

end Tagged

/-! ### Maps -/

/-- A map, as its entries in the order of their keys. -/
structure SortedMap (κ α : Type) [LinearOrder κ] where
  entries : List (κ × α)
  sorted : Sorted entries

namespace SortedMap

variable {κ α : Type} [LinearOrder κ]

@[ext] theorem ext {m n : SortedMap κ α} (h : m.entries = n.entries) : m = n := by
  cases m
  cases n
  cases h
  rfl

instance [DecidableEq α] : DecidableEq (SortedMap κ α) := fun m n =>
  decidable_of_iff (m.entries = n.entries) ⟨ext, fun h => h ▸ rfl⟩

def empty : SortedMap κ α := ⟨[], List.Pairwise.nil⟩

/-- The map of a list of entries, the last of equal keys. -/
def ofList (es : List (κ × α)) : SortedMap κ α := ⟨sortMembers es, sorted_sortMembers es⟩

theorem ofList_entries (m : SortedMap κ α) : ofList m.entries = m :=
  ext m.sorted.sortMembers_self

def get? (m : SortedMap κ α) (k : κ) : Option α := m.entries.lookup k

/-- A map whose keys are written as names. -/
@[reducible] def wire [Wire α] (name : κ → String) (key : String → Option κ)
    (h : ∀ k, key (name k) = some k) : Wire (SortedMap κ α) where
  toValue m := .object (m.entries.map fun e => (name e.1, toValue e.2))
  ofValue
    | .object ms => (ms.mapM fun (m : String × Value) => do
        return (← key m.1, ← ofValue m.2)).map ofList
    | _ => none
  plain m := by
    apply Record.plain_object
    intro n hn
    obtain ⟨e, -, rfl⟩ := List.mem_map.mp hn
    exact Wire.plain e.2
  ofValue_toValue m := by
    have hread : ∀ e : κ × α, (do
        return (← key (name e.1), ← ofValue (toValue e.2)) : Option (κ × α)) = some e := by
      intro e
      simp [h, ofValue_toValue]
    simp only
    rw [mapM_map (h := id) hread, List.map_id, Option.map_some, ofList_entries]

end SortedMap

/-! ### The bytes -/

/-- `serde_json::to_vec`. -/
def toVec {α : Type} [Wire α] (a : α) : Bytes := utf8 (compact serdeStyle (toValue a))

/-- `serde_json::to_vec_pretty`. -/
def toVecPretty {α : Type} [Wire α] (a : α) : Bytes := utf8 (pretty serdeStyle 0 (toValue a))

/-- `serde_json::from_slice`. -/
def fromSlice (α : Type) [Wire α] (bs : Bytes) : Option α := do
  let cs ← utf8Decode bs
  let v ← Json.read cs
  ofValue v

/-- Bytes that begin with a zero are no value. -/
theorem fromSlice_zero {α : Type} [Wire α] {bs : Bytes} (h : bs.head? = some 0) :
    fromSlice α bs = none := by
  obtain ⟨rest, rfl⟩ : ∃ rest, bs = 0 :: rest := by
    cases bs with
    | nil => cases h
    | cons b rest => exact ⟨rest, by rw [Option.some.inj h]⟩
  rw [fromSlice, utf8Decode_zero]
  cases utf8Decode rest with
  | none => rfl
  | some cs =>
    simp only [Option.map_some, Option.bind_eq_bind, Option.bind_some]
    rw [Json.read_zero, Option.bind_none]

theorem escape_ne_newline (c : Char) : ∀ d ∈ serdeStyle.escape c, d ≠ '\n' := by
  unfold serdeStyle commonEscape
  dsimp only
  split_ifs with hspecial h8 h9 h10 h12 h13 hcontrol
  · rcases hspecial with rfl | rfl <;> simp
  · simp
  · simp
  · simp
  · simp
  · simp
  · intro d hd
    have hdigit : ∀ n : Fin 16, Nat.digitChar n ≠ '\n' := by decide
    simp only [Option.getD_some, unicodeEscape, List.mem_cons, List.mem_map] at hd
    rcases hd with rfl | rfl | ⟨i, -, rfl⟩
    · decide
    · decide
    · exact hdigit ⟨_, Nat.mod_lt _ (by decide)⟩
  · intro d hd
    obtain rfl := List.mem_singleton.mp hd
    rintro rfl
    exact h10 rfl

/-- What is sent is one line. -/
theorem newline_not_mem_toVec {α : Type} [Wire α] (a : α) : (10 : UInt8) ∉ toVec a := by
  have hnumber : ∀ n : Number, ∀ c ∈ serdeStyle.number n, c ≠ '\n' := by
    rintro n c hc rfl
    exact absurd (isDigit_toDigits n.whole _ hc) (by decide)
  have hmark : ∀ c ∈ "{}[]\",:nulltruefalse".toList, c ≠ '\n' := by
    rintro c hc rfl
    exact absurd hc (by decide)
  intro h
  exact forall_compact hmark escape_ne_newline hnumber (toValue a) _ (newline_of_mem_utf8 h) rfl

theorem fromSlice_toVec {α : Type} [Wire α] (a : α) : fromSlice α (toVec a) = some a := by
  unfold fromSlice toVec
  rw [utf8Decode_utf8]
  simp only [Option.bind_eq_bind, Option.bind_some]
  rw [read_compact serdeStyle_readable _ (plain a), Option.bind_some, ofValue_toValue]

theorem fromSlice_toVecPretty {α : Type} [Wire α] (a : α) :
    fromSlice α (toVecPretty a) = some a := by
  unfold fromSlice toVecPretty
  rw [utf8Decode_utf8]
  simp only [Option.bind_eq_bind, Option.bind_some]
  rw [read_pretty serdeStyle_readable 0 _ (plain a), Option.bind_some, ofValue_toValue]

end Aegis
