import Mathlib.Data.List.Basic
import Mathlib.Data.List.Nodup

/-! Documents of elements: a reader of start and end tags, quoted attributes, text and the five
predefined entities, a printer that gives each element a line, and that what is printed is read
back. -/
namespace Xml

/-- An element with the text directly inside it, where white space alone is none. -/
inductive Element where
  | mk (name : String) (attributes : List (String × String)) (text : String)
      (children : List Element)

namespace Element

def name : Element → String
  | mk name _ _ _ => name

def attributes : Element → List (String × String)
  | mk _ attributes _ _ => attributes

mutual

/-- The element and the ones inside it, in the order of their start tags. -/
def subtree : Element → List Element
  | mk name attributes text children => mk name attributes text children :: subtrees children

def subtrees : List Element → List Element
  | [] => []
  | e :: es => e.subtree ++ subtrees es

end

mutual

/-- The names of an element's tags and attributes, without what they hold. -/
def skeleton : Element → Element
  | mk name attributes _ children =>
    mk name (attributes.map fun a => (a.1, "")) "" (skeletons children)

def skeletons : List Element → List Element
  | [] => []
  | e :: es => e.skeleton :: skeletons es

end

/-- The elements of a name. -/
def named (n : String) (e : Element) : List Element := e.subtree.filter fun e => e.name = n

/-- The elements of a name among others. -/
def namedIn (n : String) (es : List Element) : List Element :=
  (subtrees es).filter fun e => e.name = n

/-- The values of an attribute in the elements of a name. -/
def values (n k : String) (e : Element) : List String :=
  (e.named n).filterMap fun e => e.attributes.lookup k

section Named

variable {n : String} {e : Element} {es es' : List Element}

theorem subtrees_append (es es' : List Element) :
    subtrees (es ++ es') = subtrees es ++ subtrees es' := by
  induction es with
  | nil => rfl
  | cons e es ih => simp [subtrees, ih]

theorem namedIn_append (n : String) (es es' : List Element) :
    namedIn n (es ++ es') = namedIn n es ++ namedIn n es' := by
  unfold namedIn
  rw [subtrees_append, List.filter_append]

theorem namedIn_cons (n : String) (e : Element) (es : List Element) :
    namedIn n (e :: es) = e.named n ++ namedIn n es := by
  unfold namedIn
  rw [subtrees, List.filter_append]
  rfl

theorem namedIn_map {α : Type} {f : α → Element} {g : α → List Element}
    (h : ∀ a, (f a).named n = g a) (as : List α) : namedIn n (as.map f) = as.flatMap g := by
  induction as with
  | nil => rfl
  | cons a as ih => rw [List.map_cons, namedIn_cons, h, ih, List.flatMap_cons]

theorem named_mk {name text : String} {attributes : List (String × String)} (h : n ≠ name) :
    (mk name attributes text es).named n = namedIn n es := by
  unfold named
  rw [subtree]
  exact List.filter_cons_of_neg fun hname => h (of_decide_eq_true hname).symm

theorem namedIn_eq_nil (h : n ∉ (subtrees es).map name) : namedIn n es = [] := by
  apply List.filter_eq_nil_iff.mpr
  intro e he hname
  exact h (of_decide_eq_true hname ▸ List.mem_map_of_mem he)

end Named

end Element

def isSpace (c : Char) : Bool := c = ' ' || c = '\t' || c = '\n' || c = '\r'

def isNameStart (c : Char) : Bool := c.isAlpha || c = '_' || c = ':'

def isNameChar (c : Char) : Bool := c.isAlphanum || c = '_' || c = ':' || c = '-' || c = '.'

/-- The character that a predefined entity stands for. -/
def entity (name : List Char) : Option Char :=
  [("amp", '&'), ("lt", '<'), ("gt", '>'), ("quot", '"'), ("apos", '\'')].lookup
    (String.ofList name)

/-- A start tag as far as it is read. -/
structure Tag where
  name : List Char
  attributes : List (String × String)

/-- An element that is open: what is inside it so far. -/
structure Frame where
  name : String
  attributes : List (String × String)
  text : List Char
  children : List Element

def Frame.element (f : Frame) : Element :=
  .mk f.name f.attributes (if f.text.all isSpace then "" else String.ofList f.text) f.children

/-- Where in the syntax the next character stands. -/
inductive Mode where
  | content
  | reference (name : List Char)
  | markup
  | name (name : List Char)
  | space (tag : Tag)
  | key (tag : Tag) (key : List Char)
  | equals (tag : Tag) (key : List Char)
  | value (tag : Tag) (key : List Char) (quote : Char) (value : List Char)
  | valueReference (tag : Tag) (key : List Char) (quote : Char) (value name : List Char)
  | valued (tag : Tag)
  | slash (tag : Tag)
  | endName (name : List Char)
  | endSpace (name : List Char)

structure Reader where
  root : Option Element
  stack : List Frame
  mode : Mode

namespace Reader

/-- An element is complete; a document has one that no other contains. -/
def add (r : Reader) (e : Element) : Option Reader :=
  match r.stack with
  | [] => if r.root.isSome then none else some ⟨some e, [], .content⟩
  | f :: fs => some ⟨r.root, { f with children := f.children ++ [e] } :: fs, .content⟩

/-- A character of text. -/
def write (r : Reader) (c : Char) : Option Reader :=
  match r.stack with
  | [] => if isSpace c then some { r with mode := .content } else none
  | f :: fs => some ⟨r.root, { f with text := f.text ++ [c] } :: fs, .content⟩

/-- A start tag is complete. -/
def start (r : Reader) (t : Tag) : Reader :=
  ⟨r.root, ⟨String.ofList t.name, t.attributes, [], []⟩ :: r.stack, .content⟩

/-- An end tag is complete. -/
def finish (r : Reader) (name : List Char) : Option Reader :=
  match r.stack with
  | [] => none
  | f :: fs => if f.name = String.ofList name then add ⟨r.root, fs, .content⟩ f.element else none

/-- A character of a start tag behind its name or one of its values. -/
def inTag (r : Reader) (t : Tag) (c : Char) : Option Reader :=
  if isSpace c then some { r with mode := .space t }
  else if c = '/' then some { r with mode := .slash t }
  else if c = '>' then some (r.start t)
  else none

def char (r : Reader) (c : Char) : Option Reader :=
  match r.mode with
  | .content =>
    if c = '<' then some { r with mode := .markup }
    else if c = '&' then some { r with mode := .reference [] }
    else r.write c
  | .reference n =>
    if c = ';' then (entity n).bind r.write else some { r with mode := .reference (n ++ [c]) }
  | .markup =>
    if c = '/' then some { r with mode := .endName [] }
    else if isNameStart c then some { r with mode := .name [c] }
    else none
  | .name n => if isNameChar c then some { r with mode := .name (n ++ [c]) } else r.inTag ⟨n, []⟩ c
  | .space t => if isNameStart c then some { r with mode := .key t [c] } else r.inTag t c
  | .key t k =>
    if isNameChar c then some { r with mode := .key t (k ++ [c]) }
    else if c = '=' then some { r with mode := .equals t k }
    else none
  | .equals t k => if c = '\'' ∨ c = '"' then some { r with mode := .value t k c [] } else none
  | .value t k q v =>
    if c = q then
      if String.ofList k ∈ t.attributes.map Prod.fst then none
      else some { r with
        mode := .valued ⟨t.name, t.attributes ++ [(String.ofList k, String.ofList v)]⟩ }
    else if c = '<' then none
    else if c = '&' then some { r with mode := .valueReference t k q v [] }
    else some { r with mode := .value t k q (v ++ [c]) }
  | .valueReference t k q v n =>
    if c = ';' then (entity n).map fun d => { r with mode := .value t k q (v ++ [d]) }
    else some { r with mode := .valueReference t k q v (n ++ [c]) }
  | .valued t => r.inTag t c
  | .slash t =>
    if c = '>' then r.add (.mk (String.ofList t.name) t.attributes "" []) else none
  | .endName n =>
    if c = '>' then r.finish n
    else if isNameChar c then some { r with mode := .endName (n ++ [c]) }
    else if isSpace c then some { r with mode := .endSpace n }
    else none
  | .endSpace n => if isSpace c then some r else if c = '>' then r.finish n else none

def text (r : Reader) (cs : List Char) : Option Reader := cs.foldlM char r

end Reader

/-- The element that a document consists of. -/
def read (document : List Char) : Option Element :=
  match Reader.text ⟨none, [], .content⟩ document with
  | some ⟨some e, [], .content⟩ => some e
  | _ => none

/-! ### Printing -/

section Print

variable (escape : Char → List Char)

def printAttribute (a : String × String) : List Char :=
  ' ' :: a.1.toList ++ '=' :: '\'' :: a.2.toList.flatMap escape ++ ['\'']

def printStart (name : String) (attributes : List (String × String)) : List Char :=
  '<' :: name.toList ++ attributes.flatMap (printAttribute escape)

def printEnd (name : String) : List Char := '<' :: '/' :: name.toList ++ ['>']

def indent (depth : ℕ) : List Char := List.replicate (2 * depth) ' '

mutual

/-- An element, from its start tag to its end tag. -/
def print (depth : ℕ) : Element → List Char
  | .mk name attributes text [] =>
    printStart escape name attributes ++
      if text = "" then ['/', '>'] else '>' :: text.toList.flatMap escape ++ printEnd name
  | .mk name attributes _ (e :: es) =>
    printStart escape name attributes ++ '>' :: '\n' :: printAll (depth + 1) (e :: es) ++
      indent depth ++ printEnd name

/-- Elements line by line. -/
def printAll (depth : ℕ) : List Element → List Char
  | [] => []
  | e :: es => indent depth ++ print depth e ++ '\n' :: printAll depth es

end

end Print

theorem printAll_append (escape : Char → List Char) (depth : ℕ) (es es' : List Element) :
    printAll escape depth (es ++ es') = printAll escape depth es ++ printAll escape depth es' := by
  induction es with
  | nil => rfl
  | cons e es ih => simp [printAll, ih]

/-- A name of ASCII characters. -/
def isName (name : String) : Bool :=
  match name.toList with
  | [] => false
  | c :: cs => isNameStart c && cs.all isNameChar

/-- Different names. -/
def areKeys (keys : List String) : Bool := keys.all isName && decide keys.Nodup

mutual

/-- The names can be printed, and there is text only where there are no children. -/
def Element.Printable : Element → Prop
  | .mk name attributes text children =>
    isName name = true ∧ areKeys (attributes.map Prod.fst) = true ∧
      (text = "" ∨ children = [] ∧ text.toList.all isSpace = false) ∧ Printables children

def Printables : List Element → Prop
  | [] => True
  | e :: es => e.Printable ∧ Printables es

end

/-- Each character is written as itself, where that is text, or as an entity. -/
def Escapes (escape : Char → List Char) : Prop :=
  ∀ c, (escape c = [c] ∧ c ≠ '<' ∧ c ≠ '&' ∧ c ≠ '\'') ∨
    ∃ n, escape c = '&' :: n ++ [';'] ∧ ';' ∉ n ∧ entity n = some c

/-! ### What is printed is read back -/

namespace Reader

variable {root : Option Element} {stack fs : List Frame} {f : Frame} {t : Tag} {c : Char}
  {cs ds n k v : List Char} {escape : Char → List Char}

@[simp] theorem text_nil (r : Reader) : r.text [] = some r := rfl

theorem text_cons (r : Reader) (c : Char) (cs : List Char) :
    r.text (c :: cs) = (r.char c).bind fun r => r.text cs := rfl

theorem text_append (r : Reader) (cs ds : List Char) :
    r.text (cs ++ ds) = (r.text cs).bind fun r => r.text ds := List.foldlM_append

theorem text_cons_some {r s : Reader} (h : r.char c = some s) (cs : List Char) :
    r.text (c :: cs) = s.text cs := by
  rw [text_cons, h]
  rfl

theorem text_append_some {r s : Reader} (h : r.text cs = some s) (ds : List Char) :
    r.text (cs ++ ds) = s.text ds := by
  rw [text_append, h]
  rfl

/-! #### Names -/

theorem text_name (h : ∀ c ∈ cs, isNameChar c = true) :
    text ⟨root, stack, .name n⟩ cs = some ⟨root, stack, .name (n ++ cs)⟩ := by
  induction cs generalizing n with
  | nil => simp
  | cons c cs ih =>
    obtain ⟨hc, hcs⟩ := List.forall_mem_cons.mp h
    have hstep : char ⟨root, stack, .name n⟩ c = some ⟨root, stack, .name (n ++ [c])⟩ := if_pos hc
    rw [text_cons_some hstep, ih hcs, List.append_assoc, List.singleton_append]

theorem text_key (h : ∀ c ∈ cs, isNameChar c = true) :
    text ⟨root, stack, .key t k⟩ cs = some ⟨root, stack, .key t (k ++ cs)⟩ := by
  induction cs generalizing k with
  | nil => simp
  | cons c cs ih =>
    obtain ⟨hc, hcs⟩ := List.forall_mem_cons.mp h
    have hstep : char ⟨root, stack, .key t k⟩ c = some ⟨root, stack, .key t (k ++ [c])⟩ := if_pos hc
    rw [text_cons_some hstep, ih hcs, List.append_assoc, List.singleton_append]

theorem text_endName (h : ∀ c ∈ cs, isNameChar c = true) :
    text ⟨root, stack, .endName n⟩ cs = some ⟨root, stack, .endName (n ++ cs)⟩ := by
  induction cs generalizing n with
  | nil => simp
  | cons c cs ih =>
    obtain ⟨hc, hcs⟩ := List.forall_mem_cons.mp h
    have hne : c ≠ '>' := by
      rintro rfl
      exact absurd hc (by decide)
    have hstep : char ⟨root, stack, .endName n⟩ c = some ⟨root, stack, .endName (n ++ [c])⟩ := by
      unfold char
      dsimp only
      rw [if_neg hne, if_pos hc]
    rw [text_cons_some hstep, ih hcs, List.append_assoc, List.singleton_append]

end Reader

theorem isName_cons {name : String} (h : isName name = true) : ∃ c cs, name.toList = c :: cs ∧
    isNameStart c = true ∧ ∀ d ∈ cs, isNameChar d = true := by
  unfold isName at h
  split at h
  · cases h
  · rename_i c cs hname
    obtain ⟨hc, hcs⟩ := Bool.and_eq_true_iff.mp h
    exact ⟨c, cs, hname, hc, List.all_eq_true.mp hcs⟩

theorem areKeys_iff {as : List (String × String)} : areKeys (as.map Prod.fst) = true ↔
    (∀ a ∈ as, isName a.1 = true) ∧ (as.map Prod.fst).Nodup := by
  simp [areKeys]

theorem isNameChar_of_isNameStart {c : Char} (h : isNameStart c = true) : isNameChar c = true := by
  unfold isNameStart at h
  unfold isNameChar Char.isAlphanum
  simp only [Bool.or_eq_true] at h ⊢
  tauto

namespace Reader

variable {root : Option Element} {stack fs : List Frame} {f : Frame} {t : Tag} {m : Mode}
  {c : Char} {cs ds n k v : List Char} {escape : Char → List Char}

/-! #### Values and text -/

theorem text_valueReference (h : ';' ∉ cs) :
    text ⟨root, stack, .valueReference t k '\'' v n⟩ cs =
      some ⟨root, stack, .valueReference t k '\'' v (n ++ cs)⟩ := by
  induction cs generalizing n with
  | nil => simp
  | cons c cs ih =>
    obtain ⟨hc, hcs⟩ := not_or.mp (List.mem_cons.not.mp h)
    have hstep : char ⟨root, stack, .valueReference t k '\'' v n⟩ c =
        some ⟨root, stack, .valueReference t k '\'' v (n ++ [c])⟩ := if_neg (Ne.symm hc)
    rw [text_cons_some hstep, ih hcs, List.append_assoc, List.singleton_append]

theorem text_reference (h : ';' ∉ cs) :
    text ⟨root, stack, .reference n⟩ cs = some ⟨root, stack, .reference (n ++ cs)⟩ := by
  induction cs generalizing n with
  | nil => simp
  | cons c cs ih =>
    obtain ⟨hc, hcs⟩ := not_or.mp (List.mem_cons.not.mp h)
    have hstep : char ⟨root, stack, .reference n⟩ c = some ⟨root, stack, .reference (n ++ [c])⟩ :=
      if_neg (Ne.symm hc)
    rw [text_cons_some hstep, ih hcs, List.append_assoc, List.singleton_append]

/-- An escaped character of a value is read as that character. -/
theorem text_escape_value (he : Escapes escape) (c : Char) :
    text ⟨root, stack, .value t k '\'' v⟩ (escape c) =
      some ⟨root, stack, .value t k '\'' (v ++ [c])⟩ := by
  obtain ⟨hc, hlt, hamp, hquote⟩ | ⟨n, hc, hsemi, hentity⟩ := he c
  · have hstep : char ⟨root, stack, .value t k '\'' v⟩ c =
        some ⟨root, stack, .value t k '\'' (v ++ [c])⟩ := by
      unfold char
      dsimp only
      rw [if_neg hquote, if_neg hlt, if_neg hamp]
    rw [hc, text_cons_some hstep, text_nil]
  · have hstart : char ⟨root, stack, .value t k '\'' v⟩ '&' =
        some ⟨root, stack, .valueReference t k '\'' v []⟩ := rfl
    have hend : char ⟨root, stack, .valueReference t k '\'' v ([] ++ n)⟩ ';' =
        some ⟨root, stack, .value t k '\'' (v ++ [c])⟩ := by
      unfold char
      dsimp only
      rw [if_pos rfl, List.nil_append, hentity]
      rfl
    rw [hc, List.cons_append, text_cons_some hstart, text_append_some (text_valueReference hsemi),
      text_cons_some hend, text_nil]

theorem text_value (he : Escapes escape) :
    text ⟨root, stack, .value t k '\'' v⟩ (cs.flatMap escape) =
      some ⟨root, stack, .value t k '\'' (v ++ cs)⟩ := by
  induction cs generalizing v with
  | nil => simp
  | cons c cs ih =>
    rw [List.flatMap_cons, text_append_some (text_escape_value he c), ih, List.append_assoc,
      List.singleton_append]

/-- An escaped character of text is written to the innermost element. -/
theorem text_escape_content (he : Escapes escape) (c : Char) :
    text ⟨root, f :: fs, .content⟩ (escape c) =
      some ⟨root, { f with text := f.text ++ [c] } :: fs, .content⟩ := by
  obtain ⟨hc, hlt, hamp, -⟩ | ⟨n, hc, hsemi, hentity⟩ := he c
  · have hstep : char ⟨root, f :: fs, .content⟩ c =
        some ⟨root, { f with text := f.text ++ [c] } :: fs, .content⟩ := by
      unfold char
      dsimp only
      rw [if_neg hlt, if_neg hamp]
      rfl
    rw [hc, text_cons_some hstep, text_nil]
  · have hstart : char ⟨root, f :: fs, .content⟩ '&' = some ⟨root, f :: fs, .reference []⟩ := rfl
    have hend : char ⟨root, f :: fs, .reference ([] ++ n)⟩ ';' =
        some ⟨root, { f with text := f.text ++ [c] } :: fs, .content⟩ := by
      unfold char
      dsimp only
      rw [if_pos rfl, List.nil_append, hentity]
      rfl
    rw [hc, List.cons_append, text_cons_some hstart, text_append_some (text_reference hsemi),
      text_cons_some hend, text_nil]

theorem text_content (he : Escapes escape) :
    text ⟨root, f :: fs, .content⟩ (cs.flatMap escape) =
      some ⟨root, { f with text := f.text ++ cs } :: fs, .content⟩ := by
  induction cs generalizing f with
  | nil => simp
  | cons c cs ih =>
    rw [List.flatMap_cons, text_append_some (text_escape_content he c), ih]
    simp

theorem text_spaces (h : ∀ c ∈ cs, isSpace c = true) :
    text ⟨root, f :: fs, .content⟩ cs =
      some ⟨root, { f with text := f.text ++ cs } :: fs, .content⟩ := by
  induction cs generalizing f with
  | nil => simp
  | cons c cs ih =>
    obtain ⟨hc, hcs⟩ := List.forall_mem_cons.mp h
    have hne {d : Char} (hd : isSpace d = false) : c ≠ d := by
      rintro rfl
      rw [hc] at hd
      cases hd
    have hstep : char ⟨root, f :: fs, .content⟩ c =
        some ⟨root, { f with text := f.text ++ [c] } :: fs, .content⟩ := by
      unfold char
      dsimp only
      rw [if_neg (hne (by decide)), if_neg (hne (by decide))]
      rfl
    rw [text_cons_some hstep, ih hcs]
    simp

/-! #### Tags -/

/-- Behind the name of a start tag, or one of its values. -/
def AtTag (m : Mode) (t : Tag) : Prop := m = .name t.name ∧ t.attributes = [] ∨ m = .valued t

theorem char_atTag (hm : AtTag m t) (hc : isNameChar c = false) :
    char ⟨root, stack, m⟩ c = inTag ⟨root, stack, m⟩ t c := by
  obtain ⟨name, attributes⟩ := t
  obtain ⟨rfl, hnone⟩ | rfl := hm
  · obtain rfl : attributes = [] := hnone
    unfold char
    dsimp only
    rw [if_neg (by simp [hc])]
  · rfl

theorem text_attribute (he : Escapes escape) {a : String × String} (hm : AtTag m t)
    (ha : isName a.1 = true) (hnew : a.1 ∉ t.attributes.map Prod.fst) :
    text ⟨root, stack, m⟩ (printAttribute escape a) =
      some ⟨root, stack, .valued ⟨t.name, t.attributes ++ [a]⟩⟩ := by
  obtain ⟨c, cs, hname, hc, hcs⟩ := isName_cons ha
  have hspace : char ⟨root, stack, m⟩ ' ' = some ⟨root, stack, .space t⟩ :=
    char_atTag hm (by decide)
  have hkey : char ⟨root, stack, .space t⟩ c = some ⟨root, stack, .key t [c]⟩ := if_pos hc
  have hequals : char ⟨root, stack, .key t ([c] ++ cs)⟩ '=' =
      some ⟨root, stack, .equals t ([c] ++ cs)⟩ := rfl
  have hopen : char ⟨root, stack, .equals t ([c] ++ cs)⟩ '\'' =
      some ⟨root, stack, .value t ([c] ++ cs) '\'' []⟩ := rfl
  have hofList : String.ofList ([c] ++ cs) = a.1 := by
    rw [List.singleton_append, ← hname, String.ofList_toList]
  have hclose : char ⟨root, stack, .value t ([c] ++ cs) '\'' ([] ++ a.2.toList)⟩ '\'' =
      some ⟨root, stack, .valued ⟨t.name, t.attributes ++ [a]⟩⟩ := by
    unfold char
    dsimp only
    rw [if_pos rfl, hofList, if_neg hnew, List.nil_append, String.ofList_toList]
  unfold printAttribute
  simp only [hname, List.cons_append, List.append_assoc]
  rw [text_cons_some hspace, text_cons_some hkey, text_append_some (text_key hcs),
    text_cons_some hequals, text_cons_some hopen, text_append_some (text_value he),
    text_cons_some hclose, text_nil]

variable (root stack) in
theorem text_attributes (he : Escapes escape) {as : List (String × String)} (hm : AtTag m t)
    (has : ∀ a ∈ as, isName a.1 = true) (hnodup : ((t.attributes ++ as).map Prod.fst).Nodup) :
    ∃ m', AtTag m' ⟨t.name, t.attributes ++ as⟩ ∧
      text ⟨root, stack, m⟩ (as.flatMap (printAttribute escape)) = some ⟨root, stack, m'⟩ := by
  induction as generalizing m t with
  | nil => exact ⟨m, by rwa [List.append_nil], by simp⟩
  | cons a as ih =>
    obtain ⟨ha, has⟩ := List.forall_mem_cons.mp has
    have hnew : a.1 ∉ t.attributes.map Prod.fst := by
      rw [List.map_append, List.map_cons] at hnodup
      exact fun hmem => (List.nodup_append.mp hnodup).2.2 _ hmem _ List.mem_cons_self rfl
    have hassoc : (t.attributes ++ [a]) ++ as = t.attributes ++ a :: as := by simp
    obtain ⟨m', hm', htext⟩ := ih (t := ⟨t.name, t.attributes ++ [a]⟩)
      (m := .valued ⟨t.name, t.attributes ++ [a]⟩) (.inr rfl) has (by rwa [hassoc])
    rw [hassoc] at hm'
    refine ⟨m', hm', ?_⟩
    rw [List.flatMap_cons, text_append_some (text_attribute he hm ha hnew), htext]

variable (root stack) in
theorem text_start (he : Escapes escape) {name : String} {as : List (String × String)}
    (hname : isName name = true) (has : ∀ a ∈ as, isName a.1 = true)
    (hnodup : (as.map Prod.fst).Nodup) : ∃ m, AtTag m ⟨name.toList, as⟩ ∧
      text ⟨root, stack, .content⟩ (printStart escape name as) = some ⟨root, stack, m⟩ := by
  obtain ⟨c, cs, hcons, hc, hcs⟩ := isName_cons hname
  have hslash : c ≠ '/' := by
    rintro rfl
    exact absurd hc (by decide)
  have hmarkup : char ⟨root, stack, .content⟩ '<' = some ⟨root, stack, .markup⟩ := rfl
  have hstart : char ⟨root, stack, .markup⟩ c = some ⟨root, stack, .name [c]⟩ := by
    unfold char
    dsimp only
    rw [if_neg hslash, if_pos hc]
  have hnamed : AtTag (.name name.toList) ⟨name.toList, []⟩ := .inl ⟨rfl, rfl⟩
  obtain ⟨m, hm, htext⟩ := text_attributes root stack he hnamed has hnodup
  refine ⟨m, hm, ?_⟩
  rw [hcons] at htext
  unfold printStart
  rw [hcons, List.cons_append, text_cons_some hmarkup, List.cons_append, text_cons_some hstart,
    text_append_some (text_name hcs), List.singleton_append, htext]

theorem text_end {name : String} (hname : isName name = true) (hf : f.name = name) :
    text ⟨root, f :: fs, .content⟩ (printEnd name) = add ⟨root, fs, .content⟩ f.element := by
  obtain ⟨c, cs, hcons, hc, hcs⟩ := isName_cons hname
  have hall : ∀ d ∈ name.toList, isNameChar d = true := by
    rw [hcons]
    exact List.forall_mem_cons.mpr ⟨isNameChar_of_isNameStart hc, hcs⟩
  have hmarkup : char ⟨root, f :: fs, .content⟩ '<' = some ⟨root, f :: fs, .markup⟩ := rfl
  have hslash : char ⟨root, f :: fs, .markup⟩ '/' = some ⟨root, f :: fs, .endName []⟩ := rfl
  have hfinish : char ⟨root, f :: fs, .endName ([] ++ name.toList)⟩ '>' =
      add ⟨root, fs, .content⟩ f.element := by
    unfold char finish
    dsimp only
    rw [if_pos rfl, if_pos (by rw [hf, List.nil_append, String.ofList_toList])]
  unfold printEnd
  rw [List.cons_append, text_cons_some hmarkup, List.cons_append, text_cons_some hslash,
    text_append_some (text_endName hall), text_cons, hfinish]
  exact Option.bind_fun_some _

/-! #### Elements -/

/-- The start tag is complete, and its element opens. -/
theorem char_close (hm : AtTag m t) :
    char ⟨root, stack, m⟩ '>' = some (start ⟨root, stack, m⟩ t) := by
  rw [char_atTag hm (by decide)]
  rfl

theorem char_slash (hm : AtTag m t) :
    char ⟨root, stack, m⟩ '/' = some ⟨root, stack, .slash t⟩ := by
  rw [char_atTag hm (by decide)]
  rfl

end Reader

theorem isSpace_indent (depth : ℕ) : ∀ c ∈ indent depth, isSpace c = true := by
  intro c hc
  rw [List.eq_of_mem_replicate hc]
  rfl

/-- White space among the children of an element is no text. -/
theorem Frame.element_of_spaces {f : Frame} (h : ∀ c ∈ f.text, isSpace c = true) :
    f.element = .mk f.name f.attributes "" f.children := by
  unfold Frame.element
  rw [if_pos (List.all_eq_true.mpr h)]

section Elements

open Reader

variable {escape : Char → List Char}

mutual

/-- A printed element is read as one, wherever it stands. -/
theorem text_print (he : Escapes escape) (depth : ℕ) (root : Option Element) (stack : List Frame) :
    (e : Element) → e.Printable →
      Reader.text ⟨root, stack, .content⟩ (print escape depth e) = add ⟨root, stack, .content⟩ e
  | .mk name attributes text [], ⟨hname, hattributes, htext, _⟩ => by
    obtain ⟨hkeys, hnodup⟩ := areKeys_iff.mp hattributes
    obtain ⟨m, hm, hstart⟩ := text_start root stack he hname hkeys hnodup
    rw [print, text_append_some hstart]
    split_ifs with hempty
    · have hend : Reader.char ⟨root, stack, .slash ⟨name.toList, attributes⟩⟩ '>' =
          add ⟨root, stack, .content⟩ (.mk name attributes text []) := by
        rw [hempty]
        show add _ (.mk (String.ofList name.toList) attributes "" []) = _
        rw [String.ofList_toList]
        rfl
      rw [text_cons_some (char_slash hm), text_cons, hend]
      exact Option.bind_fun_some _
    · obtain ⟨-, hsome⟩ := htext.resolve_left hempty
      rw [List.cons_append, text_cons_some (char_close hm)]
      unfold start
      rw [text_append_some (text_content he), text_end hname String.ofList_toList]
      unfold Frame.element
      dsimp only
      rw [List.nil_append, hsome, if_neg (by decide), String.ofList_toList, String.ofList_toList]
  | .mk name attributes text (e :: es), ⟨hname, hattributes, htext, hchildren⟩ => by
    obtain ⟨hkeys, hnodup⟩ := areKeys_iff.mp hattributes
    obtain rfl : text = "" := by
      rcases htext with h | ⟨h, -⟩
      · exact h
      · cases h
    obtain ⟨m, hm, hstart⟩ := text_start root stack he hname hkeys hnodup
    have hline (f : Frame) : Reader.char ⟨root, f :: stack, .content⟩ '\n' =
        some ⟨root, { f with text := f.text ++ ['\n'] } :: stack, .content⟩ := rfl
    obtain ⟨w, hw, hall⟩ := text_printAll he (depth + 1) root
      ⟨String.ofList name.toList, attributes, [] ++ ['\n'], []⟩ stack (e :: es) hchildren
    rw [print]
    simp only [List.append_assoc, List.cons_append]
    rw [text_append_some hstart, text_cons_some (char_close hm)]
    unfold start
    rw [text_cons_some (hline _), text_append_some hall,
      text_append_some (text_spaces (isSpace_indent depth)), text_end hname String.ofList_toList,
      Frame.element_of_spaces]
    · dsimp only
      rw [String.ofList_toList]
      rfl
    · intro c hc
      rcases List.mem_append.mp hc with hc | hc
      · rcases List.mem_append.mp hc with hc | hc
        · rw [List.mem_singleton.mp hc]
          rfl
        · exact hw c hc
      · exact isSpace_indent depth c hc

/-- Printed line by line they are read as children, with white space among them. -/
theorem text_printAll (he : Escapes escape) (depth : ℕ) (root : Option Element) (f : Frame)
    (fs : List Frame) : (es : List Element) → Printables es → ∃ w, (∀ c ∈ w, isSpace c = true) ∧
      Reader.text ⟨root, f :: fs, .content⟩ (printAll escape depth es) = some ⟨root,
        { f with text := f.text ++ w, children := f.children ++ es } :: fs, .content⟩
  | [], _ => ⟨[], nofun, by simp [printAll]⟩
  | e :: es, ⟨hhead, htail⟩ => by
    have hadd := text_print he depth root
      ({ f with text := f.text ++ indent depth } :: fs) e hhead
    obtain ⟨w, hw, hall⟩ := text_printAll he depth root
      ⟨f.name, f.attributes, f.text ++ indent depth ++ ['\n'], f.children ++ [e]⟩ fs es htail
    have hline : Reader.char ⟨root, ⟨f.name, f.attributes, f.text ++ indent depth,
        f.children ++ [e]⟩ :: fs, .content⟩ '\n' = some ⟨root, ⟨f.name, f.attributes,
          f.text ++ indent depth ++ ['\n'], f.children ++ [e]⟩ :: fs, .content⟩ := rfl
    refine ⟨indent depth ++ '\n' :: w, ?_, ?_⟩
    · intro c hc
      rcases List.mem_append.mp hc with hc | hc
      · exact isSpace_indent depth c hc
      · rcases List.mem_cons.mp hc with rfl | hc
        · rfl
        · exact hw c hc
    · rw [printAll, List.append_assoc, text_append_some (text_spaces (isSpace_indent depth)),
        text_append_some hadd, text_cons_some hline, hall]
      simp

end

/-- Reading is the inverse of printing. -/
theorem read_print (he : Escapes escape) {e : Element} (h : e.Printable) :
    read (print escape 0 e ++ ['\n']) = some e := by
  have hprint := text_print he 0 none [] e h
  have hadd : add ⟨none, [], .content⟩ e = some ⟨some e, [], .content⟩ := rfl
  have hline : Reader.char ⟨some e, [], .content⟩ '\n' = some ⟨some e, [], .content⟩ := rfl
  unfold read
  rw [text_append_some (hprint.trans hadd), text_cons_some hline, text_nil]

end Elements

end Xml
