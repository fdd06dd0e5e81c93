import Aegis.Lib.Bytes
import Mathlib.Data.List.TakeWhile
import Mathlib.Tactic.SplitIfs

/-! Paths as `std::path` reads them on Unix and on Windows: prefix, root and components, and what
joining a path to another gives. -/
namespace OsPath
open Text

inductive Os where
  | unix
  | windows
  deriving DecidableEq

/-- The encoded octets of a path. Everything that is told apart is ASCII. -/
abbrev OsStr := Bytes

def ascii (s : String) : OsStr := s.toList.map Char.toUInt8

def slash : UInt8 := '/'.toUInt8
def backslash : UInt8 := '\\'.toUInt8
def dot : UInt8 := '.'.toUInt8
def colon : UInt8 := ':'.toUInt8

def isSepByte : Os → UInt8 → Bool
  | .unix, b => b = slash
  | .windows, b => b = slash || b = backslash

def isVerbatimSep (b : UInt8) : Bool := b = backslash

def mainSep : Os → UInt8
  | .unix => slash
  | .windows => backslash

/-! ### Prefixes -/

/-- What a Windows path may begin with. -/
inductive Prefix where
  | verbatim (name : OsStr)
  | verbatimUnc (server share : OsStr)
  | verbatimDisk (drive : UInt8)
  | deviceNs (name : OsStr)
  | unc (server share : OsStr)
  | disk (drive : UInt8)
  deriving DecidableEq

namespace Prefix

/-- The octets of a server and a share; the separator goes with the share. -/
def uncLen (server share : OsStr) : ℕ :=
  server.length + if share = [] then 0 else 1 + share.length

def len : Prefix → ℕ
  | verbatim name => 4 + name.length
  | verbatimUnc server share => 8 + uncLen server share
  | verbatimDisk _ => 6
  | deviceNs name => 4 + name.length
  | unc server share => 2 + uncLen server share
  | disk _ => 2

def isVerbatim : Prefix → Bool
  | verbatim _ | verbatimUnc _ _ | verbatimDisk _ => true
  | _ => false

def isDrive : Prefix → Bool
  | disk _ => true
  | _ => false

def hasImplicitRoot (p : Prefix) : Bool := !p.isDrive

end Prefix

def isAsciiAlphabetic (b : UInt8) : Bool :=
  ('A'.toUInt8 ≤ b ∧ b ≤ 'Z'.toUInt8) ∨ ('a'.toUInt8 ≤ b ∧ b ≤ 'z'.toUInt8)

def toAsciiUppercase (b : UInt8) : UInt8 :=
  if 'a'.toUInt8 ≤ b ∧ b ≤ 'z'.toUInt8 then b - 32 else b

def parseDrive : OsStr → Option UInt8
  | d :: c :: _ => if c = colon ∧ isAsciiAlphabetic d then some (toAsciiUppercase d) else none
  | _ => none

/-- A drive with a separator or nothing behind it. -/
def parseDriveExact (path : OsStr) : Option UInt8 :=
  if (path.drop 2).head?.all (isSepByte .windows) then parseDrive path else none

/-- The separators inside a prefix: a verbatim one knows only the backslash. -/
def prefixSep : Bool → UInt8 → Bool
  | true => isVerbatimSep
  | false => isSepByte .windows

/-- The next component, and what stands behind its separator. -/
def parseNextComponent (path : OsStr) (verbatim : Bool) : OsStr × OsStr :=
  (path.takeWhile (!prefixSep verbatim ·), (path.dropWhile (!prefixSep verbatim ·)).drop 1)

/-- A slash is read as a backslash. -/
def normalByte (b : UInt8) : UInt8 := if b = slash then backslash else b

/-- What the first octets of a path are, either separator taken for the other. -/
def Begins (text : String) (path : OsStr) : Prop := ascii text <+: path.map normalByte

instance (text : String) (path : OsStr) : Decidable (Begins text path) := by
  unfold Begins
  infer_instance

/-- With a slash in it, the beginning of a verbatim prefix is none. -/
def IsVerbatim (path : OsStr) : Prop := Begins "\\\\?\\" path ∧ slash ∉ path.take 4

instance (path : OsStr) : Decidable (IsVerbatim path) := by
  unfold IsVerbatim
  infer_instance

def parsePrefix (path : OsStr) : Option Prefix :=
  if Begins "\\\\" path then
    if IsVerbatim path then
      if Begins "\\\\?\\UNC\\" path then
        let server := parseNextComponent (path.drop 8) true
        let share := parseNextComponent server.2 true
        some (.verbatimUnc server.1 share.1)
      else
        match parseDriveExact (path.drop 4) with
        | some drive => some (.verbatimDisk drive)
        | none => some (.verbatim (parseNextComponent (path.drop 4) true).1)
    else if Begins "\\\\.\\" path then
      some (.deviceNs (parseNextComponent (path.drop 4) false).1)
    else
      let server := parseNextComponent (path.drop 2) false
      let share := parseNextComponent server.2 false
      if server.1 ≠ [] ∧ share.1 ≠ [] then some (.unc server.1 share.1) else none
  else (parseDrive path).map .disk

def prefixOf : Os → OsStr → Option Prefix
  | .unix, _ => none
  | .windows, path => parsePrefix path

/-! ### Components -/

inductive Component where
  | prefixComponent (parsed : Prefix)
  | rootDir
  | curDir
  | parentDir
  | normal (name : OsStr)
  deriving DecidableEq

section Parts

variable (os : Os) (path : OsStr)

def prefixLen : ℕ := ((prefixOf os path).map Prefix.len).getD 0

def prefixVerbatim : Bool := (prefixOf os path).any Prefix.isVerbatim

/-- The separators of the path itself. -/
def isSep (b : UInt8) : Bool :=
  if prefixVerbatim os path then isVerbatimSep b else isSepByte os b

def hasPhysicalRoot : Bool := (path.drop (prefixLen os path)).head?.any (isSepByte os)

def hasRoot : Bool := hasPhysicalRoot os path || (prefixOf os path).any Prefix.hasImplicitRoot

def isAbsolute : Bool := hasRoot os path && (os = .unix || (prefixOf os path).isSome)

/-- A leading `.` stands for itself. -/
def includeCurDir : Bool :=
  match path with
  | [b] => b = dot
  | b :: c :: _ => b = dot && isSep os path c
  | [] => false

/-- One component; a `.` is passed over unless the path is verbatim. -/
def parseSingleComponent (comp : OsStr) : Option Component :=
  if comp = [dot] then if prefixVerbatim os path then some .curDir else none
  else if comp = [dot, dot] then some .parentDir
  else if comp = [] then none
  else some (.normal comp)

/-- What stands before the body, and the body. -/
def startDir : List Component × OsStr :=
  let rest := path.drop (prefixLen os path)
  if hasPhysicalRoot os path then ([.rootDir], rest.drop 1)
  else
    match prefixOf os path with
    | some p => (if p.hasImplicitRoot && !p.isVerbatim then [.rootDir] else [], rest)
    | none => if includeCurDir os path then ([.curDir], rest.drop 1) else ([], rest)

def body : List Component :=
  ((startDir os path).2.splitOnP (isSep os path)).filterMap (parseSingleComponent os path)

def components : List Component :=
  (prefixOf os path).toList.map .prefixComponent ++ (startDir os path).1 ++ body os path

end Parts

/-! ### Joining -/

namespace Component

/-- The text of a component, `raw` that of the prefix. -/
def asOsStr (raw : OsStr) : Component → OsStr
  | prefixComponent _ => raw
  | rootDir => [backslash]
  | curDir => [dot]
  | parentDir => [dot, dot]
  | normal name => name

/-- Whether a separator goes between a component and the next one. -/
def needsSep : Component → Bool
  | rootDir => false
  | prefixComponent p => !p.isDrive && 0 < p.len
  | _ => true

def isNormal : Component → Bool
  | normal _ => true
  | _ => false

end Component

/-- A component put behind others, as it is done below a verbatim prefix. -/
def pushComponent (buf : List Component) : Component → List Component
  | .rootDir => buf.take 1 ++ [.rootDir]
  | .curDir => buf
  | .parentDir => if buf.getLast?.any Component.isNormal then buf.dropLast else buf
  | c => buf ++ [c]

/-- The text of components below a verbatim prefix. -/
def render (raw : OsStr) : Bool → List Component → OsStr
  | _, [] => []
  | needSep, c :: cs =>
    (if needSep ∧ c ≠ .rootDir then [backslash] else []) ++ c.asOsStr raw ++
      render raw c.needsSep cs

/-- Whether a separator is missing behind a path; behind a bare drive it is not. -/
def needSep (os : Os) (path : OsStr) : Bool :=
  path.getLast?.any (!isSepByte os ·) &&
    !((prefixOf os path).any Prefix.isDrive && prefixLen os path = path.length)

/-- `Path::join`. -/
def join (os : Os) (base path : OsStr) : OsStr :=
  if isAbsolute os path ∨ (prefixOf os path).isSome then path
  else if prefixVerbatim os base ∧ path ≠ [] then
    render (base.take (prefixLen os base)) false
      ((components os path).foldl pushComponent (components os base))
  else if hasRoot os path then base.take (prefixLen os base) ++ path
  else if needSep os base then base ++ [mainSep os] ++ path
  else base ++ path

/-! ### Names -/

/-- The components that lead somewhere else. -/
def Component.isName : Component → Bool
  | .parentDir | .normal _ => true
  | _ => false

def names (os : Os) (path : OsStr) : List Component := (components os path).filter Component.isName

/-- A path leads to another one, or to what is below it. -/
def Below (os : Os) (base path : OsStr) : Prop :=
  prefixOf os path = prefixOf os base ∧ hasRoot os path = hasRoot os base ∧
    ∃ rest, names os path = names os base ++ rest ∧ .parentDir ∉ rest

def nameOf (comp : OsStr) : Option Component :=
  if comp = [dot] then none
  else if comp = [dot, dot] then some .parentDir
  else if comp = [] then none
  else some (.normal comp)

/-- The names in a text between separators. -/
def namesIn (sep : UInt8 → Bool) (text : OsStr) : List Component :=
  (text.splitOnP sep).filterMap nameOf

section Names

variable {sep : UInt8 → Bool}

@[simp] theorem namesIn_nil : namesIn sep [] = [] := by
  rw [namesIn, List.splitOnP_nil]
  rfl

theorem namesIn_append_cons {b : UInt8} (hb : sep b = true) (xs ys : OsStr) :
    namesIn sep (xs ++ b :: ys) = namesIn sep xs ++ namesIn sep ys := by
  rw [namesIn, List.splitOnP_append_cons xs ys hb, List.filterMap_append]
  rfl

theorem namesIn_cons {b : UInt8} (hb : sep b = true) (ys : OsStr) :
    namesIn sep (b :: ys) = namesIn sep ys := by
  have h := namesIn_append_cons hb [] ys
  rwa [List.nil_append, namesIn_nil, List.nil_append] at h

/-- A text that ends in a separator is complete. -/
theorem namesIn_append {xs : OsStr} (h : xs.getLast?.all sep = true) (ys : OsStr) :
    namesIn sep (xs ++ ys) = namesIn sep xs ++ namesIn sep ys := by
  rcases List.eq_nil_or_concat xs with rfl | ⟨init, b, rfl⟩
  · rw [namesIn_nil]
    rfl
  · rw [List.concat_eq_append] at h ⊢
    have hb : sep b = true := by simpa using h
    rw [List.append_assoc, List.singleton_append, namesIn_append_cons hb,
      namesIn_append_cons hb, namesIn_nil, List.append_nil]

/-- The names of a component by itself. -/
theorem namesIn_of_sepFree {n : OsStr} (hn : ∀ b ∈ n, sep b = false) :
    namesIn sep n = (nameOf n).toList := by
  rw [namesIn, List.splitOnP_eq_singleton hn]
  cases h : nameOf n <;> simp [h]

end Names

theorem filter_parseSingleComponent (os : Os) (path : OsStr) (comps : List OsStr) :
    (comps.filterMap (parseSingleComponent os path)).filter Component.isName =
      comps.filterMap nameOf := by
  rw [List.filter_filterMap]
  congr 1
  funext comp
  unfold parseSingleComponent nameOf
  split_ifs <;> rfl

/-- What stands before the body is none, the root or a `.`. -/
theorem startDir_cases (os : Os) (path : OsStr) :
    (startDir os path).1 = [] ∨ (startDir os path).1 = [.rootDir] ∨
      (startDir os path).1 = [.curDir] := by
  unfold startDir
  dsimp only
  by_cases hroot : hasPhysicalRoot os path = true
  · rw [if_pos hroot]
    exact .inr (.inl rfl)
  · rw [if_neg hroot]
    cases prefixOf os path with
    | some p =>
      dsimp only
      split_ifs
      · exact .inr (.inl rfl)
      · exact .inl rfl
    | none =>
      dsimp only
      split_ifs
      · exact .inr (.inr rfl)
      · exact .inl rfl

theorem names_eq_body (os : Os) (path : OsStr) :
    names os path = (body os path).filter Component.isName := by
  have hprefix : ((prefixOf os path).toList.map Component.prefixComponent).filter
      Component.isName = [] := by
    cases prefixOf os path <;> rfl
  have hstart : (startDir os path).1.filter Component.isName = [] := by
    rcases startDir_cases os path with h | h | h <;> rw [h] <;> rfl
  rw [names, components, List.filter_append, List.filter_append, hprefix, hstart]
  rfl

theorem namesIn_startDir (os : Os) (path : OsStr) :
    names os path = namesIn (isSep os path) (startDir os path).2 := by
  rw [names_eq_body, body, filter_parseSingleComponent]
  rfl

theorem namesIn_dot_cons {sep : UInt8 → Bool} {t : OsStr} (h : t.head?.all sep = true)
    (hdot : sep dot = false) : namesIn sep (dot :: t) = namesIn sep t := by
  have hsingle : namesIn sep [dot] = [] := by
    rw [namesIn_of_sepFree (by simpa using hdot)]
    rfl
  cases t with
  | nil => rw [hsingle, namesIn_nil]
  | cons b t =>
    have hb : sep b = true := by simpa using h
    rw [← List.singleton_append, namesIn_append_cons hb, hsingle, namesIn_cons hb,
      List.nil_append]

/-- What is behind the separator that is the root. -/
def afterRoot (os : Os) (rest : OsStr) : OsStr :=
  if rest.head?.any (isSepByte os) then rest.drop 1 else rest

/-- The names of a path are those behind its prefix and its root. -/
theorem names_eq (os : Os) (path : OsStr) :
    names os path =
      namesIn (isSep os path) (afterRoot os (path.drop (prefixLen os path))) := by
  rw [namesIn_startDir]
  unfold startDir afterRoot
  dsimp only
  by_cases hroot : hasPhysicalRoot os path = true
  · have hhead : (path.drop (prefixLen os path)).head?.any (isSepByte os) = true := hroot
    rw [if_pos hroot, if_pos hhead]
  · have hhead : ¬ (path.drop (prefixLen os path)).head?.any (isSepByte os) = true := hroot
    rw [if_neg hroot, if_neg hhead]
    cases hp : prefixOf os path with
    | some p => rfl
    | none =>
      dsimp only
      split_ifs with hcur
      · have hlen : prefixLen os path = 0 := by rw [prefixLen, hp]; rfl
        have hsep : isSep os path dot = false := by
          rw [isSep, prefixVerbatim, hp]
          cases os <;> rfl
        rw [hlen, List.drop_zero]
        cases path with
        | nil => rfl
        | cons b rest =>
          have hb : b = dot ∧ rest.head?.all (isSep os (b :: rest)) = true := by
            cases rest with
            | nil => exact ⟨of_decide_eq_true hcur, rfl⟩
            | cons c rest =>
              obtain ⟨hb, hc⟩ := Bool.and_eq_true_iff.mp hcur
              exact ⟨of_decide_eq_true hb, hc⟩
          obtain ⟨rfl, hhead⟩ := hb
          exact (namesIn_dot_cons hhead hsep).symm
      · rfl

theorem namesIn_afterRoot {os : Os} {sep : UInt8 → Bool} {rest : OsStr}
    (h : ∀ b ∈ rest.head?, isSepByte os b = true → sep b = true) :
    namesIn sep (afterRoot os rest) = namesIn sep rest := by
  unfold afterRoot
  cases rest with
  | nil => rfl
  | cons b rest =>
    split_ifs with hb
    · exact (namesIn_cons (h b rfl hb) rest).symm
    · rfl

theorem afterRoot_append {os : Os} {rest : OsStr} (h : rest ≠ []) (t : OsStr) :
    afterRoot os (rest ++ t) = afterRoot os rest ++ t := by
  unfold afterRoot
  cases rest with
  | nil => exact absurd rfl h
  | cons b rest => exact (apply_ite (· ++ t) _ _ _).symm

/-! ### A prefix is read again -/

/-- Nothing, or a separator, stands first. -/
def Closes (verbatim : Bool) (t : OsStr) : Prop := t.head?.all (prefixSep verbatim) = true

theorem next_sepFree (path : OsStr) (verbatim : Bool) :
    ∀ b ∈ (parseNextComponent path verbatim).1, prefixSep verbatim b = false := by
  intro b hb
  have hnot := List.mem_takeWhile_imp hb
  simpa using hnot

/-- What is behind the next component. -/
theorem next_split (path : OsStr) (verbatim : Bool) :
    ∃ t, path = (parseNextComponent path verbatim).1 ++ t ∧ Closes verbatim t ∧
      (parseNextComponent path verbatim).2 = t.drop 1 := by
  refine ⟨path.dropWhile (!prefixSep verbatim ·), List.takeWhile_append_dropWhile.symm, ?_, rfl⟩
  unfold Closes
  cases h : path.dropWhile (!prefixSep verbatim ·) with
  | nil => rfl
  | cons b t =>
    have hb := List.head?_dropWhile_not (!prefixSep verbatim ·) path
    rw [h] at hb
    simpa using hb

theorem next_append {verbatim : Bool} {n t : OsStr} (hn : ∀ b ∈ n, prefixSep verbatim b = false)
    (ht : Closes verbatim t) : parseNextComponent (n ++ t) verbatim = (n, t.drop 1) := by
  have htake : t.takeWhile (!prefixSep verbatim ·) = [] := by
    cases t with
    | nil => rfl
    | cons b t =>
      have hb : prefixSep verbatim b = true := ht
      exact List.takeWhile_cons_of_neg (by simp [hb])
  have hdrop : t.dropWhile (!prefixSep verbatim ·) = t := by
    cases t with
    | nil => rfl
    | cons b t =>
      have hb : prefixSep verbatim b = true := ht
      exact List.dropWhile_cons_of_neg (by simp [hb])
  have hall : ∀ b ∈ n, (!prefixSep verbatim b) = true := fun b hb => by rw [hn b hb]; rfl
  rw [parseNextComponent, List.takeWhile_append_of_pos hall, List.dropWhile_append_of_pos hall,
    htake, hdrop, List.append_nil]

/-- The first octets decide what a path begins with. -/
theorem begins_congr {text : String} {path path' : OsStr} {k : ℕ} (hk : (ascii text).length ≤ k)
    (h : path'.take k = path.take k) : Begins text path' ↔ Begins text path := by
  have htake : ∀ p : OsStr, Begins text p ↔ Begins text (p.take k) := by
    intro p
    unfold Begins
    rw [List.map_take, List.prefix_take_iff]
    exact (and_iff_left hk).symm
  rw [htake, htake path, h]

theorem take_append_take {base t : OsStr} {k n : ℕ} (hk : k ≤ n) (hn : n ≤ base.length) :
    (base.take n ++ t).take k = base.take k := by
  rw [List.take_append_of_le_length (by rw [List.length_take]; omega), List.take_take,
    Nat.min_eq_left hk]

theorem drop_append_take {base t : OsStr} {k n : ℕ} (hk : k ≤ n) (hn : n ≤ base.length) :
    (base.take n ++ t).drop k = (base.drop k).take (n - k) ++ t := by
  rw [List.drop_append_of_le_length (by rw [List.length_take]; omega), List.drop_take]

/-- A component of a prefix with its end: `t` is what stands behind it. -/
structure Next (verbatim : Bool) (path n t : OsStr) : Prop where
  eq : path = n ++ t
  sepFree : ∀ b ∈ n, prefixSep verbatim b = false
  closes : Closes verbatim t

theorem Next.parse {verbatim : Bool} {path n t : OsStr} (h : Next verbatim path n t) :
    parseNextComponent path verbatim = (n, t.drop 1) := by
  rw [h.eq, next_append h.sepFree h.closes]

theorem exists_next (path : OsStr) (verbatim : Bool) :
    ∃ t, Next verbatim path (parseNextComponent path verbatim).1 t := by
  obtain ⟨t, heq, hcloses, -⟩ := next_split path verbatim
  exact ⟨t, heq, next_sepFree path verbatim, hcloses⟩

/-- The prefixes of Windows paths, by what the paths begin with. -/
inductive Spells (path : OsStr) : Prefix → Prop where
  | verbatimUnc (h : IsVerbatim path) (hunc : Begins "\\\\?\\UNC\\" path) {server share t u : OsStr}
      (hserver : Next true (path.drop 8) server t) (hshare : Next true (t.drop 1) share u) :
      Spells path (.verbatimUnc server share)
  | verbatimDisk (h : IsVerbatim path) (hunc : ¬ Begins "\\\\?\\UNC\\" path) {drive : UInt8}
      (hdrive : parseDriveExact (path.drop 4) = some drive) : Spells path (.verbatimDisk drive)
  | verbatim (h : IsVerbatim path) (hunc : ¬ Begins "\\\\?\\UNC\\" path) {name t : OsStr}
      (hdrive : parseDriveExact (path.drop 4) = none) (hname : Next true (path.drop 4) name t) :
      Spells path (.verbatim name)
  | deviceNs (h : ¬ IsVerbatim path) (hdevice : Begins "\\\\.\\" path) {name t : OsStr}
      (hname : Next false (path.drop 4) name t) : Spells path (.deviceNs name)
  | unc (h : ¬ IsVerbatim path) (hdevice : ¬ Begins "\\\\.\\" path) (hbegins : Begins "\\\\" path)
      {server share t u : OsStr} (hserver : Next false (path.drop 2) server t)
      (hshare : Next false (t.drop 1) share u) (hne : server ≠ []) (hne' : share ≠ []) :
      Spells path (.unc server share)
  | disk (hbegins : ¬ Begins "\\\\" path) {drive : UInt8} (hdrive : parseDrive path = some drive) :
      Spells path (.disk drive)

theorem Begins.of_begins {text text' : String} {path : OsStr} (h : Begins text path)
    (hpre : ascii text' <+: ascii text) : Begins text' path :=
  hpre.trans h

theorem IsVerbatim.begins {path : OsStr} (h : IsVerbatim path) : Begins "\\\\" path :=
  h.1.of_begins (by decide)

theorem Spells.parsePrefix {path : OsStr} {p : Prefix} (h : Spells path p) :
    parsePrefix path = some p := by
  unfold OsPath.parsePrefix
  cases h with
  | verbatimUnc h hunc hserver hshare =>
    rw [if_pos h.begins, if_pos h, if_pos hunc, hserver.parse]
    dsimp only
    rw [hshare.parse]
  | verbatimDisk h hunc hdrive => rw [if_pos h.begins, if_pos h, if_neg hunc, hdrive]
  | verbatim h hunc hdrive hname =>
    rw [if_pos h.begins, if_pos h, if_neg hunc, hdrive]
    dsimp only
    rw [hname.parse]
  | deviceNs h hdevice hname =>
    rw [if_pos (hdevice.of_begins (by decide)), if_neg h, if_pos hdevice, hname.parse]
  | unc h hdevice hbegins hserver hshare hne hne' =>
    rw [if_pos hbegins, if_neg h, if_neg hdevice, hserver.parse]
    dsimp only
    rw [hshare.parse]
    exact if_pos ⟨hne, hne'⟩
  | disk hbegins hdrive => rw [if_neg hbegins, hdrive, Option.map_some]

theorem spells_of_parsePrefix {path : OsStr} {p : Prefix} (hp : parsePrefix path = some p) :
    Spells path p := by
  unfold parsePrefix at hp
  by_cases hbegins : Begins "\\\\" path
  · rw [if_pos hbegins] at hp
    by_cases h : IsVerbatim path
    · rw [if_pos h] at hp
      by_cases hunc : Begins "\\\\?\\UNC\\" path
      · rw [if_pos hunc] at hp
        obtain ⟨t, hserver⟩ := exists_next (path.drop 8) true
        obtain ⟨u, hshare⟩ := exists_next (t.drop 1) true
        rw [hserver.parse] at hp
        obtain rfl := Option.some.inj hp
        exact .verbatimUnc h hunc hserver hshare
      · rw [if_neg hunc] at hp
        cases hdrive : parseDriveExact (path.drop 4) with
        | some drive =>
          rw [hdrive] at hp
          obtain rfl := Option.some.inj hp
          exact .verbatimDisk h hunc hdrive
        | none =>
          rw [hdrive] at hp
          obtain rfl := Option.some.inj hp
          obtain ⟨t, hname⟩ := exists_next (path.drop 4) true
          exact .verbatim h hunc hdrive hname
    · rw [if_neg h] at hp
      by_cases hdevice : Begins "\\\\.\\" path
      · rw [if_pos hdevice] at hp
        obtain rfl := Option.some.inj hp
        obtain ⟨t, hname⟩ := exists_next (path.drop 4) false
        exact .deviceNs h hdevice hname
      · rw [if_neg hdevice] at hp
        obtain ⟨t, hserver⟩ := exists_next (path.drop 2) false
        obtain ⟨u, hshare⟩ := exists_next (t.drop 1) false
        rw [hserver.parse] at hp
        dsimp only at hp
        split_ifs at hp with hne
        obtain rfl := Option.some.inj hp
        exact .unc h hdevice hbegins hserver hshare hne.1 hne.2
  · rw [if_neg hbegins] at hp
    obtain ⟨drive, hdrive, rfl⟩ := Option.map_eq_some_iff.mp hp
    exact .disk hbegins hdrive

theorem parsePrefix_eq_some {path : OsStr} {p : Prefix} :
    parsePrefix path = some p ↔ Spells path p :=
  ⟨spells_of_parsePrefix, Spells.parsePrefix⟩

theorem Begins.length_le {text : String} {path : OsStr} (h : Begins text path) :
    (ascii text).length ≤ path.length := by
  have hle := List.IsPrefix.length_le h
  rwa [List.length_map] at hle

theorem parseDrive_cons (d c : UInt8) (rest : OsStr) : parseDrive (d :: c :: rest) =
    if c = colon ∧ isAsciiAlphabetic d then some (toAsciiUppercase d) else none := rfl

theorem parseDriveExact_eq_some {path : OsStr} {drive : UInt8}
    (h : parseDriveExact path = some drive) :
    ∃ d rest, path = d :: colon :: rest ∧ Closes false rest ∧ parseDrive path = some drive := by
  unfold parseDriveExact at h
  split_ifs at h with hthird
  cases path with
  | nil => cases h
  | cons d rest =>
    cases rest with
    | nil => cases h
    | cons c rest =>
      have hdrive := h
      rw [parseDrive_cons] at h
      split_ifs at h with hc
      obtain ⟨rfl, -⟩ := hc
      exact ⟨d, rest, rfl, hthird, hdrive⟩

/-- A server, a separator and a share. -/
theorem next_share {verbatim : Bool} {path server share t u : OsStr}
    (hserver : Next verbatim path server t) (hshare : Next verbatim (t.drop 1) share u)
    (hne : share ≠ []) :
    ∃ c, prefixSep verbatim c = true ∧ t = c :: (share ++ u) := by
  have heq := hshare.eq
  have hcloses := hserver.closes
  cases t with
  | nil => exact absurd (List.append_eq_nil_iff.mp heq.symm).1 hne
  | cons c rest =>
    obtain rfl : rest = share ++ u := heq
    exact ⟨c, hcloses, rfl⟩

theorem Spells.len_le {path : OsStr} {p : Prefix} (h : Spells path p) : p.len ≤ path.length := by
  cases h with
  | verbatimUnc h hunc hserver hshare =>
    rename_i server share t u
    have hlen : 8 ≤ path.length := hunc.length_le
    have heq := congrArg List.length hserver.eq
    rw [List.length_drop, List.length_append] at heq
    show 8 + Prefix.uncLen server share ≤ path.length
    unfold Prefix.uncLen
    split_ifs with hempty
    · omega
    · obtain ⟨c, -, rfl⟩ := next_share hserver hshare hempty
      rw [List.length_cons, List.length_append] at heq
      omega
  | verbatimDisk h hunc hdrive =>
    obtain ⟨d, rest, heq, -⟩ := parseDriveExact_eq_some hdrive
    have hlen := congrArg List.length heq
    rw [List.length_drop, List.length_cons, List.length_cons] at hlen
    show 6 ≤ path.length
    omega
  | verbatim h hunc hdrive hname =>
    rename_i name t
    have hlen : 4 ≤ path.length := h.1.length_le
    have heq := congrArg List.length hname.eq
    rw [List.length_drop, List.length_append] at heq
    show 4 + name.length ≤ path.length
    omega
  | deviceNs h hdevice hname =>
    rename_i name t
    have hlen : 4 ≤ path.length := hdevice.length_le
    have heq := congrArg List.length hname.eq
    rw [List.length_drop, List.length_append] at heq
    show 4 + name.length ≤ path.length
    omega
  | unc h hdevice hbegins hserver hshare hne hne' =>
    rename_i server share t u
    have hlen : 2 ≤ path.length := hbegins.length_le
    have heq := congrArg List.length hserver.eq
    obtain ⟨c, -, rfl⟩ := next_share hserver hshare hne'
    rw [List.length_drop, List.length_append, List.length_cons, List.length_append] at heq
    show 2 + Prefix.uncLen server share ≤ path.length
    unfold Prefix.uncLen
    rw [if_neg hne']
    omega
  | disk hbegins hdrive =>
    match path, hdrive with
    | _ :: _ :: _, _ => exact Nat.le_add_left 2 _

/-- The octets of the prefix. -/
theorem prefixLen_le (os : Os) (path : OsStr) : prefixLen os path ≤ path.length := by
  unfold prefixLen
  cases os with
  | unix => exact Nat.zero_le _
  | windows =>
    cases hp : prefixOf .windows path with
    | none => exact Nat.zero_le _
    | some p => exact (spells_of_parsePrefix hp).len_le

/-! What is put behind a prefix may become part of it where the prefix lacks its last component. -/

/-- Whether only a backslash ends the prefix. -/
def Prefix.endsVerbatim : Prefix → Bool
  | verbatim _ | verbatimUnc _ _ => true
  | _ => false

/-- More text may belong to the prefix. -/
def Prefix.Open : Prefix → Prop
  | verbatim name => name = ascii "UNC"
  | verbatimUnc _ share => share = []
  | _ => False

theorem isVerbatim_congr {path path' : OsStr} (h : path'.take 4 = path.take 4) :
    IsVerbatim path' ↔ IsVerbatim path := by
  unfold IsVerbatim
  rw [begins_congr (by decide) h, h]

theorem Closes.append {verbatim : Bool} {t : OsStr} (h : Closes verbatim t) (ht : t ≠ [])
    (u : OsStr) : Closes verbatim (t ++ u) := by
  cases t with
  | nil => exact absurd rfl ht
  | cons b t => exact h

theorem next_unc {verbatim : Bool} {path server share t u w : OsStr}
    (hserver : Next verbatim path server t) (hshare : Next verbatim (t.drop 1) share u)
    (hne : share ≠ []) (hw : Closes verbatim w) :
    ∃ t', Next verbatim (path.take (Prefix.uncLen server share) ++ w) server t' ∧
      Next verbatim (t'.drop 1) share w := by
  obtain ⟨c, hc, rfl⟩ := next_share hserver hshare hne
  have htake : path.take (Prefix.uncLen server share) = server ++ c :: share := by
    have hall : path = (server ++ c :: share) ++ u := by
      rw [hserver.eq, List.append_assoc, List.cons_append]
    rw [hall]
    apply List.take_left'
    rw [Prefix.uncLen, if_neg hne, List.length_append, List.length_cons]
    omega
  refine ⟨c :: (share ++ w), ⟨?_, hserver.sepFree, hc⟩, ⟨rfl, hshare.sepFree, hw⟩⟩
  rw [htake, List.append_assoc, List.cons_append]

theorem next_take {verbatim : Bool} {path name t w : OsStr} (h : Next verbatim path name t)
    (hw : Closes verbatim w) : Next verbatim (path.take name.length ++ w) name w := by
  refine ⟨?_, h.sepFree, hw⟩
  rw [h.eq, List.take_left]

theorem parseDrive_backslash (t : OsStr) : parseDrive (backslash :: t) = none := by
  cases t with
  | nil => rfl
  | cons c t =>
    rw [parseDrive_cons]
    exact if_neg fun h => absurd h.2 (by decide)

theorem parseDrive_cons_backslash (d : UInt8) (t : OsStr) :
    parseDrive (d :: backslash :: t) = none := by
  rw [parseDrive_cons]
  exact if_neg fun h => absurd h.1 (by decide)

theorem closes_true_cons {b : UInt8} {t : OsStr} (h : Closes true (b :: t)) : b = backslash :=
  of_decide_eq_true h

/-- A drive by itself is decided before what is behind it. -/
theorem parseDriveExact_append {n t : OsStr} (ht : Closes true t) :
    parseDriveExact (n ++ t) = parseDriveExact n := by
  cases t with
  | nil => rw [List.append_nil]
  | cons b t =>
    obtain rfl := closes_true_cons ht
    unfold parseDriveExact
    match n with
    | [] =>
      rw [List.nil_append, parseDrive_backslash]
      exact ite_self none
    | [d] =>
      rw [List.singleton_append, parseDrive_cons_backslash]
      exact ite_self none
    | [d, c] => rfl
    | d :: c :: b :: n => rfl

theorem eq_of_normalByte {b x : UInt8} (hx : x ≠ backslash) (h : x = normalByte b) : b = x := by
  unfold normalByte at h
  split_ifs at h with hb
  · exact absurd h hx
  · exact h.symm

/-- A verbatim name other than the one of shares stays apart from what follows. -/
theorem begins_unc_append {n t u : OsStr} (hu : Closes true u) (h : ¬ Begins "UNC\\" (n ++ t))
    (hn : n = ascii "UNC" → u = []) : ¬ Begins "UNC\\" (n ++ u) := by
  have hunc : ascii "UNC\\" = ['U'.toUInt8, 'N'.toUInt8, 'C'.toUInt8, backslash] := rfl
  intro hb
  unfold Begins at h hb
  rw [hunc] at h hb
  match n with
  | a :: b :: c :: d :: n =>
    apply h
    simpa only [List.cons_append, List.map_cons, List.cons_prefix_cons, List.nil_prefix] using hb
  | [] | [_] | [_, _] =>
    cases u with
    | nil => simp [List.cons_prefix_cons] at hb
    | cons x u =>
      obtain rfl := closes_true_cons hu
      have hsep : normalByte backslash = backslash := rfl
      have hU : 'U'.toUInt8 ≠ backslash := by decide
      have hN : 'N'.toUInt8 ≠ backslash := by decide
      have hC : 'C'.toUInt8 ≠ backslash := by decide
      simp only [List.cons_append, List.nil_append, List.map_cons, List.cons_prefix_cons, hsep, hU,
        hN, hC, false_and, and_false] at hb
  | [a, b, c] =>
    cases u with
    | nil => simp [List.cons_prefix_cons] at hb
    | cons x u =>
      simp only [List.cons_append, List.nil_append, List.map_cons, List.cons_prefix_cons] at hb
      obtain rfl := eq_of_normalByte (by decide) hb.1
      obtain rfl := eq_of_normalByte (by decide) hb.2.1
      obtain rfl := eq_of_normalByte (by decide) hb.2.2.1
      cases hn rfl

theorem not_begins_unc_drive (d : UInt8) (t : OsStr) : ¬ Begins "UNC\\" (d :: colon :: t) := by
  intro h
  have hsecond := (List.cons_prefix_cons.mp (List.cons_prefix_cons.mp h).2).1
  exact absurd hsecond (by decide)

/-- What begins like a verbatim path of shares does so behind its first part. -/
theorem begins_unc_iff {path : OsStr} (h : IsVerbatim path) :
    Begins "\\\\?\\UNC\\" path ↔ Begins "UNC\\" (path.drop 4) := by
  have hsplit : ascii "\\\\?\\UNC\\" = ascii "\\\\?\\" ++ ascii "UNC\\" := rfl
  obtain ⟨rest, hrest⟩ := h.1
  unfold Begins
  have hdrop : (path.drop 4).map normalByte = rest := by
    rw [List.map_drop, ← hrest]
    rfl
  rw [hdrop, ← hrest, hsplit]
  exact List.prefix_append_right_inj _

/-- A prefix is read again from its octets, with nothing or a separator behind it. -/
theorem Spells.take_append {base t : OsStr} {p : Prefix} (h : Spells base p)
    (ht : p.isDrive = false → Closes p.endsVerbatim t) (hopen : p.Open → t = []) :
    Spells (base.take p.len ++ t) p := by
  have htake : ∀ k ≤ p.len, (base.take p.len ++ t).take k = base.take k :=
    fun k hk => take_append_take hk h.len_le
  have hdrop : ∀ k n, p.len = k + n →
      (base.take p.len ++ t).drop k = (base.drop k).take n ++ t := by
    intro k n hkn
    rw [drop_append_take (by omega) h.len_le, hkn, Nat.add_sub_cancel_left]
  have hverbatim : 4 ≤ p.len → (IsVerbatim (base.take p.len ++ t) ↔ IsVerbatim base) :=
    fun hlen => isVerbatim_congr (htake 4 hlen)
  have hbegins : ∀ {text : String}, (ascii text).length ≤ p.len →
      (Begins text (base.take p.len ++ t) ↔ Begins text base) :=
    fun hlen => begins_congr le_rfl (htake _ hlen)
  cases h with
  | verbatimUnc h hunc hserver hshare =>
    rename_i server share t₀ u
    have hverbatim := (hverbatim (by simp [Prefix.len]; omega)).mpr h
    have hbegins := (hbegins (Nat.le_add_right 8 _)).mpr hunc
    have hrest := hdrop 8 (Prefix.uncLen server share) rfl
    by_cases hne : share = []
    · subst hne
      obtain rfl := hopen rfl
      refine .verbatimUnc (t := []) (u := []) hverbatim hbegins ?_ ⟨rfl, nofun, rfl⟩
      rw [hrest]
      exact next_take hserver rfl
    · obtain ⟨t', hserver', hshare'⟩ := next_unc hserver hshare hne (ht rfl)
      rw [← hrest] at hserver'
      exact .verbatimUnc hverbatim hbegins hserver' hshare'
  | verbatimDisk h hunc hdrive =>
    have hverbatim := (hverbatim (Nat.le_add_right 4 2)).mpr h
    obtain ⟨d, rest, hd, hcloses, hparse⟩ := parseDriveExact_eq_some hdrive
    have hrest := hdrop 4 2 rfl
    rw [hd] at hrest hparse
    refine .verbatimDisk hverbatim ?_ ?_
    · rw [begins_unc_iff hverbatim, hrest]
      exact not_begins_unc_drive d t
    · rw [hrest]
      exact (if_pos (ht rfl)).trans hparse
  | verbatim h hunc hdrive hname =>
    rename_i name t₀
    have hverbatim := (hverbatim (Nat.le_add_right 4 _)).mpr h
    have hrest := hdrop 4 name.length rfl
    rw [hname.eq, List.take_left] at hrest
    rw [begins_unc_iff h, hname.eq] at hunc
    rw [hname.eq, parseDriveExact_append hname.closes] at hdrive
    refine .verbatim (t := t) hverbatim ?_ ?_ ?_
    · rw [begins_unc_iff hverbatim, hrest]
      exact begins_unc_append (ht rfl) hunc hopen
    · rw [hrest, parseDriveExact_append (ht rfl), hdrive]
    · rw [hrest]
      exact ⟨rfl, hname.sepFree, ht rfl⟩
  | deviceNs h hdevice hname =>
    rename_i name t₀
    refine .deviceNs (t := t) ((not_congr (hverbatim (Nat.le_add_right 4 _))).mpr h)
      ((hbegins (Nat.le_add_right 4 _)).mpr hdevice) ?_
    rw [hdrop 4 name.length rfl]
    exact next_take hname (ht rfl)
  | unc h hdevice hbegins' hserver hshare hne hne' =>
    rename_i server share t₀ u
    have hlen : 4 ≤ (Prefix.unc server share).len := by
      have hpos := List.length_pos_iff.mpr hne
      have hpos' := List.length_pos_iff.mpr hne'
      show 4 ≤ 2 + Prefix.uncLen server share
      rw [Prefix.uncLen, if_neg hne']
      omega
    obtain ⟨t', hserver', hshare'⟩ := next_unc hserver hshare hne' (ht rfl)
    rw [← hdrop 2 (Prefix.uncLen server share) rfl] at hserver'
    refine .unc ((not_congr (hverbatim hlen)).mpr h) ((not_congr (hbegins ?_)).mpr hdevice)
      ((hbegins (Nat.le_add_right 2 _)).mpr hbegins') hserver' hshare' hne hne'
    exact hlen
  | disk hbegins' hdrive =>
    refine .disk ((not_congr (hbegins (le_refl 2))).mpr hbegins') ?_
    match base, hdrive with
    | _ :: _ :: _, hdrive => exact hdrive

end OsPath
