import Aegis.Lib.Bytes
import Mathlib.Data.List.AList
import Mathlib.Data.List.Infix
import Mathlib.Order.Defs.Unbundled

/-! A tree of directories, files and symbolic links, and the resolution of paths in it. -/
namespace FileTree
open Text

abbrev FileName := String

/-- The names from the top directory on. -/
abbrev Path := List FileName

/-- What a symbolic link holds; its parts may be `..`. -/
structure Target where
  absolute : Bool
  parts : List FileName
  deriving DecidableEq

/-- A socket, a pipe and a device are all `special`. -/
inductive Node where
  | file (bytes : Bytes)
  | dir
  | link (target : Target)
  | special
  deriving DecidableEq

def Node.isDir : Node → Bool
  | dir => true
  | _ => false

def Node.isFile : Node → Bool
  | file _ => true
  | _ => false

/-- The length that the metadata of a node tell. -/
def Node.len : Node → ℕ
  | file bytes => bytes.length
  | _ => 0

inductive IoError where
  | notFound
  | alreadyExists
  | other (text : String)
  deriving DecidableEq

def IoError.notDirectory : IoError := .other "Not a directory (os error 20)"
def IoError.isDirectory : IoError := .other "Is a directory (os error 21)"
def IoError.invalid : IoError := .other "Invalid argument (os error 22)"
def IoError.tooManyLinks : IoError := .other "Too many levels of symbolic links (os error 40)"

/-- The nodes below the top directory, by their paths. -/
abbrev Tree := AList fun _ : Path => Node

namespace Tree

def node (t : Tree) (p : Path) : Option Node := if p = [] then some .dir else t.lookup p

/-- The top directory stays as it is. -/
def put (t : Tree) (p : Path) (n : Node) : Tree := if p = [] then t else t.insert p n

def remove (t : Tree) (p : Path) : Tree := t.erase p

variable {t : Tree} {p q : Path} {n : Node}

@[simp] theorem node_nil (t : Tree) : t.node [] = some .dir := if_pos rfl

theorem node_put (hp : p ≠ []) : (t.put p n).node q = if q = p then some n else t.node q := by
  unfold put node
  rw [if_neg hp]
  by_cases hq : q = p
  · subst hq
    rw [if_neg hp, if_pos rfl, AList.lookup_insert]
  · rw [if_neg hq, AList.lookup_insert_ne hq]

theorem node_put_self (hp : p ≠ []) : (t.put p n).node p = some n := by
  rw [node_put hp, if_pos rfl]

theorem node_put_of_ne (h : q ≠ p) : (t.put p n).node q = t.node q := by
  unfold put
  split
  · rfl
  · unfold node
    rw [AList.lookup_insert_ne h]

theorem node_remove_of_ne (h : q ≠ p) : (t.remove p).node q = t.node q := by
  unfold remove node
  rw [AList.lookup_erase_ne h]

theorem node_remove_self (hp : p ≠ []) : (t.remove p).node p = none := by
  unfold remove node
  rw [if_neg hp, AList.lookup_erase]

/-! ### Resolution -/

/-- How far a path leads: to a place that may be empty, to a link on the way, or nowhere. -/
inductive Hop where
  | arrived (p : Path)
  | link (dir : Path) (target : Target) (rest : List FileName)
  | failed (e : IoError)

/-- Follow names through directories, from the directory at `dir`. -/
def hop (t : Tree) : Path → List FileName → Hop
  | dir, [] => .arrived dir
  | dir, name :: rest =>
    if name = ".." then hop t dir.dropLast rest
    else match t.node (dir ++ [name]) with
      | some (.link target) => .link dir target rest
      | some .dir => hop t (dir ++ [name]) rest
      | some _ => if rest = [] then .arrived (dir ++ [name]) else .failed .notDirectory
      | none => if rest = [] then .arrived (dir ++ [name]) else .failed .notFound

/-- Follow names and up to `links` links. -/
def follow (t : Tree) (links : ℕ) (dir : Path) (names : List FileName) : Except IoError Path :=
  match t.hop dir names with
  | .arrived p => .ok p
  | .failed e => .error e
  | .link dir target rest =>
    match links with
    | 0 => .error .tooManyLinks
    | links + 1 => t.follow links (if target.absolute then [] else dir) (target.parts ++ rest)

/-- Where a path leads, through a link at its end too. -/
def resolve (t : Tree) (p : Path) : Except IoError Path := t.follow 40 [] p

/-- Where the last name of a path stands. -/
def locate (t : Tree) (p : Path) : Except IoError Path :=
  match p.getLast? with
  | none => .error .invalid
  | some name =>
    match t.resolve p.dropLast with
    | .error e => .error e
    | .ok dir =>
      match t.node dir with
      | some .dir => .ok (dir ++ [name])
      | some _ => .error .notDirectory
      | none => .error .notFound

/-- The names in the directory at `p`, without `..`. -/
def entries (t : Tree) (p : Path) : List FileName :=
  (t.keys.filterMap fun q => if q.dropLast = p then q.getLast? else none).filter (· ≠ "..")

/-- Along these names from `dir` on there are directories, or nothing yet. -/
def Plain (t : Tree) : Path → List FileName → Prop
  | _, [] => True
  | dir, name :: rest => name ≠ ".." ∧
      (t.node (dir ++ [name]) = some .dir ∨ t.node (dir ++ [name]) = none) ∧
        Plain t (dir ++ [name]) rest

/-- Along these names from `dir` on there are directories. -/
def Straight (t : Tree) : Path → List FileName → Prop
  | _, [] => True
  | dir, name :: rest => name ≠ ".." ∧ t.node (dir ++ [name]) = some .dir ∧
      Straight t (dir ++ [name]) rest

variable {dir : Path} {names rest : List FileName} {name : FileName}

theorem Straight.plain (h : t.Straight dir names) : t.Plain dir names := by
  induction names generalizing dir with
  | nil => trivial
  | cons name names ih => exact ⟨h.1, .inl h.2.1, ih h.2.2⟩

theorem plain_append : t.Plain dir (names ++ rest) ↔
    t.Plain dir names ∧ t.Plain (dir ++ names) rest := by
  induction names generalizing dir with
  | nil => rw [List.nil_append, List.append_nil]; exact (and_iff_right trivial).symm
  | cons name names ih =>
    rw [List.cons_append, Plain, Plain, ih, List.append_assoc, List.singleton_append]
    simp only [and_assoc]

theorem Plain.node (h : t.Plain [] p) (hq : q <+: p) : t.node q = some .dir ∨ t.node q = none := by
  obtain ⟨rest, rfl⟩ := hq
  rcases q.eq_nil_or_concat with rfl | ⟨dir, name, rfl⟩
  · exact .inl (node_nil t)
  · rw [List.concat_eq_append] at h ⊢
    exact (plain_append.mp (plain_append.mp h).1).2.2.1

theorem Plain.above (h : t.Plain [] p) (hq : q <+: p) : t.Plain [] q := by
  obtain ⟨rest, rfl⟩ := hq
  exact (plain_append.mp h).1

theorem straight_append : t.Straight dir (names ++ rest) ↔
    t.Straight dir names ∧ t.Straight (dir ++ names) rest := by
  induction names generalizing dir with
  | nil => rw [List.nil_append, List.append_nil]; exact (and_iff_right trivial).symm
  | cons name names ih =>
    rw [List.cons_append, Straight, Straight, ih, List.append_assoc, List.singleton_append]
    simp only [and_assoc]

theorem hop_straight (h : t.Straight dir names) (rest : List FileName) :
    t.hop dir (names ++ rest) = t.hop (dir ++ names) rest := by
  induction names generalizing dir with
  | nil => rw [List.nil_append, List.append_nil]
  | cons name names ih =>
    obtain ⟨hname, hdir, h⟩ := h
    rw [List.cons_append, hop, if_neg hname]
    simp only [hdir]
    rw [ih h, List.append_assoc, List.singleton_append]

/-- Along directories, or nothing yet, a path leads on or nowhere. -/
theorem hop_plain (h : t.Plain dir names) (rest : List FileName) :
    t.hop dir (names ++ rest) = t.hop (dir ++ names) rest ∨
      ∃ e, t.hop dir (names ++ rest) = .failed e := by
  induction names generalizing dir with
  | nil => exact .inl (by rw [List.nil_append, List.append_nil])
  | cons name names ih =>
    obtain ⟨hname, hnode, h⟩ := h
    rw [List.cons_append, hop, if_neg hname]
    rcases hnode with hnode | hnode
    · simp only [hnode]
      have hih := ih h
      rwa [List.append_assoc, List.singleton_append] at hih
    · simp only [hnode]
      split
      · rename_i hend
        obtain ⟨rfl, rfl⟩ := List.append_eq_nil_iff.mp hend
        exact .inl (by rw [hop])
      · exact .inr ⟨_, rfl⟩

theorem resolve_plain (h : t.Plain [] p) (hr : t.resolve p = .ok q) : q = p := by
  unfold resolve follow at hr
  rcases hop_plain h [] with hhop | ⟨e, hhop⟩
  · rw [List.append_nil, List.nil_append, hop] at hhop
    rw [hhop] at hr
    cases hr
    rfl
  · rw [List.append_nil] at hhop
    rw [hhop] at hr
    cases hr

theorem resolve_straight (h : t.Straight [] p) : t.resolve p = .ok p := by
  have hhop := hop_straight h []
  rw [List.append_nil, List.nil_append, hop] at hhop
  unfold resolve follow
  rw [hhop]

/-- The last name of a path is found where the path says. -/
theorem locate_plain (h : t.Plain [] dir) (hl : t.locate (dir ++ [name]) = .ok q) :
    q = dir ++ [name] := by
  simp only [locate, List.getLast?_concat, List.dropLast_concat] at hl
  split at hl
  · cases hl
  · rename_i dir' hdir
    have hsame := resolve_plain h hdir
    split at hl <;> cases hl
    rw [hsame]

/-- Along directories, or nothing yet, a path leads to its end or meets nothing. -/
theorem straight_or_missing (h : t.Plain dir names) : t.Straight dir names ∨
    t.hop dir names = .failed .notFound ∨
      t.hop dir names = .arrived (dir ++ names) ∧ t.node (dir ++ names) = none := by
  induction names generalizing dir with
  | nil => exact .inl trivial
  | cons name names ih =>
    obtain ⟨hname, hnode | hnode, h⟩ := h
    · rw [hop, if_neg hname]
      simp only [hnode]
      have hih := ih h
      rw [List.append_assoc, List.singleton_append] at hih
      exact hih.imp_left fun hs => ⟨hname, hnode, hs⟩
    · rw [hop, if_neg hname]
      simp only [hnode]
      split
      · rename_i hend
        subst hend
        exact .inr (.inr ⟨rfl, hnode⟩)
      · exact .inr (.inl rfl)

theorem Straight.congr {t' : Tree} (h : t.Straight dir names)
    (hnodes : ∀ q, q <+: dir ++ names → t'.node q = t.node q) : t'.Straight dir names := by
  induction names generalizing dir with
  | nil => trivial
  | cons name names ih =>
    obtain ⟨hname, hdir, h⟩ := h
    have hnext : dir ++ [name] <+: dir ++ name :: names :=
      (List.prefix_append_right_inj dir).mpr ⟨names, rfl⟩
    refine ⟨hname, (hnodes _ hnext).trans hdir, ih h fun q hq => ?_⟩
    rw [List.append_assoc, List.singleton_append] at hq
    exact hnodes q hq

/-- A directory made at the end of directories. -/
theorem Straight.put (h : t.Straight [] dir) (hname : name ≠ "..") :
    (t.put (dir ++ [name]) .dir).Straight [] (dir ++ [name]) := by
  have hne : dir ++ [name] ≠ [] := by simp
  refine straight_append.mpr ⟨h.congr fun q hq => node_put_of_ne fun he => ?_, hname,
    node_put_self hne, trivial⟩
  have hlength := hq.length_le
  rw [he, List.length_append, List.length_singleton, List.nil_append] at hlength
  omega

theorem node_of_straight (h : t.Straight [] p) : t.node p = some .dir := by
  rcases p.eq_nil_or_concat with rfl | ⟨dir, name, rfl⟩
  · exact node_nil t
  · rw [List.concat_eq_append] at h ⊢
    exact (straight_append.mp h).2.2.1

theorem locate_straight (h : t.Straight [] dir) :
    t.locate (dir ++ [name]) = .ok (dir ++ [name]) := by
  simp only [locate, List.getLast?_concat, List.dropLast_concat, resolve_straight h,
    node_of_straight h]

theorem locate_missing (h : t.Plain [] dir) (hs : ¬ t.Straight [] dir) :
    t.locate (dir ++ [name]) = .error .notFound := by
  simp only [locate, List.getLast?_concat, List.dropLast_concat, resolve, follow]
  rcases straight_or_missing h with hs' | hhop | ⟨hhop, hnone⟩
  · exact absurd hs' hs
  · simp only [hhop]
  · rw [List.nil_append] at hhop hnone
    simp only [hhop, hnone]

/-- A path whose last name is no link leads to where it says. -/
theorem resolve_entry (h : t.Plain [] dir) (hname : name ≠ "..")
    (hlink : ∀ target, t.node (dir ++ [name]) ≠ some (.link target))
    (hr : t.resolve (dir ++ [name]) = .ok q) : q = dir ++ [name] := by
  unfold resolve follow at hr
  rcases hop_plain h [name] with hhop | ⟨e, hhop⟩
  · rw [hhop, List.nil_append, hop, if_neg hname] at hr
    rcases hn : t.node (dir ++ [name]) with _ | _ | _ | target | _
    · simp only [hn] at hr
      cases hr
      rfl
    · simp only [hn] at hr
      cases hr
      rfl
    · simp only [hn] at hr
      cases hr
      rfl
    · exact absurd hn (hlink target)
    · simp only [hn] at hr
      cases hr
      rfl
  · rw [hhop] at hr
    cases hr

theorem resolve_entry_straight (h : t.Straight [] dir) (hname : name ≠ "..")
    (hlink : ∀ target, t.node (dir ++ [name]) ≠ some (.link target)) :
    t.resolve (dir ++ [name]) = .ok (dir ++ [name]) := by
  unfold resolve follow
  rw [hop_straight h, List.nil_append, hop, if_neg hname]
  rcases hn : t.node (dir ++ [name]) with _ | _ | _ | target | _
  · rfl
  · rfl
  · rfl
  · exact absurd hn (hlink target)
  · rfl

/-! ### The operations -/

def nodeAt (t : Tree) (p : Path) : Except IoError Node :=
  match t.node p with
  | some n => .ok n
  | none => .error .notFound

def bytesAt (t : Tree) (p : Path) : Except IoError Bytes :=
  (t.resolve p).bind fun q =>
    match t.node q with
    | some (.file bytes) => .ok bytes
    | some .dir => .error .isDirectory
    | some _ => .error .invalid
    | none => .error .notFound

/-- The entries of a directory, each with its own type. -/
def entriesAt (t : Tree) (p : Path) : Except IoError (List (FileName × Node)) :=
  (t.resolve p).bind fun q =>
    match t.node q with
    | some .dir => .ok ((t.entries q).filterMap fun name => (t.node (q ++ [name])).map (name, ·))
    | some _ => .error .notDirectory
    | none => .error .notFound

def makeDir (t : Tree) (p : Path) : Except IoError (Unit × Tree) :=
  (t.locate p).bind fun q =>
    match t.node q with
    | some _ => .error .alreadyExists
    | none => .ok ((), t.put q .dir)

def truncate (t : Tree) (p : Path) : Except IoError (Path × Tree) :=
  (t.resolve p).bind fun q =>
    match t.node q with
    | some .dir => .error .isDirectory
    | some .special => .ok (q, t)
    | _ => .ok (q, t.put q (.file []))

def existing (t : Tree) (p : Path) : Except IoError Path :=
  (t.resolve p).bind fun q =>
    match t.node q with
    | some .dir => .error .isDirectory
    | some _ => .ok q
    | none => .error .notFound

def makeNew (t : Tree) (p : Path) : Except IoError (Path × Tree) :=
  (t.locate p).bind fun q =>
    match t.node q with
    | some _ => .error .alreadyExists
    | none => .ok (q, t.put q (.file []))

/-- New bytes over those from `offset` on. -/
def splice (old : Bytes) (offset : ℕ) (bytes : Bytes) : Bytes :=
  old.take offset ++ bytes ++ old.drop (offset + bytes.length)

def spliceAt (t : Tree) (q : Path) (offset : ℕ) (bytes : Bytes) : Tree :=
  match t.node q with
  | some (.file old) => t.put q (.file (splice old offset bytes))
  | _ => t

/-- The rename of what is no directory. -/
def move (t : Tree) (p q : Path) : Except IoError (Unit × Tree) :=
  (t.locate p).bind fun source => (t.locate q).bind fun target =>
    match t.node source, t.node target with
    | none, _ => .error .notFound
    | some .dir, _ | _, some .dir => .error .isDirectory
    | some n, _ => .ok ((), if source = target then t else (t.remove source).put target n)

def unlinkFile (t : Tree) (p : Path) : Except IoError (Unit × Tree) :=
  (t.locate p).bind fun q =>
    match t.node q with
    | none => .error .notFound
    | some .dir => .error .isDirectory
    | some _ => .ok ((), t.remove q)

/-- What is at or below `q`, the deepest first. -/
def belowRev (t : Tree) (q : Path) : List Path :=
  (t.keys.filter (q <+: ·)).mergeSort fun p r => r.length ≤ p.length

/-- What `remove_dir_all` removes: no link is followed below the directory. -/
def doomed (t : Tree) (p : Path) : Except IoError (List Path) :=
  (t.locate p).bind fun q =>
    match t.node q with
    | some .dir => .ok (t.belowRev q)
    | some (.link _) => .ok [q]
    | some _ => .error .notDirectory
    | none => .error .notFound

/-! What they do where directories, or nothing, lead to the place. -/

theorem of_bind_ok {ε α β : Type} {x : Except ε α} {f : α → Except ε β} {b : β}
    (h : x.bind f = .ok b) : ∃ a, x = .ok a ∧ f a = .ok b := by
  cases x with
  | error e => cases h
  | ok a => exact ⟨a, rfl, h⟩

variable {t' : Tree}

theorem locate_eq (h : t.Plain [] p.dropLast) (hl : t.locate p = .ok q) : q = p ∧ p ≠ [] := by
  rcases p.eq_nil_or_concat with rfl | ⟨dir, name, rfl⟩
  · cases hl
  · rw [List.concat_eq_append] at h hl ⊢
    rw [List.dropLast_concat] at h
    exact ⟨locate_plain h hl, by simp⟩

theorem entriesAt_ok {es : List (FileName × Node)} (h : t.Plain [] p)
    (he : t.entriesAt p = .ok es) : ∀ e ∈ es, e.1 ≠ ".." ∧ t.node (p ++ [e.1]) = some e.2 := by
  obtain ⟨q, hq, hact⟩ := of_bind_ok he
  obtain rfl := resolve_plain h hq
  split at hact <;> cases hact
  rintro ⟨name, n⟩ hmem
  obtain ⟨name', hname, hn⟩ := List.mem_filterMap.mp hmem
  obtain ⟨n', hn', heq⟩ := Option.map_eq_some_iff.mp hn
  cases heq
  exact ⟨by simpa using (List.mem_filter.mp hname).2, hn'⟩

theorem makeDir_ok (h : t.Plain [] p.dropLast) (hm : t.makeDir p = .ok ((), t')) :
    p ≠ [] ∧ t.node p = none ∧ t' = t.put p .dir := by
  obtain ⟨q, hq, hact⟩ := of_bind_ok hm
  obtain ⟨rfl, hne⟩ := locate_eq h hq
  split at hact <;> cases hact
  rename_i hnone
  exact ⟨hne, hnone, rfl⟩

theorem truncate_ok (h : t.Plain [] dir) (hname : name ≠ "..")
    (hlink : ∀ target, t.node (dir ++ [name]) ≠ some (.link target))
    (hm : t.truncate (dir ++ [name]) = .ok (q, t')) : q = dir ++ [name] ∧
      (t.node q = some .special ∧ t' = t ∨ t.node q ≠ some .dir ∧ t' = t.put q (.file [])) := by
  obtain ⟨r, hr, hact⟩ := of_bind_ok hm
  obtain rfl := resolve_entry h hname hlink hr
  split at hact <;> cases hact
  · rename_i hspecial
    exact ⟨rfl, .inl ⟨hspecial, rfl⟩⟩
  · rename_i hdir _
    exact ⟨rfl, .inr ⟨hdir, rfl⟩⟩

theorem existing_ok (h : t.Plain [] dir) (hname : name ≠ "..")
    (hlink : ∀ target, t.node (dir ++ [name]) ≠ some (.link target))
    (hm : t.existing (dir ++ [name]) = .ok q) : q = dir ++ [name] := by
  obtain ⟨r, hr, hact⟩ := of_bind_ok hm
  obtain rfl := resolve_entry h hname hlink hr
  split at hact <;> cases hact
  rfl

theorem makeNew_ok (h : t.Plain [] p.dropLast) (hm : t.makeNew p = .ok (q, t')) :
    q = p ∧ p ≠ [] ∧ t.node p = none ∧ t' = t.put p (.file []) := by
  obtain ⟨r, hr, hact⟩ := of_bind_ok hm
  obtain ⟨rfl, hne⟩ := locate_eq h hr
  split at hact <;> cases hact
  rename_i hnone
  exact ⟨rfl, hne, hnone, rfl⟩

theorem move_ok (hp : t.Plain [] p.dropLast) (hq : t.Plain [] q.dropLast)
    (hm : t.move p q = .ok ((), t')) : ∃ n, t.node p = some n ∧ n ≠ .dir ∧
      t.node q ≠ some .dir ∧ t' = if p = q then t else (t.remove p).put q n := by
  obtain ⟨source, hsource, hrest⟩ := of_bind_ok hm
  obtain ⟨target, htarget, hact⟩ := of_bind_ok hrest
  obtain ⟨rfl, -⟩ := locate_eq hp hsource
  obtain ⟨rfl, -⟩ := locate_eq hq htarget
  split at hact <;> cases hact
  rename_i n hdir hn htarget'
  exact ⟨n, hn, hdir, htarget', rfl⟩

theorem move_straight (h : t.Straight [] dir) {other : FileName} {bytes : Bytes}
    (hnode : t.node (dir ++ [name]) = some (.file bytes))
    (hother : t.node (dir ++ [other]) ≠ some .dir) (hne : name ≠ other) :
    t.move (dir ++ [name]) (dir ++ [other]) =
      .ok ((), (t.remove (dir ++ [name])).put (dir ++ [other]) (.file bytes)) := by
  have hpaths : dir ++ [name] ≠ dir ++ [other] := fun he =>
    hne (List.head_eq_of_cons_eq (List.append_cancel_left he))
  simp only [move, locate_straight h, Except.bind, hnode]
  rw [if_neg hpaths]

theorem truncate_new (h : t.Straight [] dir) (hname : name ≠ "..")
    (hnone : t.node (dir ++ [name]) = none) :
    t.truncate (dir ++ [name]) = .ok (dir ++ [name], t.put (dir ++ [name]) (.file [])) := by
  have hlink : ∀ target, t.node (dir ++ [name]) ≠ some (.link target) := by simp [hnone]
  simp only [truncate, resolve_entry_straight h hname hlink, Except.bind, hnone]

theorem unlinkFile_ok (h : t.Plain [] p.dropLast) (hm : t.unlinkFile p = .ok ((), t')) :
    t' = t.remove p := by
  obtain ⟨q, hq, hact⟩ := of_bind_ok hm
  obtain ⟨rfl, -⟩ := locate_eq h hq
  split at hact <;> cases hact
  rfl

theorem doomed_ok {ps : List Path} (h : t.Plain [] p.dropLast) (hm : t.doomed p = .ok ps) :
    ∀ r ∈ ps, p <+: r := by
  obtain ⟨q, hq, hact⟩ := of_bind_ok hm
  obtain ⟨rfl, -⟩ := locate_eq h hq
  intro r hr
  split at hact <;> cases hact
  · have hmem := (List.mergeSort_perm _ _).subset hr
    exact of_decide_eq_true (List.mem_filter.mp hmem).2
  · rw [List.mem_singleton.mp hr]

theorem spliceAt_cases (t : Tree) (q : Path) (offset : ℕ) (bytes : Bytes) :
    t.spliceAt q offset bytes = t ∨ ∃ old, t.node q = some (.file old) ∧
      t.spliceAt q offset bytes = t.put q (.file (splice old offset bytes)) := by
  unfold spliceAt
  split
  · rename_i old hold
    exact .inr ⟨old, hold, rfl⟩
  · exact .inl rfl

/-! ### A file at an empty place -/

variable {bytes : Bytes}

/-- Names that lead somewhere lead there once a file has come to an empty place. -/
theorem hop_put (hp : t.node p = none) (hhop : ∀ e, t.hop dir names ≠ .failed e) :
    (t.put p (.file bytes)).hop dir names = t.hop dir names := by
  have hne : p ≠ [] := by
    rintro rfl
    simp at hp
  induction names generalizing dir with
  | nil => rfl
  | cons name rest ih =>
    rw [hop, hop]
    rw [hop] at hhop
    split
    · rename_i hup
      rw [if_pos hup] at hhop
      exact ih hhop
    · rename_i hname
      rw [if_neg hname] at hhop
      by_cases hq : dir ++ [name] = p
      · -- only the end of the path can be the empty place
        rw [hq, hp] at hhop ⊢
        rw [node_put_self hne]
        by_cases hend : rest = []
        · simp only [if_pos hend]
        · exact absurd (if_neg hend) (hhop _)
      · rw [node_put_of_ne hq]
        cases hn : t.node (dir ++ [name]) with
        | none => rfl
        | some n =>
          cases n with
          | dir =>
            simp only [hn] at hhop
            exact ih hhop
          | file _ => rfl
          | link _ => rfl
          | special => rfl

theorem follow_put {links : ℕ} (hp : t.node p = none) (hf : t.follow links dir names = .ok q) :
    (t.put p (.file bytes)).follow links dir names = .ok q := by
  induction links generalizing dir names with
  | zero =>
    unfold follow at hf ⊢
    cases hhop : t.hop dir names with
    | failed e =>
      rw [hhop] at hf
      cases hf
    | arrived r =>
      rw [hop_put hp (by simp [hhop]), hhop]
      rw [hhop] at hf
      exact hf
    | link d target rest =>
      rw [hhop] at hf
      cases hf
  | succ links ih =>
    unfold follow at hf ⊢
    cases hhop : t.hop dir names with
    | failed e =>
      rw [hhop] at hf
      cases hf
    | arrived r =>
      rw [hop_put hp (by simp [hhop]), hhop]
      rw [hhop] at hf
      exact hf
    | link d target rest =>
      rw [hop_put hp (by simp [hhop]), hhop]
      rw [hhop] at hf
      exact ih hf

theorem locate_put {r : Path} (hp : t.node p = none) (hl : t.locate r = .ok q) :
    (t.put p (.file bytes)).locate r = .ok q := by
  unfold locate at hl ⊢
  cases hname : r.getLast? with
  | none =>
    rw [hname] at hl
    cases hl
  | some name =>
    simp only [hname] at hl ⊢
    cases hdir : t.resolve r.dropLast with
    | error e =>
      rw [hdir] at hl
      cases hl
    | ok dir =>
      have hdir' : (t.put p (.file bytes)).resolve r.dropLast = .ok dir := follow_put hp hdir
      simp only [hdir] at hl
      simp only [hdir']
      split at hl
      · rename_i hnode
        have hne : dir ≠ p := by
          rintro rfl
          rw [hp] at hnode
          cases hnode
        simp only [node_put_of_ne hne, hnode]
        exact hl
      · cases hl
      · cases hl

/-- What `makeNew` makes. -/
theorem makeNew_eq_ok {u : Tree} : t.makeNew p = .ok (q, u) ↔
    t.locate p = .ok q ∧ t.node q = none ∧ u = t.put q (.file []) := by
  constructor
  · intro h
    obtain ⟨r, hr, hact⟩ := of_bind_ok h
    split at hact <;> cases hact
    rename_i hnone
    exact ⟨hr, hnone, rfl⟩
  · rintro ⟨hl, hnone, rfl⟩
    simp only [makeNew, hl, Except.bind, hnone]

/-- A file that was made is in the way of another. -/
theorem makeNew_again {u : Tree} (h : t.makeNew p = .ok (q, u)) :
    (t.put q (.file bytes)).makeNew p = .error .alreadyExists := by
  obtain ⟨hl, hnone, -⟩ := makeNew_eq_ok.mp h
  have hne : q ≠ [] := by
    rintro rfl
    simp at hnone
  simp only [makeNew, locate_put hnone hl, Except.bind, node_put_self hne]

theorem put_put (t : Tree) (p : Path) (n n' : Node) : (t.put p n).put p n' = t.put p n' := by
  unfold put
  split
  · rfl
  · rw [AList.insert_insert]

/-- New bytes in an empty file. -/
theorem spliceAt_new (hp : p ≠ []) (bytes : Bytes) :
    (t.put p (.file [])).spliceAt p 0 bytes = t.put p (.file bytes) := by
  simp only [spliceAt, node_put_self hp, put_put]
  simp [splice]

/-! ### What lies inside a path -/

/-- Only what is at or below `a` differs, and directories on the way to it; nothing has become a
link. -/
def Inside (a : Path) (t t' : Tree) : Prop :=
  ∀ p, t'.node p = t.node p ∨ (a <+: p ∨ p <+: a) ∧
    (∀ target, t'.node p ≠ some (.link target)) ∧
      (p <+: a → t'.node p = some .dir ∨ t'.node p = none)

variable {a : Path}

instance : IsPreorder Tree (Inside a) where
  refl _ _ := .inl rfl
  trans t u v htu huv p := by
    rcases huv p with hv | hv
    · rw [hv]
      exact htu p
    · exact .inr hv

theorem Plain.of_nodes (h : t.Plain dir names)
    (hnodes : ∀ q, q <+: dir ++ names → t'.node q = t.node q ∨ t'.node q = some .dir ∨
      t'.node q = none) : t'.Plain dir names := by
  induction names generalizing dir with
  | nil => trivial
  | cons name names ih =>
    obtain ⟨hname, hnode, h⟩ := h
    have hnext : dir ++ [name] <+: dir ++ name :: names :=
      (List.prefix_append_right_inj dir).mpr ⟨names, rfl⟩
    refine ⟨hname, ?_, ih h fun q hq => ?_⟩
    · rcases hnodes _ hnext with hsame | hdir
      · rw [hsame]
        exact hnode
      · exact hdir
    · rw [List.append_assoc, List.singleton_append] at hq
      exact hnodes q hq

theorem Plain.inside (h : t.Plain [] a) (hi : t.Inside a t') : t'.Plain [] a := by
  refine h.of_nodes fun q hq => ?_
  rcases hi q with hsame | ⟨-, -, hway⟩
  · exact .inl hsame
  · exact .inr (hway hq)

/-- What is beside `a` stays. -/
theorem Inside.node_eq (hi : t.Inside a t') (hbelow : ¬ a <+: p) (habove : ¬ p <+: a) :
    t'.node p = t.node p := by
  rcases hi p with hsame | ⟨hp, -⟩
  · exact hsame
  · exact absurd hp (not_or.mpr ⟨hbelow, habove⟩)

theorem inside_put (h : a <+: p) (hne : p ≠ a) (hn : ∀ target, n ≠ .link target) :
    t.Inside a (t.put p n) := by
  intro q
  by_cases hq : q = p
  · subst hq
    have hq : q ≠ [] := fun hnil => by
      subst hnil
      exact hne (List.prefix_nil.mp h).symm
    refine .inr ⟨.inl h, fun target => ?_,
      fun hway => absurd (hway.eq_of_length_le h.length_le) hne⟩
    rw [node_put_self hq]
    exact fun he => hn target (Option.some.inj he)
  · exact .inl (node_put_of_ne hq)

theorem inside_putDir (h : a <+: p ∨ p <+: a) : t.Inside a (t.put p .dir) := by
  intro q
  by_cases hq : q = p
  · subst hq
    have hdir : (t.put q .dir).node q = some .dir := by
      by_cases hq : q = []
      · rw [hq, node_nil]
      · exact node_put_self hq
    exact .inr ⟨h, by simp [hdir], fun _ => .inl hdir⟩
  · exact .inl (node_put_of_ne hq)

theorem inside_remove (h : a <+: p) : t.Inside a (t.remove p) := by
  intro q
  by_cases hq : q = p
  · subst hq
    by_cases hnil : q = []
    · subst hnil
      exact .inl (by rw [node_nil, node_nil])
    · have hnone := node_remove_self hnil (t := t)
      exact .inr ⟨.inl h, by simp [hnone], fun _ => .inr hnone⟩
  · exact .inl (node_remove_of_ne hq)

theorem inside_splice (h : a <+: p) (hne : p ≠ a) (offset : ℕ) (bytes : Bytes) :
    t.Inside a (t.spliceAt p offset bytes) := by
  rcases spliceAt_cases t p offset bytes with hsame | ⟨old, -, hput⟩
  · rw [hsame]
    exact refl_of (Inside a) t
  · rw [hput]
    exact inside_put h hne (by simp)

end Tree
end FileTree
