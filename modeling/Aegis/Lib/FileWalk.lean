import Aegis.Lib.FileRun
import Mathlib.Algebra.BigOperators.Group.List.Basic
import Mathlib.Algebra.GroupWithZero.Nat
import Mathlib.Algebra.Order.BigOperators.Group.List

/-! A walk over the directories of a tree: how long it is, which files it meets, and that the paths
it goes by lead where they say. -/
namespace FileTree.Tree
open Text

variable {t t' : Tree} {p q r dir : Path} {name : FileName} {names rest : List FileName}

/-! ### Paths below a path -/

/-- A name leads to a directory, to a link, or to an end. -/
theorem hop_cons (t : Tree) (dir : Path) (name : FileName) :
    (∃ dir', (dir' = dir.dropLast ∨ name ≠ ".." ∧ dir' = dir ++ [name] ∧ t.node dir' = some .dir) ∧
      ∀ rest, t.hop dir (name :: rest) = t.hop dir' rest) ∨
    (∃ target, ∀ rest, t.hop dir (name :: rest) = .link dir target rest) ∨
    t.node (dir ++ [name]) ≠ some .dir ∧ t.hop dir [name] = .arrived (dir ++ [name]) ∧
      ∀ rest, rest ≠ [] → ∃ e, t.hop dir (name :: rest) = .failed e := by
  by_cases hname : name = ".."
  · exact .inl ⟨dir.dropLast, .inl rfl, fun rest => by rw [hop, if_pos hname]⟩
  · cases hn : t.node (dir ++ [name]) with
    | none =>
      have hstep : ∀ rest, t.hop dir (name :: rest) =
          if rest = [] then .arrived (dir ++ [name]) else .failed .notFound := by
        intro rest
        simp only [hop, if_neg hname, hn]
      exact .inr (.inr ⟨by simp, hstep [], fun rest hrest =>
        ⟨_, (hstep rest).trans (if_neg hrest)⟩⟩)
    | some n =>
      cases n with
      | dir =>
        have hstep : ∀ rest, t.hop dir (name :: rest) = t.hop (dir ++ [name]) rest := by
          intro rest
          simp only [hop, if_neg hname, hn]
        exact .inl ⟨_, .inr ⟨hname, rfl, hn⟩, hstep⟩
      | link target =>
        have hstep : ∀ rest, t.hop dir (name :: rest) = .link dir target rest := by
          intro rest
          simp only [hop, if_neg hname, hn]
        exact .inr (.inl ⟨target, hstep⟩)
      | file bytes =>
        have hstep : ∀ rest, t.hop dir (name :: rest) =
            if rest = [] then .arrived (dir ++ [name]) else .failed .notDirectory := by
          intro rest
          simp only [hop, if_neg hname, hn]
        exact .inr (.inr ⟨by simp, hstep [], fun rest hrest =>
          ⟨_, (hstep rest).trans (if_neg hrest)⟩⟩)
      | special =>
        have hstep : ∀ rest, t.hop dir (name :: rest) =
            if rest = [] then .arrived (dir ++ [name]) else .failed .notDirectory := by
          intro rest
          simp only [hop, if_neg hname, hn]
        exact .inr (.inr ⟨by simp, hstep [], fun rest hrest =>
          ⟨_, (hstep rest).trans (if_neg hrest)⟩⟩)

theorem hop_append (h : t.hop dir names = .arrived q) (hq : t.node q = some .dir)
    (rest : List FileName) : t.hop dir (names ++ rest) = t.hop q rest := by
  induction names generalizing dir with
  | nil =>
    rw [hop] at h
    cases h
    rfl
  | cons name names ih =>
    rcases hop_cons t dir name with ⟨dir', -, hstep⟩ | ⟨target, hstep⟩ | ⟨hend, harrived, hfailed⟩
    · rw [hstep] at h
      rw [List.cons_append, hstep, ih h]
    · rw [hstep] at h
      cases h
    · -- what is no directory ends the way
      by_cases hnames : names = []
      · subst hnames
        rw [harrived] at h
        cases h
        exact absurd hq hend
      · obtain ⟨e, he⟩ := hfailed names hnames
        rw [he] at h
        cases h

theorem hop_append_link {d : Path} {target : Target} {names' : List FileName}
    (h : t.hop dir names = .link d target names') (rest : List FileName) :
    t.hop dir (names ++ rest) = .link d target (names' ++ rest) := by
  induction names generalizing dir with
  | nil =>
    rw [hop] at h
    cases h
  | cons name names ih =>
    rcases hop_cons t dir name with ⟨dir', -, hstep⟩ | ⟨target', hstep⟩ | ⟨-, harrived, hfailed⟩
    · rw [hstep] at h
      rw [List.cons_append, hstep, ih h]
    · rw [hstep] at h
      cases h
      rw [List.cons_append, hstep]
    · by_cases hnames : names = []
      · subst hnames
        rw [harrived] at h
        cases h
      · obtain ⟨e, he⟩ := hfailed names hnames
        rw [he] at h
        cases h

/-- A path through a path that leads to a directory goes on from there. -/
theorem follow_append {links : ℕ} (h : t.follow links dir names = .ok q)
    (hq : t.node q = some .dir) :
    ∃ left, ∀ rest, t.follow links dir (names ++ rest) = t.follow left q rest := by
  induction links generalizing dir names with
  | zero =>
    refine ⟨0, fun rest => ?_⟩
    unfold follow at h
    cases hhop : t.hop dir names with
    | failed e =>
      rw [hhop] at h
      cases h
    | link d target names' =>
      rw [hhop] at h
      cases h
    | arrived q' =>
      rw [hhop] at h
      cases h
      unfold follow
      rw [hop_append hhop hq]
  | succ links ih =>
    cases hhop : t.hop dir names with
    | failed e =>
      unfold follow at h
      rw [hhop] at h
      cases h
    | link d target names' =>
      unfold follow at h
      rw [hhop] at h
      obtain ⟨left, hleft⟩ := ih h
      refine ⟨left, fun rest => ?_⟩
      rw [← hleft rest, List.append_assoc]
      conv_lhs => unfold follow
      rw [hop_append_link hhop]
    | arrived q' =>
      unfold follow at h
      rw [hhop] at h
      cases h
      refine ⟨links + 1, fun rest => ?_⟩
      unfold follow
      rw [hop_append hhop hq]

theorem resolve_child {n : Node} (h : t.resolve p = .ok q) (hq : t.node q = some .dir)
    (hname : name ≠ "..") (hn : t.node (q ++ [name]) = some n)
    (hlink : ∀ target, n ≠ .link target) : t.resolve (p ++ [name]) = .ok (q ++ [name]) := by
  obtain ⟨left, hleft⟩ := follow_append h hq
  unfold resolve
  rw [hleft, follow, hop, if_neg hname]
  simp only [hn]
  cases n with
  | link target => exact absurd rfl (hlink target)
  | dir => rfl
  | file bytes => rfl
  | special => rfl

/-- Names before another lead to a directory or to a link, or the path leads nowhere. -/
theorem hop_above (h : t.Straight [] dir) (names : List FileName) (name : FileName) :
    (∃ q, t.hop dir names = .arrived q ∧ t.node q = some .dir) ∨
    (∃ d target names', t.Straight [] d ∧ t.hop dir names = .link d target names') ∨
    ∃ e, t.hop dir (names ++ [name]) = .failed e := by
  induction names generalizing dir with
  | nil => exact .inl ⟨dir, by rw [hop], node_of_straight h⟩
  | cons first names ih =>
    rw [List.cons_append]
    rcases hop_cons t dir first with ⟨dir', hdir', hstep⟩ | ⟨target, hstep⟩ | ⟨-, -, hfailed⟩
    · have hstraight : t.Straight [] dir' := by
        rcases hdir' with rfl | ⟨hname, rfl, hn⟩
        · obtain ⟨last, hlast⟩ := List.dropLast_prefix dir
          rw [← hlast] at h
          exact (straight_append.mp h).1
        · exact straight_append.mpr ⟨h, hname, hn, trivial⟩
      rw [hstep, hstep]
      exact ih hstraight
    · exact .inr (.inl ⟨dir, target, names, h, hstep names⟩)
    · exact .inr (.inr (hfailed _ (by simp)))

theorem follow_above {links : ℕ} (h : t.Straight [] dir)
    (hf : t.follow links dir (names ++ [name]) = .ok r) :
    ∃ q, t.follow links dir names = .ok q ∧ t.node q = some .dir := by
  induction links generalizing dir names with
  | zero =>
    rcases hop_above h names name with ⟨q, hq, hn⟩ | ⟨d, target, names', -, hhop⟩ | ⟨e, hhop⟩
    · exact ⟨q, by rw [follow, hq], hn⟩
    · rw [follow, hop_append_link hhop] at hf
      cases hf
    · rw [follow, hhop] at hf
      cases hf
  | succ links ih =>
    rcases hop_above h names name with ⟨q, hq, hn⟩ | ⟨d, target, names', hd, hhop⟩ | ⟨e, hhop⟩
    · exact ⟨q, by rw [follow, hq], hn⟩
    · rw [follow, hop_append_link hhop] at hf
      have hbase : t.Straight [] (if target.absolute then [] else d) := by
        split
        · trivial
        · exact hd
      obtain ⟨q, hq, hn⟩ := ih hbase (by rw [List.append_assoc]; exact hf)
      exact ⟨q, by rw [follow, hhop]; exact hq, hn⟩
    · rw [follow, hhop] at hf
      cases hf

/-- Above a path that leads somewhere there is a directory. -/
theorem resolve_above (h : t.resolve (p ++ [name]) = .ok r) :
    ∃ q, t.resolve p = .ok q ∧ t.node q = some .dir :=
  follow_above trivial h

theorem locate_ne_nil (h : t.locate p = .ok q) : q ≠ [] := by
  unfold locate at h
  split at h
  · cases h
  · split at h
    · cases h
    · split at h <;> cases h
      simp

theorem locate_child (h : t.resolve p = .ok q) (hq : t.node q = some .dir) :
    t.locate (p ++ [name]) = .ok (q ++ [name]) := by
  simp only [locate, List.getLast?_concat, List.dropLast_concat, h, hq]

theorem node_straight (hdir : t.node dir = some .dir) (h : t.Straight dir names) :
    t.node (dir ++ names) = some .dir := by
  rcases names.eq_nil_or_concat with rfl | ⟨above, name, rfl⟩
  · rwa [List.append_nil]
  · rw [List.concat_eq_append] at h ⊢
    rw [← List.append_assoc]
    exact (straight_append.mp h).2.2.1

theorem resolve_below (h : t.resolve p = .ok q) (hq : t.node q = some .dir)
    (hnames : t.Straight q names) : t.resolve (p ++ names) = .ok (q ++ names) := by
  induction names generalizing p q with
  | nil => rwa [List.append_nil, List.append_nil]
  | cons name names ih =>
    obtain ⟨hname, hdir, hnames⟩ := hnames
    have hchild := resolve_child h hq hname hdir nofun
    have hih := ih hchild hdir hnames
    simpa only [List.append_assoc, List.singleton_append] using hih

/-! ### Files written over -/

/-- Only the bytes of files differ, and no file is longer or shorter. -/
def Overwritten (t t' : Tree) : Prop :=
  ∀ p, t'.node p = t.node p ∨ ∃ old new : Bytes, old.length = new.length ∧
    t.node p = some (.file old) ∧ t'.node p = some (.file new)

instance : IsPreorder Tree Overwritten where
  refl _ _ := .inl rfl
  trans t u v htu huv p := by
    rcases huv p with hv | ⟨old, new, hlength, hold, hnew⟩
    · rw [hv]
      exact htu p
    · rcases htu p with hu | ⟨old', new', hlength', hold', hnew'⟩
      · exact .inr ⟨old, new, hlength, hu ▸ hold, hnew⟩
      · rw [hnew'] at hold
        cases hold
        exact .inr ⟨old', new, hlength'.trans hlength, hold', hnew⟩

theorem Overwritten.file {bytes : Bytes} (h : t.Overwritten t')
    (hp : t.node p = some (.file bytes)) :
    ∃ new : Bytes, new.length = bytes.length ∧ t'.node p = some (.file new) := by
  rcases h p with hsame | ⟨old, new, hlength, hold, hnew⟩
  · exact ⟨bytes, rfl, hsame.trans hp⟩
  · rw [hp] at hold
    cases hold
    exact ⟨new, hlength.symm, hnew⟩

theorem Overwritten.hop (h : t.Overwritten t') (dir : Path) (names : List FileName) :
    t'.hop dir names = t.hop dir names := by
  induction names generalizing dir with
  | nil => rfl
  | cons name names ih =>
    rw [Tree.hop, Tree.hop]
    split
    · exact ih _
    · rcases h (dir ++ [name]) with hsame | ⟨old, new, -, hold, hnew⟩
      · rw [hsame]
        split <;> first | rfl | exact ih _
      · rw [hold, hnew]

theorem Overwritten.follow (h : t.Overwritten t') (links : ℕ) (dir : Path)
    (names : List FileName) : t'.follow links dir names = t.follow links dir names := by
  induction links generalizing dir names with
  | zero =>
    unfold Tree.follow
    rw [h.hop]
  | succ links ih =>
    unfold Tree.follow
    rw [h.hop]
    cases t.hop dir names with
    | arrived p => rfl
    | failed e => rfl
    | link d target rest => exact ih _ _

theorem Overwritten.resolve (h : t.Overwritten t') (p : Path) : t'.resolve p = t.resolve p :=
  h.follow 40 [] p

theorem Overwritten.dir_iff (h : t.Overwritten t') :
    t'.node p = some .dir ↔ t.node p = some .dir := by
  rcases h p with hsame | ⟨old, new, -, hold, hnew⟩
  · rw [hsame]
  · rw [hold, hnew]
    exact iff_of_false nofun nofun

theorem Overwritten.locate (h : t.Overwritten t') (p : Path) : t'.locate p = t.locate p := by
  unfold Tree.locate
  rw [h.resolve]
  cases p.getLast? with
  | none => rfl
  | some name =>
    cases t.resolve p.dropLast with
    | error e => rfl
    | ok d =>
      rcases h d with hsame | ⟨old, new, -, hold, hnew⟩
      · simp only [hsame]
      · simp only [hold, hnew]

theorem length_splice {old new : Bytes} {offset : ℕ} (h : offset + new.length ≤ old.length) :
    (splice old offset new).length = old.length := by
  rw [splice, List.length_append, List.length_append, List.length_take, List.length_drop]
  omega

/-! ### The entries of a directory -/

/-- The entries of the directory at a place, each with its own type. -/
def children (t : Tree) (q : Path) : List (FileName × Node) :=
  (t.entries q).filterMap fun name => (t.node (q ++ [name])).map (name, ·)

def subdirs (t : Tree) (q : Path) : List FileName :=
  ((t.children q).filter (·.2.isDir)).map (·.1)

def fileNames (t : Tree) (q : Path) : List FileName :=
  ((t.children q).filter (·.2.isFile)).map (·.1)

theorem entriesAt_eq_ok {es : List (FileName × Node)} : t.entriesAt p = .ok es ↔
    ∃ q, t.resolve p = .ok q ∧ t.node q = some .dir ∧ es = t.children q := by
  constructor
  · intro h
    obtain ⟨q, hq, hact⟩ := of_bind_ok h
    split at hact <;> cases hact
    rename_i hdir
    exact ⟨q, hq, hdir, rfl⟩
  · rintro ⟨q, hq, hdir, rfl⟩
    simp only [entriesAt, hq, Except.bind, hdir]
    rfl

theorem mem_keys_of_node {n : Node} (hp : p ≠ []) (h : t.node p = some n) : p ∈ t.keys := by
  rw [node, if_neg hp] at h
  exact AList.lookup_isSome.mp (by rw [h]; rfl)

theorem mem_entries : name ∈ t.entries q ↔ q ++ [name] ∈ t.keys ∧ name ≠ ".." := by
  simp only [entries, List.mem_filter, List.mem_filterMap, decide_eq_true_eq]
  refine and_congr_left fun _ => ?_
  constructor
  · rintro ⟨k, hk, hlast⟩
    split at hlast
    · rename_i hq
      obtain ⟨above, rfl⟩ := List.getLast?_eq_some_iff.mp hlast
      rw [List.dropLast_concat] at hq
      rwa [← hq]
    · cases hlast
  · intro hk
    exact ⟨_, hk, by rw [List.dropLast_concat, if_pos rfl, List.getLast?_concat]⟩

theorem nodup_entries (t : Tree) (q : Path) : (t.entries q).Nodup := by
  refine (List.Nodup.filterMap ?_ t.keys_nodup).filter _
  intro k k' name hk hk'
  simp only [Option.mem_def] at hk hk'
  split at hk
  · rename_i hq
    split at hk'
    · rename_i hq'
      obtain ⟨above, rfl⟩ := List.getLast?_eq_some_iff.mp hk
      obtain ⟨above', rfl⟩ := List.getLast?_eq_some_iff.mp hk'
      rw [List.dropLast_concat] at hq hq'
      rw [hq, hq']
    · cases hk'
  · cases hk

theorem mem_children {n : Node} : (name, n) ∈ t.children q ↔
    name ≠ ".." ∧ t.node (q ++ [name]) = some n := by
  simp only [children, List.mem_filterMap, Option.map_eq_some_iff, Prod.mk.injEq]
  constructor
  · rintro ⟨name', hmem, n', hn, rfl, rfl⟩
    exact ⟨(mem_entries.mp hmem).2, hn⟩
  · rintro ⟨hname, hn⟩
    have hkey : q ++ [name] ∈ t.keys := mem_keys_of_node (by simp) hn
    exact ⟨name, mem_entries.mpr ⟨hkey, hname⟩, n, hn, rfl, rfl⟩

theorem map_fst_children (t : Tree) (q : Path) : (t.children q).map (·.1) = t.entries q := by
  have hnode : ∀ name ∈ t.entries q, (t.node (q ++ [name])).isSome := by
    intro name hname
    rw [node, if_neg (by simp)]
    exact AList.lookup_isSome.mpr (mem_entries.mp hname).1
  unfold children
  generalize t.entries q = names at hnode ⊢
  induction names with
  | nil => rfl
  | cons name names ih =>
    obtain ⟨n, hn⟩ := Option.isSome_iff_exists.mp (hnode name List.mem_cons_self)
    rw [List.filterMap_cons, hn]
    simp only [Option.map_some, List.map_cons]
    rw [ih fun other hother => hnode other (List.mem_cons_of_mem _ hother)]

theorem nodup_children (t : Tree) (q : Path) : ((t.children q).map (·.1)).Nodup := by
  rw [map_fst_children]
  exact nodup_entries t q

theorem mem_subdirs : name ∈ t.subdirs q ↔ name ≠ ".." ∧ t.node (q ++ [name]) = some .dir := by
  simp only [subdirs, List.mem_map, List.mem_filter]
  constructor
  · rintro ⟨⟨name', n⟩, ⟨hmem, hdir⟩, rfl⟩
    cases n with
    | dir => exact mem_children.mp hmem
    | file bytes => cases hdir
    | link target => cases hdir
    | special => cases hdir
  · intro h
    exact ⟨(name, .dir), ⟨mem_children.mpr h, rfl⟩, rfl⟩

theorem mem_fileNames : name ∈ t.fileNames q ↔
    name ≠ ".." ∧ ∃ bytes, t.node (q ++ [name]) = some (.file bytes) := by
  simp only [fileNames, List.mem_map, List.mem_filter]
  constructor
  · rintro ⟨⟨name', n⟩, ⟨hmem, hfile⟩, rfl⟩
    cases n with
    | file bytes =>
      obtain ⟨hname, hn⟩ := mem_children.mp hmem
      exact ⟨hname, bytes, hn⟩
    | dir => cases hfile
    | link target => cases hfile
    | special => cases hfile
  · rintro ⟨hname, bytes, hn⟩
    exact ⟨(name, .file bytes), ⟨mem_children.mpr ⟨hname, hn⟩, rfl⟩, rfl⟩

theorem nodup_subdirs (t : Tree) (q : Path) : (t.subdirs q).Nodup :=
  (nodup_children t q).sublist (List.filter_sublist.map _)

/-! ### How long a walk is -/

/-- How many paths there are at or below a path. -/
def weight (t : Tree) (q : Path) : ℕ := ([] :: t.keys).countP fun k => decide (q <+: k)

theorem weight_pos (h : q ∈ [] :: t.keys) : 0 < t.weight q :=
  List.countP_pos_iff.mpr ⟨q, h, by simp⟩

theorem sum_indicator (names : List FileName) (name : FileName) :
    (names.map fun other => if other = name then 1 else 0).sum = names.count name := by
  induction names with
  | nil => rfl
  | cons other names ih =>
    rw [List.map_cons, List.sum_cons, ih, List.count_cons]
    simp only [beq_iff_eq]
    omega

/-- A path is at or below one child at most. -/
theorem sum_children_le (h : names.Nodup) (q k : Path) :
    (names.map fun name => if q ++ [name] <+: k then 1 else 0).sum + (if k = q then 1 else 0) ≤
      if q <+: k then 1 else 0 := by
  by_cases hq : q <+: k
  · obtain ⟨below, rfl⟩ := hq
    simp only [List.prefix_append, if_true]
    cases below with
    | nil =>
      have hnot : ∀ name : FileName, ¬ q ++ [name] <+: q := fun name hle => by
        have hlength := hle.length_le
        rw [List.length_append, List.length_singleton] at hlength
        omega
      rw [List.append_nil]
      simp [hnot]
    | cons first below =>
      have hchild : ∀ name : FileName, q ++ [name] <+: q ++ first :: below ↔ name = first := by
        intro name
        rw [List.prefix_append_right_inj, List.cons_prefix_cons]
        exact and_iff_left (List.nil_prefix)
      have hcount := List.nodup_iff_count_le_one.mp h first
      simp only [hchild, sum_indicator]
      simpa using hcount
  · have hnot : ∀ name : FileName, ¬ q ++ [name] <+: k := fun name hle =>
      hq ((List.prefix_append q [name]).trans hle)
    have hne : k ≠ q := by
      rintro rfl
      exact hq List.prefix_rfl
    simp [hnot, hq, hne]

theorem sum_countP_le (h : names.Nodup) (q : Path) (ks : List Path) :
    (names.map fun name => ks.countP fun k => decide (q ++ [name] <+: k)).sum + ks.count q ≤
      ks.countP fun k => decide (q <+: k) := by
  induction ks with
  | nil => simp
  | cons k ks ih =>
    have hk := sum_children_le h q k
    simp only [List.countP_cons, List.count_cons, List.sum_map_add, decide_eq_true_eq,
      beq_iff_eq]
    omega

/-- The directories in a directory weigh less together than it does. -/
theorem sum_weight_lt (hq : q ∈ [] :: t.keys) :
    ((t.subdirs q).map fun name => t.weight (q ++ [name])).sum < t.weight q := by
  have hsum := sum_countP_le (nodup_subdirs t q) q ([] :: t.keys)
  have hcount := List.count_pos_iff.mpr hq
  unfold weight
  omega

/-- The files that a walk over the directories below `top` meets, from a stack of directories; the
names are those below `top`. A directory is read for each turn. -/
def walk (t : Tree) (top : Path) : ℕ → List (List FileName) → List (List FileName)
  | _, [] => []
  | 0, _ :: _ => []
  | turns + 1, d :: stack =>
    (t.fileNames (top ++ d)).map (fun name => d ++ [name]) ++
      t.walk top turns (((t.subdirs (top ++ d)).map fun name => d ++ [name]).reverse ++ stack)

def stackWeight (t : Tree) (top : Path) (stack : List (List FileName)) : ℕ :=
  (stack.map fun d => t.weight (top ++ d)).sum

variable {top : Path} {d : List FileName} {stack : List (List FileName)} {turns : ℕ}

/-- What the stack is after a directory was read. -/
theorem stackWeight_lt (hd : top ++ d ∈ [] :: t.keys) (stack : List (List FileName)) :
    t.stackWeight top (((t.subdirs (top ++ d)).map fun name => d ++ [name]).reverse ++ stack) <
      t.stackWeight top (d :: stack) := by
  have hsum := sum_weight_lt hd
  simp only [stackWeight, List.map_append, List.map_reverse, List.sum_append, List.sum_reverse,
    List.map_map, Function.comp_def, List.map_cons, List.sum_cons, ← List.append_assoc]
  omega

theorem mem_paths (htop : t.node top = some .dir) (hd : t.Straight top d) :
    top ++ d ∈ [] :: t.keys := by
  have hdir := node_straight htop hd
  by_cases hnil : top ++ d = []
  · rw [hnil]
    exact List.mem_cons_self
  · exact List.mem_cons_of_mem _ (mem_keys_of_node hnil hdir)

/-- A stack that is not empty takes a turn. -/
theorem stackWeight_pos (htop : t.node top = some .dir) (hd : t.Straight top d)
    (stack : List (List FileName)) : 0 < t.stackWeight top (d :: stack) := by
  have hpos := weight_pos (mem_paths htop hd)
  simp only [stackWeight, List.map_cons, List.sum_cons]
  omega

theorem straight_pushed (hd : t.Straight top d) (hstack : ∀ d ∈ stack, t.Straight top d) :
    ∀ d' ∈ ((t.subdirs (top ++ d)).map fun name => d ++ [name]).reverse ++ stack,
      t.Straight top d' := by
  intro d' hd'
  rcases List.mem_append.mp hd' with hpushed | hrest
  · obtain ⟨name, hname, rfl⟩ := List.mem_map.mp (List.mem_reverse.mp hpushed)
    obtain ⟨hparent, hdir⟩ := mem_subdirs.mp hname
    exact straight_append.mpr ⟨hd, hparent, hdir, trivial⟩
  · exact hstack d' hrest

/-- The walk finds every file below a directory of its stack. -/
theorem mem_walk {bytes : Bytes} (htop : t.node top = some .dir)
    (hstack : ∀ d ∈ stack, t.Straight top d) (hturns : t.stackWeight top stack ≤ turns)
    (hd : d ∈ stack) (hnames : t.Straight (top ++ d) names) (hname : name ≠ "..")
    (hfile : t.node (top ++ d ++ names ++ [name]) = some (.file bytes)) :
    d ++ names ++ [name] ∈ t.walk top turns stack := by
  induction turns generalizing stack d names with
  | zero =>
    cases stack with
    | nil => cases hd
    | cons first stack =>
      have hpos := stackWeight_pos htop (hstack first List.mem_cons_self) stack
      omega
  | succ turns ih =>
    cases stack with
    | nil => cases hd
    | cons first stack =>
      have hfirst := hstack first List.mem_cons_self
      have hpushed := straight_pushed hfirst fun d hd => hstack d (List.mem_cons_of_mem _ hd)
      have hless := stackWeight_lt (mem_paths htop hfirst) stack
      rw [walk, List.mem_append]
      rcases List.mem_cons.mp hd with rfl | hd
      · cases names with
        | nil =>
          rw [List.append_nil] at hfile ⊢
          exact .inl (List.mem_map.mpr ⟨name, mem_fileNames.mpr ⟨hname, bytes, hfile⟩, rfl⟩)
        | cons below names =>
          obtain ⟨hparent, hdir, hnames⟩ := hnames
          have hmem : d ++ [below] ∈
              ((t.subdirs (top ++ d)).map fun name => d ++ [name]).reverse ++ stack :=
            List.mem_append_left _ (List.mem_reverse.mpr
              (List.mem_map.mpr ⟨below, mem_subdirs.mpr ⟨hparent, hdir⟩, rfl⟩))
          rw [List.append_assoc] at hnames
          have hih : d ++ [below] ++ names ++ [name] ∈ t.walk top turns _ :=
            ih hpushed (by omega) hmem hnames (by simpa using hfile)
          exact .inr (by simpa using hih)
      · exact .inr (ih hpushed (by omega) (List.mem_append_right _ hd) hnames hfile)

/-- What the walk finds are files below directories. -/
theorem of_mem_walk {f : List FileName} (hstack : ∀ d ∈ stack, t.Straight top d)
    (hf : f ∈ t.walk top turns stack) : ∃ d name, f = d ++ [name] ∧ t.Straight top d ∧
      name ≠ ".." ∧ ∃ bytes, t.node (top ++ f) = some (.file bytes) := by
  induction turns generalizing stack with
  | zero =>
    cases stack with
    | nil => cases hf
    | cons first stack => cases hf
  | succ turns ih =>
    cases stack with
    | nil => cases hf
    | cons first stack =>
      have hfirst := hstack first List.mem_cons_self
      rw [walk] at hf
      rcases List.mem_append.mp hf with hf | hf
      · obtain ⟨name, hmem, rfl⟩ := List.mem_map.mp hf
        obtain ⟨hname, bytes, hfile⟩ := mem_fileNames.mp hmem
        exact ⟨first, name, rfl, hfirst, hname, bytes, by rwa [← List.append_assoc]⟩
      · exact ih (straight_pushed hfirst fun d hd => hstack d (List.mem_cons_of_mem _ hd)) hf

/-- A walk with turns to spare. -/
theorem walk_enough {more : ℕ} (htop : t.node top = some .dir)
    (hstack : ∀ d ∈ stack, t.Straight top d) (hturns : t.stackWeight top stack ≤ turns)
    (hmore : t.stackWeight top stack ≤ more) :
    t.walk top turns stack = t.walk top more stack := by
  induction turns generalizing stack more with
  | zero =>
    cases stack with
    | nil => cases more <;> rfl
    | cons first stack =>
      have hpos := stackWeight_pos htop (hstack first List.mem_cons_self) stack
      omega
  | succ turns ih =>
    cases stack with
    | nil => cases more <;> rfl
    | cons first stack =>
      have hfirst := hstack first List.mem_cons_self
      have hless := stackWeight_lt (mem_paths htop hfirst) stack
      obtain ⟨more, rfl⟩ : ∃ k, more = k + 1 := by
        have hpos := stackWeight_pos htop hfirst stack
        exact ⟨more - 1, by omega⟩
      rw [walk, walk]
      congr 1
      exact ih (straight_pushed hfirst fun d hd => hstack d (List.mem_cons_of_mem _ hd))
        (by omega) (by omega)

/-- A walk goes the same way where the directories hold the same. -/
theorem walk_congr (h : ∀ q, top <+: q → t'.children q = t.children q) (turns : ℕ)
    (stack : List (List FileName)) : t'.walk top turns stack = t.walk top turns stack := by
  induction turns generalizing stack with
  | zero =>
    cases stack with
    | nil => rfl
    | cons first stack => rfl
  | succ turns ih =>
    cases stack with
    | nil => rfl
    | cons first stack =>
      have hfirst := h _ (List.prefix_append top first)
      rw [walk, walk, fileNames, fileNames, subdirs, subdirs, hfirst, ih]

end FileTree.Tree
