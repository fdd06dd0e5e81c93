import Aegis.Lib.FileWalk
import Aegis.Store.Isolation

/-! What loading a profile and listing the store tell of a tree, where nothing fails. -/
namespace Aegis.Store.FileProfileStore
open Text FileTree FileTree.Run

variable {t : Tree} {p q top : Path}

/-! ### The size of a directory -/

/-- A total with the length of one more node. -/
def addedLen (total : UInt64) (n : Node) : UInt64 :=
  UInt64.ofNat (min (total.toNat + n.len) (2 ^ 64 - 1))

/-- The lengths of nodes at or below `top` added to a total. -/
def addedLens (t : Tree) (top : Path) (total : UInt64) (fs : List (List FileName)) : UInt64 :=
  fs.foldl (fun total f => addedLen total ((t.node (top ++ f)).getD .special)) total

/-- The size of the directory at `top`: the lengths of the files below it. -/
def sizeAt (t : Tree) (top : Path) : UInt64 :=
  addedLens t top 0 (t.walk top (t.keys.length + 1) [[]])

theorem eval_addLen {n : Node} (total : UInt64) (hp : t.locate p = .ok q)
    (hn : t.node q = some n) :
    eval (addLen total p) ⟨t, []⟩ = (.ok (addedLen total n), ⟨t, []⟩) := by
  have hmeta : eval (symlinkMetadata p) ⟨t, []⟩ = (.ok n, ⟨t, []⟩) := by
    refine eval_query ?_
    simp only [hp, Except.bind, Tree.nodeAt, hn]
  rw [addLen, eval_bind, eval_attempt, hmeta]
  rfl

theorem eval_sizeEntries {es : List (FileName × Node)} (hp : t.resolve p = .ok q)
    (hq : t.node q = some .dir) (hes : ∀ e ∈ es, t.node (q ++ [e.1]) = some e.2)
    (stack : List Path) (total : UInt64) :
    eval (sizeEntries p es stack total) ⟨t, []⟩ =
      (.ok ((((es.filter (·.2.isDir)).map (·.1)).map fun name => p ++ [name]).reverse ++ stack,
        addedLens t q total (((es.filter (·.2.isFile)).map (·.1)).map fun name => [name])),
        ⟨t, []⟩) := by
  induction es generalizing stack total with
  | nil => rfl
  | cons e es ih =>
    obtain ⟨name, n⟩ := e
    have hnode := hes _ List.mem_cons_self
    have hrest : ∀ e ∈ es, t.node (q ++ [e.1]) = some e.2 := fun e he =>
      hes e (List.mem_cons_of_mem _ he)
    have hcheck : eval checkpoint ⟨t, []⟩ = (.ok (), ⟨t, []⟩) := rfl
    cases n with
    | dir =>
      show eval (checkpoint >>= fun _ => sizeEntries p es ((p ++ [name]) :: stack) total) _ = _
      rw [eval_bind, hcheck]
      simp only
      rw [ih hrest]
      simp [Node.isDir, Node.isFile]
    | file bytes =>
      show eval (checkpoint >>= fun _ =>
        addLen total (p ++ [name]) >>= sizeEntries p es stack) _ = _
      rw [eval_bind, hcheck]
      simp only
      rw [eval_bind, eval_addLen total (Tree.locate_child hp hq) hnode]
      simp only
      rw [ih hrest]
      simp only at hnode
      simp [Node.isDir, Node.isFile, addedLens, hnode]
    | link target =>
      show eval (checkpoint >>= fun _ => sizeEntries p es stack total) _ = _
      rw [eval_bind, hcheck]
      simp only
      rw [ih hrest]
      simp [Node.isDir, Node.isFile]
    | special =>
      show eval (checkpoint >>= fun _ => sizeEntries p es stack total) _ = _
      rw [eval_bind, hcheck]
      simp only
      rw [ih hrest]
      simp [Node.isDir, Node.isFile]

theorem addedLens_append (total : UInt64) (fs gs : List (List FileName)) :
    addedLens t top total (fs ++ gs) = addedLens t top (addedLens t top total fs) gs :=
  List.foldl_append

/-- Names of a directory are read from the directory or from above it. -/
theorem addedLens_below (total : UInt64) (d : List FileName) (names : List FileName) :
    addedLens t (top ++ d) total (names.map fun name => [name]) =
      addedLens t top total (names.map fun name => d ++ [name]) := by
  simp only [addedLens, List.foldl_map, List.append_assoc]

theorem eval_sizeBelow {turns : ℕ} {stack : List (List FileName)} (hp : t.resolve p = .ok top)
    (htop : t.node top = some .dir) (hstack : ∀ d ∈ stack, t.Straight top d)
    (hturns : t.stackWeight top stack ≤ turns) (total : UInt64) :
    eval (sizeBelow turns (stack.map (p ++ ·)) total) ⟨t, []⟩ =
      (.ok (addedLens t top total (t.walk top turns stack)), ⟨t, []⟩) := by
  induction turns generalizing stack total with
  | zero =>
    cases stack with
    | nil => rfl
    | cons d stack =>
      have hpos := Tree.stackWeight_pos htop (hstack d List.mem_cons_self) stack
      omega
  | succ turns ih =>
    cases stack with
    | nil => rfl
    | cons d stack =>
      have hd := hstack d List.mem_cons_self
      have hdir := Tree.node_straight htop hd
      have hresolve := Tree.resolve_below hp htop hd
      have hpushed := Tree.straight_pushed hd fun d hd => hstack d (List.mem_cons_of_mem _ hd)
      have hless := Tree.stackWeight_lt (Tree.mem_paths htop hd) stack
      have hread : eval (readDir (p ++ d)) ⟨t, []⟩ = (.ok (t.children (top ++ d)), ⟨t, []⟩) :=
        eval_query (Tree.entriesAt_eq_ok.mpr ⟨_, hresolve, hdir, rfl⟩)
      have hentries := eval_sizeEntries hresolve hdir
        (fun e he => (Tree.mem_children.mp he).2) (stack.map (p ++ ·)) total
      have hstacks : (((t.subdirs (top ++ d)).map fun name => p ++ d ++ [name]).reverse ++
          stack.map (p ++ ·)) = (((t.subdirs (top ++ d)).map fun name => d ++ [name]).reverse ++
            stack).map (p ++ ·) := by
        simp [List.map_reverse, Function.comp_def]
      rw [List.map_cons, sizeBelow, eval_bind, eval_attempt, hread]
      simp only
      rw [eval_bind, hentries]
      simp only
      rw [Tree.walk, addedLens_append, ← addedLens_below]
      exact (congrArg (eval · ⟨t, []⟩) (by rw [← hstacks]; rfl)).trans
        (ih hpushed (by omega) _)

/-- The size of a directory is told, whatever is in it. -/
theorem eval_dirSize (hp : t.resolve p = .ok top) (htop : t.node top = some .dir) :
    eval (dirSize p) ⟨t, []⟩ = (.ok (sizeAt t top), ⟨t, []⟩) := by
  have hturns : t.stackWeight top [[]] ≤ t.keys.length + 1 := by
    have hle : t.weight top ≤ ([] :: t.keys).length := List.countP_le_length
    simpa [Tree.stackWeight] using hle
  have hstack : ∀ d ∈ [[]], t.Straight top d := fun d hd => by
    rw [List.mem_singleton.mp hd]
    trivial
  have hsize := eval_sizeBelow hp htop hstack hturns 0
  rw [List.map_singleton, List.append_nil] at hsize
  exact hsize

/-! ### Loading a profile -/

section Load

variable {s : FileProfileStore} {Time : Type} [Chrono Time] {id : ProfileId}
  {profile : Ipc.Profile Time}

/-- There is no file where the metadata of the profile should be. -/
def Missing (s : FileProfileStore) (t : Tree) (id : ProfileId) : Prop :=
  t.bytesAt (s.metaPath id) = .error .notFound

/-- Whether there is a lock can be told. -/
def LockTold (s : FileProfileStore) (t : Tree) (id : ProfileId) : Prop :=
  ∀ e, (t.resolve (s.lockPath id)).bind t.nodeAt = .error e → e = .notFound

/-- The metadata of the profile can be read, and whether it is locked be told. -/
def Loadable (Time : Type) [Chrono Time] (s : FileProfileStore) (t : Tree) (id : ProfileId) :
    Prop :=
  (∃ profile : Ipc.Profile Time, s.storedMeta t id = some profile) ∧ s.LockTold t id

/-- The profile as it is loaded: the metadata stored, the size of the directory and the lock as they
are. -/
def refreshed (s : FileProfileStore) (t : Tree) (id : ProfileId) (profile : Ipc.Profile Time) :
    Ipc.Profile Time :=
  { profile with
    storage := ⟨((t.resolve (s.profileDir id)).toOption.map (sizeAt t)).getD 0⟩
    locked := ((t.resolve (s.lockPath id)).bind t.nodeAt).toOption.isSome }

theorem eval_isLocked : eval (s.isLocked id) ⟨t, []⟩ =
    (match (t.resolve (s.lockPath id)).bind t.nodeAt with
      | .ok _ => .ok true
      | .error .notFound => .ok false
      | .error e => .error (IoError.toError e), ⟨t, []⟩) := by
  rw [isLocked, eval_bind, eval_attempt, metadata, query, eval_fallible]
  rcases (t.resolve (s.lockPath id)).bind t.nodeAt with e | n
  · cases e <;> rfl
  · rfl

theorem eval_readMeta_missing (h : s.Missing t id) :
    eval (s.readMeta id : Run Error (Ipc.Profile Time)) ⟨t, []⟩ =
      (.error (.notFound ("profile " ++ id.uuid.display)), ⟨t, []⟩) := by
  rw [readMeta, eval_bind, eval_attempt, readFile, query, eval_fallible, h]
  rfl

/-- Metadata that are there and cannot be read are reported as something else than missing. -/
theorem eval_readMeta_unread (hmissing : ¬ s.Missing t id)
    (hstored : s.storedMeta t id = (none : Option (Ipc.Profile Time))) :
    ∃ e, eval (s.readMeta id : Run Error (Ipc.Profile Time)) ⟨t, []⟩ = (.error e, ⟨t, []⟩) ∧
      ∀ reason, e ≠ .notFound reason := by
  rw [readMeta, eval_bind, eval_attempt, readFile, query, eval_fallible]
  unfold storedMeta at hstored
  unfold Missing at hmissing
  cases hbytes : t.bytesAt (s.metaPath id) with
  | error e =>
    rw [hbytes] at hmissing
    cases e with
    | notFound => exact absurd rfl hmissing
    | alreadyExists => exact ⟨_, rfl, by rintro _ ⟨⟩⟩
    | other text => exact ⟨_, rfl, by rintro _ ⟨⟩⟩
  | ok bytes =>
    rw [hbytes] at hstored
    simp only [Except.toOption, Option.bind_some] at hstored
    simp only [Except.map, hstored]
    exact ⟨_, rfl, by rintro _ ⟨⟩⟩

theorem resolve_of_stored (h : s.storedMeta t id = some profile) :
    ∃ q, t.resolve (s.profileDir id) = .ok q ∧ t.node q = some .dir := by
  obtain ⟨bytes, hbytes, -⟩ := Option.bind_eq_some_iff.mp h
  cases hok : t.bytesAt (s.metaPath id) with
  | error e =>
    rw [hok] at hbytes
    cases hbytes
  | ok b =>
    obtain ⟨r, hr, -⟩ := Tree.of_bind_ok hok
    exact Tree.resolve_above hr

theorem eval_loadRefreshed_stored (h : s.storedMeta t id = some profile)
    (hlock : s.LockTold t id) :
    eval (s.loadRefreshed id : Run Error (Ipc.Profile Time)) ⟨t, []⟩ =
      (.ok (s.refreshed t id profile), ⟨t, []⟩) := by
  obtain ⟨q, hq, hdir⟩ := resolve_of_stored h
  rw [loadRefreshed, eval_bind, eval_readMeta_stored h]
  simp only
  rw [eval_bind, raise, eval_adapt, eval_dirSize hq hdir]
  simp only [Except.mapError]
  rw [eval_bind, eval_isLocked, refreshed, hq]
  unfold LockTold at hlock
  rcases hnode : (t.resolve (s.lockPath id)).bind t.nodeAt with e | n
  · obtain rfl := hlock e hnode
    rfl
  · rfl

theorem eval_loadRefreshed_missing (h : s.Missing t id) :
    eval (s.loadRefreshed id : Run Error (Ipc.Profile Time)) ⟨t, []⟩ =
      (.error (.notFound ("profile " ++ id.uuid.display)), ⟨t, []⟩) := by
  rw [loadRefreshed, eval_bind, eval_readMeta_missing h]

/-- A profile that is there and cannot be loaded is reported as something else than missing. -/
theorem eval_loadRefreshed_unread (hmissing : ¬ s.Missing t id)
    (hload : ¬ s.Loadable Time t id) :
    ∃ e, eval (s.loadRefreshed id : Run Error (Ipc.Profile Time)) ⟨t, []⟩ = (.error e, ⟨t, []⟩) ∧
      ∀ reason, e ≠ .notFound reason := by
  cases hstored : (s.storedMeta t id : Option (Ipc.Profile Time)) with
  | none =>
    obtain ⟨e, heval, he⟩ := eval_readMeta_unread hmissing hstored
    exact ⟨e, by rw [loadRefreshed, eval_bind, heval], he⟩
  | some profile =>
    obtain ⟨q, hq, hdir⟩ := resolve_of_stored hstored
    rw [loadRefreshed, eval_bind, eval_readMeta_stored hstored]
    simp only
    rw [eval_bind, raise, eval_adapt, eval_dirSize hq hdir]
    simp only [Except.mapError]
    rw [eval_bind, eval_isLocked]
    have hlock : ¬ s.LockTold t id := fun hlock => hload ⟨⟨profile, hstored⟩, hlock⟩
    obtain ⟨e, hnode, he⟩ : ∃ e, (t.resolve (s.lockPath id)).bind t.nodeAt = .error e ∧
        e ≠ .notFound := by
      simpa [LockTold] using hlock
    rw [hnode]
    cases e with
    | notFound => exact absurd rfl he
    | alreadyExists => exact ⟨_, rfl, by rintro _ ⟨⟩⟩
    | other text => exact ⟨_, rfl, by rintro _ ⟨⟩⟩

/-! ### The entries of the root -/

/-- The identifier that the name of a directory is read as. -/
def entryId : FileName × Node → Option ProfileId
  | (name, .dir) => (Uuid.parse name).map ProfileId.mk
  | _ => none

/-- What loading a profile tells, where it succeeds. -/
def loaded (s : FileProfileStore) (t : Tree) (id : ProfileId) : Option (Ipc.Profile Time) :=
  (eval (s.loadRefreshed id) ⟨t, []⟩).1.toOption

/-- What an entry adds to a listing. -/
def entryLoad (s : FileProfileStore) (t : Tree) (e : FileName × Node) :
    Option (Ipc.Profile Time) :=
  (entryId e).bind (s.loaded t)

theorem loaded_isSome : (s.loaded t id : Option (Ipc.Profile Time)).isSome ↔
    s.Loadable Time t id := by
  by_cases hload : s.Loadable Time t id
  · obtain ⟨⟨profile, hstored⟩, hlock⟩ := hload
    rw [loaded, eval_loadRefreshed_stored hstored hlock]
    exact iff_of_true rfl ⟨⟨profile, hstored⟩, hlock⟩
  · refine iff_of_false ?_ hload
    unfold loaded
    by_cases hmissing : s.Missing t id
    · rw [eval_loadRefreshed_missing hmissing]
      exact Bool.false_ne_true
    · obtain ⟨e, heval, -⟩ := eval_loadRefreshed_unread hmissing hload
      rw [heval]
      exact Bool.false_ne_true

theorem entryLoad_missing {e : FileName × Node} (hid : entryId e = some id)
    (h : s.Missing t id) : s.entryLoad t e = (none : Option (Ipc.Profile Time)) := by
  rw [entryLoad, hid, Option.bind_some, loaded, eval_loadRefreshed_missing h]
  rfl

/-- An entry that names no identifier is passed over. -/
theorem eval_loadEntries_pass {e : FileName × Node} (hid : entryId e = none)
    (es : List (FileName × Node)) (out : List (Ipc.Profile Time)) :
    eval (s.loadEntries (e :: es) out) ⟨t, []⟩ = eval (s.loadEntries es out) ⟨t, []⟩ := by
  obtain ⟨name, n⟩ := e
  have hcheck : eval (raise checkpoint) ⟨t, []⟩ = (.ok (), ⟨t, []⟩) := rfl
  conv_lhs => unfold loadEntries
  rw [eval_bind, hcheck]
  cases n with
  | dir =>
    have hparse : Uuid.parse name = none := by simpa [entryId] using hid
    simp only [hparse]
  | file bytes => rfl
  | link target => rfl
  | special => rfl

/-- An entry that names one is loaded. -/
theorem eval_loadEntries_load {e : FileName × Node} (hid : entryId e = some id)
    (es : List (FileName × Node)) (out : List (Ipc.Profile Time)) :
    eval (s.loadEntries (e :: es) out) ⟨t, []⟩ =
      eval (attempt (s.loadRefreshed id : Run Error (Ipc.Profile Time)) >>= fun r =>
        match r with
        | .ok profile => s.loadEntries es (out ++ [profile])
        | .error (.notFound _) => s.loadEntries es out
        | .error e => throw e) ⟨t, []⟩ := by
  obtain ⟨name, n⟩ := e
  have hcheck : eval (raise checkpoint) ⟨t, []⟩ = (.ok (), ⟨t, []⟩) := rfl
  conv_lhs => unfold loadEntries
  rw [eval_bind, hcheck]
  cases n with
  | dir =>
    obtain ⟨uuid, hparse, rfl⟩ : ∃ uuid, Uuid.parse name = some uuid ∧ ⟨uuid⟩ = id := by
      simpa [entryId] using hid
    generalize Uuid.parse name = parsed at hparse
    subst hparse
    rfl
  | file bytes => cases hid
  | link target => cases hid
  | special => cases hid

theorem eval_loadEntries {es : List (FileName × Node)} (h : ∀ e ∈ es, ∀ id, entryId e = some id →
      s.Missing t id ∨ s.Loadable Time t id) (out : List (Ipc.Profile Time)) :
    eval (s.loadEntries es out) ⟨t, []⟩ = (.ok (out ++ es.filterMap (s.entryLoad t)), ⟨t, []⟩) := by
  induction es generalizing out with
  | nil => rw [List.filterMap_nil, List.append_nil]; rfl
  | cons e es ih =>
    have hrest := ih fun e he => h e (List.mem_cons_of_mem _ he)
    cases hid : entryId e with
    | none =>
      have hload : s.entryLoad t e = (none : Option (Ipc.Profile Time)) := by
        rw [entryLoad, hid, Option.bind_none]
      rw [eval_loadEntries_pass hid, hrest, List.filterMap_cons_none hload]
    | some id =>
      rw [eval_loadEntries_load hid, eval_bind, eval_attempt]
      rcases h e List.mem_cons_self id hid with hmissing | ⟨⟨profile, hstored⟩, hlock⟩
      · rw [eval_loadRefreshed_missing hmissing]
        simp only
        rw [hrest, List.filterMap_cons_none (entryLoad_missing hid hmissing)]
      · have heval := eval_loadRefreshed_stored hstored hlock
        have hload : s.entryLoad t e = some (s.refreshed t id profile) := by
          rw [entryLoad, hid, Option.bind_some, loaded, heval]
          rfl
        rw [heval]
        simp only
        rw [hrest, List.filterMap_cons_some hload, List.append_assoc, List.singleton_append]

/-- One profile that is there and cannot be loaded fails them all. -/
theorem eval_loadEntries_failed {es : List (FileName × Node)} {e : FileName × Node} (he : e ∈ es)
    (hid : entryId e = some id) (hmissing : ¬ s.Missing t id) (hload : ¬ s.Loadable Time t id)
    (out : List (Ipc.Profile Time)) :
    ∃ err, (eval (s.loadEntries es out) ⟨t, []⟩).1 = .error err := by
  induction es generalizing out with
  | nil => cases he
  | cons first es ih =>
    by_cases hfirst : first = e
    · subst hfirst
      obtain ⟨err, heval, herr⟩ := eval_loadRefreshed_unread hmissing hload
      rw [eval_loadEntries_load hid, eval_bind, eval_attempt, heval]
      cases err with
      | notFound reason => exact absurd rfl (herr reason)
      | _ => exact ⟨_, rfl⟩
    · have hmem : e ∈ es := (List.mem_cons.mp he).resolve_left fun heq => hfirst heq.symm
      cases hid' : entryId first with
      | none =>
        rw [eval_loadEntries_pass hid']
        exact ih hmem out
      | some id' =>
        rw [eval_loadEntries_load hid', eval_bind, eval_attempt]
        by_cases hmissing' : s.Missing t id'
        · rw [eval_loadRefreshed_missing hmissing']
          exact ih hmem out
        · by_cases hload' : s.Loadable Time t id'
          · obtain ⟨⟨profile, hstored⟩, hlock⟩ := hload'
            rw [eval_loadRefreshed_stored hstored hlock]
            exact ih hmem _
          · obtain ⟨err, heval, herr⟩ := eval_loadRefreshed_unread hmissing' hload'
            rw [heval]
            cases err with
            | notFound reason => exact absurd rfl (herr reason)
            | _ => exact ⟨_, rfl⟩

end Load

/-! ### The listing -/

section Listing

variable {s : FileProfileStore} {Time : Type} {id : ProfileId}

/-- What the directory of the root holds; nothing while it is not there. -/
def rootEntries (s : FileProfileStore) (t : Tree) : List (FileName × Node) :=
  (t.entriesAt s.root).toOption.getD []

/-- The newest first, then by identifier. -/
def NewestFirst [Ord Time] (a b : Ipc.Profile Time) : Prop :=
  compare b.createdAt a.createdAt = .lt ∨ compare b.createdAt a.createdAt = .eq ∧
    compare a.id.uuid.display b.id.uuid.display ≠ .gt

/-- The root has a directory of the profile, with metadata that can be read. -/
def Readable (Time : Type) [Chrono Time] (s : FileProfileStore) (t : Tree) (id : ProfileId) :
    Prop :=
  (id.uuid.display, Node.dir) ∈ s.rootEntries t ∧
    ∃ profile : Ipc.Profile Time, s.storedMeta t id = some profile

/-- The listing succeeds, with one entry for each readable profile, in order. -/
def ListsEach (Time : Type) [Chrono Time] [Ord Time] (s : FileProfileStore) (t : Tree) : Prop :=
  ∃ (out : List (Ipc.Profile Time)) (ids : List ProfileId), (eval s.list ⟨t, []⟩).1 = .ok out ∧
    out.Pairwise NewestFirst ∧ ids.Nodup ∧ (∀ id, id ∈ ids ↔ s.Readable Time t id) ∧
      List.Forall₂ (fun id profile => s.loaded t id = some profile) ids out

/-- Each directory that names an identifier has no metadata, or can be loaded and is named by the
identifier's own text. -/
def EachNamed (Time : Type) [Chrono Time] (s : FileProfileStore) (t : Tree) : Prop :=
  ∀ e ∈ s.rootEntries t, ∀ id, entryId e = some id →
    s.Missing t id ∨ s.Loadable Time t id ∧ e.1 = id.uuid.display

theorem listedBefore_iff [Ord Time] {a b : Ipc.Profile Time} :
    listedBefore a b = true ↔ NewestFirst a b := by
  unfold listedBefore NewestFirst
  cases compare b.createdAt a.createdAt with
  | lt => simp [Ordering.then]
  | eq => cases compare a.id.uuid.display b.id.uuid.display <;> simp [Ordering.then]
  | gt => simp [Ordering.then]

/-- The comparison that `sort_by` is given is one of the standard library's. -/
theorem listedBefore_eq [Ord Time] (a b : Ipc.Profile Time) : listedBefore a b =
    (compareLex (fun a b : Ipc.Profile Time => compareOn (·.createdAt) b a)
      (compareOn (·.id.uuid.display)) a b).isLE := rfl

theorem isLE_or_isLE {α : Type} {cmp : α → α → Ordering} [Std.OrientedCmp cmp] (a b : α) :
    ((cmp a b).isLE || (cmp b a).isLE) = true := by
  rw [← Std.OrientedCmp.isGE_eq_isLE]
  cases cmp b a <;> rfl

theorem pairwise_listed [Ord Time] [Std.TransOrd Time] (out : List (Ipc.Profile Time)) :
    (out.mergeSort listedBefore).Pairwise NewestFirst := by
  have hsorted : (out.mergeSort listedBefore).Pairwise fun a b => listedBefore a b = true := by
    refine List.pairwise_mergeSort (fun a b c hab hbc => ?_) (fun a b => ?_) out
    · rw [listedBefore_eq] at hab hbc ⊢
      exact Std.TransCmp.isLE_trans hab hbc
    · rw [listedBefore_eq, listedBefore_eq]
      exact isLE_or_isLE a b
  exact hsorted.imp fun h => listedBefore_iff.mp h

variable [Chrono Time]

theorem not_missing_of_stored {profile : Ipc.Profile Time}
    (h : s.storedMeta t id = some profile) : ¬ s.Missing t id := by
  intro hmissing
  obtain ⟨bytes, hbytes, -⟩ := Option.bind_eq_some_iff.mp h
  unfold Missing at hmissing
  rw [hmissing] at hbytes
  cases hbytes

theorem not_missing_of_loadable (h : s.Loadable Time t id) : ¬ s.Missing t id := by
  obtain ⟨⟨profile, hstored⟩, -⟩ := h
  exact not_missing_of_stored hstored

theorem entryId_display (id : ProfileId) : entryId (id.uuid.display, .dir) = some id := by
  rw [entryId, Uuid.parse_display, Option.map_some]

theorem dir_of_entryId {e : FileName × Node} (h : entryId e = some id) : e.2 = .dir := by
  obtain ⟨name, n⟩ := e
  cases n with
  | dir => rfl
  | file bytes => cases h
  | link target => cases h
  | special => cases h

theorem nodup_rootEntries (s : FileProfileStore) (t : Tree) :
    ((s.rootEntries t).map (·.1)).Nodup := by
  unfold rootEntries
  cases hes : t.entriesAt s.root with
  | error e => exact List.nodup_nil
  | ok es =>
    obtain ⟨q, -, -, rfl⟩ := Tree.entriesAt_eq_ok.mp hes
    exact Tree.nodup_children t q

theorem eval_list [Ord Time] (hroot : ∀ e, t.entriesAt s.root = .error e → e = .notFound) :
    (eval (s.list : Run Error (List (Ipc.Profile Time))) ⟨t, []⟩).1 =
      (eval (s.loadEntries (s.rootEntries t) []) ⟨t, []⟩).1.map (·.mergeSort listedBefore) := by
  rw [list, eval_bind, eval_attempt, readDir, query, eval_fallible]
  unfold rootEntries
  cases hes : t.entriesAt s.root with
  | error e =>
    obtain rfl := hroot e hes
    show Except.ok [] = Except.ok (List.mergeSort [] listedBefore)
    rw [List.mergeSort_nil]
  | ok es =>
    simp only [Except.map, Except.toOption, Option.getD_some]
    rw [eval_bind]
    rcases eval (s.loadEntries es []) ⟨t, []⟩ with ⟨e | out, w⟩
    · rfl
    · rfl

/-- The profiles that entries add, each under its own identifier. -/
theorem exists_ids {es : List (FileName × Node)} (h : ∀ e ∈ es, ∀ id, entryId e = some id →
      s.Missing t id ∨ s.Loadable Time t id ∧ e.1 = id.uuid.display) :
    ∃ ids : List ProfileId, (ids.map (·.uuid.display)).Sublist (es.map (·.1)) ∧
      (∀ id, id ∈ ids ↔ ∃ e ∈ es, entryId e = some id ∧ s.Loadable Time t id) ∧
      List.Forall₂ (fun id (profile : Ipc.Profile Time) => s.loaded t id = some profile) ids
        (es.filterMap (s.entryLoad t)) := by
  induction es with
  | nil => exact ⟨[], .slnil, by simp, .nil⟩
  | cons e es ih =>
    obtain ⟨ids, hsub, hmem, hload⟩ := ih fun e he => h e (List.mem_cons_of_mem _ he)
    -- the entry adds a profile, or it does not
    cases hentry : (s.entryLoad t e : Option (Ipc.Profile Time)) with
    | none =>
      refine ⟨ids, hsub.cons _, fun id => (hmem id).trans ?_, ?_⟩
      · simp only [List.mem_cons, exists_eq_or_imp]
        refine (or_iff_right ?_).symm
        rintro ⟨hid, hloadable⟩
        rw [entryLoad, hid, Option.bind_some] at hentry
        have hsome := loaded_isSome.mpr hloadable
        rw [hentry] at hsome
        cases hsome
      · rwa [List.filterMap_cons_none hentry]
    | some profile =>
      obtain ⟨id, hid, hloaded⟩ := Option.bind_eq_some_iff.mp hentry
      have hloadable : s.Loadable Time t id := loaded_isSome.mp (by rw [hloaded]; rfl)
      have hname : e.1 = id.uuid.display :=
        ((h e List.mem_cons_self id hid).resolve_left (not_missing_of_loadable hloadable)).2
      refine ⟨id :: ids, ?_, fun other => ?_, ?_⟩
      · rw [List.map_cons, List.map_cons, hname]
        exact hsub.cons_cons _
      · simp only [List.mem_cons, exists_eq_or_imp, hmem other]
        refine or_congr_left ?_
        constructor
        · rintro rfl
          exact ⟨hid, hloadable⟩
        · rintro ⟨hother, -⟩
          exact Option.some.inj (hother.symm.trans hid)
      · rw [List.filterMap_cons_some hentry]
        exact .cons hloaded hload

theorem listsEach_of_named [Ord Time] [Std.TransOrd Time]
    (hroot : ∀ e, t.entriesAt s.root = .error e → e = .notFound) (h : s.EachNamed Time t) :
    s.ListsEach Time t := by
  obtain ⟨ids, hsub, hmem, hload⟩ := exists_ids h
  -- the profiles are sorted, and their identifiers with them
  have hsorted : Relation.Comp (List.Forall₂ fun id (profile : Ipc.Profile Time) =>
        s.loaded t id = some profile) List.Perm ids
      (((s.rootEntries t).filterMap (s.entryLoad t)).mergeSort listedBefore) :=
    ⟨_, hload, (List.mergeSort_perm _ _).symm⟩
  rw [List.forall₂_comp_perm_eq_perm_comp_forall₂] at hsorted
  obtain ⟨ids', hperm, hload'⟩ := hsorted
  have hnodup : ids.Nodup := List.Nodup.of_map _ ((nodup_rootEntries s t).sublist hsub)
  refine ⟨_, ids', ?_, pairwise_listed _, hperm.nodup_iff.mp hnodup, fun id => ?_, hload'⟩
  · rw [eval_list hroot, eval_loadEntries fun e he id hid => (h e he id hid).imp_right And.left]
    rfl
  · rw [← hperm.mem_iff, hmem]
    constructor
    · rintro ⟨e, he, hid, hloadable⟩
      have hname := ((h e he id hid).resolve_left (not_missing_of_loadable hloadable)).2
      have hdir := dir_of_entryId hid
      exact ⟨by rwa [← hname, ← hdir], hloadable.1⟩
    · rintro ⟨he, profile, hstored⟩
      refine ⟨_, he, entryId_display id, ?_⟩
      rcases h _ he id (entryId_display id) with hmissing | ⟨hloadable, -⟩
      · exact absurd hmissing (not_missing_of_stored hstored)
      · exact hloadable

theorem named_of_listsEach [Ord Time]
    (hroot : ∀ e, t.entriesAt s.root = .error e → e = .notFound) (h : s.ListsEach Time t) :
    s.EachNamed Time t := by
  obtain ⟨out, ids, hout, -, hnodup, hmem, hload⟩ := h
  rw [eval_list hroot] at hout
  have hall : ∀ e ∈ s.rootEntries t, ∀ id, entryId e = some id →
      s.Missing t id ∨ s.Loadable Time t id := by
    intro e he id hid
    by_contra hnot
    rw [not_or] at hnot
    obtain ⟨err, herr⟩ := eval_loadEntries_failed he hid hnot.1 hnot.2 []
    rw [herr] at hout
    cases hout
  rw [eval_loadEntries hall] at hout
  cases hout
  -- as many directories were loaded as there are readable profiles
  have hlength : ids.length = ((s.rootEntries t).filter fun e =>
      (s.entryLoad t e : Option (Ipc.Profile Time)).isSome).length := by
    rw [hload.length_eq, List.length_mergeSort, List.nil_append, List.length_filterMap_eq_countP,
      List.countP_eq_length_filter]
  have hsub : (ids.map fun id => (id.uuid.display, Node.dir)) ⊆
      (s.rootEntries t).filter fun e =>
        (s.entryLoad t e : Option (Ipc.Profile Time)).isSome := by
    intro e he
    obtain ⟨id, hid, rfl⟩ := List.mem_map.mp he
    obtain ⟨hentry, profile, hstored⟩ := (hmem id).mp hid
    refine List.mem_filter.mpr ⟨hentry, ?_⟩
    rw [entryLoad, entryId_display, Option.bind_some]
    exact loaded_isSome.mpr ((hall _ hentry id (entryId_display id)).resolve_left
      (not_missing_of_stored hstored))
  have hnames : (ids.map fun id => (id.uuid.display, Node.dir)).Nodup := by
    refine hnodup.map fun id other heq => ?_
    exact congrArg ProfileId.mk (display_injective (Prod.mk.inj heq).1)
  have hperm := (hnames.subperm hsub).perm_of_length_le (by rw [List.length_map, hlength])
  intro e he id hid
  refine (hall e he id hid).imp_right fun hloadable => ⟨hloadable, ?_⟩
  have hloaded : e ∈ (s.rootEntries t).filter fun e =>
      (s.entryLoad t e : Option (Ipc.Profile Time)).isSome := by
    refine List.mem_filter.mpr ⟨he, ?_⟩
    rw [entryLoad, hid, Option.bind_some]
    exact loaded_isSome.mpr hloadable
  obtain ⟨other, -, rfl⟩ := List.mem_map.mp (hperm.mem_iff.mpr hloaded)
  rw [entryId_display] at hid
  cases hid
  rfl

end Listing

/-! ### Three stores -/

instance : Std.TransOrd Ipc.Stamp := inferInstanceAs (Std.TransCmp (compareOn Ipc.Stamp.text))

/-- A store with two profiles. -/
def twoProfiles : Tree := (pair (workProfile ⟨7⟩)).tree

theorem entriesAt_two : twoProfiles.entriesAt atTop.root =
    .ok [(Uuid.display 8, .dir), (Uuid.display 7, .dir)] := rfl

theorem rootEntries_of_ok {s : FileProfileStore} {t : Tree} {es : List (FileName × Node)}
    (h : t.entriesAt s.root = .ok es) : s.rootEntries t = es ∧
      ∀ e, t.entriesAt s.root = .error e → e = .notFound := by
  rw [rootEntries, h]
  exact ⟨rfl, nofun⟩

theorem loadable_of_node {t : Tree} {id : ProfileId} {profile : Ipc.Profile Ipc.Stamp}
    (hdir : t.Straight [] (atTop.profileDir id))
    (hmeta : t.node (atTop.metaPath id) = some (.file (toVec profile)))
    (hlock : (t.resolve (atTop.lockPath id)).bind t.nodeAt = .error .notFound) :
    atTop.Loadable Ipc.Stamp t id := by
  refine ⟨⟨profile, storedMeta_of_node hdir hmeta⟩, fun e he => ?_⟩
  rw [hlock] at he
  cases he
  rfl

/-- The metadata of one of two profiles are empty. -/
def corrupted : Tree := ((atTop.empty.stock ⟨7⟩ []).stock ⟨8⟩ (toVec (workProfile ⟨8⟩))).tree

theorem entriesAt_corrupted : corrupted.entriesAt atTop.root =
    .ok [(Uuid.display 8, .dir), (Uuid.display 7, .dir)] := rfl

/-- A directory whose name is another spelling of a profile's identifier. -/
def aliased : Tree := (atTop.empty.stock ⟨7⟩ (toVec (workProfile ⟨7⟩))).tree.put
  ["profiles", "00000000000000000000000000000007"] .dir

theorem entriesAt_aliased : aliased.entriesAt atTop.root =
    .ok [("00000000000000000000000000000007", .dir), (Uuid.display 7, .dir)] := rfl

/-- A profile is listed once more for it. -/
theorem aliased_listed_twice : ∃ profile, (eval (atTop.list : Run Error
      (List (Ipc.Profile Ipc.Stamp))) ⟨aliased, []⟩).1 = .ok [profile, profile] := by
  obtain ⟨hentries, hroot⟩ := rootEntries_of_ok entriesAt_aliased
  have hload : atTop.Loadable Ipc.Stamp aliased ⟨7⟩ :=
    loadable_of_node ⟨by decide, rfl, display_ne_parent _, rfl, trivial⟩ rfl rfl
  obtain ⟨profile, hprofile⟩ := Option.isSome_iff_exists.mp (loaded_isSome.mpr hload)
  have hids : ∀ e ∈ atTop.rootEntries aliased, entryId e = some ⟨7⟩ := by
    intro e he
    rw [hentries] at he
    simp only [List.mem_cons, List.not_mem_nil, or_false] at he
    rcases he with rfl | rfl
    · rfl
    · exact entryId_display ⟨7⟩
  have hloads : (atTop.rootEntries aliased).filterMap (atTop.entryLoad aliased) =
      [profile, profile] := by
    have hone : ∀ e ∈ atTop.rootEntries aliased, atTop.entryLoad aliased e = some profile := by
      intro e he
      rw [entryLoad, hids e he, Option.bind_some, hprofile]
    rw [hentries] at hone ⊢
    rw [List.filterMap_cons_some (hone _ List.mem_cons_self),
      List.filterMap_cons_some (hone _ (List.mem_cons_of_mem _ List.mem_cons_self)),
      List.filterMap_nil]
  refine ⟨profile, ?_⟩
  rw [eval_list hroot, eval_loadEntries fun e he id hid => .inr ?_, hloads]
  · have hsorted : [profile, profile].mergeSort listedBefore = List.replicate 2 profile :=
      List.perm_replicate.mp (List.mergeSort_perm _ _)
    exact congrArg Except.ok hsorted
  · obtain rfl := Option.some.inj ((hids e he).symm.trans hid)
    exact hload

end Aegis.Store.FileProfileStore
