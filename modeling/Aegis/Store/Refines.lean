import Aegis.Store.Ledger

/-! The file store refines the map of records: whatever the browsers put into the data directories,
every reply is the one that the map gives, up to the sizes of profiles. -/
namespace Aegis.Store.FileProfileStore
open Text FileTree FileTree.Run

variable {Time : Type} [Chrono Time] {s : FileProfileStore} {t t' : Tree} {b : Ledger Time}
  {id other : ProfileId} {r : ProfileRecord Time} {p : Path} {name : FileName}

/-! ### The files of a record -/

/-- The directory of the profile has the record's metadata and lock. -/
structure Holds (s : FileProfileStore) (t : Tree) (id : ProfileId) (r : ProfileRecord Time) :
    Prop where
  dir : t.Straight [] (s.profileDir id)
  metadata : t.node (s.metaPath id) = some (.file (toVecPretty (r.stored id)))
  lock : t.node (s.lockPath id) = r.lock.map fun token => .file (tokenBytes token)

/-- The tree has the records of the map and no other profile, and no temporary file is left. -/
structure Represents (s : FileProfileStore) (t : Tree) (b : Ledger Time) : Prop where
  plain : ∀ id, t.Plain [] (s.profileDir id)
  held : ∀ id r, b.lookup id = some r → s.Holds t id r
  free : ∀ id, b.lookup id = none → ∀ p, s.profileDir id <+: p → t.node p = none
  named : ∀ name, t.node (s.root ++ [name]) ≠ none → ∃ id : ProfileId, name = id.uuid.display
  unused : ∀ temp, s.Unused t temp

/-- A root with nothing in it has no record. -/
theorem represents_empty (hplain : ∀ id, t.Plain [] (s.profileDir id))
    (hnone : ∀ p, s.root <+: p → p ≠ s.root → t.node p = none) :
    s.Represents t (∅ : Ledger Time) := by
  have hbelow : ∀ id p, s.profileDir id <+: p → t.node p = none := by
    intro id p hp
    obtain ⟨hroot, hne⟩ := profileDir_below_root s id
    refine hnone p (hroot.trans hp) fun he => hne ?_
    exact (he ▸ hp).eq_of_length_le hroot.length_le
  refine ⟨hplain, fun id r hr => ?_, fun id _ => hbelow id, fun name hname => ?_, fun temp id => ?_⟩
  · rw [AList.lookup_empty] at hr
    cases hr
  · exact absurd (hnone _ (List.prefix_append _ _) (by simp)) hname
  · exact hbelow id _ (List.prefix_append _ _)

namespace Holds

theorem no_link (h : s.Holds t id r) (hname : name ∈ ["profile.json", "profile.lock"])
    (target : Target) : t.node (s.profileDir id ++ [name]) ≠ some (.link target) := by
  simp only [List.mem_cons, List.not_mem_nil, or_false] at hname
  rcases hname with rfl | rfl
  · rw [show s.profileDir id ++ ["profile.json"] = s.metaPath id from rfl, h.metadata]
    simp
  · rw [show s.profileDir id ++ ["profile.lock"] = s.lockPath id from rfl, h.lock]
    cases r.lock <;> simp

theorem storedMeta (h : s.Holds t id r) : s.storedMeta t id = some (r.stored id) := by
  have hbytes : t.bytesAt (s.metaPath id) = .ok (toVecPretty (r.stored id)) :=
    (Tree.bytesAt_eq_ok h.dir.plain (by decide) (h.no_link List.mem_cons_self)).mpr
      ⟨h.dir, h.metadata⟩
  simp only [FileProfileStore.storedMeta, hbytes, Except.toOption, Option.bind_some,
    fromSlice_toVecPretty]

/-- The lock file, as a path leads to it. -/
theorem nodeAt_lock (h : s.Holds t id r) : (t.resolve (s.lockPath id)).bind t.nodeAt =
    match r.lock with
    | none => .error .notFound
    | some token => .ok (.file (tokenBytes token)) := by
  have hresolve : t.resolve (s.lockPath id) = .ok (s.lockPath id) :=
    Tree.resolve_entry_straight h.dir (by decide)
      (h.no_link (List.mem_cons_of_mem _ List.mem_cons_self))
  rw [hresolve]
  simp only [Except.bind, Tree.nodeAt, h.lock]
  cases r.lock <;> rfl

theorem lockTold (h : s.Holds t id r) : s.LockTold t id := by
  intro e he
  rw [h.nodeAt_lock] at he
  cases hlock : r.lock with
  | none =>
    rw [hlock] at he
    cases he
    rfl
  | some token =>
    rw [hlock] at he
    cases he

/-- What is loaded is the record, with the size that the directory has. -/
theorem eval_loadRefreshed (h : s.Holds t id r) :
    eval (s.loadRefreshed id : Run Error (Ipc.Profile Time)) ⟨t, []⟩ =
      (.ok { r.shown id with storage := ⟨sizeAt t (s.profileDir id)⟩ }, ⟨t, []⟩) := by
  rw [eval_loadRefreshed_stored h.storedMeta h.lockTold, refreshed, h.nodeAt_lock,
    Tree.resolve_straight h.dir]
  cases hlock : r.lock <;> simp [ProfileRecord.shown, ProfileRecord.stored, hlock, Except.toOption]

theorem eval_readMeta (h : s.Holds t id r) :
    eval (s.readMeta id : Run Error (Ipc.Profile Time)) ⟨t, []⟩ = (.ok (r.stored id), ⟨t, []⟩) :=
  eval_readMeta_stored h.storedMeta

theorem metadata_dir (h : s.Holds t id r) :
    eval (Run.metadata (s.profileDir id)) ⟨t, []⟩ = (.ok .dir, ⟨t, []⟩) := by
  refine eval_query ?_
  simp only [Tree.resolve_straight h.dir, Except.bind, Tree.nodeAt, Tree.node_of_straight h.dir]

/-- What leaves the directory and its two files as they are leaves the record. -/
theorem congr (h : s.Holds t id r) (hdir : ∀ q, q <+: s.profileDir id → t'.node q = t.node q)
    (hmeta : t'.node (s.metaPath id) = t.node (s.metaPath id))
    (hlock : t'.node (s.lockPath id) = t.node (s.lockPath id)) : s.Holds t' id r :=
  ⟨h.dir.congr hdir, hmeta.trans h.metadata, hlock.trans h.lock⟩

end Holds

namespace Represents

/-- A profile without a record has no directory. -/
theorem not_straight (h : s.Represents t b) (hid : b.lookup id = none) :
    ¬ t.Straight [] (s.profileDir id) := by
  intro hs
  have hdir := Tree.node_of_straight hs
  rw [h.free id hid _ List.prefix_rfl] at hdir
  cases hdir

theorem resolve_free (h : s.Represents t b) (hid : b.lookup id = none) {α : Type}
    (f : Path → Except IoError α) : (t.resolve (s.profileDir id ++ [name])).bind f =
      .error .notFound := by
  rw [Tree.resolve_missing (h.plain id) (h.not_straight hid)]
  rfl

theorem metadata_free (h : s.Represents t b) (hid : b.lookup id = none) :
    eval (metadata (s.profileDir id)) ⟨t, []⟩ = (.error .notFound, ⟨t, []⟩) := by
  have hmeta : (t.resolve (s.profileDir id)).bind t.nodeAt = .error .notFound := by
    refine ((Tree.bind_plain (h.plain id) fun hnone => ?_).resolve_left
      fun hb => h.not_straight hid hb.1).2
    rw [Tree.nodeAt, hnone]
  rw [metadata, query, eval_fallible, hmeta]
  rfl

theorem eval_readMeta_free (h : s.Represents t b) (hid : b.lookup id = none) :
    eval (s.readMeta id : Run Error (Ipc.Profile Time)) ⟨t, []⟩ =
      (.error (Ledger.absent id), ⟨t, []⟩) :=
  eval_readMeta_missing (h.resolve_free hid _)

theorem eval_loadRefreshed_free (h : s.Represents t b) (hid : b.lookup id = none) :
    eval (s.loadRefreshed id : Run Error (Ipc.Profile Time)) ⟨t, []⟩ =
      (.error (Ledger.absent id), ⟨t, []⟩) :=
  eval_loadRefreshed_missing (h.resolve_free hid _)

end Represents

/-! ### A record put, and a record removed -/

theorem dir_of_above (h : t.Straight [] p) {q : Path} (hq : q <+: p) : t.node q = some .dir := by
  obtain ⟨rest, rfl⟩ := hq
  exact Tree.node_of_straight (Tree.straight_append.mp h).1

/-- What is in the directory of another profile is neither in this one's nor on the way to it. -/
theorem beside {q : Path} (hne : other ≠ id) (hq : s.profileDir other <+: q) :
    ¬ q <+: s.profileDir id ∧ ¬ s.profileDir id <+: q :=
  ⟨fun hway => hne (id_eq_of_below (hq.trans hway) List.prefix_rfl),
    fun hbelow => hne (id_eq_of_below hq hbelow)⟩

/-- On the way to another profile's directory there are the same directories. -/
theorem way_beside {q : Path} (hne : other ≠ id) (hdir : t'.Straight [] (s.profileDir id))
    (hrest : ∀ p, ¬ p <+: s.profileDir id → ¬ s.profileDir id <+: p → t'.node p = t.node p)
    (hq : q <+: s.profileDir other) : t'.node q = t.node q ∨ t'.node q = some .dir := by
  by_cases hway : q <+: s.profileDir id
  · exact .inr (dir_of_above hdir hway)
  · exact .inl (hrest q hway fun hbelow => hne (id_eq_of_below List.prefix_rfl (hbelow.trans hq)))

theorem entry_above {q : Path} (hq : s.root ++ [name] = q) (h : q <+: s.profileDir id ∨
    s.profileDir id <+: q) : name = id.uuid.display := by
  have hsame : s.root ++ [name] = s.profileDir id := by
    subst hq
    rcases h with h | h
    · exact h.eq_of_length (by simp [profileDir])
    · exact (h.eq_of_length (by simp [profileDir])).symm
  exact List.head_eq_of_cons_eq (List.append_cancel_left hsame)

theorem Represents.of_lookup {b' : Ledger Time} (h : s.Represents t b)
    (hsame : ∀ id, b.lookup id = b'.lookup id) : s.Represents t b' :=
  ⟨h.plain, fun id r hr => h.held id r ((hsame id).trans hr),
    fun id hnone => h.free id ((hsame id).trans hnone), h.named, h.unused⟩

/-- The record of a profile whose directory is the only thing to change. -/
theorem Represents.insert (h : s.Represents t b) (hheld : s.Holds t' id r)
    (hunused : ∀ temp, t'.node (s.profileDir id ++ [tempName temp]) = none)
    (hrest : ∀ p, ¬ p <+: s.profileDir id → ¬ s.profileDir id <+: p → t'.node p = t.node p) :
    s.Represents t' (b.insert id r) := by
  have hother : ∀ other q, other ≠ id → s.profileDir other <+: q → t'.node q = t.node q :=
    fun other q hne hq => hrest q (beside hne hq).1 (beside hne hq).2
  refine ⟨fun other => ?_, fun other r' hr' => ?_, fun other hnone => ?_, fun name hname => ?_,
    fun temp other => ?_⟩
  · by_cases hne : other = id
    · rw [hne]
      exact hheld.dir.plain
    · exact (h.plain other).of_nodes fun q hq =>
        (way_beside hne hheld.dir hrest hq).imp_right .inl
  · by_cases hne : other = id
    · subst hne
      rw [AList.lookup_insert] at hr'
      cases hr'
      exact hheld
    · rw [AList.lookup_insert_ne hne] at hr'
      have hbefore := h.held other r' hr'
      refine hbefore.congr (fun q hq => ?_) (hother other _ hne (List.prefix_append _ _))
        (hother other _ hne (List.prefix_append _ _))
      rcases way_beside hne hheld.dir hrest hq with hsame | hdir
      · exact hsame
      · exact hdir.trans (dir_of_above hbefore.dir hq).symm
  · by_cases hne : other = id
    · subst hne
      rw [AList.lookup_insert] at hnone
      cases hnone
    · rw [AList.lookup_insert_ne hne] at hnone
      exact fun q hq => (hother other q hne hq).trans (h.free other hnone q hq)
  · by_cases hid : s.root ++ [name] <+: s.profileDir id ∨ s.profileDir id <+: s.root ++ [name]
    · exact ⟨id, entry_above rfl hid⟩
    · rw [not_or] at hid
      exact h.named name (hrest _ hid.1 hid.2 ▸ hname)
  · by_cases hne : other = id
    · rw [hne]
      exact hunused temp
    · rw [hother other _ hne (List.prefix_append _ _)]
      exact h.unused temp other

/-- The record of a profile whose directory is all that goes. -/
theorem Represents.erase (h : s.Represents t b)
    (hgone : ∀ p, s.profileDir id <+: p → t'.node p = none)
    (hrest : ∀ p, ¬ s.profileDir id <+: p → t'.node p = t.node p) :
    s.Represents t' (b.erase id) := by
  have hother : ∀ other q, other ≠ id → s.profileDir other <+: q → t'.node q = t.node q :=
    fun other q hne hq => hrest q (beside hne hq).2
  have hnodes : ∀ q, t'.node q = t.node q ∨ t'.node q = none := by
    intro q
    by_cases hq : s.profileDir id <+: q
    · exact .inr (hgone q hq)
    · exact .inl (hrest q hq)
  refine ⟨fun other => (h.plain other).of_nodes fun q _ => (hnodes q).imp_right .inr,
    fun other r' hr' => ?_, fun other hnone => ?_, fun name hname => ?_, fun temp other => ?_⟩
  · by_cases hne : other = id
    · subst hne
      rw [AList.lookup_erase] at hr'
      cases hr'
    · rw [AList.lookup_erase_ne hne] at hr'
      refine (h.held other r' hr').congr (fun q hq => hrest q fun hbelow => ?_)
        (hother other _ hne (List.prefix_append _ _)) (hother other _ hne (List.prefix_append _ _))
      exact hne (id_eq_of_below List.prefix_rfl (hbelow.trans hq))
  · by_cases hne : other = id
    · subst hne
      exact hgone
    · rw [AList.lookup_erase_ne hne] at hnone
      exact fun q hq => (hother other q hne hq).trans (h.free other hnone q hq)
  · rcases hnodes (s.root ++ [name]) with hsame | hnone
    · exact h.named name (hsame ▸ hname)
    · exact absurd hnone hname
  · rcases hnodes (s.profileDir other ++ [tempName temp]) with hsame | hnone
    · exact hsame.trans (h.unused temp other)
    · exact hnone

/-- What a browser does in the data directory of a profile is nothing to the records. -/
theorem Represents.browsed (h : s.Represents t b) (hid : t.node (s.profileDir id) = some .dir)
    (hrest : ∀ p, ¬ s.dataDir id <+: p → t'.node p = t.node p) : s.Represents t' b := by
  cases hrecord : b.lookup id with
  | none =>
    rw [h.free id hrecord _ List.prefix_rfl] at hid
    cases hid
  | some r =>
    have hheld := h.held id r hrecord
    have hentry : ∀ name, name ≠ "data" →
        t'.node (s.profileDir id ++ [name]) = t.node (s.profileDir id ++ [name]) := by
      intro name hname
      refine hrest _ fun hbelow => hname ?_
      have hsame := hbelow.eq_of_length (by simp [dataDir])
      exact (List.head_eq_of_cons_eq (List.append_cancel_left hsame)).symm
    have hinside : s.Represents t' (b.insert id r) := by
      refine h.insert (hheld.congr (fun q hq => hrest q fun hbelow => ?_) (hentry _ (by decide))
        (hentry _ (by decide))) (fun temp => ?_) fun p hway hbelow => hrest p fun hdata => ?_
      · exact not_below_dir _ _ (hbelow.trans hq)
      · rw [hentry _ (tempName_ne temp (by decide))]
        exact h.unused temp id
      · exact hbelow ((List.prefix_append _ _).trans hdata)
    refine hinside.of_lookup fun other => ?_
    by_cases hne : other = id
    · rw [hne, AList.lookup_insert, hrecord]
    · rw [AList.lookup_insert_ne hne]

/-! ### The writing of files -/

section Writing

variable {profile : Ipc.Profile Time} {temp : Uuid}

/-- Metadata written in a directory that is there are all that changes. -/
theorem eval_writeMeta_held (h : t.Straight [] (s.profileDir profile.id))
    (hfresh : t.node (s.profileDir profile.id ++ [tempName temp]) = none)
    (hdir : t.node (s.metaPath profile.id) ≠ some .dir) :
    ∃ u, eval (s.writeMeta profile temp) ⟨t, []⟩ = (.ok (), ⟨u, []⟩) ∧
      ∀ q, u.node q = if q = s.metaPath profile.id then some (.file (toVecPretty profile))
        else t.node q := by
  have hne : tempName temp ≠ "profile.json" := tempName_ne temp (by decide)
  obtain ⟨u, hu, hs, hsame⟩ := eval_createDirAll h.plain
  have hall : ∀ q, u.node q = t.node q := by
    intro q
    by_cases hq : q <+: s.profileDir profile.id
    · rw [dir_of_above hs hq, dir_of_above h hq]
    · exact hsame q hq
  have hwrite := eval_writeFile hs (tempName_ne_parent temp) ((hall _).trans hfresh)
    (toVecPretty profile)
  rw [Tree.put_put] at hwrite
  -- the tree with the temporary file written
  generalize hv : u.put (s.profileDir profile.id ++ [tempName temp]) (.file (toVecPretty profile)) =
    v at hwrite
  have hvnode : ∀ q, q ≠ s.profileDir profile.id ++ [tempName temp] → v.node q = t.node q := by
    intro q hq
    rw [← hv, Tree.node_put_of_ne hq, hall]
  have hvs : v.Straight [] (s.profileDir profile.id) :=
    h.congr fun q hq => hvnode q fun he => not_below_dir _ _ (he ▸ hq)
  have htemp : v.node (s.profileDir profile.id ++ [tempName temp]) =
      some (.file (toVecPretty profile)) := by
    rw [← hv]
    exact Tree.node_put_self (by simp)
  have hnames : s.profileDir profile.id ++ ["profile.json"] ≠
      s.profileDir profile.id ++ [tempName temp] :=
    fun he => hne (List.head_eq_of_cons_eq (List.append_cancel_left he)).symm
  have hvmeta : v.node (s.profileDir profile.id ++ ["profile.json"]) ≠ some .dir :=
    hvnode _ hnames ▸ hdir
  have hrename := eval_rename (Tree.move_straight hvs htemp hvmeta hne)
  refine ⟨(v.remove (s.profileDir profile.id ++ [tempName temp])).put (s.metaPath profile.id)
    (.file (toVecPretty profile)), ?_, fun q => ?_⟩
  · simp only [writeMeta, raise, metaPath, eval_bind, eval_adapt, eval_attempt, hu, hwrite,
      hrename, Except.mapError, eval_pure]
  · rw [Tree.node_put (by simp [metaPath])]
    by_cases hq : q = s.metaPath profile.id
    · rw [if_pos hq, if_pos hq]
    · rw [if_neg hq, if_neg hq]
      by_cases hqt : q = s.profileDir profile.id ++ [tempName temp]
      · rw [hqt, Tree.node_remove_self (by simp), hfresh]
      · rw [Tree.node_remove_of_ne hqt, hvnode q hqt]

/-- New metadata for a profile that has a record. -/
theorem Represents.eval_rewrite (h : s.Represents t b) (hid : b.lookup id = some r)
    (r' : ProfileRecord Time) (hlock : r'.lock = r.lock) (temp : Uuid) :
    ∃ u, eval (s.writeMeta (r'.stored id) temp) ⟨t, []⟩ = (.ok (), ⟨u, []⟩) ∧
      s.Represents u (b.insert id r') := by
  have hheld := h.held id r hid
  have hdir : t.node (s.metaPath id) ≠ some .dir := by
    rw [hheld.metadata]
    simp
  obtain ⟨u, hu, hnode⟩ : ∃ u, eval (s.writeMeta (r'.stored id) temp) ⟨t, []⟩ =
      (.ok (), ⟨u, []⟩) ∧ ∀ q, u.node q = if q = s.metaPath id then
        some (.file (toVecPretty (r'.stored id))) else t.node q :=
    eval_writeMeta_held hheld.dir (h.unused temp id) hdir
  have hentry : ∀ q, q ≠ s.metaPath id → u.node q = t.node q := fun q hq => by
    rw [hnode, if_neg hq]
  have hname : ∀ name, name ≠ "profile.json" →
      u.node (s.profileDir id ++ [name]) = t.node (s.profileDir id ++ [name]) := fun name hne =>
    hentry _ fun he => hne (List.head_eq_of_cons_eq (List.append_cancel_left he))
  refine ⟨u, hu, h.insert ⟨hheld.dir.congr fun q hq => hentry q fun he => ?_, ?_, ?_⟩
    (fun temp' => ?_) fun p _ hbelow => hentry p fun he => ?_⟩
  · exact not_below_dir _ _ (he ▸ hq)
  · rw [hnode, if_pos rfl]
  · exact (hname _ (by decide)).trans (hlock ▸ hheld.lock)
  · exact (hname _ (tempName_ne temp' (by decide))).trans (h.unused temp' id)
  · exact hbelow (he ▸ List.prefix_append _ _)

/-- The directories of a new profile. -/
theorem Represents.eval_createData (h : s.Represents t b) (hid : b.lookup id = none) :
    ∃ u, eval (createDirAll (s.dataDir id)) ⟨t, []⟩ = (.ok (), ⟨u, []⟩) ∧
      u.Straight [] (s.profileDir id) ∧ ∀ q, ¬ q <+: s.dataDir id → u.node q = t.node q := by
  have hplain : t.Plain [] (s.dataDir id) := by
    refine Tree.plain_append.mpr ⟨h.plain id, by decide, .inr ?_, trivial⟩
    exact h.free id hid _ (List.prefix_append _ _)
  obtain ⟨u, hu, hs, hsame⟩ := eval_createDirAll hplain
  exact ⟨u, hu, (Tree.straight_append.mp hs).1, hsame⟩

/-- The metadata of a new profile. -/
theorem Represents.eval_enter (h : s.Represents t b) (hid : b.lookup id = none)
    (r : ProfileRecord Time) (hlock : r.lock = none) (temp : Uuid) :
    ∃ u v, eval (createDirAll (s.dataDir id)) ⟨t, []⟩ = (.ok (), ⟨u, []⟩) ∧
      eval (s.writeMeta (r.stored id) temp) ⟨u, []⟩ = (.ok (), ⟨v, []⟩) ∧
      s.Represents v (b.insert id r) := by
  obtain ⟨u, hu, hs, hsame⟩ := h.eval_createData hid
  have hentry : ∀ name, name ≠ "data" → u.node (s.profileDir id ++ [name]) = none := by
    intro name hname
    refine (hsame _ fun hway => ?_).trans (h.free id hid _ (List.prefix_append _ _))
    have heq := hway.eq_of_length (by simp [dataDir])
    exact hname (List.head_eq_of_cons_eq (List.append_cancel_left heq))
  have hdir : u.node (s.metaPath id) ≠ some .dir := by
    rw [metaPath, hentry _ (by decide)]
    simp
  obtain ⟨v, hv, hnode⟩ : ∃ v, eval (s.writeMeta (r.stored id) temp) ⟨u, []⟩ =
      (.ok (), ⟨v, []⟩) ∧ ∀ q, v.node q = if q = s.metaPath id then
        some (.file (toVecPretty (r.stored id))) else u.node q :=
    eval_writeMeta_held hs (hentry _ (tempName_ne temp (by decide))) hdir
  have hother : ∀ q, q ≠ s.metaPath id → v.node q = u.node q := fun q hq => by
    rw [hnode, if_neg hq]
  have hname : ∀ name, name ≠ "data" → name ≠ "profile.json" →
      v.node (s.profileDir id ++ [name]) = none := fun name hdata hne =>
    (hother _ fun he => hne (List.head_eq_of_cons_eq (List.append_cancel_left he))).trans
      (hentry name hdata)
  refine ⟨u, v, hu, hv, h.insert ⟨hs.congr fun q hq => hother q fun he => ?_, ?_, ?_⟩
    (fun temp' => hname _ (tempName_ne temp' (by decide)) (tempName_ne temp' (by decide)))
    fun p hway hbelow => ?_⟩
  · exact not_below_dir _ _ (he ▸ hq)
  · rw [hnode, if_pos rfl]
  · rw [lockPath, hname _ (by decide) (by decide), hlock, Option.map_none]
  · rw [hother p fun he => hbelow (he ▸ List.prefix_append _ _)]
    refine hsame p fun hdata => ?_
    rcases List.prefix_concat_iff.mp hdata with he | hway'
    · exact hbelow (he ▸ List.prefix_append _ _)
    · exact hway hway'

/-- Another lock for a profile that has a record. -/
theorem Represents.relock (h : s.Represents t b) (hid : b.lookup id = some r)
    (lock : Option LockToken) (hnode : ∀ q, t'.node q = if q = s.lockPath id then
      lock.map fun token => .file (tokenBytes token) else t.node q) :
    s.Represents t' (b.insert id { r with lock := lock }) := by
  have hheld := h.held id r hid
  have hentry : ∀ q, q ≠ s.lockPath id → t'.node q = t.node q := fun q hq => by
    rw [hnode, if_neg hq]
  have hname : ∀ name, name ≠ "profile.lock" →
      t'.node (s.profileDir id ++ [name]) = t.node (s.profileDir id ++ [name]) := fun name hne =>
    hentry _ fun he => hne (List.head_eq_of_cons_eq (List.append_cancel_left he))
  refine h.insert ⟨hheld.dir.congr fun q hq => hentry q fun he => ?_, ?_, ?_⟩
    (fun temp => ?_) fun p _ hbelow => hentry p fun he => ?_
  · exact not_below_dir _ _ (he ▸ hq)
  · exact (hname _ (by decide)).trans hheld.metadata
  · rw [hnode, if_pos rfl]
  · exact (hname _ (tempName_ne temp (by decide))).trans (h.unused temp id)
  · exact hbelow (he ▸ List.prefix_append _ _)

/-- A delete that nothing keeps from it removes the whole directory. -/
theorem Represents.eval_delete_held (h : s.Represents t b) (hid : b.lookup id = some r) :
    ∃ u, eval (s.delete id) ⟨t, []⟩ = (.ok (), ⟨u, []⟩) ∧ s.Represents u (b.erase id) := by
  have hdir := (h.held id r hid).dir
  have hacts := (Shredder.follows_shred (s := s.shredder) (namesDir hdir)).faultless
  have hplace : ∀ a ∈ s.shredder.acts t (s.profileDir id), ∀ p, a.place = some p →
      s.profileDir id <+: p := fun a ha p hp => Shredder.place_acts ha hp
  refine ⟨effects (s.shredder.acts t (s.profileDir id)) t, ?_, h.erase (fun p hp => ?_)
    fun p hp => ?_⟩
  · rw [delete, eval_bind, eval_attempt, (h.held id r hid).metadata_dir]
    simp only
    rw [raise, eval_adapt, hacts]
    rfl
  · have hne : p ≠ [] := by
      rintro rfl
      simp [profileDir] at hp
    cases hn : t.node p with
    | none => exact node_effects_none hn _
    | some n =>
      exact node_effects_gone hne (Shredder.unlink_mem_acts (namesDir hdir) hp hne hn)
  · exact (elsewhere_effects hplace t).node p hp

/-- The lock file of a profile that has a record is made unless it is there. -/
theorem Holds.eval_openNew (h : s.Holds t id r) : eval (openNew (s.lockPath id)) ⟨t, []⟩ =
    match r.lock with
    | none => (.ok (s.lockPath id), ⟨t.put (s.lockPath id) (.file []), []⟩)
    | some _ => (.error .alreadyExists, ⟨t, []⟩) := by
  have hlock := h.lock
  rw [lockPath] at hlock ⊢
  rw [openNew, change, eval_fallible, Tree.makeNew, Tree.locate_straight h.dir]
  simp only [Except.bind, hlock]
  cases r.lock <;> rfl

theorem tokenBytes_injective : Function.Injective tokenBytes := fun _ _ h =>
  LockToken.eq_of_text (utf8_injective h)

/-- The lock file of a profile that is locked. -/
theorem Holds.node_lock {held : LockToken} (h : s.Holds t id r) (hlock : r.lock = some held) :
    t.node (s.lockPath id) = some (.file (tokenBytes held)) := by
  rw [h.lock, hlock]
  rfl

theorem Holds.eval_readLock {held : LockToken} (h : s.Holds t id r) (hlock : r.lock = some held) :
    eval (readFile (s.lockPath id)) ⟨t, []⟩ = (.ok (tokenBytes held), ⟨t, []⟩) := by
  refine eval_query ((Tree.bytesAt_eq_ok h.dir.plain (by decide) ?_).mpr
    ⟨h.dir, h.node_lock hlock⟩)
  exact h.no_link (List.mem_cons_of_mem _ List.mem_cons_self)

theorem Holds.eval_removeLock {held : LockToken} (h : s.Holds t id r)
    (hlock : r.lock = some held) :
    eval (removeFile (s.lockPath id)) ⟨t, []⟩ = (.ok (), ⟨t.remove (s.lockPath id), []⟩) := by
  have hnode := h.node_lock hlock
  rw [lockPath] at hnode ⊢
  rw [removeFile, change, eval_fallible, Tree.unlinkFile, Tree.locate_straight h.dir]
  simp only [Except.bind, hnode]

/-- Without a lock in the map there is no lock file. -/
theorem Represents.bytesAt_unlocked (h : s.Represents t b)
    (hlock : ∀ r, b.lookup id = some r → r.lock = none) :
    t.bytesAt (s.lockPath id) = .error .notFound := by
  cases hid : b.lookup id with
  | none => exact h.resolve_free hid _
  | some r =>
    have hnode := (h.held _ r hid).lock
    rw [hlock r hid, Option.map_none] at hnode
    exact Tree.bytesAt_none (h.plain _) (by decide) hnode

end Writing

/-! ### The operations -/

theorem eval_ofResult {α : Type} (r : Result α) (t : Tree) :
    eval (ofResult r) ⟨t, []⟩ = (r, ⟨t, []⟩) := by
  cases r <;> rfl

section Operations

variable [Ord Time] {op : StoreOp Time}

/-- The operation gives the map's reply, and leaves the map's records. -/
def Agrees (s : FileProfileStore) (t : Tree) (b : Ledger Time) (op : StoreOp Time) : Prop :=
  (eval (s.perform op) ⟨t, []⟩).1.map Reply.unsized = (b.perform op).1 ∧
    s.Represents (eval (s.perform op) ⟨t, []⟩).2.tree (b.perform op).2

/-- It fails with the map's error, and nothing has changed. -/
theorem Agrees.of_error (h : s.Represents t b) (e : Error) (hb : b.perform op = (.error e, b))
    (heval : eval (s.perform op) ⟨t, []⟩ = (.error e, ⟨t, []⟩)) : s.Agrees t b op := by
  rw [Agrees, heval, hb]
  exact ⟨rfl, h⟩

theorem Agrees.of_ok {b' : Ledger Time} (h : s.Represents t' b') (reply : Reply Time)
    (hb : b.perform op = (.ok reply.unsized, b'))
    (heval : eval (s.perform op) ⟨t, []⟩ = (.ok reply, ⟨t', []⟩)) : s.Agrees t b op := by
  rw [Agrees, heval, hb]
  exact ⟨rfl, h⟩

/-- The record, as a profile whose directory has a size. -/
def sized (s : FileProfileStore) (t : Tree) (id : ProfileId) (r : ProfileRecord Time) :
    Reply Time :=
  .profile { r.shown id with storage := ⟨sizeAt t (s.profileDir id)⟩ }

theorem agrees_get (h : s.Represents t b) (id : ProfileId) : s.Agrees t b (.get id) := by
  cases hid : b.lookup id with
  | none =>
    refine .of_error h (Ledger.absent id) ?_ ?_
    · simp only [Ledger.perform, Ledger.onRecord, hid]
    · rw [perform, eval_bind, h.eval_loadRefreshed_free hid]
  | some r =>
    refine .of_ok h (s.sized t id r) ?_ ?_
    · simp only [Ledger.perform, Ledger.onRecord, hid]
      rfl
    · rw [perform, eval_bind, (h.held id r hid).eval_loadRefreshed]
      rfl

theorem agrees_create (h : s.Represents t b) (spec : Ipc.ProfileSpec) (id : ProfileId)
    (temp : Uuid) (now : Time) : s.Agrees t b (.create spec id temp now) := by
  cases hvalid : spec.toCore.validate with
  | error e =>
    refine .of_error h e ?_ ?_
    · simp only [Ledger.perform, hvalid]
    · rw [perform, create, eval_bind, eval_bind, hvalid, eval_ofResult]
  | ok _ =>
    cases hid : b.lookup id with
    | some r =>
      refine .of_error h (.internal ("profile dir already exists for " ++ id.uuid.display)) ?_ ?_
      · simp only [Ledger.perform, hvalid, hid]
      · rw [perform, create, eval_bind, eval_bind, hvalid, eval_ofResult]
        simp only
        rw [eval_bind, eval_attempt, (h.held id r hid).metadata_dir]
        rfl
    | none =>
      obtain ⟨u, v, hu, hv, hrep⟩ := h.eval_enter hid ⟨spec, now, none, none⟩ rfl temp
      have hheld := hrep.held id _ (AList.lookup_insert b)
      refine .of_ok hrep (s.sized v id ⟨spec, now, none, none⟩) ?_ ?_
      · simp only [Ledger.perform, hvalid, hid]
        rfl
      · rw [perform, create, eval_bind, eval_bind, hvalid, eval_ofResult]
        simp only
        rw [eval_bind, eval_attempt, h.metadata_free hid]
        simp only
        rw [eval_bind, raise, eval_adapt, hu]
        simp only [Except.mapError]
        rw [eval_bind, show (⟨id, spec, now, none, ⟨0⟩, false⟩ : Ipc.Profile Time) =
          ProfileRecord.stored id ⟨spec, now, none, none⟩ from rfl, hv]
        simp only
        rw [hheld.eval_loadRefreshed]
        rfl

theorem agrees_update (h : s.Represents t b) (id : ProfileId) (patch : Ipc.ProfilePatch)
    (temp : Uuid) : s.Agrees t b (.update id patch temp) := by
  cases hid : b.lookup id with
  | none =>
    refine .of_error h (Ledger.absent id) ?_ ?_
    · simp only [Ledger.perform, Ledger.onRecord, hid]
    · rw [perform, update, eval_bind, eval_bind, h.eval_readMeta_free hid]
  | some r =>
    have hheld := h.held id r hid
    by_cases hempty : patch.toCore.isEmpty = true
    · refine .of_ok h (s.sized t id r) ?_ ?_
      · simp only [Ledger.perform, Ledger.onRecord, hid, if_pos hempty]
        rfl
      · rw [perform, update, eval_bind, eval_bind, hheld.eval_readMeta]
        simp only [if_pos hempty]
        rw [hheld.eval_loadRefreshed]
        rfl
    cases hpatch : applyPatch r.spec patch with
    | error e =>
      refine .of_error h e ?_ ?_
      · simp only [Ledger.perform, Ledger.onRecord, hid, if_neg hempty, hpatch]
      · rw [perform, update, eval_bind, eval_bind, hheld.eval_readMeta]
        simp only [if_neg hempty]
        rw [eval_bind, show (r.stored id).spec = r.spec from rfl, hpatch, eval_ofResult]
    | ok spec =>
      obtain ⟨u, hu, hrep⟩ := h.eval_rewrite hid { r with spec := spec } rfl temp
      have hheld' := hrep.held id _ (AList.lookup_insert b)
      refine .of_ok hrep (s.sized u id { r with spec := spec }) ?_ ?_
      · simp only [Ledger.perform, Ledger.onRecord, hid, if_neg hempty, hpatch]
        rfl
      · rw [perform, update, eval_bind, eval_bind, hheld.eval_readMeta]
        simp only [if_neg hempty]
        rw [eval_bind, show (r.stored id).spec = r.spec from rfl, hpatch, eval_ofResult]
        simp only
        rw [eval_bind, show ({ r.stored id with spec := spec } : Ipc.Profile Time) =
          ProfileRecord.stored id { r with spec := spec } from rfl, hu]
        simp only
        rw [hheld'.eval_loadRefreshed]
        rfl

theorem agrees_touchLaunch (h : s.Represents t b) (id : ProfileId) (now : Time) (temp : Uuid) :
    s.Agrees t b (.touchLaunch id now temp) := by
  cases hid : b.lookup id with
  | none =>
    refine .of_error h (Ledger.absent id) ?_ ?_
    · simp only [Ledger.perform, Ledger.onRecord, hid]
    · rw [perform, touchLaunch, eval_bind, eval_bind, h.eval_readMeta_free hid]
  | some r =>
    obtain ⟨u, hu, hrep⟩ := h.eval_rewrite hid { r with lastLaunched := some now } rfl temp
    refine .of_ok hrep .done ?_ ?_
    · simp only [Ledger.perform, Ledger.onRecord, hid]
      rfl
    · rw [perform, touchLaunch, eval_bind, eval_bind, (h.held id r hid).eval_readMeta]
      simp only
      rw [show ({ r.stored id with lastLaunched := some now } : Ipc.Profile Time) =
        ProfileRecord.stored id { r with lastLaunched := some now } from rfl, hu]
      rfl

theorem agrees_delete (h : s.Represents t b) (id : ProfileId) : s.Agrees t b (.delete id) := by
  cases hid : b.lookup id with
  | none =>
    refine .of_error h (Ledger.absent id) ?_ ?_
    · simp only [Ledger.perform, Ledger.onRecord, hid]
    · rw [perform, delete, eval_bind, eval_bind, eval_attempt, h.metadata_free hid]
      rfl
  | some r =>
    obtain ⟨u, hu, hrep⟩ := h.eval_delete_held hid
    refine .of_ok hrep .done ?_ ?_
    · simp only [Ledger.perform, Ledger.onRecord, hid]
      rfl
    · rw [perform, eval_bind, hu]
      rfl

theorem agrees_acquireLock (h : s.Represents t b) (id : ProfileId) (token : LockToken) :
    s.Agrees t b (.acquireLock id token) := by
  cases hid : b.lookup id with
  | none =>
    refine .of_error h (Ledger.absent id) ?_ ?_
    · simp only [Ledger.perform, Ledger.onRecord, hid]
    · rw [perform, acquireLock, eval_bind, eval_bind, eval_attempt, h.metadata_free hid]
      rfl
  | some r =>
    have hheld := h.held id r hid
    have hopen := hheld.eval_openNew
    cases hlock : r.lock with
    | some held =>
      rw [hlock] at hopen
      refine .of_error h (.busy ("profile " ++ id.uuid.display ++ " is already locked")) ?_ ?_
      · simp only [Ledger.perform, Ledger.onRecord, hid, hlock]
      · rw [perform, acquireLock, eval_bind, eval_bind, eval_attempt, hheld.metadata_dir]
        simp only
        rw [eval_bind, eval_attempt, hopen]
        rfl
    | none =>
      rw [hlock] at hopen
      have hne : s.lockPath id ≠ [] := by simp [lockPath]
      have hwrite : eval (writeAll (s.lockPath id) 0 (tokenBytes token))
          ⟨t.put (s.lockPath id) (.file []), []⟩ =
            (.ok (), ⟨t.put (s.lockPath id) (.file (tokenBytes token)), []⟩) := by
        rw [writeAll, eval_fallible, Tree.spliceAt_new hne]
      have hrep : s.Represents (t.put (s.lockPath id) (.file (tokenBytes token)))
          (b.insert id { r with lock := some token }) := by
        refine h.relock hid (some token) fun q => ?_
        rw [Tree.node_put hne]
        rfl
      refine .of_ok hrep (.lease ⟨id, token⟩) ?_ ?_
      · simp only [Ledger.perform, Ledger.onRecord, hid, hlock]
        rfl
      · rw [perform, acquireLock, eval_bind, eval_bind, eval_attempt, hheld.metadata_dir]
        simp only
        rw [eval_bind, eval_attempt, hopen]
        simp only
        rw [eval_bind, raise, eval_adapt, hwrite]
        rfl

theorem agrees_releaseLock (h : s.Represents t b) (lease : ProfileLease) :
    s.Agrees t b (.releaseLock lease) := by
  cases hrecord : (b.lookup lease.profile).bind fun r => r.lock.map fun held => (r, held) with
  | none =>
    have hbytes : t.bytesAt (s.lockPath lease.profile) = .error .notFound := by
      refine h.bytesAt_unlocked fun r hid => ?_
      rwa [hid, Option.bind_some, Option.map_eq_none_iff] at hrecord
    refine .of_error h (.precondition ("profile " ++ lease.profile.uuid.display ++
      " is not locked")) ?_ ?_
    · simp only [Ledger.perform, hrecord]
    · rw [perform, releaseLock, eval_bind, eval_bind, eval_attempt, readFile, query, eval_fallible,
        hbytes]
      rfl
  | some found =>
    obtain ⟨r, hid, hfound⟩ := Option.bind_eq_some_iff.mp hrecord
    obtain ⟨held, hlock, rfl⟩ := Option.map_eq_some_iff.mp hfound
    have hheld := h.held _ r hid
    by_cases hsame : held = lease.token
    · have hne : s.lockPath lease.profile ≠ [] := by simp [lockPath]
      have hrep : s.Represents (t.remove (s.lockPath lease.profile))
          (b.insert lease.profile { r with lock := none }) := by
        refine h.relock hid none fun q => ?_
        by_cases hq : q = s.lockPath lease.profile
        · rw [if_pos hq, hq, Tree.node_remove_self hne]
          rfl
        · rw [if_neg hq, Tree.node_remove_of_ne hq]
      refine .of_ok hrep .done ?_ ?_
      · simp only [Ledger.perform, hrecord, hsame, ne_eq, not_true_eq_false, if_false]
        rfl
      · rw [perform, releaseLock, eval_bind, eval_bind, eval_attempt, hheld.eval_readLock hlock]
        simp only [hsame, ne_eq, not_true_eq_false, if_false]
        rw [raise, eval_adapt, hheld.eval_removeLock hlock]
        rfl
    · have hbytes : tokenBytes held ≠ tokenBytes lease.token := fun he =>
        hsame (tokenBytes_injective he)
      refine .of_error h (.precondition
        ("lock token mismatch for profile " ++ lease.profile.uuid.display)) ?_ ?_
      · simp only [Ledger.perform, hrecord, ne_eq, hsame, not_false_eq_true, if_true]
      · rw [perform, releaseLock, eval_bind, eval_bind, eval_attempt, hheld.eval_readLock hlock]
        simp only [ne_eq, hbytes, not_false_eq_true, if_true]
        rfl

end Operations

/-! ### The listing -/

/-- An entry of the root is the directory of a profile that has a record. -/
theorem Represents.mem_rootEntries_iff (h : s.Represents t b) {e : FileName × Node} :
    e ∈ s.rootEntries t ↔ ∃ id r, b.lookup id = some r ∧ e = (id.uuid.display, .dir) := by
  constructor
  · intro he
    unfold rootEntries at he
    rcases Tree.entriesAt_plain ((h.plain ⟨0⟩).above (root_above s ⟨0⟩)) with ⟨-, hok⟩ | ⟨-, hno⟩
    · rw [hok] at he
      obtain ⟨name, n⟩ := e
      obtain ⟨-, hn⟩ := Tree.mem_children.mp he
      obtain ⟨id, rfl⟩ := h.named name (by rw [hn]; simp)
      have hdir : t.node (s.profileDir id) = some n := hn
      cases hid : b.lookup id with
      | none =>
        rw [h.free id hid _ List.prefix_rfl] at hdir
        cases hdir
      | some r =>
        rw [Tree.node_of_straight (h.held id r hid).dir] at hdir
        cases hdir
        exact ⟨id, r, hid, rfl⟩
    · rw [hno] at he
      cases he
  · rintro ⟨id, r, hid, rfl⟩
    exact mem_rootEntries (h.held id r hid).dir

/-- The root has the directories of the profiles that have records, in some order. -/
theorem Represents.perm_rootEntries (h : s.Represents t b) :
    (s.rootEntries t).Perm (b.keys.map fun id => (id.uuid.display, .dir)) := by
  have hnames : (b.keys.map fun id => (id.uuid.display, Node.dir)).Nodup := by
    refine b.keys_nodup.map fun id other heq => ?_
    exact congrArg ProfileId.mk (display_injective (Prod.mk.inj heq).1)
  refine (List.perm_ext_iff_of_nodup (.of_map _ (nodup_rootEntries s t)) hnames).mpr fun e => ?_
  rw [h.mem_rootEntries_iff, List.mem_map]
  constructor
  · rintro ⟨id, r, hr, rfl⟩
    exact ⟨id, AList.mem_keys.mp (AList.lookup_isSome.mp (hr ▸ rfl)), rfl⟩
  · rintro ⟨id, hmem, rfl⟩
    obtain ⟨r, hr⟩ := Option.isSome_iff_exists.mp
      (AList.lookup_isSome.mpr (AList.mem_keys.mpr hmem))
    exact ⟨id, r, hr, rfl⟩

/-- Each entry of the root is loaded. -/
theorem Represents.eval_loadEntries_all (h : s.Represents t b) :
    eval (s.loadEntries (s.rootEntries t) []) ⟨t, []⟩ =
      (.ok ((s.rootEntries t).filterMap (s.entryLoad t) : List (Ipc.Profile Time)), ⟨t, []⟩) := by
  have hall : ∀ e ∈ s.rootEntries t, ∀ id, entryId e = some id →
      s.Missing t id ∨ s.Loadable Time t id := by
    intro e he id hid
    obtain ⟨other, r, hr, rfl⟩ := h.mem_rootEntries_iff.mp he
    have hheld := h.held other r hr
    rw [entryId_display] at hid
    cases hid
    exact .inr ⟨⟨_, hheld.storedMeta⟩, hheld.lockTold⟩
  rw [eval_loadEntries hall, List.nil_append]

section Listing

variable [Ord Time]

/-- A profile without its size. -/
def unsizedProfile (p : Ipc.Profile Time) : Ipc.Profile Time := { p with storage := ⟨0⟩ }

theorem Represents.perm_listing (h : s.Represents t b) :
    (((s.rootEntries t).filterMap (s.entryLoad t)).map unsizedProfile).Perm b.listing := by
  have hloads : ((s.rootEntries t).filterMap (s.entryLoad t)).map unsizedProfile =
      (s.rootEntries t).filterMap fun e =>
        (entryId e).bind fun id => (b.lookup id).map (·.shown id) := by
    rw [List.map_filterMap]
    refine List.filterMap_congr fun e he => ?_
    obtain ⟨id, r, hr, rfl⟩ := h.mem_rootEntries_iff.mp he
    rw [entryLoad, entryId_display, Option.bind_some, Option.bind_some, loaded,
      (h.held id r hr).eval_loadRefreshed, hr]
    rfl
  rw [hloads, Ledger.listing]
  refine ((h.perm_rootEntries.filterMap _).trans ?_).trans (List.mergeSort_perm _ _).symm
  rw [List.filterMap_map]
  refine .of_eq (List.filterMap_congr fun id _ => ?_)
  simp only [Function.comp_apply, entryId_display, Option.bind_some]

/-- The listing is that of the map, up to the sizes. -/
theorem agrees_list [Std.TransOrd Time] (h : s.Represents t b) : s.Agrees t b .list := by
  have hroot : ∀ e, t.entriesAt s.root = .error e → e = .notFound := by
    intro e he
    rcases Tree.entriesAt_plain ((h.plain ⟨0⟩).above (root_above s ⟨0⟩)) with ⟨-, hok⟩ | ⟨-, hno⟩
    · rw [hok] at he
      cases he
    · rw [hno] at he
      exact (Except.error.inj he).symm
  have hlist : (eval (s.list : Run Error (List (Ipc.Profile Time))) ⟨t, []⟩).1 =
      .ok (((s.rootEntries t).filterMap (s.entryLoad t)).mergeSort listedBefore) := by
    rw [eval_list hroot, h.eval_loadEntries_all]
    rfl
  -- the sizes are nothing to the order
  have hperm : ((((s.rootEntries t).filterMap (s.entryLoad t)).mergeSort listedBefore).map
      unsizedProfile).Perm b.listing :=
    ((List.mergeSort_perm _ _).map _).trans h.perm_listing
  have hsorted : ((((s.rootEntries t).filterMap (s.entryLoad t)).mergeSort listedBefore).map
      unsizedProfile : List (Ipc.Profile Time)).Pairwise NewestFirst :=
    List.pairwise_map.mpr (pairwise_listed ((s.rootEntries t).filterMap (s.entryLoad t)))
  have hsame : (((s.rootEntries t).filterMap (s.entryLoad t)).mergeSort listedBefore).map
      unsizedProfile = b.listing :=
    hperm.eq_of_pairwise (fun p q hp hq => Ledger.eq_of_newestFirst (hperm.mem_iff.mp hp) hq)
      hsorted (pairwise_listed _)
  refine ⟨?_, ?_⟩
  · rw [perform, eval_bind]
    rcases heval : eval (s.list : Run Error (List (Ipc.Profile Time))) ⟨t, []⟩ with ⟨result, w⟩
    rw [heval] at hlist
    obtain rfl := hlist
    show Except.ok (Reply.profiles _) = _
    rw [Ledger.perform]
    exact congrArg (Except.ok ∘ Reply.profiles) hsame
  · rw [perform, ReadOnly.after fun _ => .pure _, list_readOnly]
    exact h

/-- Every operation gives the map's reply and leaves the map's records. -/
theorem Represents.perform [Std.TransOrd Time] (h : s.Represents t b) (op : StoreOp Time) :
    s.Agrees t b op := by
  cases op with
  | create spec id temp now => exact agrees_create h spec id temp now
  | get id => exact agrees_get h id
  | list => exact agrees_list h
  | update id patch temp => exact agrees_update h id patch temp
  | delete id => exact agrees_delete h id
  | acquireLock id token => exact agrees_acquireLock h id token
  | releaseLock lease => exact agrees_releaseLock h lease
  | touchLaunch id now temp => exact agrees_touchLaunch h id now temp

/-! ### Runs -/

/-- The operations of a run with their replies, and the tree that they leave; browsers may change
the data directories of profiles in between. -/
inductive Runs (s : FileProfileStore) (t : Tree) :
    List (StoreOp Time) → List (Except Error (Reply Time)) → Tree → Prop
  | start : Runs s t [] [] t
  | call {ops replies u} (hr : Runs s t ops replies u) (op : StoreOp Time) :
    Runs s t (ops ++ [op]) (replies ++ [(eval (s.perform op) ⟨u, []⟩).1])
      (eval (s.perform op) ⟨u, []⟩).2.tree
  | browse {ops replies u u'} (hr : Runs s t ops replies u) (id : ProfileId)
    (hid : u.node (s.profileDir id) = some .dir)
    (hrest : ∀ p, ¬ s.dataDir id <+: p → u'.node p = u.node p) : Runs s t ops replies u'

/-- From an empty root on, the replies are those of the map, up to the sizes of profiles, and the
tree has the map's records. -/
theorem runs_refine [Std.TransOrd Time] {ops : List (StoreOp Time)}
    {replies : List (Except Error (Reply Time))} (hplain : ∀ id, t.Plain [] (s.profileDir id))
    (hnone : ∀ p, s.root <+: p → p ≠ s.root → t.node p = none) (hr : s.Runs t ops replies t') :
    replies.map (·.map Reply.unsized) = (Ledger.performAll ∅ ops).1 ∧
      s.Represents t' (Ledger.performAll ∅ ops).2 := by
  induction hr with
  | start => exact ⟨rfl, represents_empty hplain hnone⟩
  | call hr op ih =>
    obtain ⟨hreplies, hrep⟩ := ih
    obtain ⟨hreply, hafter⟩ := hrep.perform op
    rw [Ledger.performAll_append, List.map_append, hreplies]
    exact ⟨congrArg _ (congrArg (fun r => [r]) hreply), hafter⟩
  | browse hr id hid hrest ih => exact ⟨ih.1, ih.2.browsed hid hrest⟩

end Listing

/-- A profile is created and got. -/
theorem runs_refine_created : ∃ (replies : List (Except Error (Reply Ipc.Stamp))) (u : Tree),
    atTop.Runs ∅ [.create (workProfile ⟨7⟩).spec ⟨7⟩ ⟨9⟩ .sent, .get ⟨7⟩] replies u ∧
      replies.map (·.map Reply.unsized) =
        [.ok (.profile (workProfile ⟨7⟩)), .ok (.profile (workProfile ⟨7⟩))] := by
  have hruns : ∃ (replies : List (Except Error (Reply Ipc.Stamp))) (u : Tree), atTop.Runs ∅
      [.create (workProfile ⟨7⟩).spec ⟨7⟩ ⟨9⟩ .sent, .get ⟨7⟩] replies u :=
    ⟨_, _, Runs.call (Runs.call .start (.create (workProfile ⟨7⟩).spec ⟨7⟩ ⟨9⟩ Ipc.Stamp.sent))
      (.get ⟨7⟩)⟩
  obtain ⟨replies, u, hruns⟩ := hruns
  have hnone : ∀ p, atTop.root <+: p → p ≠ atTop.root → FileTree.Tree.node ∅ p = none := by
    rintro p ⟨rest, rfl⟩ -
    rfl
  refine ⟨replies, u, hruns, ?_⟩
  rw [(runs_refine atTop.empty.plain hnone hruns).1]
  rfl

end Aegis.Store.FileProfileStore
