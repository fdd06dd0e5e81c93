import Aegis.Store.FileStore

/-! An operation on one profile leaves the others alone, wherever it fails: except that the writers
of metadata go by the identifier in the file that they read. -/
namespace Aegis.Store
open Text FileTree FileTree.Run

variable {Time : Type} [Chrono Time] [Ord Time]

/-- An operation of the store, with what it draws. -/
inductive StoreOp (Time : Type) where
  | create (spec : Ipc.ProfileSpec) (id : ProfileId) (temp : Uuid) (now : Time)
  | get (id : ProfileId)
  | list
  | update (id : ProfileId) (patch : Ipc.ProfilePatch) (temp : Uuid)
  | delete (id : ProfileId)
  | acquireLock (id : ProfileId) (token : LockToken)
  | releaseLock (lease : ProfileLease)
  | touchLaunch (id : ProfileId) (now : Time) (temp : Uuid)

namespace StoreOp

/-- The profile that the operation is applied to; a listing is applied to none. -/
def profile : StoreOp Time → Option ProfileId
  | create _ id _ _ | get id | update id _ _ | delete id | acquireLock id _
  | touchLaunch id _ _ => some id
  | releaseLock lease => some lease.profile
  | list => none

/-- The identifier drawn for a temporary file. -/
def temp : StoreOp Time → Option Uuid
  | create _ _ temp _ | update _ _ temp | touchLaunch _ _ temp => some temp
  | _ => none

end StoreOp

namespace FileProfileStore

variable (s : FileProfileStore)

/-- What a call returns. -/
inductive Reply (Time : Type) where
  | profile (profile : Ipc.Profile Time)
  | profiles (profiles : List (Ipc.Profile Time))
  | lease (lease : ProfileLease)
  | done

def perform : StoreOp Time → Run Error (Reply Time)
  | .create spec id temp now => do return .profile (← s.create spec id temp now)
  | .get id => do return .profile (← s.loadRefreshed id)
  | .list => do return .profiles (← s.list)
  | .update id patch temp => do return .profile (← s.update id patch temp)
  | .delete id => do
    s.delete id
    return .done
  | .acquireLock id token => do return .lease (← s.acquireLock id token)
  | .releaseLock lease => do
    s.releaseLock lease
    return .done
  | .touchLaunch id now temp => do
    s.touchLaunch id now temp
    return .done

/-- The metadata, the lock file and the data tree of a profile are the same in both trees. -/
structure SameProfile (id : ProfileId) (t t' : Tree) : Prop where
  metadata : t'.node (s.metaPath id) = t.node (s.metaPath id)
  lock : t'.node (s.lockPath id) = t.node (s.lockPath id)
  data : ∀ p, s.dataDir id <+: p → t'.node p = t.node p

/-- Whatever faults the operation meets, every other profile is as it was. -/
def Isolated (t : Tree) (op : StoreOp Time) : Prop :=
  ∀ faults id, op.profile ≠ some id →
    s.SameProfile id t (eval (s.perform op) ⟨t, faults⟩).2.tree

/-- The metadata that the directory of a profile holds, where they can be read. -/
def storedMeta (t : Tree) (id : ProfileId) : Option (Ipc.Profile Time) :=
  (t.bytesAt (s.metaPath id)).toOption.bind (fromSlice (Ipc.Profile Time))

/-- The metadata that the operation goes on to write over others. -/
def rewritten (t : Tree) : StoreOp Time → Option (Ipc.Profile Time)
  | .update id patch _ => (s.storedMeta t id).bind fun profile =>
      if patch.toCore.isEmpty then none
      else (applyPatch profile.spec patch).toOption.map fun spec => { profile with spec := spec }
  | .touchLaunch id now _ => (s.storedMeta t id).map fun profile =>
      { profile with lastLaunched := some now }
  | _ => none

/-- The metadata that the operation would write are those of its own profile; or they are there
already, or cannot be put there. -/
def OwnMetadata (t : Tree) (op : StoreOp Time) : Prop :=
  ∀ profile, s.rewritten t op = some profile → op.profile = some profile.id ∨
    t.node (s.metaPath profile.id) = some .dir ∨
      t.node (s.metaPath profile.id) = some (.file (toVecPretty profile))

/-! ### The paths -/

variable {s} {id other : ProfileId} {t t' : Tree}

theorem display_injective {u v : Uuid} (h : u.display = v.display) : u = v := by
  have hu := Uuid.parse_display u
  rw [h, Uuid.parse_display v] at hu
  exact (Option.some.inj hu).symm

theorem profileDir_below_root (s : FileProfileStore) (id : ProfileId) :
    s.root <+: s.profileDir id ∧ s.profileDir id ≠ s.root :=
  ⟨List.prefix_append _ _, fun h => by simp [profileDir] at h⟩

/-- Nothing is below the directories of two profiles. -/
theorem id_eq_of_below {p : Path} (h : s.profileDir id <+: p) (hother : s.profileDir other <+: p) :
    id = other := by
  have hlength : (s.profileDir id).length = (s.profileDir other).length := by
    simp [profileDir]
  have hdirs : s.profileDir id = s.profileDir other :=
    (List.prefix_of_prefix_length_le h hother hlength.le).eq_of_length hlength
  have hnames : [id.uuid.display] = [other.uuid.display] := List.append_cancel_left hdirs
  have huuid : id.uuid = other.uuid := display_injective (List.head_eq_of_cons_eq hnames)
  obtain ⟨u⟩ := id
  obtain ⟨v⟩ := other
  exact congrArg ProfileId.mk huuid

/-- What keeps to the inside of one profile's directory leaves the others as they are. -/
theorem SameProfile.of_inside (h : t.Inside (s.profileDir id) t') (hne : other ≠ id) :
    s.SameProfile other t t' := by
  have hkeep : ∀ p, s.profileDir other <+: p → s.profileDir other ≠ p → t'.node p = t.node p := by
    intro p hp hproper
    refine h.node_eq (fun hbelow => hne (id_eq_of_below hp hbelow)) fun habove => ?_
    have hlength : (s.profileDir id).length = (s.profileDir other).length := by
      simp [profileDir]
    have hle : p.length ≤ (s.profileDir other).length := hlength ▸ habove.length_le
    exact hproper (hp.eq_of_length_le hle)
  have hentry : ∀ name p, s.profileDir other ++ [name] <+: p → t'.node p = t.node p := by
    intro name p hp
    refine hkeep p ((List.prefix_append _ _).trans hp) fun he => ?_
    have hlength := hp.length_le
    rw [← he, List.length_append, List.length_singleton] at hlength
    omega
  exact ⟨hentry _ _ List.prefix_rfl, hentry _ _ List.prefix_rfl, hentry _⟩

/-! ### The writing of metadata -/

/-- The trees differ by directories on the way to `b`, by the temporary file in it, and by
metadata with the new bytes. -/
structure MetaWrite (b : Path) (temp : FileName) (bytes : Bytes) (t t' : Tree) : Prop where
  way : ∀ p, p <+: b → t'.node p = t.node p ∨ t.node p = none ∧ t'.node p = some .dir
  tempFile : t'.node (b ++ [temp]) = t.node (b ++ [temp]) ∨ t'.node (b ++ [temp]) = none ∨
    ∃ new, t'.node (b ++ [temp]) = some (.file new)
  metadata : t'.node (b ++ ["profile.json"]) = t.node (b ++ ["profile.json"]) ∨
    t.node (b ++ ["profile.json"]) ≠ some .dir ∧
      t'.node (b ++ ["profile.json"]) = some (.file bytes)
  rest : ∀ p, ¬ p <+: b → p ≠ b ++ [temp] → p ≠ b ++ ["profile.json"] → t'.node p = t.node p

/-- The way to `b` is plain, and a temporary file there is a file. -/
def Writable (b : Path) (temp : FileName) (t : Tree) : Prop :=
  t.Plain [] b ∧ (t.node (b ++ [temp]) = none ∨ ∃ old, t.node (b ++ [temp]) = some (.file old))

section MetaWrite

variable {b : Path} {temp : FileName} {bytes : Bytes}

instance : IsPreorder Tree (MetaWrite b temp bytes) where
  refl _ := ⟨fun _ _ => .inl rfl, .inl rfl, .inl rfl, fun _ _ _ _ => rfl⟩
  trans t u v htu huv := by
    refine ⟨fun p hp => ?_, ?_, ?_, fun p hway htemp hmeta => ?_⟩
    · rcases huv.way p hp with hv | ⟨hu, hv⟩
      · rw [hv]
        exact htu.way p hp
      · rcases htu.way p hp with ht | ⟨-, hdir⟩
        · exact .inr ⟨ht ▸ hu, hv⟩
        · rw [hdir] at hu
          cases hu
    · rcases huv.tempFile with hv | hv
      · rw [hv]
        exact htu.tempFile
      · exact .inr hv
    · rcases huv.metadata with hv | ⟨hu, hv⟩
      · rw [hv]
        exact htu.metadata
      · rcases htu.metadata with ht | ⟨ht, -⟩
        · exact .inr ⟨ht ▸ hu, hv⟩
        · exact .inr ⟨ht, hv⟩
    · rw [huv.rest p hway htemp hmeta, htu.rest p hway htemp hmeta]

theorem not_below_dir (b : Path) (name : FileName) : ¬ b ++ [name] <+: b := by
  intro h
  have hlength := h.length_le
  rw [List.length_append, List.length_singleton] at hlength
  omega

theorem MetaWrite.inside (h : MetaWrite b temp bytes t t') : t.Inside b t' := by
  intro p
  have hentry : ∀ name, b <+: b ++ [name] := fun name => List.prefix_append b [name]
  by_cases hway : p <+: b
  · rcases h.way p hway with hsame | ⟨-, hdir⟩
    · exact .inl hsame
    · exact .inr ⟨.inr hway, by simp [hdir], fun _ => .inl hdir⟩
  by_cases htemp : p = b ++ [temp]
  · subst htemp
    rcases h.tempFile with hsame | hnone | ⟨new, hnew⟩
    · exact .inl hsame
    · exact .inr ⟨.inl (hentry temp), by simp [hnone], fun hp => absurd hp hway⟩
    · exact .inr ⟨.inl (hentry temp), by simp [hnew], fun hp => absurd hp hway⟩
  by_cases hmeta : p = b ++ ["profile.json"]
  · subst hmeta
    rcases h.metadata with hsame | ⟨-, hnew⟩
    · exact .inl hsame
    · exact .inr ⟨.inl (hentry _), by simp [hnew], fun hp => absurd hp hway⟩
  · exact .inl (h.rest p hway htemp hmeta)

theorem Writable.metaWrite (hw : Writable b temp t) (h : MetaWrite b temp bytes t t') :
    Writable b temp t' := by
  refine ⟨hw.1.inside h.inside, ?_⟩
  rcases h.tempFile with hsame | hnew
  · rw [hsame]
    exact hw.2
  · exact hnew

theorem metaWrite_dir (hw : Writable b temp t) {p : Path} (hp : p <+: b) :
    MetaWrite b temp bytes t (t.put p .dir) := by
  have hentry : ∀ name, b ++ [name] ≠ p := fun name he => not_below_dir b name (he ▸ hp)
  refine ⟨fun q hq => ?_, .inl (Tree.node_put_of_ne (hentry temp)),
    .inl (Tree.node_put_of_ne (hentry _)), fun q hq _ _ => ?_⟩
  · by_cases hqp : q = p
    · subst hqp
      by_cases hnil : q = []
      · subst hnil
        exact .inl (by rw [Tree.node_nil, Tree.node_nil])
      · rcases hw.1.node hq with hdir | hnone
        · exact .inl (by rw [Tree.node_put_self hnil, hdir])
        · exact .inr ⟨hnone, Tree.node_put_self hnil⟩
    · exact .inl (Tree.node_put_of_ne hqp)
  · exact Tree.node_put_of_ne fun he => hq (by rw [he]; exact hp)

theorem metaWrite_temp (htemp : temp ≠ "profile.json") {n : Option Node}
    (hn : n = none ∨ ∃ new, n = some (.file new))
    (ht' : ∀ q, t'.node q = if q = b ++ [temp] then n else t.node q) :
    MetaWrite b temp bytes t t' := by
  refine ⟨fun q hq => .inl ?_, .inr ?_, .inl ?_, fun q _ hq _ => ?_⟩
  · have hne : q ≠ b ++ [temp] := fun he => not_below_dir b temp (he ▸ hq)
    rw [ht', if_neg hne]
  · rw [ht', if_pos rfl]
    exact hn
  · have hne : b ++ ["profile.json"] ≠ b ++ [temp] := fun he =>
      htemp (List.head_eq_of_cons_eq (List.append_cancel_left he)).symm
    rw [ht', if_neg hne]
  · rw [ht', if_neg hq]

/-- The temporary file takes the place of the metadata. -/
theorem metaWrite_move (hw : Writable b temp t) (htemp : temp ≠ "profile.json")
    (hnode : t.node (b ++ [temp]) = some (.file bytes)) {r : Unit}
    (hmove : t.move (b ++ [temp]) (b ++ ["profile.json"]) = .ok (r, t')) :
    MetaWrite b temp bytes t t' ∧ t'.node (b ++ ["profile.json"]) = some (.file bytes) := by
  have hdrop : ∀ name, t.Plain [] (b ++ [name]).dropLast := fun name => by
    rw [List.dropLast_concat]
    exact hw.1
  obtain ⟨n, hn, -, hdir, rfl⟩ := Tree.move_ok (hdrop _) (hdrop _) hmove
  have hne : b ++ [temp] ≠ b ++ ["profile.json"] := fun he =>
    htemp (List.head_eq_of_cons_eq (List.append_cancel_left he))
  rw [hnode] at hn
  cases hn
  rw [if_neg hne]
  have hremoved : ∀ q, q ≠ b ++ ["profile.json"] → q ≠ b ++ [temp] →
      ((t.remove (b ++ [temp])).put (b ++ ["profile.json"]) (.file bytes)).node q = t.node q :=
    fun q hq hq' => (Tree.node_put_of_ne hq).trans (Tree.node_remove_of_ne hq')
  have hnew : ((t.remove (b ++ [temp])).put (b ++ ["profile.json"]) (.file bytes)).node
      (b ++ ["profile.json"]) = some (.file bytes) := Tree.node_put_self (by simp)
  refine ⟨⟨fun q hq => .inl ?_, .inr (.inl ?_), .inr ⟨hdir, hnew⟩, fun q _ hq hq' => ?_⟩, hnew⟩
  · exact hremoved q (fun he => not_below_dir b _ (he ▸ hq)) fun he =>
      not_below_dir b temp (he ▸ hq)
  · rw [Tree.node_put_of_ne hne, Tree.node_remove_self (by simp)]
  · exact hremoved q hq' hq

theorem metaWrite_put (htemp : temp ≠ "profile.json") (new : Bytes) :
    MetaWrite b temp bytes t (t.put (b ++ [temp]) (.file new)) :=
  metaWrite_temp htemp (.inr ⟨new, rfl⟩) fun _ => Tree.node_put (by simp)

theorem keeps_createDir : Keeps (MetaWrite b temp bytes) (Writable b temp) (createDirAll b)
    (onOk fun _ t => Writable b temp t) := by
  refine .createDirAll (fun t q ht hq => ht.1.above ((List.dropLast_prefix q).trans hq))
    fun t q ht hq => ?_
  have hdir : MetaWrite b temp bytes t (t.put q .dir) := metaWrite_dir ht hq
  exact ⟨hdir, ht.metaWrite hdir⟩

theorem keeps_writeTemp (htemp : temp ≠ "profile.json") (hname : temp ≠ "..") :
    Keeps (MetaWrite b temp bytes) (Writable b temp) (writeFile (b ++ [temp]) bytes)
      (onOk fun _ t => Writable b temp t ∧ t.node (b ++ [temp]) = some (.file bytes)) := by
  refine .writeFile hname (fun t ht => ht) fun t new ht => ?_
  have hput : MetaWrite b temp bytes t (t.put (b ++ [temp]) (.file new)) := metaWrite_put htemp new
  exact ⟨hput, ht.metaWrite hput⟩

theorem keeps_rename (htemp : temp ≠ "profile.json") : Keeps (MetaWrite b temp bytes)
    (fun t => Writable b temp t ∧ t.node (b ++ [temp]) = some (.file bytes))
    (rename (b ++ [temp]) (b ++ ["profile.json"])) fun _ t => Writable b temp t := by
  refine .change (fun t _ t' ht hact => ?_) fun t _ ht => ht.1
  obtain ⟨hmove, -⟩ := metaWrite_move ht.1 htemp ht.2 hact
  exact ⟨hmove, ht.1.metaWrite hmove⟩

theorem keeps_removeTemp (htemp : temp ≠ "profile.json") : Keeps (MetaWrite b temp bytes)
    (Writable b temp) (removeFile (b ++ [temp])) fun _ t => Writable b temp t := by
  refine .removeFile (fun t ht => by rw [List.dropLast_concat]; exact ht.1) fun t ht => ?_
  have hremove : MetaWrite b temp bytes t (t.remove (b ++ [temp])) := by
    refine metaWrite_temp htemp (.inl rfl) fun q => ?_
    split
    · rename_i hq
      rw [hq, Tree.node_remove_self (by simp)]
    · rename_i hq
      exact Tree.node_remove_of_ne hq
  exact ⟨hremove, ht.metaWrite hremove⟩

end MetaWrite

theorem toList_tempName (temp : Uuid) :
    (tempName temp).toList = '.' :: (temp.digits ++ ".tmp".toList) := by
  simp [tempName]

theorem tempName_ne (temp : Uuid) {name : FileName} (h : name.toList.head? ≠ some '.') :
    tempName temp ≠ name := by
  rintro rfl
  rw [toList_tempName] at h
  exact h rfl

theorem tempName_ne_parent (temp : Uuid) : tempName temp ≠ ".." := by
  intro he
  have hlength := congrArg List.length (toList_tempName temp)
  rw [he, List.length_cons, List.length_append, Uuid.length_digits] at hlength
  exact absurd hlength (by decide)

section Writing

variable {Time : Type} [Chrono Time]

/-- `write_meta` may stop at any point, with nothing else touched. -/
theorem keeps_writeMeta (s : FileProfileStore) (profile : Ipc.Profile Time) (temp : Uuid) : Keeps
    (MetaWrite (s.profileDir profile.id) (tempName temp) (toVecPretty profile))
    (Writable (s.profileDir profile.id) (tempName temp)) (s.writeMeta profile temp)
    (onOk fun _ t => Writable (s.profileDir profile.id) (tempName temp) t) := by
  have htemp : tempName temp ≠ "profile.json" := tempName_ne temp (by decide)
  refine .bind (keeps_createDir.adapt _) fun _ => ?_
  refine .bind ((keeps_writeTemp htemp (tempName_ne_parent temp)).adapt _) fun _ => ?_
  refine .bind (keeps_rename htemp).attempt fun r => ?_
  rcases r with e | _
  · exact .bind (keeps_removeTemp htemp).attempt fun _ => .throw _
  · exact .pure fun _ ht => ht

/-- What is written is not the profile's own only where it is there already or cannot be put. -/
theorem SameProfile.of_metaWrite {temp : FileName} {bytes : Bytes}
    (h : MetaWrite (s.profileDir id) temp bytes t t')
    (htemp : temp ≠ "profile.lock" ∧ temp ≠ "data")
    (hmeta : t.node (s.metaPath id) = some .dir ∨ t.node (s.metaPath id) = some (.file bytes)) :
    s.SameProfile id t t' := by
  have hentry : ∀ (name : FileName) p, s.profileDir id ++ [name] <+: p → name ≠ temp →
      name ≠ "profile.json" → t'.node p = t.node p := by
    intro name p hp hname hname'
    have hne : ∀ other, other ≠ name → p ≠ s.profileDir id ++ [other] := by
      intro other hother he
      subst he
      have hsame := hp.eq_of_length (by simp)
      exact hother (List.head_eq_of_cons_eq (List.append_cancel_left hsame)).symm
    refine h.rest p (fun hway => not_below_dir _ name (hp.trans hway)) (hne _ hname.symm)
      (hne _ hname'.symm)
  refine ⟨?_, hentry _ _ List.prefix_rfl htemp.1.symm (by decide), fun p hp =>
    hentry _ p hp htemp.2.symm (by decide)⟩
  rcases h.metadata with hsame | ⟨hdir, hnew⟩
  · exact hsame
  · rcases hmeta with hmeta | hmeta
    · exact absurd hmeta hdir
    · exact hnew.trans hmeta.symm

end Writing

/-! ### The operations -/

section Operations

variable {Time : Type} [Chrono Time] {profile : Ipc.Profile Time} {temp : Uuid}

/-- What a read of the metadata finds is what the directory holds. -/
theorem keeps_readMeta (s : FileProfileStore) (id : ProfileId) (t : Tree) :
    Keeps Eq (· = t) (s.readMeta id : Run Error (Ipc.Profile Time)) (onOk fun profile u =>
      u = t ∧ s.storedMeta t id = some profile) := by
  have hread : Keeps Eq (· = t) (readFile (s.metaPath id)) fun r u => u = t ∧
      ∀ bytes, r = .ok bytes → t.bytesAt (s.metaPath id) = .ok bytes := by
    refine .query (fun u hu => ⟨hu, fun bytes hr => ?_⟩) fun u e hu => ⟨hu, nofun⟩
    rw [← hu]
    exact hr
  refine .bind hread.attempt fun r => ?_
  rcases r with e | bytes
  · cases e <;> exact .throw _
  · simp only
    split
    · rename_i profile hprofile
      refine .pure fun u hu => ⟨hu.1, ?_⟩
      rw [storedMeta, hu.2 bytes rfl]
      exact hprofile
    · exact .throw _

/-- An operation that reads metadata and goes on leaves what it goes on to. -/
theorem eval_readMeta {α : Type} (f : Ipc.Profile Time → Run Error α) (w : World)
    {Q : Tree → Prop} (herr : Q w.tree)
    (hok : ∀ profile w', w'.tree = w.tree → s.storedMeta w.tree id = some profile →
      Q (eval (f profile) w').2.tree) : Q (eval (s.readMeta id >>= f) w).2.tree := by
  have hkeeps : Keeps Eq (· = w.tree) (s.readMeta id : Run Error (Ipc.Profile Time)) _ :=
    keeps_readMeta s id w.tree
  obtain ⟨htree, hread⟩ := hkeeps w rfl
  rw [eval_bind]
  rcases heval : eval (s.readMeta id : Run Error (Ipc.Profile Time)) w with ⟨e | profile, u⟩
  · rw [heval] at htree
    exact htree ▸ herr
  · rw [heval] at htree hread
    exact hok profile u htree.symm hread.2

/-- The trees that an operation may leave which goes on to write metadata. -/
def Writes (s : FileProfileStore) (t : Tree) (op : StoreOp Time) (temp : Uuid) (t' : Tree) : Prop :=
  t' = t ∨ ∃ profile, s.rewritten t op = some profile ∧
    MetaWrite (s.profileDir profile.id) (tempName temp) (toVecPretty profile) t t'

theorem writes_writeMeta {op : StoreOp Time} {w : World} (htree : w.tree = t)
    (hw : ∀ id, Writable (s.profileDir id) (tempName temp) t)
    (hop : s.rewritten t op = some profile) :
    s.Writes t op temp (eval (s.writeMeta profile temp) w).2.tree := by
  obtain ⟨hwrite, -⟩ := keeps_writeMeta s profile temp w (by rw [htree]; exact hw profile.id)
  rw [htree] at hwrite
  exact .inr ⟨profile, hop, hwrite⟩

theorem writes_touchLaunch (hw : ∀ id, Writable (s.profileDir id) (tempName temp) t) (now : Time)
    (faults : List (Option Fault)) : s.Writes t (.touchLaunch id now temp) temp
      (eval (s.touchLaunch id now temp) ⟨t, faults⟩).2.tree := by
  refine eval_readMeta _ ⟨t, faults⟩ (.inl rfl) fun profile w' htree hstored => ?_
  refine writes_writeMeta htree hw ?_
  rw [rewritten, hstored]
  rfl

theorem writes_update (hw : ∀ id, Writable (s.profileDir id) (tempName temp) t)
    (patch : Ipc.ProfilePatch) (faults : List (Option Fault)) :
    s.Writes t (.update id patch temp : StoreOp Time) temp
      (eval (s.update id patch temp : Run Error (Ipc.Profile Time)) ⟨t, faults⟩).2.tree := by
  refine eval_readMeta _ ⟨t, faults⟩ (.inl rfl) fun profile w' htree hstored => ?_
  split
  · have hread : (eval (s.loadRefreshed id : Run Error (Ipc.Profile Time)) w').2.tree = w'.tree :=
      loadRefreshed_readOnly id w'
    exact .inl (hread.trans htree)
  · rename_i hempty
    rw [eval_bind]
    cases hpatch : applyPatch profile.spec patch with
    | error e => exact .inl htree
    | ok spec =>
      simp only [ofResult, eval_pure]
      have hload : ∀ _ : Unit, ReadOnly (s.loadRefreshed id : Run Error (Ipc.Profile Time)) :=
        fun _ => loadRefreshed_readOnly id
      rw [ReadOnly.after hload]
      refine writes_writeMeta htree hw ?_
      simp only [rewritten, hstored, Option.bind_some, if_neg hempty, hpatch, Except.toOption,
        Option.map_some]

/-- An operation that goes on to write none but its own metadata, or none that change anything,
leaves the other profiles as they are. -/
theorem SameProfile.of_writes {op : StoreOp Time} (hown : s.OwnMetadata t op)
    (h : s.Writes t op temp t') (hother : op.profile ≠ some other) : s.SameProfile other t t' := by
  rcases h with rfl | ⟨profile, hprofile, hwrite⟩
  · exact ⟨rfl, rfl, fun _ _ => rfl⟩
  · by_cases hid : other = profile.id
    · subst hid
      exact .of_metaWrite hwrite ⟨tempName_ne temp (by decide), tempName_ne temp (by decide)⟩
        ((hown profile hprofile).resolve_left hother)
    · exact .of_inside hwrite.inside hid

/-- A new entry in the directory of the store's own making, or a file in it. -/
theorem plain_entry (h : t.Plain [] (s.profileDir id)) (name : FileName) :
    t.Plain [] (s.profileDir id ++ [name]).dropLast := by
  rw [List.dropLast_concat]
  exact h

theorem entry_below (b : Path) (name : FileName) : b <+: b ++ [name] ∧ b ++ [name] ≠ b :=
  ⟨List.prefix_append _ _, fun he => not_below_dir b name (by rw [he])⟩

/-- `create` makes the directories of the profile that it then writes. -/
theorem keeps_createData (temp : Uuid) : Keeps (Tree.Inside (s.profileDir id))
    (Writable (s.profileDir id) (tempName temp)) (createDirAll (s.dataDir id))
    (onOk fun _ t => Writable (s.profileDir id) (tempName temp) t) := by
  have hway : ∀ q, q <+: s.dataDir id → q = s.dataDir id ∨ q <+: s.profileDir id := fun q hq =>
    List.prefix_concat_iff.mp hq
  have htemp : ∀ q, q <+: s.dataDir id → s.profileDir id ++ [tempName temp] ≠ q := by
    rintro q hq rfl
    rcases hway _ hq with he | hq
    · have hname : tempName temp ≠ "data" := tempName_ne temp (by decide)
      exact hname (List.head_eq_of_cons_eq (List.append_cancel_left he))
    · exact not_below_dir _ _ hq
  refine .createDirAll (fun t q ht hq => ?_) fun t q ht hq => ?_
  · rcases hway q hq with rfl | hq
    · exact plain_entry ht.1 "data"
    · exact ht.1.above ((List.dropLast_prefix q).trans hq)
  · have hinside : t.Inside (s.profileDir id) (t.put q .dir) :=
      Tree.inside_putDir ((hway q hq).imp_left fun he => by
        rw [he]
        exact List.prefix_append _ _)
    refine ⟨hinside, ht.1.inside hinside, ?_⟩
    rw [Tree.node_put_of_ne (htemp q hq)]
    exact ht.2

theorem keeps_create (spec : Ipc.ProfileSpec) (now : Time) : Keeps (Tree.Inside (s.profileDir id))
    (Writable (s.profileDir id) (tempName temp)) (s.create spec id temp now)
    (onOk fun _ _ => True) := by
  have hvalid : ReadOnly (ofResult spec.toCore.validate) := by
    cases spec.toCore.validate with
    | error e => exact .throw e
    | ok _ => exact .pure _
  refine .bind hvalid.keeps fun _ => .bind (ReadOnly.query _).attempt.keeps fun r => ?_
  rcases r with e | n
  · refine .bind ((keeps_createData temp).adapt _) fun _ => ?_
    have hwrite := keeps_writeMeta s ⟨id, spec, now, none, ⟨0⟩, false⟩ temp
    refine .bind (hwrite.weaken fun _ _ h => h.inside) fun _ => ?_
    exact (loadRefreshed_readOnly id).keeps.mono (fun _ ht => ht) fun r _ _ => by
      cases r <;> trivial
  · exact .throw _

theorem keeps_acquireLock (token : LockToken) : Keeps (Tree.Inside (s.profileDir id))
    (Tree.Plain · [] (s.profileDir id)) (s.acquireLock id token) (onOk fun _ _ => True) := by
  obtain ⟨hbelow, hne⟩ := entry_below (s.profileDir id) "profile.lock"
  have hopen : Keeps (Tree.Inside (s.profileDir id)) (Tree.Plain · [] (s.profileDir id))
      (openNew (s.lockPath id)) fun r t => t.Plain [] (s.profileDir id) ∧
        ∀ q, r = .ok q → q = s.lockPath id := by
    refine .openNew (fun t ht => plain_entry ht _) fun t ht => ?_
    have hinside : t.Inside (s.profileDir id) (t.put (s.lockPath id) (.file [])) :=
      Tree.inside_put hbelow hne (by simp)
    exact ⟨hinside, ht.inside hinside⟩
  refine .bind (ReadOnly.query _).attempt.keeps fun r => ?_
  rcases r with e | n
  · exact .throw _
  refine .bind hopen.attempt fun r => ?_
  rcases r with e | q
  · cases e <;> exact .throw _
  intro w hw
  obtain rfl : q = s.lockPath id := hw.2 q rfl
  have hwrite : Keeps (Tree.Inside (s.profileDir id)) (fun _ => True)
      (writeAll (s.lockPath id) 0 (tokenBytes token)) (onOk fun _ _ => True) :=
    .writeAll fun t new _ => ⟨Tree.inside_splice hbelow hne 0 new, trivial⟩
  have hrest : Keeps (Tree.Inside (s.profileDir id)) (fun _ => True) (do
      raise (writeAll (s.lockPath id) 0 (tokenBytes token))
      raise checkpoint
      return (⟨id, token⟩ : ProfileLease)) (onOk fun _ _ => True) := by
    refine .bind (hwrite.adapt _) fun _ => ?_
    exact .bind (Keeps.checkpoint.adapt _) fun _ => .pure fun _ ht => ht
  exact hrest w trivial

theorem keeps_releaseLock (lease : ProfileLease) :
    Keeps (Tree.Inside (s.profileDir lease.profile)) (Tree.Plain · [] (s.profileDir lease.profile))
      (s.releaseLock lease) (onOk fun _ _ => True) := by
  have hremove : Keeps (Tree.Inside (s.profileDir lease.profile))
      (Tree.Plain · [] (s.profileDir lease.profile)) (removeFile (s.lockPath lease.profile))
      fun _ t => t.Plain [] (s.profileDir lease.profile) :=
    .removeFile (fun t ht => plain_entry ht _) fun t ht =>
      inside_remove_plain ht (List.prefix_append _ _)
  refine .bind (ReadOnly.query _).attempt.keeps fun r => ?_
  rcases r with e | held
  · cases e <;> exact .throw _
  · simp only
    split
    · exact .throw _
    · refine (hremove.mono (fun _ ht => ht) fun r _ _ => ?_).adapt _
      cases r <;> trivial

theorem keeps_delete (id : ProfileId) : Keeps (Tree.Inside (s.profileDir id))
    (Tree.Plain · [] (s.profileDir id)) (s.delete id) (onOk fun _ _ => True) := by
  refine .bind (ReadOnly.query _).attempt.keeps fun r => ?_
  rcases r with e | n
  · exact .throw _
  · refine ((s.shredder.keeps _).mono (fun _ ht => ht) fun r _ _ => ?_).adapt _
    cases r <;> trivial

/-- Where nothing fails, `write_meta` leaves the metadata it was given. -/
theorem eval_writeMeta (h : t.Plain [] (s.profileDir profile.id))
    (hfresh : t.node (s.profileDir profile.id ++ [tempName temp]) = none)
    (hdir : t.node (s.metaPath profile.id) ≠ some .dir) :
    (eval (s.writeMeta profile temp) ⟨t, []⟩).2.tree.node (s.metaPath profile.id) =
      some (.file (toVecPretty profile)) := by
  have hne : tempName temp ≠ "profile.json" := tempName_ne temp (by decide)
  obtain ⟨u, hu, hs, hsame⟩ := eval_createDirAll h
  have hnone : u.node (s.profileDir profile.id ++ [tempName temp]) = none :=
    (hsame _ (not_below_dir _ _)).trans hfresh
  have hmeta : u.node (s.profileDir profile.id ++ ["profile.json"]) ≠ some .dir :=
    fun he => hdir ((hsame _ (not_below_dir _ _)).symm.trans he)
  have hwrite := eval_writeFile hs (tempName_ne_parent temp) hnone (toVecPretty profile)
  -- The tree with the temporary file written.
  generalize hv : (u.put (s.profileDir profile.id ++ [tempName temp]) (.file [])).put
    (s.profileDir profile.id ++ [tempName temp]) (.file (toVecPretty profile)) = v at hwrite
  have hvnode : ∀ q, q ≠ s.profileDir profile.id ++ [tempName temp] → v.node q = u.node q := by
    intro q hq
    rw [← hv, Tree.node_put_of_ne hq, Tree.node_put_of_ne hq]
  have hvs : v.Straight [] (s.profileDir profile.id) :=
    hs.congr fun q hq => hvnode q fun he => not_below_dir _ _ (he ▸ hq)
  have htemp : v.node (s.profileDir profile.id ++ [tempName temp]) =
      some (.file (toVecPretty profile)) := by
    rw [← hv]
    exact Tree.node_put_self (by simp)
  have hvmeta : v.node (s.profileDir profile.id ++ ["profile.json"]) ≠ some .dir := by
    rw [hvnode _ fun he => hne (List.head_eq_of_cons_eq (List.append_cancel_left he)).symm]
    exact hmeta
  have hrename := eval_rename (Tree.move_straight hvs htemp hvmeta hne)
  simp only [writeMeta, raise, metaPath, eval_bind, eval_adapt, eval_attempt, hu, hwrite, hrename,
    Except.mapError, eval_pure]
  exact Tree.node_put_self (by simp)

/-- What an operation may leave of a tree: what is inside its own profile's directory differs, or
what a write of metadata makes different. -/
def Touches (s : FileProfileStore) (t : Tree) (op : StoreOp Time) (t' : Tree) : Prop :=
  (∃ id, op.profile = some id ∧ t.Inside (s.profileDir id) t') ∨ t' = t ∨
    ∃ temp ∈ op.temp, s.Writes t op temp t'

/-- The way to the directories stays plain. -/
theorem plain_of_inside (hplain : ∀ id, t.Plain [] (s.profileDir id))
    (hi : t.Inside (s.profileDir id) t') (other : ProfileId) :
    t'.Plain [] (s.profileDir other) := by
  refine (hplain other).of_nodes fun q hq => ?_
  rcases hi q with hsame | ⟨hbelow | habove, -, hway⟩
  · exact .inl hsame
  · obtain rfl : id = other := id_eq_of_below (hbelow.trans hq) List.prefix_rfl
    exact .inr (hway hq)
  · exact .inr (hway habove)

/-- A store stays a store. -/
theorem Touches.plain {op : StoreOp Time} (hplain : ∀ id, t.Plain [] (s.profileDir id))
    (h : s.Touches t op t') : ∀ id, t'.Plain [] (s.profileDir id) := by
  rcases h with ⟨id, -, hinside⟩ | rfl | ⟨temp, -, rfl | ⟨profile, -, hwrite⟩⟩
  · exact plain_of_inside hplain hinside
  · exact hplain
  · exact hplain
  · exact plain_of_inside hplain hwrite.inside

/-- An operation that would write no other profile's metadata touches no other profile. -/
theorem Touches.sameProfile {op : StoreOp Time} (h : s.Touches t op t') (hown : s.OwnMetadata t op)
    (hother : op.profile ≠ some other) : s.SameProfile other t t' := by
  rcases h with ⟨id, hid, hinside⟩ | rfl | ⟨temp, -, hwrites⟩
  · exact .of_inside hinside fun he => hother (he ▸ hid)
  · exact ⟨rfl, rfl, fun _ _ => rfl⟩
  · exact .of_writes hown hwrites hother

/-! ### Where nothing fails -/

theorem eval_readMeta_stored (h : s.storedMeta t id = some profile) :
    eval (s.readMeta id : Run Error (Ipc.Profile Time)) ⟨t, []⟩ = (.ok profile, ⟨t, []⟩) := by
  obtain ⟨bytes, hbytes, hprofile⟩ := Option.bind_eq_some_iff.mp h
  have hread : eval (readFile (s.metaPath id)) ⟨t, []⟩ = (.ok bytes, ⟨t, []⟩) := by
    refine eval_query ?_
    cases hok : t.bytesAt (s.metaPath id) with
    | error e => rw [hok] at hbytes; cases hbytes
    | ok b => rw [hok] at hbytes; cases hbytes; rfl
  simp only [readMeta, eval_bind, eval_attempt, hread, hprofile, eval_pure]

/-- What an operation goes on to write over other metadata, it leaves there. -/
theorem node_perform_rewritten [Ord Time] {op : StoreOp Time} (h : s.rewritten t op = some profile)
    (hplain : t.Plain [] (s.profileDir profile.id))
    (hfresh : ∀ temp ∈ op.temp, t.node (s.profileDir profile.id ++ [tempName temp]) = none)
    (hdir : t.node (s.metaPath profile.id) ≠ some .dir) :
    (eval (s.perform op) ⟨t, []⟩).2.tree.node (s.metaPath profile.id) =
      some (.file (toVecPretty profile)) := by
  cases op with
  | update id patch temp =>
    obtain ⟨found, hstored, hrest⟩ := Option.bind_eq_some_iff.mp h
    split at hrest
    · cases hrest
    · rename_i hempty
      obtain ⟨spec, hspec, rfl⟩ := Option.map_eq_some_iff.mp hrest
      have hpatch : applyPatch found.spec patch = .ok spec := by
        cases hp : applyPatch found.spec patch with
        | error e => rw [hp] at hspec; cases hspec
        | ok spec' => rw [hp] at hspec; cases hspec; rfl
      have hload : ∀ _ : Unit, ReadOnly (s.loadRefreshed id : Run Error (Ipc.Profile Time)) :=
        fun _ => loadRefreshed_readOnly id
      rw [perform, ReadOnly.after fun _ => .pure _, update, eval_bind, eval_readMeta_stored hstored]
      simp only [if_neg hempty, eval_bind, hpatch, ofResult, eval_pure]
      rw [← eval_bind, ReadOnly.after hload]
      exact eval_writeMeta hplain (hfresh temp rfl) hdir
  | touchLaunch id now temp =>
    obtain ⟨found, hstored, rfl⟩ := Option.map_eq_some_iff.mp h
    rw [perform, ReadOnly.after fun _ => .pure _, touchLaunch, eval_bind,
      eval_readMeta_stored hstored]
    exact eval_writeMeta hplain (hfresh temp rfl) hdir
  | _ => cases h

end Operations

variable {Time : Type} [Chrono Time] [Ord Time]

theorem touches_perform (op : StoreOp Time) (hplain : ∀ id, t.Plain [] (s.profileDir id))
    (hfresh : ∀ temp ∈ op.temp, ∀ id, t.node (s.profileDir id ++ [tempName temp]) = none)
    (faults : List (Option Fault)) :
    s.Touches t op (eval (s.perform op) ⟨t, faults⟩).2.tree := by
  have hreply : ∀ {α : Type} (m : Run Error α) (f : α → Reply Time),
      (eval (m >>= fun a => pure (f a)) ⟨t, faults⟩).2.tree = (eval m ⟨t, faults⟩).2.tree :=
    fun m f => ReadOnly.after (fun a => .pure (f a)) _
  have hwritable : ∀ temp ∈ op.temp, ∀ id, Writable (s.profileDir id) (tempName temp) t :=
    fun temp htemp id => ⟨hplain id, .inl (hfresh temp htemp id)⟩
  cases op with
  | create spec id temp now =>
    rw [perform, hreply]
    exact .inl ⟨id, rfl, (keeps_create spec now ⟨t, faults⟩ (hwritable temp rfl id)).1⟩
  | get id =>
    rw [perform, hreply]
    exact .inr (.inl (loadRefreshed_readOnly id _))
  | list =>
    rw [perform, hreply]
    exact .inr (.inl (list_readOnly _))
  | update id patch temp =>
    rw [perform, hreply]
    exact .inr (.inr ⟨temp, rfl, writes_update (hwritable temp rfl) patch faults⟩)
  | delete id =>
    rw [perform, hreply _ fun _ => .done]
    exact .inl ⟨id, rfl, (keeps_delete id ⟨t, faults⟩ (hplain id)).1⟩
  | acquireLock id token =>
    rw [perform, hreply]
    exact .inl ⟨id, rfl, (keeps_acquireLock token ⟨t, faults⟩ (hplain id)).1⟩
  | releaseLock lease =>
    rw [perform, hreply _ fun _ => .done]
    exact .inl ⟨lease.profile, rfl, (keeps_releaseLock lease ⟨t, faults⟩ (hplain _)).1⟩
  | touchLaunch id now temp =>
    rw [perform, hreply _ fun _ => .done]
    exact .inr (.inr ⟨temp, rfl, writes_touchLaunch (hwritable temp rfl) now faults⟩)

/-- A tree with the store in it: the way to each profile's directory is made of directories as far
as it goes. What lies in the profiles' directories may be anything. -/
structure Stored (s : FileProfileStore) where
  tree : Tree
  plain : ∀ id, tree.Plain [] (s.profileDir id)

/-- No directory has a temporary file of this identifier. -/
def Unused (s : FileProfileStore) (t : Tree) (temp : Uuid) : Prop :=
  ∀ id, t.node (s.profileDir id ++ [tempName temp]) = none

namespace Stored

/-- What an operation leaves of a store is a store, whatever fails. -/
def perform (u : s.Stored) (op : StoreOp Time) (hfresh : ∀ temp ∈ op.temp, s.Unused u.tree temp)
    (faults : List (Option Fault)) : s.Stored :=
  ⟨(eval (s.perform op) ⟨u.tree, faults⟩).2.tree,
    (touches_perform op u.plain hfresh faults).plain u.plain⟩

end Stored

theorem isolated_of_ownMetadata {u : s.Stored} {op : StoreOp Time}
    (hfresh : ∀ temp ∈ op.temp, s.Unused u.tree temp) (hown : s.OwnMetadata u.tree op) :
    s.Isolated u.tree op := by
  intro faults other hother
  have htouches := touches_perform op u.plain hfresh faults
  exact htouches.sameProfile hown hother

theorem ownMetadata_of_isolated {u : s.Stored} {op : StoreOp Time}
    (hfresh : ∀ temp ∈ op.temp, s.Unused u.tree temp) (hisolated : s.Isolated u.tree op) :
    s.OwnMetadata u.tree op := by
  intro profile hprofile
  by_cases hown : op.profile = some profile.id
  · exact .inl hown
  by_cases hdir : u.tree.node (s.metaPath profile.id) = some .dir
  · exact .inr (.inl hdir)
  -- With no fault the metadata are written, and they are another profile's.
  have hwritten := node_perform_rewritten hprofile (u.plain profile.id)
    (fun temp htemp => hfresh temp htemp profile.id) hdir
  have hsame := (hisolated [] profile.id hown).metadata
  exact .inr (.inr (hsame.symm.trans hwritten))

/-- The order of the texts. -/
instance : Ord Ipc.Stamp where
  compare a b := compare a.text b.text

/-- A profile's directory put in a store, with the bytes of its metadata. -/
def Stored.stock (u : s.Stored) (id : ProfileId) (bytes : Bytes) : s.Stored where
  tree := ((u.tree.put s.root .dir).put (s.profileDir id) .dir).put (s.metaPath id) (.file bytes)
  plain := by
    obtain ⟨hbelow, hne⟩ := entry_below (s.profileDir id) "profile.json"
    have hroot : u.tree.Inside (s.profileDir id) (u.tree.put s.root .dir) :=
      Tree.inside_putDir (.inr (profileDir_below_root s id).1)
    have hdir : (u.tree.put s.root .dir).Inside (s.profileDir id)
        ((u.tree.put s.root .dir).put (s.profileDir id) .dir) :=
      Tree.inside_putDir (.inl List.prefix_rfl)
    have hmeta := trans_of _ (trans_of _ hroot hdir)
      (Tree.inside_put hbelow hne (n := .file bytes) (by simp))
    exact plain_of_inside u.plain hmeta

/-- A store in a directory at the top, with nothing in it yet. -/
def atTop : FileProfileStore := ⟨["profiles"], .removeOnly, fun _ => "expected value"⟩

theorem display_ne_parent (u : Uuid) : u.display ≠ ".." := by
  intro h
  have hlength := congrArg (List.length ∘ String.toList) h
  simp [Uuid.display, Uuid.length_digits] at hlength

def atTop.empty : atTop.Stored where
  tree := ∅
  plain id := ⟨by decide, .inr rfl, display_ne_parent _, .inr rfl, trivial⟩

/-- The metadata of a profile that was never launched. -/
def workProfile (id : ProfileId) : Ipc.Profile Ipc.Stamp :=
  ⟨id, ⟨"work", .persistent, .default, .strict, .hostProcess, .firefox, some .strict,
    .secureDefault⟩, .sent, none, ⟨0⟩, false⟩

theorem storedMeta_of_node {Time : Type} [Chrono Time] {profile : Ipc.Profile Time}
    (hdir : t.Straight [] (s.profileDir id))
    (hnode : t.node (s.metaPath id) = some (.file (toVec profile))) :
    s.storedMeta t id = some profile := by
  have hlink : ∀ target, t.node (s.metaPath id) ≠ some (.link target) := by
    rw [hnode]
    simp
  have hresolve : t.resolve (s.metaPath id) = .ok (s.metaPath id) :=
    Tree.resolve_entry_straight hdir (by decide) hlink
  have hbytes : t.bytesAt (s.metaPath id) = .ok (toVec profile) := by
    rw [Tree.bytesAt, hresolve]
    simp only [Except.bind, hnode]
  simp only [storedMeta, hbytes, Except.toOption, Option.bind_some, fromSlice_toVec]

theorem node_stock (u : atTop.Stored) (id : ProfileId) (bytes : Bytes) (q : Path) :
    (u.stock id bytes).tree.node q = if q = atTop.metaPath id then some (.file bytes)
      else if q = atTop.profileDir id ∨ q = ["profiles"] then some .dir else u.tree.node q := by
  have hmeta : atTop.metaPath id ≠ [] := by simp [metaPath]
  have hdir : atTop.profileDir id ≠ [] := by simp [profileDir]
  rw [Stored.stock, Tree.node_put hmeta, Tree.node_put hdir, Tree.node_put (by decide)]
  by_cases hd : q = atTop.profileDir id
  · simp only [hd, true_or, if_true]
  · simp only [hd, false_or, if_false]
    rfl

/-- The directory of `id` with metadata of `profile`, beside the profile ⟨8⟩. -/
def pair (profile : Ipc.Profile Ipc.Stamp) : atTop.Stored :=
  (atTop.empty.stock ⟨7⟩ (toVec profile)).stock ⟨8⟩ (toVec (workProfile ⟨8⟩))

theorem unused_pair (profile : Ipc.Profile Ipc.Stamp) (temp : Uuid) :
    atTop.Unused (pair profile).tree temp := by
  intro id
  have hentry : ∀ other : ProfileId, atTop.profileDir id ++ [tempName temp] ≠
      atTop.metaPath other ∧ ¬ (atTop.profileDir id ++ [tempName temp] = atTop.profileDir other ∨
        atTop.profileDir id ++ [tempName temp] = ["profiles"]) := by
    intro other
    have hname : tempName temp ≠ "profile.json" := tempName_ne temp (by decide)
    simp [metaPath, profileDir, atTop, hname]
  simp only [pair, node_stock, if_neg (hentry _).1, if_neg (hentry _).2]
  rfl

theorem storedMeta_pair (profile : Ipc.Profile Ipc.Stamp) :
    atTop.storedMeta (pair profile).tree ⟨7⟩ = some profile := by
  have hne : ¬ (⟨7⟩ : ProfileId) = ⟨8⟩ := by decide
  have hmeta : atTop.metaPath ⟨7⟩ ≠ atTop.metaPath ⟨8⟩ := by
    intro he
    have hbelow : atTop.profileDir ⟨8⟩ <+: atTop.metaPath ⟨7⟩ := he ▸ (entry_below _ _).1
    exact hne (id_eq_of_below (entry_below _ _).1 hbelow)
  refine storedMeta_of_node ⟨by decide, ?_, display_ne_parent _, ?_, trivial⟩ ?_
  · simp only [pair, node_stock]
    simp [metaPath, profileDir, atTop]
  · simp only [pair, node_stock]
    simp [metaPath, profileDir, atTop]
  · simp only [pair, node_stock, if_neg hmeta]
    simp [metaPath, profileDir, atTop]

end FileProfileStore

end Aegis.Store
