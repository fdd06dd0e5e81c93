import Aegis.Store.Serial

/-! What is stored for each profile, and what each writing call that succeeded does to it: the
sequential execution that concurrent calls are compared with, and where each call stands in it. -/
namespace Aegis.Store
open FileTree Transition

/-- What is stored for each profile. -/
abbrev MetaMap := ProfileId → Option StoredProfile

/-- A writing call that succeeded. -/
inductive Write where
  | create (id : ProfileId) (spec : ProfileSpec) (createdAt : ℕ)
  | update (id : ProfileId) (patch : ProfilePatch)
  | touch (id : ProfileId) (time : ℕ)
  | delete (id : ProfileId)

def newProfile (id : ProfileId) (spec : ProfileSpec) (createdAt : ℕ) : StoredProfile :=
  ⟨⟨id, spec⟩, createdAt, none, 0, false⟩

/-- What the call does on its own; there must be a profile to update or touch. -/
def Write.apply (m : MetaMap) : Write → Option MetaMap
  | create id spec createdAt => some (Function.update m id (some (newProfile id spec createdAt)))
  | update id patch =>
    match m id with
    | none => none
    | some profile =>
      if patch.isEmpty then some m
      else match patch.apply profile.spec with
        | .error _ => none
        | .ok spec => some (Function.update m profile.id (some { profile with spec := spec }))
  | touch id time =>
    match m id with
    | none => none
    | some profile =>
      some (Function.update m profile.id (some { profile with lastLaunched := some time }))
  | delete id => some (Function.update m id none)

/-- One call after another. -/
def sequential (m : MetaMap) : List Write → Option MetaMap
  | [] => some m
  | w :: ws => (w.apply m).bind fun m' => sequential m' ws

theorem sequential_append (m : MetaMap) (ws : List Write) (w : Write) :
    sequential m (ws ++ [w]) = (sequential m ws).bind w.apply := by
  induction ws generalizing m with
  | nil => simp only [List.nil_append, sequential, Option.bind_some, Option.bind_fun_some]
  | cons v ws ih =>
    simp only [List.cons_append, sequential, Option.bind_assoc]
    exact congrArg _ (funext fun m' => ih m')

/-- The write that a call stands for which has returned. -/
def Outcome.write (o : Outcome) : Option Write :=
  match o.req, o.reply with
  | .create spec, .profile (.ok profile) => some (.create profile.id spec profile.createdAt)
  | .update id patch, .profile (.ok _) => some (.update id patch)
  | .touchLaunch id time, .done (.ok ()) => some (.touch id time)
  | .delete id, .done (.ok ()) => some (.delete id)
  | _, _ => none

/-- The writing calls that have succeeded, in the order in which they returned. -/
def LiveStore.writes (s : LiveStore) : List Write := s.outcomes.reverse.filterMap Outcome.write

/-- The metadata that can be read. -/
def Disk.stored (d : Disk) : MetaMap := fun id =>
  match d.dirs.lookup id with
  | some (some i) => (d.parse id i).toOption
  | _ => none

/-- The record as it was written, without the fields that a reader computes. -/
def StoredProfile.bare (profile : StoredProfile) : StoredProfile :=
  { profile with storage := 0, locked := false }

/-- One of these records was read, and its storage and lock filled in. -/
def StoredProfile.ReadFrom (profile : StoredProfile) (files : List StoredProfile) : Prop :=
  ∃ record ∈ files, profile.bare = record.bare

/-- What a reader returns that met no failing file operation: that there is no profile, or records
that were written in full. -/
def Outcome.Whole (files : List StoredProfile) (o : Outcome) : Prop :=
  match o.req with
  | .get id => (∃ e, o.reply = .profile (.error (.notFound e))) ∨
      ∃ profile, o.reply = .profile (.ok profile) ∧ profile.id = id ∧ profile.ReadFrom files
  | .list => ∃ profiles, o.reply = .profiles (.ok profiles) ∧
      ∀ profile ∈ profiles, profile.ReadFrom files
  | _ => True

/-- Between writing calls, what is stored is what those that succeeded leave in turn; and every
reader has read whole records. -/
structure LiveStore.Serialised (s : LiveStore) : Prop where
  metadata : s.guard = none → sequential (fun _ => none) s.writes = some s.disk.stored
  readers : ∀ o ∈ s.outcomes, o.faulted = false → o.Whole s.disk.files

def RepoRequest.writes : RepoRequest → Bool
  | get _ | list => false
  | _ => true

/-- The metadata have been written that the call is to return. -/
def Phase.refreshes : Phase → Bool
  | opening _ .refresh | reading _ _ .refresh | sizing _ _ _ .refresh
  | sizeFile _ _ _ _ _ .refresh | statLock _ .refresh => true
  | _ => false

/-- A reader does not find a metadata file that is overwritten, and no file operation of a writing
call fails after the call has taken its effect on the metadata. -/
def Call.Harmless (d : Disk) (c : Call) (a : FileAct) : Prop :=
  match c.phase, a with
  | .reading _ i _, .file none => c.req.writes = true ∨ d.zeroed i = false
  | .overwriting id file _, .zero (some (n, _)) =>
    (d.stored id).isSome ∧ (file = ["profile.json"] → n = 0)
  | .removing id, .rmdir (some _) => (d.stored id).isSome
  | phase, a => a.fails = true → phase.refreshes = false

/-- The step is harmless. -/
def LiveStore.Unharmed (s : LiveStore) : LiveOp → Prop
  | .act t a => ∀ c, s.calls t = some c → c.Harmless s.disk a
  | _ => True

/-! ### What each call is at -/

/-- The purpose of a read of metadata is the request's. -/
def Aim.Fits (files : List StoredProfile) (req : RepoRequest) (id : ProfileId) : Aim → Prop
  | patch p => req = .update id p
  | touch time => req = .touchLaunch id time
  | load => req = .get id ∨ ∃ patch, req = .update id patch ∧ patch.isEmpty
  | refresh => (∃ spec, req = .create spec) ∨ ∃ patch, req = .update id patch
  | list out => req = .list ∧ ∀ profile ∈ out, profile.ReadFrom files

/-- The request writes metadata of the profile. -/
def RepoRequest.Stores (id : ProfileId) (req : RepoRequest) : Prop :=
  (∃ spec, req = .create spec) ∨ (∃ patch, req = .update id patch) ∨
    ∃ time, req = .touchLaunch id time

/-- A phase is one of the request's, and what it has read was written. -/
def Phase.Fits (files : List StoredProfile) (req : RepoRequest) : Phase → Prop
  | guarding => req.writes = true
  | statNew _ spec | makeData _ spec => req = .create spec
  | opening id aim => aim.Fits files req id
  | reading id i aim => aim.Fits files req id ∧ ∃ record, files[i]? = some record ∧ record.id = id
  | making profile | writing profile | replacing profile => req.Stores profile.id
  | clearing _ => req.writes = true
  | sizing profile _ _ aim | sizeFile profile _ _ _ _ aim | statLock profile aim =>
    aim.Fits files req profile.id ∧ profile.ReadFrom files
  | openRoot => req = .list
  | entries out => req = .list ∧ ∀ profile ∈ out, profile.ReadFrom files
  | statDir id | statTree id | finding id _ _ | overwriting id _ _ | removing id => req = .delete id

/-- The write of a request that is to return a profile takes `m` to `m'`. -/
def Due (m m' : MetaMap) (profile : StoredProfile) : RepoRequest → Prop
  | .create spec => (Write.create profile.id spec profile.createdAt).apply m = some m'
  | .update id patch => (Write.update id patch).apply m = some m'
  | _ => True

/-- Renaming these metadata into place is the write of the request. -/
def Planned (m : MetaMap) (profile : StoredProfile) : RepoRequest → Prop
  | .create spec => profile = newProfile profile.id spec profile.createdAt
  | .update id patch => profile.id = id ∧
      (Write.update id patch).apply m = some (Function.update m id (some profile))
  | .touchLaunch id time => profile.id = id ∧
      (Write.touch id time).apply m = some (Function.update m id (some profile))
  | _ => False

/-- How far the call that holds the guard has come from `m`. -/
def Phase.Pending (m : MetaMap) (d : Disk) (req : RepoRequest) : Phase → Prop
  | guarding | openRoot | entries _ => True
  | statNew _ _ | makeData _ _ | clearing _ | statDir _ | statTree _ | finding _ _ _ => d.stored = m
  | opening id aim =>
    match aim with
    | .refresh =>
      ∃ profile, d.stored id = some profile ∧ profile.id = id ∧ Due m d.stored profile req
    | .load => d.stored = m ∧ ∀ profile, d.stored id = some profile → Due m m profile req
    | _ => d.stored = m
  | reading id i aim => d.dirs.lookup id = some (some i) ∧
    match aim with
    | .refresh =>
      ∃ profile, d.stored id = some profile ∧ profile.id = id ∧ Due m d.stored profile req
    | .load => d.stored = m ∧ ∀ profile, d.stored id = some profile → Due m m profile req
    | _ => d.stored = m
  | making profile | writing profile | replacing profile => d.stored = m ∧ Planned m profile req
  | sizing profile _ _ aim | sizeFile profile _ _ _ _ aim | statLock profile aim =>
    match aim with
    | .refresh => Due m d.stored profile req
    | _ => d.stored = m ∧ Due m m profile req
  | overwriting id _ _ | removing id =>
    (∀ other, other ≠ id → d.stored other = m other) ∧ (d.stored id = m id ∨ d.stored id = none)

/-! ### The disk -/

namespace Disk

variable {d d' : Disk} {id other : ProfileId} {i : Inode} {profile : StoredProfile}

/-- The metadata file of a profile was written with its identifier, and what is not written yet is
not overwritten. -/
structure Sound (d : Disk) : Prop where
  dirs : ∀ id i, d.dirs.lookup id = some (some i) → ∃ record, d.files[i]? = some record ∧
    record.id = id
  fresh : ∀ i, d.files.length ≤ i → d.zeroed i = false

theorem parse_ok : d.parse id i = .ok profile ↔
    d.zeroed i = false ∧ d.files[i]? = some profile := by
  unfold parse
  constructor
  · intro h
    split at h <;> cases h
    rename_i hz hf
    exact ⟨hz, hf⟩
  · rintro ⟨hz, hf⟩
    rw [hz, hf]

theorem stored_eq : d.stored id = some profile ↔
    ∃ i, d.dirs.lookup id = some (some i) ∧ d.parse id i = .ok profile := by
  unfold stored
  constructor
  · intro h
    split at h
    · rename_i i hi
      refine ⟨i, hi, ?_⟩
      cases hp : d.parse id i with
      | error e => rw [hp] at h; cases h
      | ok p => rw [hp] at h; cases h; rfl
    · cases h
  · rintro ⟨i, hi, hp⟩
    rw [hi]
    simp only [hp, Except.toOption]

/-- What is stored for a profile goes by its entry and that file. -/
theorem stored_congr (hdir : d'.dirs.lookup id = d.dirs.lookup id)
    (hfile : ∀ i, d.dirs.lookup id = some (some i) → d'.parse id i = d.parse id i) :
    d'.stored id = d.stored id := by
  unfold stored
  rw [hdir]
  split
  · rename_i i hi
    rw [hfile i hi]
  · rfl

theorem Sound.stored_id (h : d.Sound) (hp : d.stored id = some profile) : profile.id = id := by
  obtain ⟨i, hi, hparse⟩ := stored_eq.mp hp
  obtain ⟨record, hrecord, hid⟩ := h.dirs id i hi
  have hsame := (parse_ok.mp hparse).2
  rw [hrecord] at hsame
  cases hsame
  exact hid

theorem Sound.lt (h : d.Sound) (hi : d.dirs.lookup id = some (some i)) : i < d.files.length := by
  obtain ⟨record, hrecord, -⟩ := h.dirs id i hi
  exact (List.getElem?_eq_some_iff.mp hrecord).1

/-- A metadata file is one profile's. -/
theorem Sound.id_eq (h : d.Sound) (hid : d.dirs.lookup id = some (some i))
    (hother : d.dirs.lookup other = some (some i)) : id = other := by
  obtain ⟨record, hrecord, rfl⟩ := h.dirs id i hid
  obtain ⟨record', hrecord', rfl⟩ := h.dirs other i hother
  rw [hrecord] at hrecord'
  cases hrecord'
  rfl

theorem makeDir_files (d : Disk) (id : ProfileId) : (d.makeDir id).files = d.files := by
  unfold makeDir
  split <;> rfl

theorem makeDir_zeroed (d : Disk) (id : ProfileId) : (d.makeDir id).zeroed = d.zeroed := by
  unfold makeDir
  split <;> rfl

theorem makeDir_lookup (hi : (d.makeDir id).dirs.lookup other = some (some i)) :
    d.dirs.lookup other = some (some i) := by
  unfold makeDir at hi
  split at hi
  · exact hi
  · by_cases ho : other = id
    · subst ho
      rw [AList.lookup_insert] at hi
      cases hi
    · rwa [AList.lookup_insert_ne ho] at hi

theorem Sound.makeDir (h : d.Sound) (id : ProfileId) : (d.makeDir id).Sound where
  dirs other i hi := by
    rw [makeDir_files]
    exact h.dirs other i (makeDir_lookup hi)
  fresh i hi := by
    rw [makeDir_zeroed]
    exact h.fresh i (by rwa [makeDir_files] at hi)

theorem makeDir_stored (d : Disk) (id : ProfileId) : (d.makeDir id).stored = d.stored := by
  funext other
  unfold Disk.makeDir
  split
  · rfl
  · rename_i hnone
    by_cases ho : other = id
    · subst ho
      unfold stored
      rw [AList.lookup_insert, hnone]
    · exact stored_congr (AList.lookup_insert_ne ho) fun _ _ => rfl

theorem Sound.rename (h : d.Sound) (profile : StoredProfile) : (d.rename profile).Sound where
  dirs id i hi := by
    by_cases hid : id = profile.id
    · subst hid
      rw [Disk.rename, AList.lookup_insert] at hi
      cases hi
      exact ⟨profile, by rw [Disk.rename, List.getElem?_concat_length], rfl⟩
    · rw [Disk.rename, AList.lookup_insert_ne hid] at hi
      obtain ⟨record, hrecord, hrid⟩ := h.dirs id i hi
      exact ⟨record, by rw [Disk.rename, List.getElem?_append_left (h.lt hi)]; exact hrecord, hrid⟩
  fresh i hi := by
    rw [Disk.rename, List.length_append, List.length_singleton] at hi
    exact h.fresh i (by omega)

theorem Sound.rename_stored (h : d.Sound) (profile : StoredProfile) :
    (d.rename profile).stored = Function.update d.stored profile.id (some profile) := by
  funext id
  by_cases hid : id = profile.id
  · subst hid
    rw [Function.update_self]
    refine stored_eq.mpr ⟨d.files.length, ?_, parse_ok.mpr ⟨h.fresh _ le_rfl, ?_⟩⟩
    · rw [Disk.rename, AList.lookup_insert]
    · rw [Disk.rename, List.getElem?_concat_length]
  · rw [Function.update_of_ne hid]
    refine stored_congr (AList.lookup_insert_ne hid) fun i hi => ?_
    simp only [parse, Disk.rename, List.getElem?_append_left (h.lt hi)]

/-- The shredder's passes leave the disk as it is, or a profile's metadata overwritten. -/
theorem zero_cases (d : Disk) (sh : Shredder) (id : ProfileId) (file : Path) :
    d.zero sh id file = d ∨ file = ["profile.json"] ∧ ∃ i, d.dirs.lookup id = some (some i) ∧
      d.zero sh id file = { d with zeroed := Function.update d.zeroed i true } := by
  unfold zero
  split
  · rename_i s i hi
    split
    · exact .inl rfl
    · exact .inr ⟨rfl, i, hi, rfl⟩
  · exact .inl rfl

theorem Sound.zero (h : d.Sound) (sh : Shredder) (id : ProfileId) (file : Path) :
    (d.zero sh id file).Sound := by
  rcases zero_cases d sh id file with he | ⟨-, i, hi, he⟩
  · rw [he]
    exact h
  · rw [he]
    refine ⟨h.dirs, fun j hj => ?_⟩
    have hne : j ≠ i := (Nat.lt_of_lt_of_le (h.lt hi) hj).ne'
    exact (Function.update_of_ne hne _ _).trans (h.fresh j hj)

theorem Sound.zero_stored (h : d.Sound) (sh : Shredder) (file : Path) :
    (∀ other, other ≠ id → (d.zero sh id file).stored other = d.stored other) ∧
      ((d.zero sh id file).stored id = d.stored id ∨ (d.zero sh id file).stored id = none) := by
  rcases zero_cases d sh id file with he | ⟨-, i, hi, he⟩
  · rw [he]
    exact ⟨fun _ _ => rfl, .inl rfl⟩
  · rw [he]
    constructor
    · intro other hother
      refine stored_congr rfl fun j hj => ?_
      have hne : j ≠ i := fun hij => hother (h.id_eq hj (hij ▸ hi))
      unfold parse
      simp only [Function.update_of_ne hne]
    · refine .inr ?_
      unfold stored
      simp only [hi, parse, Function.update_self, Except.toOption]

theorem Sound.unlink (h : d.Sound) (id : ProfileId) : (d.unlink id).Sound where
  dirs other i hi := by
    by_cases ho : other = id
    · subst ho
      rw [Disk.unlink, AList.lookup_insert] at hi
      cases hi
    · rw [Disk.unlink, AList.lookup_insert_ne ho] at hi
      exact h.dirs other i hi
  fresh := h.fresh

theorem unlink_stored (d : Disk) (id : ProfileId) :
    (d.unlink id).stored = Function.update d.stored id none := by
  funext other
  by_cases ho : other = id
  · subst ho
    rw [Function.update_self]
    unfold stored
    rw [Disk.unlink, AList.lookup_insert]
  · rw [Function.update_of_ne ho]
    exact stored_congr (AList.lookup_insert_ne ho) fun _ _ => rfl

theorem Sound.rmdir (h : d.Sound) (id : ProfileId) : (d.rmdir id).Sound where
  dirs other i hi := by
    by_cases ho : other = id
    · subst ho
      rw [Disk.rmdir, AList.lookup_erase] at hi
      cases hi
    · rw [Disk.rmdir, AList.lookup_erase_ne ho] at hi
      exact h.dirs other i hi
  fresh := h.fresh

theorem rmdir_stored (d : Disk) (id : ProfileId) :
    (d.rmdir id).stored = Function.update d.stored id none := by
  funext other
  by_cases ho : other = id
  · subst ho
    rw [Function.update_self]
    unfold stored
    rw [Disk.rmdir, AList.lookup_erase]
  · rw [Function.update_of_ne ho]
    exact stored_congr (AList.lookup_erase_ne ho) fun _ _ => rfl

end Disk

end Aegis.Store
