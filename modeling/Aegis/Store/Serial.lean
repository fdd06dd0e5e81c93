import Aegis.Store.FileStore
import Aegis.Store.Repository

/-! Calls through one store instance, a file operation a step. A metadata file is an inode: a
reader may hold one that has been replaced, overwritten or removed since it was opened. -/
namespace Aegis.Store
open FileTree

/-- A metadata file, by the number of those written before it. -/
abbrev Inode := ℕ

/-- The directories of the profiles, each with its `profile.json`. -/
structure Disk where
  dirs : AList fun _ : ProfileId => Option Inode
  /-- What was written to the metadata files, the first file first. -/
  files : List StoredProfile
  zeroed : Inode → Bool

inductive EntryKind where
  | dir
  | file
  | other

/-- What `read_meta` is called for. -/
inductive Aim where
  | patch (patch : ProfilePatch)
  | touch (time : ℕ)
  | load
  | refresh
  | list (out : List StoredProfile)

/-- A walk over directories: one is about to be read, or its next entry taken. -/
inductive Walk where
  | read (current : Path) (stack : List Path)
  | entries (current : Path) (stack : List Path)

/-- What a call does next. Paths are those below the profile's directory. -/
inductive Phase where
  | guarding
  | statNew (id : ProfileId) (spec : ProfileSpec)
  | makeData (id : ProfileId) (spec : ProfileSpec)
  | opening (id : ProfileId) (aim : Aim)
  | reading (id : ProfileId) (file : Inode) (aim : Aim)
  | making (profile : StoredProfile)
  | writing (profile : StoredProfile)
  | replacing (profile : StoredProfile)
  | clearing (e : String)
  | sizing (profile : StoredProfile) (walk : Walk) (total : ℕ) (aim : Aim)
  | sizeFile (profile : StoredProfile) (path current : Path) (stack : List Path) (total : ℕ)
      (aim : Aim)
  | statLock (profile : StoredProfile) (aim : Aim)
  | openRoot
  | entries (out : List StoredProfile)
  | statDir (id : ProfileId)
  | statTree (id : ProfileId)
  | finding (id : ProfileId) (walk : Walk) (files : List Path)
  | overwriting (id : ProfileId) (file : Path) (files : List Path)
  | removing (id : ProfileId)

structure Call where
  req : RepoRequest
  phase : Phase
  /-- A file operation of the call has failed, other than by finding nothing. -/
  faulted : Bool

inductive Next where
  | goto (phase : Phase)
  | finish (reply : RepoReply)

/-- A file operation with what it meets. Where the answer is not about metadata or a profile's
directory, it is any; what is removed meanwhile is not found, and ends the listing of a directory
that is open. -/
inductive FileAct where
  | file (fault : Option String)
  | make (now : ℕ) (fault : Option String)
  | readDir (answer : Except IoError Unit)
  | nextEntry (answer : Except IoError (Option (FileName × EntryKind)))
  | stat (answer : Except IoError ℕ)
  | zero (cut : Option (ℕ × String))
  | unlink
  | rmdir (fault : Option String)

def FileAct.fails : FileAct → Bool
  | file fault | make _ fault | rmdir fault => fault.isSome
  | readDir (.error e) | stat (.error e) => e ≠ .notFound
  | nextEntry (.error _) => true
  | zero cut => cut.isSome
  | _ => false

/-! The operations that a phase waits for. -/

namespace FileAct

variable {α : Type}

def onFile (k : Option String → α) : FileAct → Option α
  | file fault => some (k fault)
  | _ => none

def onMake (k : ℕ → Option String → α) : FileAct → Option α
  | make now fault => some (k now fault)
  | _ => none

def onReadDir (k : Except IoError Unit → α) : FileAct → Option α
  | readDir answer => some (k answer)
  | _ => none

def onNextEntry (k : Except IoError (Option (FileName × EntryKind)) → α) : FileAct → Option α
  | nextEntry answer => some (k answer)
  | _ => none

def onStat (k : Except IoError ℕ → α) : FileAct → Option α
  | stat answer => some (k answer)
  | _ => none

def onZero (k : Option (ℕ × String) → α) : FileAct → Option α
  | zero cut => some (k cut)
  | _ => none

variable {a : FileAct} {r : α}

theorem onFile_eq {k : Option String → α} :
    a.onFile k = some r ↔ ∃ fault, a = .file fault ∧ k fault = r := by
  cases a <;> simp [onFile]

theorem onMake_eq {k : ℕ → Option String → α} :
    a.onMake k = some r ↔ ∃ now fault, a = .make now fault ∧ k now fault = r := by
  cases a <;> simp [onMake]

theorem onReadDir_eq {k : Except IoError Unit → α} :
    a.onReadDir k = some r ↔ ∃ answer, a = .readDir answer ∧ k answer = r := by
  cases a <;> simp [onReadDir]

theorem onNextEntry_eq {k : Except IoError (Option (FileName × EntryKind)) → α} :
    a.onNextEntry k = some r ↔ ∃ answer, a = .nextEntry answer ∧ k answer = r := by
  cases a <;> simp [onNextEntry]

theorem onStat_eq {k : Except IoError ℕ → α} :
    a.onStat k = some r ↔ ∃ answer, a = .stat answer ∧ k answer = r := by
  cases a <;> simp [onStat]

theorem onZero_eq {k : Option (ℕ × String) → α} :
    a.onZero k = some r ↔ ∃ cut, a = .zero cut ∧ k cut = r := by
  cases a <;> simp [onZero]

end FileAct

namespace Disk

variable (d : Disk)

/-- What the reader of a metadata file finds in it. -/
def parse (id : ProfileId) (i : Inode) : Result StoredProfile :=
  match d.zeroed i, d.files[i]? with
  | false, some profile => .ok profile
  | _, _ => .error (.config ("corrupt profile metadata for " ++ id.uuid.display ++
      ": expected value at line 1 column 1"))

/-- `create_dir_all` of a profile's directory. -/
def makeDir (id : ProfileId) : Disk :=
  match d.dirs.lookup id with
  | some _ => d
  | none => { d with dirs := d.dirs.insert id none }

/-- The temporary file takes the place of the metadata. -/
def rename (profile : StoredProfile) : Disk :=
  { d with
    dirs := d.dirs.insert profile.id (some d.files.length)
    files := d.files ++ [profile] }

/-- The passes of the shredder over a file of the profile's directory. -/
def zero (sh : Shredder) (id : ProfileId) (file : Path) : Disk :=
  match sh, file, d.dirs.lookup id with
  | .overwrite s, ["profile.json"], some (some i) =>
    if s.passes = 0 then d else { d with zeroed := Function.update d.zeroed i true }
  | _, _, _ => d

def unlink (id : ProfileId) : Disk := { d with dirs := d.dirs.insert id none }

def rmdir (id : ProfileId) : Disk := { d with dirs := d.dirs.erase id }

end Disk

/-- The error of a request. -/
def RepoRequest.fail (e : Error) : RepoRequest → RepoReply
  | create _ | get _ | update _ _ => .profile (.error e)
  | list => .profiles (.error e)
  | delete _ | touchLaunch _ _ => .done (.error e)

/-- `u64::saturating_add`. -/
def saturatingAdd (total n : ℕ) : ℕ := min (total + n) (2 ^ 64 - 1)

namespace Call

variable (c : Call)

def fail (e : Error) : Next := .finish (c.req.fail e)

/-- `load_refreshed` has returned. A listing skips a directory without metadata. -/
def loaded (aim : Aim) (r : Result StoredProfile) : Next :=
  match aim, r with
  | .list out, .ok profile => .goto (.entries (out ++ [profile]))
  | .list out, .error (.notFound _) => .goto (.entries out)
  | .list _, .error e => .finish (.profiles (.error e))
  | _, r => .finish (.profile r)

/-- `read_meta` has returned. An empty patch writes nothing. -/
def metaRead (id : ProfileId) (aim : Aim) (r : Result StoredProfile) : Next :=
  match aim, r with
  | .patch _, .error e | .touch _, .error e => c.fail e
  | .patch patch, .ok profile =>
    if patch.isEmpty then .goto (.opening id .load)
    else match patch.apply profile.spec with
      | .error e => c.fail e
      | .ok spec => .goto (.making { profile with spec := spec })
  | .touch time, .ok profile => .goto (.making { profile with lastLaunched := some time })
  | aim, .error e => loaded aim (.error e)
  | aim, .ok profile => .goto (.sizing profile (.read [] []) 0 aim)

/-- `write_meta` has returned. -/
def wrote (profile : StoredProfile) : Next :=
  match c.req with
  | .update id _ => .goto (.opening id .refresh)
  | .touchLaunch _ _ => .finish (.done (.ok ()))
  | _ => .goto (.opening profile.id .refresh)

/-- `dir_size` goes on with the next directory, or returns. -/
def sizeNext (profile : StoredProfile) (aim : Aim) (total : ℕ) : List Path → Phase
  | [] => .statLock { profile with storage := total } aim
  | current :: stack => .sizing profile (.read current stack) total aim

def shredNext (id : ProfileId) : List Path → Phase
  | [] => .removing id
  | file :: files => .overwriting id file files

/-- The shredder goes on with the next directory, or overwrites the files it found. -/
def findNext (id : ProfileId) (files : List Path) : List Path → Phase
  | [] => shredNext id files
  | current :: stack => .finding id (.read current stack) files

/-- `shred_dir`: one shredder goes straight to the removal. -/
def startShred (sh : Shredder) (id : ProfileId) : Phase :=
  match sh with
  | .overwrite _ => .statTree id
  | .removeOnly => .removing id

/-- `dir_size`, a step. -/
def size (profile : StoredProfile) (walk : Walk) (total : ℕ) (aim : Aim) : FileAct → Option Next
  | .readDir answer =>
    match walk, answer with
    | .read current stack, .ok () =>
      some (.goto (.sizing profile (.entries current stack) total aim))
    | .read _ stack, .error .notFound => some (.goto (sizeNext profile aim total stack))
    | .read _ _, .error e => some (loaded aim (.error (IoError.toError e)))
    | _, _ => none
  | .nextEntry answer =>
    match walk, answer with
    | .entries _ _, .error e => some (loaded aim (.error (IoError.toError e)))
    | .entries _ stack, .ok none => some (.goto (sizeNext profile aim total stack))
    | .entries current stack, .ok (some (name, .dir)) =>
      some (.goto (.sizing profile (.entries current ((current ++ [name]) :: stack)) total aim))
    | .entries current stack, .ok (some (name, .file)) =>
      some (.goto (.sizeFile profile (current ++ [name]) current stack total aim))
    | .entries current stack, .ok (some (_, .other)) =>
      some (.goto (.sizing profile (.entries current stack) total aim))
    | _, _ => none
  | _ => none

/-- The search for the files to overwrite, a step. -/
def find (id : ProfileId) (walk : Walk) (files : List Path) : FileAct → Option Next
  | .readDir answer =>
    match walk, answer with
    | .read current stack, .ok () => some (.goto (.finding id (.entries current stack) files))
    | .read _ _, .error e => some (c.fail (IoError.toError e))
    | _, _ => none
  | .nextEntry answer =>
    match walk, answer with
    | .entries _ _, .error e => some (c.fail (IoError.toError e))
    | .entries _ stack, .ok none => some (.goto (findNext id files stack))
    | .entries current stack, .ok (some (name, .dir)) =>
      some (.goto (.finding id (.entries current ((current ++ [name]) :: stack)) files))
    | .entries current stack, .ok (some (name, .file)) =>
      some (.goto (.finding id (.entries current stack) (files ++ [current ++ [name]])))
    | .entries current stack, .ok (some (_, .other)) =>
      some (.goto (.finding id (.entries current stack) files))
    | _, _ => none
  | _ => none

/-- The next file operation of a call. -/
def act (sh : Shredder) (d : Disk) (a : FileAct) : Option (Disk × Next) :=
  match c.phase with
  | .guarding => none
  | .statNew id spec => a.onFile fun fault =>
    if fault = none ∧ (d.dirs.lookup id).isSome then
      (d, c.fail (.internal ("profile dir already exists for " ++ id.uuid.display)))
    else (d, .goto (.makeData id spec))
  | .makeData id spec => a.onMake fun now fault =>
    match fault with
    | some e => (d, c.fail (.io e))
    | none => (d.makeDir id, .goto (.making ⟨⟨id, spec⟩, now, none, 0, false⟩))
  | .opening id aim => a.onFile fun fault =>
    match fault, d.dirs.lookup id with
    | some e, _ => (d, c.metaRead id aim (.error (.io e)))
    | none, some (some i) => (d, .goto (.reading id i aim))
    | none, _ => (d, c.metaRead id aim (.error (.notFound ("profile " ++ id.uuid.display))))
  | .reading id i aim => a.onFile fun fault =>
    match fault with
    | some e => (d, c.metaRead id aim (.error (.io e)))
    | none => (d, c.metaRead id aim (d.parse id i))
  | .making profile => a.onFile fun fault =>
    match fault with
    | some e => (d, c.fail (.io e))
    | none => (d.makeDir profile.id, .goto (.writing profile))
  | .writing profile => a.onFile fun fault =>
    match fault with
    | some e => (d, c.fail (.io e))
    | none => (d, .goto (.replacing profile))
  | .replacing profile => a.onFile fun fault =>
    match fault, d.dirs.lookup profile.id with
    | some e, _ => (d, .goto (.clearing e))
    | none, none => (d, .goto (.clearing "No such file or directory (os error 2)"))
    | none, some _ => (d.rename profile, c.wrote profile)
  | .clearing e => a.onFile fun _ => (d, c.fail (.io e))
  | .sizing profile walk total aim => (size profile walk total aim a).map (d, ·)
  | .sizeFile profile _ current stack total aim => a.onStat fun answer =>
    match answer with
    | .ok n => (d, .goto (.sizing profile (.entries current stack) (saturatingAdd total n) aim))
    | .error .notFound => (d, .goto (.sizing profile (.entries current stack) total aim))
    | .error e => (d, loaded aim (.error (IoError.toError e)))
  | .statLock profile aim => a.onStat fun answer =>
    match answer with
    | .ok _ => (d, loaded aim (.ok { profile with locked := true }))
    | .error .notFound => (d, loaded aim (.ok { profile with locked := false }))
    | .error e => (d, loaded aim (.error (IoError.toError e)))
  | .openRoot => a.onReadDir fun answer =>
    match answer with
    | .ok () => (d, .goto (.entries []))
    | .error .notFound => (d, .finish (.profiles (.ok [])))
    | .error e => (d, .finish (.profiles (.error (IoError.toError e))))
  | .entries out => a.onNextEntry fun answer =>
    match answer with
    | .error e => (d, .finish (.profiles (.error (IoError.toError e))))
    | .ok none => (d, .finish (.profiles (.ok (out.mergeSort Shelf.listedBefore))))
    | .ok (some (name, kind)) =>
      match kind, Uuid.parse name with
      | .dir, some uuid => (d, .goto (.opening ⟨uuid⟩ (.list out)))
      | _, _ => (d, .goto (.entries out))
  | .statDir id => a.onFile fun fault =>
    if fault = none ∧ (d.dirs.lookup id).isSome then (d, .goto (startShred sh id))
    else (d, c.fail (.notFound ("profile " ++ id.uuid.display)))
  | .statTree id => a.onFile fun fault =>
    match fault, d.dirs.lookup id with
    | some e, _ => (d, c.fail (.io e))
    | none, none => (d, .finish (.done (.ok ())))
    | none, some _ => (d, .goto (.finding id (.read [] []) []))
  | .finding id walk files => (c.find id walk files a).map (d, ·)
  | .overwriting id file files => a.onZero fun cut =>
    match cut with
    | none => (d.zero sh id file, .goto (shredNext id files))
    | some (n, e) => (if n = 0 then d else d.zero sh id file, c.fail (.io e))
  | .removing id =>
    match a with
    | .unlink => some (d.unlink id, .goto (.removing id))
    | .rmdir none => some (d.rmdir id, .finish (.done (.ok ())))
    | .rmdir (some e) => some (d, c.fail (.io e))
    | _ => none

end Call

/-- What a request does first; `create` validates the spec before it waits for the guard. -/
def RepoRequest.begin : RepoRequest → Next
  | get id => .goto (.opening id .load)
  | list => .goto .openRoot
  | create spec =>
    match spec.validate with
    | .error e => .finish (.profile (.error e))
    | .ok () => .goto .guarding
  | _ => .goto .guarding

/-- What a request does once it holds the guard; `create` draws an identifier. -/
def RepoRequest.guardedPhase (id : ProfileId) : RepoRequest → Phase
  | create spec => .statNew id spec
  | update p patch => .opening p (.patch patch)
  | touchLaunch p time => .opening p (.touch time)
  | delete p => .statDir p
  | get p => .opening p .load
  | list => .openRoot

/-- A call that has returned. -/
structure Outcome where
  req : RepoRequest
  reply : RepoReply
  faulted : Bool

/-- The store with the calls in progress, and those that have returned, the last one first. -/
structure LiveStore where
  disk : Disk
  guard : Option TaskId
  calls : TaskId → Option Call
  outcomes : List Outcome

inductive LiveOp where
  | call (t : TaskId) (req : RepoRequest)
  | guard (t : TaskId) (id : ProfileId)
  | act (t : TaskId) (a : FileAct)

namespace LiveStore

/-- The call goes on, or returns and drops the write guard where it holds it. -/
def proceed (s : LiveStore) (t : TaskId) (req : RepoRequest) (faulted : Bool) : Next → LiveStore
  | .goto phase => { s with calls := Function.update s.calls t (some ⟨req, phase, faulted⟩) }
  | .finish reply =>
    { s with
      guard := s.guard.filter (· ≠ t)
      calls := Function.update s.calls t none
      outcomes := ⟨req, reply, faulted⟩ :: s.outcomes }

def step (sh : Shredder) (s : LiveStore) : LiveOp → Option LiveStore
  | .call t req =>
    match s.calls t with
    | none => some (s.proceed t req false req.begin)
    | some _ => none
  | .guard t id =>
    match s.calls t, s.guard with
    | some ⟨req, .guarding, faulted⟩, none =>
      some { s.proceed t req faulted (.goto (req.guardedPhase id)) with guard := some t }
    | _, _ => none
  | .act t a => do
    let c ← s.calls t
    let (disk, next) ← c.act sh s.disk a
    some ({ s with disk := disk }.proceed t c.req (c.faulted || a.fails) next)

/-- An empty store, and no call. -/
def initial : LiveStore := ⟨⟨∅, [], fun _ => false⟩, none, fun _ => none, []⟩

end LiveStore

end Aegis.Store
