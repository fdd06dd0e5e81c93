import Aegis.Core.Spec
import Aegis.Store.Lock
import Mathlib.Data.List.AList

/-! The file-backed profile repository, one file operation a step. Its calls interleave at their
await points; those that write metadata hold the write guard, and the lock advances beside them. -/
namespace Aegis.Store

/-- The metadata of a profile, times in seconds. -/
structure StoredProfile extends Profile where
  createdAt : ℕ
  lastLaunched : Option ℕ
  storage : ℕ
  locked : Bool

/-- What `profile.json` holds. -/
inductive Metadata where
  | stored (profile : StoredProfile)
  | overwritten

/-- What the data directory of a profile holds. -/
inductive DataDir where
  | intact
  | overwritten
  deriving DecidableEq

/-- A profile directory, without its lock file. -/
structure ProfileDir where
  metadata : Option Metadata
  data : Option DataDir

/-- An entry of a profile directory. -/
inductive ProfileFile where
  | metadata
  | data
  | lock
  deriving DecidableEq

inductive RepoRequest where
  | create (spec : ProfileSpec)
  | get (id : ProfileId)
  | list
  | update (id : ProfileId) (patch : ProfilePatch)
  | delete (id : ProfileId)
  | touchLaunch (id : ProfileId) (time : ℕ)

inductive RepoReply where
  | profile (r : Result StoredProfile)
  | profiles (r : Result (List StoredProfile))
  | done (r : Result Unit)

/-- The identifiers a listing has yet to load and the profiles it has loaded; a call that loads
one profile has none. -/
abbrev Listing := Option (List ProfileId × List StoredProfile)

/-- What a call does next. -/
inductive RepoCall where
  | guarding (req : RepoRequest)
  | createStat (id : ProfileId) (spec : ProfileSpec)
  | createData (id : ProfileId) (spec : ProfileSpec)
  | patching (id : ProfileId) (patch : ProfilePatch)
  | touching (id : ProfileId) (time : ℕ)
  | writing (profile : StoredProfile) (refresh : Bool)
  | replacing (profile : StoredProfile) (refresh : Bool)
  | listing
  | loading (id : ProfileId) (rest : Listing)
  | sizing (profile : StoredProfile) (rest : Listing)
  | statLock (profile : StoredProfile) (rest : Listing)
  | deleteStat (id : ProfileId)
  | walking (id : ProfileId)
  | overwriting (id : ProfileId) (files : List ProfileFile)
  | removing (id : ProfileId)
  | returned (reply : RepoReply)

/-- A step of the repository's calls. The arguments are what an operation meets: the identifier
that is drawn, the time, an error of the filesystem, the size of a directory, how much of a file
was overwritten before an error, which entry is unlinked next. -/
inductive ShelfOp where
  | call (t : TaskId) (req : RepoRequest)
  | guard (t : TaskId) (id : ProfileId)
  | make (t : TaskId) (now : ℕ) (io : Option String)
  | file (t : TaskId) (io : Option String)
  | size (t : TaskId) (r : Result ℕ)
  | overwrite (t : TaskId) (cut : Option (ℕ × String))
  | unlink (t : TaskId) (f : ProfileFile)
  | rmdir (t : TaskId) (io : Option String)

/-- The repository's directory, the write guard and the calls in progress. -/
structure Shelf where
  root : AList fun _ : ProfileId => ProfileDir
  guard : Option TaskId
  calls : TaskId → Option RepoCall

/-- What a request does first once it holds the guard; `create` draws an identifier. -/
def RepoRequest.guarded (id : ProfileId) : RepoRequest → RepoCall
  | create spec => .createStat id spec
  | update p patch => .patching p patch
  | touchLaunch p time => .touching p time
  | delete p => .deleteStat p
  | get p => .loading p none
  | list => .listing

/-- Zeros over the first `n` bytes, or over all of them. -/
def LockFile.zero (f : LockFile) (n : Option ℕ) : LockFile :=
  let k := min (n.getD f.bytes.length) f.bytes.length
  ⟨f.inode, List.replicate k '\x00' ++ f.bytes.drop k⟩

/-- Overwrite a lock file in place. -/
def LockSystem.zero (s : LockSystem) (p : ProfileId) (n : Option ℕ) : LockSystem :=
  s.setFile p ((s.files p).map (·.zero n))

namespace ProfileDir

def empty : ProfileDir := ⟨none, none⟩

/-- Zeros over the first `n` bytes of a file, or over all of them: it no longer holds what was
stored, unless there was no byte. -/
def zero (d : ProfileDir) (n : Option ℕ) (f : ProfileFile) : ProfileDir :=
  if n = some 0 then d
  else match f with
    | .metadata => { d with metadata := d.metadata.map fun _ => .overwritten }
    | .data => { d with data := d.data.map fun _ => .overwritten }
    | .lock => d

def unlink (d : ProfileDir) : ProfileFile → ProfileDir
  | .metadata => { d with metadata := none }
  | .data => { d with data := none }
  | .lock => d

/-- The entries, with the lock file where there is one. -/
def entries (d : ProfileDir) (lock : Option LockFile) : List ProfileFile :=
  (if d.metadata.isSome then [.metadata] else []) ++ (if d.data.isSome then [.data] else []) ++
    if lock.isSome then [.lock] else []

end ProfileDir

namespace Shelf

def setCall (s : Shelf) (t : TaskId) (c : RepoCall) : Shelf :=
  { s with calls := Function.update s.calls t (some c) }

def setDir (s : Shelf) (p : ProfileId) (d : ProfileDir) : Shelf :=
  { s with root := s.root.insert p d }

def removeDir (s : Shelf) (p : ProfileId) : Shelf :=
  { s with root := s.root.erase p }

def dir (s : Shelf) (p : ProfileId) : Option ProfileDir := s.root.lookup p

/-- The call returns, and drops the write guard where it holds it. -/
def finish (s : Shelf) (t : TaskId) (reply : RepoReply) : Shelf :=
  { s.setCall t (.returned reply) with guard := s.guard.filter (· ≠ t) }

/-- `read_meta`. -/
def readMeta (s : Shelf) (id : ProfileId) (io : Option String) : Result StoredProfile :=
  match io, (s.dir id).bind ProfileDir.metadata with
  | some e, _ => .error (.io e)
  | none, none => .error (.notFound ("profile " ++ id.uuid.display))
  | none, some .overwritten => .error (.config ("corrupt profile metadata for " ++
      id.uuid.display ++ ": expected value at line 1 column 1"))
  | none, some (.stored profile) => .ok profile

/-- The spec that is stored for a profile, if its metadata can be read. -/
def storedSpec (s : Shelf) (id : ProfileId) : Option ProfileSpec :=
  match s.readMeta id none with
  | .ok profile => some profile.spec
  | .error _ => none

/-- The order of a listing: newest first, then by identifier. -/
def listedBefore (a b : StoredProfile) : Bool :=
  b.createdAt < a.createdAt ∨ a.createdAt = b.createdAt ∧ a.id.uuid.display ≤ b.id.uuid.display

/-- A listing loads its next profile, or returns. -/
def next (s : Shelf) (t : TaskId) (out : List StoredProfile) : List ProfileId → Shelf
  | [] => s.finish t (.profiles (.ok (out.mergeSort listedBefore)))
  | id :: ids => s.setCall t (.loading id (some (ids, out)))

/-- `load_refreshed` has returned. A listing skips a directory without metadata. -/
def loaded (s : Shelf) (t : TaskId) (rest : Listing) (r : Result StoredProfile) : Shelf :=
  match rest, r with
  | none, r => s.finish t (.profile r)
  | some (ids, out), .ok profile => s.next t (out ++ [profile]) ids
  | some (ids, out), .error (.notFound _) => s.next t out ids
  | some _, .error e => s.finish t (.profiles (.error e))

/-- A call begins: `create` validates the spec before it waits for the guard. -/
def begin (s : Shelf) (t : TaskId) : RepoRequest → Shelf
  | .get id => s.setCall t (.loading id none)
  | .list => s.setCall t .listing
  | .create spec =>
    match spec.validate with
    | .error e => s.finish t (.profile (.error e))
    | .ok () => s.setCall t (.guarding (.create spec))
  | req => s.setCall t (.guarding req)

/-- `update` with the metadata it read: an empty patch writes nothing. -/
def patched (s : Shelf) (t : TaskId) (id : ProfileId) (patch : ProfilePatch) :
    Result StoredProfile → Shelf
  | .error e => s.finish t (.profile (.error e))
  | .ok profile =>
    if patch.isEmpty then s.setCall t (.loading id none)
    else match patch.apply profile.spec with
      | .error e => s.finish t (.profile (.error e))
      | .ok spec => s.setCall t (.writing { profile with spec := spec } true)

/-- `touch_launch` with the metadata it read. -/
def touched (s : Shelf) (t : TaskId) (time : ℕ) : Result StoredProfile → Shelf
  | .error e => s.finish t (.done (.error e))
  | .ok profile => s.setCall t (.writing { profile with lastLaunched := some time } false)

/-- `create` makes the directory with its data directory, and then writes the metadata. -/
def createData (s : Shelf) (t : TaskId) (id : ProfileId) (spec : ProfileSpec) (now : ℕ) :
    Option String → Shelf
  | some e => s.finish t (.profile (.error (.io e)))
  | none =>
    (s.setDir id { (s.dir id).getD .empty with data := some .intact }).setCall t
      (.writing ⟨⟨id, spec⟩, now, none, 0, false⟩ true)

/-- An error of `write_meta`. -/
def writeFailed (s : Shelf) (t : TaskId) (refresh : Bool) (e : String) : Shelf :=
  s.finish t (if refresh then .profile (.error (.io e)) else .done (.error (.io e)))

/-- `write_meta` up to its rename: the directory is made where it is missing, and the temporary
file written. -/
def writeTemp (s : Shelf) (t : TaskId) (profile : StoredProfile) (refresh : Bool) :
    Option String → Shelf
  | some e => s.writeFailed t refresh e
  | none =>
    (s.setDir profile.id ((s.dir profile.id).getD .empty)).setCall t (.replacing profile refresh)

/-- The temporary file is renamed over the metadata. -/
def rename (s : Shelf) (t : TaskId) (profile : StoredProfile) (refresh : Bool) :
    Option String → Shelf
  | some e => s.writeFailed t refresh e
  | none =>
    match s.dir profile.id with
    | none => s.writeFailed t refresh "No such file or directory (os error 2)"
    | some d =>
      let s' := s.setDir profile.id { d with metadata := some (.stored profile) }
      if refresh then s'.setCall t (.loading profile.id none) else s'.finish t (.done (.ok ()))

/-- `delete`, with the directory it looked up. -/
def deleteStat (s : Shelf) (t : TaskId) (id : ProfileId) (io : Option String) : Shelf :=
  if io = none ∧ (s.dir id).isSome then s.setCall t (.walking id)
  else s.finish t (.done (.error (.notFound ("profile " ++ id.uuid.display))))

/-- The shredder lists the files it is to overwrite; a directory that is gone is shredded. -/
def walk (s : Shelf) (t : TaskId) (id : ProfileId) (lock : Option LockFile) :
    Option String → Shelf
  | some e => s.finish t (.done (.error (.io e)))
  | none =>
    match s.dir id with
    | none => s.finish t (.done (.ok ()))
    | some d => s.setCall t (.overwriting id (d.entries lock))

/-- The next file operation of the calls that meet no more than an error. -/
def file (s : Shelf) (lock : LockSystem) (t : TaskId) (io : Option String) : RepoCall → Option Shelf
  | .createStat id spec =>
    if io = none ∧ (s.dir id).isSome then
      some (s.finish t (.profile
        (.error (.internal ("profile dir already exists for " ++ id.uuid.display)))))
    else some (s.setCall t (.createData id spec))
  | .patching id patch => some (s.patched t id patch (s.readMeta id io))
  | .touching id time => some (s.touched t time (s.readMeta id io))
  | .writing profile refresh => some (s.writeTemp t profile refresh io)
  | .replacing profile refresh => some (s.rename t profile refresh io)
  | .listing =>
    match io with
    | some e => some (s.finish t (.profiles (.error (.io e))))
    | none => some (s.next t [] s.root.keys)
  | .loading id rest =>
    match s.readMeta id io with
    | .error e => some (s.loaded t rest (.error e))
    | .ok profile => some (s.setCall t (.sizing profile rest))
  | .statLock profile rest =>
    match io with
    | some e => some (s.loaded t rest (.error (.io e)))
    | none =>
      some (s.loaded t rest (.ok { profile with locked := (lock.files profile.id).isSome }))
  | .deleteStat id => some (s.deleteStat t id io)
  | .walking id => some (s.walk t id (lock.files id) io)
  | _ => none

/-- Overwrite a file, up to the byte an error came at. -/
def overwrite (s : Shelf) (lock : LockSystem) (id : ProfileId) (f : ProfileFile)
    (n : Option ℕ) : Shelf × LockSystem :=
  match f with
  | .lock => (s, lock.zero id n)
  | f =>
    match s.dir id with
    | none => (s, lock)
    | some d => (s.setDir id (d.zero n f), lock)

/-- Unlink an entry of the directory. -/
def unlink (s : Shelf) (lock : LockSystem) (id : ProfileId) (f : ProfileFile) :
    Shelf × LockSystem :=
  match f with
  | .lock => (s, lock.setFile id none)
  | f =>
    match s.dir id with
    | none => (s, lock)
    | some d => (s.setDir id (d.unlink f), lock)

/-- Remove the directory, which must be empty. -/
def rmdir (s : Shelf) (lock : LockSystem) (t : TaskId) (id : ProfileId) : Option String → Shelf
  | some e => s.finish t (.done (.error (.io e)))
  | none =>
    if ((s.dir id).getD .empty).entries (lock.files id) = [] then
      (s.removeDir id).finish t (.done (.ok ()))
    else s.finish t (.done (.error (.io "Directory not empty (os error 39)")))

/-- The task has no call in progress. -/
def idle (s : Shelf) (t : TaskId) : Bool :=
  match s.calls t with
  | none | some (.returned _) => true
  | _ => false

/-- One step of the repository's calls, and what it does to the lock files. -/
def step (lock : LockSystem) (s : Shelf) : ShelfOp → Option (Shelf × LockSystem)
  | .call t req => if s.idle t then some (s.begin t req, lock) else none
  | .guard t id =>
    match s.calls t, s.guard with
    | some (.guarding req), none =>
      some ({ s.setCall t (req.guarded id) with guard := some t }, lock)
    | _, _ => none
  | .make t now io =>
    match s.calls t with
    | some (.createData id spec) => some (s.createData t id spec now io, lock)
    | _ => none
  | .file t io => do
    let c ← s.calls t
    let s' ← s.file lock t io c
    some (s', lock)
  | .size t r =>
    match s.calls t with
    | some (.sizing profile rest) =>
      match r with
      | .error e => some (s.loaded t rest (.error e), lock)
      | .ok n => some (s.setCall t (.statLock { profile with storage := n } rest), lock)
    | _ => none
  | .overwrite t cut =>
    match s.calls t, cut with
    | some (.overwriting id []), none => some (s.setCall t (.removing id), lock)
    | some (.overwriting id (f :: fs)), none =>
      let (s', lock') := s.overwrite lock id f none
      some (s'.setCall t (.overwriting id fs), lock')
    | some (.overwriting id (f :: _)), some (n, e) =>
      let (s', lock') := s.overwrite lock id f (some n)
      some (s'.finish t (.done (.error (.io e))), lock')
    | _, _ => none
  | .unlink t f =>
    match s.calls t with
    | some (.removing id) => some (s.unlink lock id f)
    | _ => none
  | .rmdir t io =>
    match s.calls t with
    | some (.removing id) => some (s.rmdir lock t id io, lock)
    | _ => none

/-- What the lock meets: a profile that is found has its directory, tokens are hexadecimal
digits, and a lock file is created in a directory. -/
def meets (s : Shelf) (lock : LockSystem) : LockOp → Bool
  | .stat t present token =>
    token.text.all (· ∈ "0123456789abcdef".toList) &&
      match lock.calls t with
      | some (.acquireStat p) => !present || (s.dir p).isSome
      | _ => true
  | .create t none =>
    match lock.calls t with
    | some (.acquireCreate p _) => (s.dir p).isSome
    | _ => true
  | _ => true

end Shelf

/-- The store. `freed` records the leases whose release has removed the lock file. -/
structure Repository where
  shelf : Shelf
  lock : LockSystem
  freed : List ProfileLease

inductive RepoOp where
  | shelf (op : ShelfOp)
  | lock (op : LockOp)

/-- The lease whose lock file a step of the lock removes. -/
def LockSystem.frees (s : LockSystem) : LockOp → List ProfileLease
  | .remove t none =>
    match s.calls t with
    | some (.releaseRemove l) => if (s.files l.profile).isSome then [l] else []
    | _ => []
  | _ => []

namespace Repository

def step (s : Repository) : RepoOp → Option Repository
  | .shelf op => (s.shelf.step s.lock op).map fun r => ⟨r.1, r.2, s.freed⟩
  | .lock op =>
    if s.shelf.meets s.lock op then
      (s.lock.step op).map fun l => ⟨s.shelf, l, s.lock.frees op ++ s.freed⟩
    else none

/-- No profile, no call, no lock file. -/
def initial : Repository := ⟨⟨∅, none, fun _ => none⟩, .initial, []⟩

end Repository

/-! ### What a step of the repository's calls does -/

namespace RepoCall

/-- The call is about to store no spec and is not shredding. -/
def quiet : RepoCall → Bool
  | guarding (.create _) | guarding (.update _ _) | createStat _ _ | createData _ _ | patching _ _
  | writing _ _ | replacing _ _ | walking _ | overwriting _ _ | removing _ => false
  | _ => true

/-- The spec the call is about to store. -/
def spec : RepoCall → Option ProfileSpec
  | guarding (.create spec) | createStat _ spec | createData _ spec => some spec
  | writing profile _ | replacing profile _ => some profile.spec
  | _ => none

/-- The patch the call is about to apply. -/
def patch : RepoCall → Option ProfilePatch
  | guarding (.update _ patch) | patching _ patch => some patch
  | _ => none

/-- The profile the call is shredding. -/
def shreds : RepoCall → Option ProfileId
  | walking id | overwriting id _ | removing id => some id
  | _ => none

/-- The profile a call has loaded that loads one. -/
def loaded : RepoCall → Option Profile
  | sizing profile none | statLock profile none | returned (.profile (.ok profile)) =>
    some profile.toProfile
  | _ => none

variable {c : RepoCall}

theorem spec_of_quiet (h : c.quiet = true) : c.spec = none := by
  cases c <;> simp_all [quiet, spec]
  next req => cases req <;> simp_all

theorem patch_of_quiet (h : c.quiet = true) : c.patch = none := by
  cases c <;> simp_all [quiet, patch]
  next req => cases req <;> simp_all

theorem shreds_of_quiet (h : c.quiet = true) : c.shreds = none := by
  cases c <;> simp_all [quiet, shreds]

end RepoCall

namespace ProfileDir

variable {d : ProfileDir} {f : ProfileFile} {profile : StoredProfile}

/-- What is overwritten stores no profile. -/
theorem metadata_zero {n : Option ℕ} (h : (d.zero n f).metadata = some (.stored profile)) :
    d.metadata = some (.stored profile) := by
  unfold zero at h
  split_ifs at h
  · exact h
  · cases f
    · simp at h
    · exact h
    · exact h

theorem metadata_unlink (h : (d.unlink f).metadata = some (.stored profile)) :
    d.metadata = some (.stored profile) := by
  cases f
  · cases h
  · exact h
  · exact h

end ProfileDir

theorem lookup_insert_cases {root : AList fun _ : ProfileId => ProfileDir} {p id : ProfileId}
    {d e : ProfileDir} (h : (root.insert id e).lookup p = some d) :
    p = id ∧ d = e ∨ p ≠ id ∧ root.lookup p = some d := by
  by_cases hp : p = id
  · subst hp
    rw [AList.lookup_insert, Option.some.injEq] at h
    exact .inl ⟨rfl, h.symm⟩
  · rw [AList.lookup_insert_ne hp] at h
    exact .inr ⟨hp, h⟩

namespace Shelf

variable {lock lock' : LockSystem} {s s' : Shelf} {op : ShelfOp} {t : TaskId}

/-- What an operation of the call of `t` leaves: its next step, the directories and the lock
files. -/
inductive Acts (lock : LockSystem) (s : Shelf) (t : TaskId) :
    ShelfOp → RepoCall → (AList fun _ : ProfileId => ProfileDir) → LockSystem → Prop
  | quiet {op : ShelfOp} {c : RepoCall} (hc : c.quiet = true)
      (hl : c.loaded = none ∨ ∃ d, s.calls t = some d ∧ d.loaded = c.loaded) :
      Acts lock s t op c s.root lock
  | asked {req : RepoRequest} : Acts lock s t (.call t req) (.guarding req) s.root lock
  | guarded {id : ProfileId} {req : RepoRequest} (h : s.calls t = some (.guarding req)) :
      Acts lock s t (.guard t id) (req.guarded id) s.root lock
  | stated {id : ProfileId} {spec : ProfileSpec} {io : Option String}
      (h : s.calls t = some (.createStat id spec)) :
      Acts lock s t (.file t io) (.createData id spec) s.root lock
  | made {id : ProfileId} {spec : ProfileSpec} {now : ℕ}
      (h : s.calls t = some (.createData id spec)) :
      Acts lock s t (.make t now none) (.writing ⟨⟨id, spec⟩, now, none, 0, false⟩ true)
        (s.root.insert id { (s.dir id).getD .empty with data := some .intact }) lock
  | patched {id : ProfileId} {patch : ProfilePatch} {profile : StoredProfile} {spec : ProfileSpec}
      (h : s.calls t = some (.patching id patch)) (hr : s.readMeta id none = .ok profile)
      (ha : patch.apply profile.spec = .ok spec) :
      Acts lock s t (.file t none) (.writing { profile with spec := spec } true) s.root lock
  | touched {id : ProfileId} {time : ℕ} {profile : StoredProfile}
      (h : s.calls t = some (.touching id time)) (hr : s.readMeta id none = .ok profile) :
      Acts lock s t (.file t none) (.writing { profile with lastLaunched := some time } false)
        s.root lock
  | wrote {profile : StoredProfile} {refresh : Bool}
      (h : s.calls t = some (.writing profile refresh)) :
      Acts lock s t (.file t none) (.replacing profile refresh)
        (s.root.insert profile.id ((s.dir profile.id).getD .empty)) lock
  | renamed {profile : StoredProfile} {refresh : Bool} {d : ProfileDir} {c : RepoCall}
      (h : s.calls t = some (.replacing profile refresh)) (hd : s.dir profile.id = some d)
      (hc : c.quiet = true) (hl : c.loaded = none) :
      Acts lock s t (.file t none) c
        (s.root.insert profile.id { d with metadata := some (.stored profile) }) lock
  | read {id : ProfileId} {profile : StoredProfile} (h : s.calls t = some (.loading id none))
      (hr : s.readMeta id none = .ok profile) :
      Acts lock s t (.file t none) (.sizing profile none) s.root lock
  | found {id : ProfileId} (h : s.calls t = some (.deleteStat id)) (hd : (s.dir id).isSome) :
      Acts lock s t (.file t none) (.walking id) s.root lock
  | walked {id : ProfileId} {files : List ProfileFile} (h : s.calls t = some (.walking id)) :
      Acts lock s t (.file t none) (.overwriting id files) s.root lock
  | overwrote {id : ProfileId} {f : ProfileFile} {fs : List ProfileFile} {op : ShelfOp}
      {n : Option ℕ} {c : RepoCall} (h : s.calls t = some (.overwriting id (f :: fs)))
      (hc : c = .overwriting id fs ∨ c.quiet = true) (hl : c.loaded = none) :
      Acts lock s t op c (s.overwrite lock id f n).1.root (s.overwrite lock id f n).2
  | emptied {id : ProfileId} (h : s.calls t = some (.overwriting id [])) :
      Acts lock s t (.overwrite t none) (.removing id) s.root lock
  | unlinked {id : ProfileId} {f : ProfileFile} (h : s.calls t = some (.removing id)) :
      Acts lock s t (.unlink t f) (.removing id) (s.unlink lock id f).1.root
        (s.unlink lock id f).2
  | removed {id : ProfileId} (h : s.calls t = some (.removing id))
      (he : ((s.dir id).getD .empty).entries (lock.files id) = []) :
      Acts lock s t (.rmdir t none) (.returned (.done (.ok ()))) (s.root.erase id) lock

/-- The step leaves what `Acts` says, and no other call moves. -/
def Leaves (lock : LockSystem) (s : Shelf) (op : ShelfOp) (s' : Shelf) (lock' : LockSystem) :
    Prop :=
  ∃ t c, Acts lock s t op c s'.root lock' ∧ s'.calls = Function.update s.calls t (some c)

theorem leaves_setCall {c : RepoCall} (hc : c.quiet = true)
    (hl : c.loaded = none ∨ ∃ d, s.calls t = some d ∧ d.loaded = c.loaded) :
    Leaves lock s op (s.setCall t c) lock :=
  ⟨t, c, .quiet hc hl, rfl⟩

theorem leaves_finish {reply : RepoReply} (hl : (RepoCall.returned reply).loaded = none ∨
    ∃ d, s.calls t = some d ∧ d.loaded = (RepoCall.returned reply).loaded) :
    Leaves lock s op (s.finish t reply) lock :=
  ⟨t, .returned reply, .quiet rfl hl, rfl⟩

theorem leaves_next {out : List StoredProfile} {ids : List ProfileId} :
    Leaves lock s op (s.next t out ids) lock := by
  cases ids with
  | nil => exact leaves_finish (.inl rfl)
  | cons id ids => exact leaves_setCall rfl (.inl rfl)

theorem leaves_loaded {rest : Listing} {r : Result StoredProfile}
    (hl : ∀ profile, rest = none → r = .ok profile →
      ∃ d, s.calls t = some d ∧ d.loaded = some profile.toProfile) :
    Leaves lock s op (s.loaded t rest r) lock := by
  cases rest with
  | none =>
    cases r with
    | error e => exact leaves_finish (.inl rfl)
    | ok profile => exact leaves_finish (.inr (hl profile rfl rfl))
  | some l =>
    cases r with
    | error e => cases e <;> first | exact leaves_next | exact leaves_finish (.inl rfl)
    | ok profile => exact leaves_next

theorem leaves_begin {req : RepoRequest} : Leaves lock s (.call t req) (s.begin t req) lock := by
  unfold begin
  split
  · exact leaves_setCall rfl (.inl rfl)
  · exact leaves_setCall rfl (.inl rfl)
  · split
    · exact leaves_finish (.inl rfl)
    · exact ⟨t, _, .asked, rfl⟩
  · exact ⟨t, _, .asked, rfl⟩

theorem leaves_patched {id : ProfileId} {patch : ProfilePatch} {io : Option String}
    (h : s.calls t = some (.patching id patch)) :
    Leaves lock s (.file t io) (s.patched t id patch (s.readMeta id io)) lock := by
  cases hr : s.readMeta id io with
  | error e => exact leaves_finish (.inl rfl)
  | ok profile =>
    obtain rfl : io = none := by
      cases io with
      | none => rfl
      | some e => cases hr
    simp only [patched]
    split_ifs
    · exact leaves_setCall rfl (.inl rfl)
    · cases ha : patch.apply profile.spec with
      | error e => exact leaves_finish (.inl rfl)
      | ok spec => exact ⟨t, _, .patched h hr ha, rfl⟩

theorem leaves_touched {id : ProfileId} {time : ℕ} {io : Option String}
    (h : s.calls t = some (.touching id time)) :
    Leaves lock s (.file t io) (s.touched t time (s.readMeta id io)) lock := by
  cases hr : s.readMeta id io with
  | error e => exact leaves_finish (.inl rfl)
  | ok profile =>
    obtain rfl : io = none := by
      cases io with
      | none => rfl
      | some e => cases hr
    exact ⟨t, _, .touched h hr, rfl⟩

theorem leaves_writeFailed {refresh : Bool} {e : String} :
    Leaves lock s op (s.writeFailed t refresh e) lock := by
  cases refresh <;> exact leaves_finish (.inl rfl)

theorem leaves_rename {profile : StoredProfile} {refresh : Bool} {io : Option String}
    (h : s.calls t = some (.replacing profile refresh)) :
    Leaves lock s (.file t io) (s.rename t profile refresh io) lock := by
  unfold rename
  split
  · exact leaves_writeFailed
  · split
    · exact leaves_writeFailed
    next d hd =>
      dsimp only
      split_ifs
      · exact ⟨t, _, .renamed h hd rfl rfl, rfl⟩
      · exact ⟨t, _, .renamed h hd rfl rfl, rfl⟩

theorem leaves_file {io : Option String} {c : RepoCall} (h : s.calls t = some c)
    (hs : s.file lock t io c = some s') : Leaves lock s (.file t io) s' lock := by
  unfold file at hs
  split at hs
  · split_ifs at hs <;> cases hs
    · exact leaves_finish (.inl rfl)
    · exact ⟨t, _, .stated h, rfl⟩
  · cases hs
    exact leaves_patched h
  · cases hs
    exact leaves_touched h
  · cases hs
    unfold writeTemp
    split
    · exact leaves_writeFailed
    · exact ⟨t, _, .wrote h, rfl⟩
  · cases hs
    exact leaves_rename h
  · split at hs <;> cases hs
    · exact leaves_finish (.inl rfl)
    · exact leaves_next
  next id rest =>
    split at hs <;> cases hs
    · exact leaves_loaded fun _ _ hr => by cases hr
    next profile hr =>
      cases rest with
      | some l => exact leaves_setCall rfl (.inl rfl)
      | none =>
        obtain rfl : io = none := by
          cases io with
          | none => rfl
          | some e => cases hr
        exact ⟨t, _, .read h hr, rfl⟩
  · split at hs <;> cases hs
    · exact leaves_loaded fun _ _ hr => by cases hr
    · refine leaves_loaded fun stored hrest hr => ⟨_, h, ?_⟩
      cases hr
      rw [hrest]
      rfl
  · cases hs
    unfold deleteStat
    split_ifs with hd
    · obtain ⟨rfl, hd⟩ := hd
      exact ⟨t, _, .found h hd, rfl⟩
    · exact leaves_finish (.inl rfl)
  · cases hs
    unfold walk
    split
    · exact leaves_finish (.inl rfl)
    · split
      · exact leaves_finish (.inl rfl)
      · exact ⟨t, _, .walked h, rfl⟩
  · cases hs

@[simp] theorem overwrite_calls (lock : LockSystem) (id : ProfileId) (f : ProfileFile)
    (n : Option ℕ) : (s.overwrite lock id f n).1.calls = s.calls := by
  unfold overwrite
  cases f <;> cases s.dir id <;> rfl

@[simp] theorem unlink_calls (lock : LockSystem) (id : ProfileId) (f : ProfileFile) :
    (s.unlink lock id f).1.calls = s.calls := by
  unfold unlink
  cases f <;> cases s.dir id <;> rfl

theorem overwrite_root (lock : LockSystem) (id : ProfileId) (f : ProfileFile) (n : Option ℕ) :
    (s.overwrite lock id f n).1.root = s.root ∨ ∃ d, s.dir id = some d ∧
      (s.overwrite lock id f n).1.root = s.root.insert id (d.zero n f) := by
  unfold overwrite
  cases f <;> cases s.dir id <;> first | exact .inl rfl | exact .inr ⟨_, rfl, rfl⟩

theorem unlink_root (lock : LockSystem) (id : ProfileId) (f : ProfileFile) :
    (s.unlink lock id f).1.root = s.root ∨ ∃ d, s.dir id = some d ∧
      (s.unlink lock id f).1.root = s.root.insert id (d.unlink f) := by
  unfold unlink
  cases f <;> cases s.dir id <;> first | exact .inl rfl | exact .inr ⟨_, rfl, rfl⟩

theorem step_leaves (hs : s.step lock op = some (s', lock')) : Leaves lock s op s' lock' := by
  cases op with
  | call t req =>
    simp only [step] at hs
    split_ifs at hs
    cases hs
    exact leaves_begin
  | guard t id =>
    simp only [step] at hs
    split at hs <;> cases hs
    next req h _ => exact ⟨t, _, .guarded h, rfl⟩
  | make t now io =>
    simp only [step] at hs
    split at hs <;> cases hs
    next id spec h =>
      cases io with
      | some e => exact leaves_finish (.inl rfl)
      | none => exact ⟨t, _, .made h, rfl⟩
  | file t io =>
    simp only [step, Option.bind_eq_bind, Option.bind_eq_some_iff, Option.some.injEq,
      Prod.mk.injEq] at hs
    obtain ⟨c, h, k, hk, rfl, rfl⟩ := hs
    exact leaves_file h hk
  | size t r =>
    simp only [step] at hs
    split at hs
    next profile rest h =>
      split at hs <;> cases hs
      · exact leaves_loaded fun _ _ hr => by cases hr
      next n =>
        cases rest with
        | none => exact leaves_setCall rfl (.inr ⟨_, h, rfl⟩)
        | some l => exact leaves_setCall rfl (.inl rfl)
    · cases hs
  | overwrite t cut =>
    simp only [step] at hs
    split at hs
    next h =>
      cases hs
      exact ⟨t, _, .emptied h, rfl⟩
    next id f fs h =>
      cases hs
      exact ⟨t, _, .overwrote h (.inl rfl) rfl, by simp [setCall]⟩
    next id f fs n e h =>
      cases hs
      exact ⟨t, .returned (.done (.error (.io e))), .overwrote h (.inr rfl) rfl,
        by simp [finish, setCall]⟩
    · cases hs
  | unlink t f =>
    simp only [step] at hs
    split at hs
    next id h =>
      obtain ⟨rfl, rfl⟩ : (s.unlink lock id f).1 = s' ∧ (s.unlink lock id f).2 = lock' := by
        simp [Option.some.inj hs]
      exact ⟨t, _, .unlinked h, by rw [unlink_calls, ← h, Function.update_eq_self]⟩
    · cases hs
  | rmdir t io =>
    simp only [step] at hs
    split at hs <;> cases hs
    next id h =>
      unfold rmdir
      split
      · exact leaves_finish (.inl rfl)
      · split_ifs with he
        · exact ⟨t, _, .removed h he, rfl⟩
        · exact leaves_finish (.inl rfl)

end Shelf

end Aegis.Store
