import Aegis.Core.Base
import Aegis.Lib.Transition

/-! The single-writer lock of the profile store, one file operation a step. -/
namespace Aegis.Store

/-- A lock token: 32 hexadecimal characters of random output. -/
structure LockToken where
  text : List Char
  length_text : text.length = 32
  deriving DecidableEq

theorem LockToken.text_ne_nil (k : LockToken) : k.text ≠ [] := by
  intro h
  have hlen := k.length_text
  rw [h] at hlen
  cases hlen

theorem LockToken.eq_of_text {k l : LockToken} (h : k.text = l.text) : k = l := by
  obtain ⟨text, _⟩ := k
  obtain ⟨text', _⟩ := l
  simp_all

/-- An exclusive lease of a profile. -/
structure ProfileLease where
  profile : ProfileId
  token : LockToken
  deriving DecidableEq

theorem ProfileLease.eq_of_text {k l : ProfileLease} (hp : k.profile = l.profile)
    (ht : k.token.text = l.token.text) : k = l := by
  obtain ⟨p, ⟨text, _⟩⟩ := k
  obtain ⟨q, ⟨text', _⟩⟩ := l
  simp_all

/-- A lock file. An open handle refers to the inode, whatever the path names later. -/
structure LockFile where
  inode : ℕ
  bytes : List Char
  deriving DecidableEq

/-- How far a call of `acquire_lock` or `release_lock` has come. -/
inductive LockCall where
  | acquireStat (profile : ProfileId)
  | acquireCreate (profile : ProfileId) (token : LockToken)
  | acquireWrite (lease : ProfileLease) (inode : ℕ)
  | acquired (result : Result ProfileLease)
  | releaseRead (lease : ProfileLease)
  | releaseCompare (lease : ProfileLease) (held : List Char)
  | releaseRemove (lease : ProfileLease)
  | released (result : Result Unit)

/-- The lock files and the calls in progress. `drawn`, `issued` and `unreleased` record the
tokens drawn, the leases returned and those no `release_lock` was called with. -/
structure LockSystem where
  files : ProfileId → Option LockFile
  nextInode : ℕ
  calls : TaskId → Option LockCall
  drawn : List LockToken
  issued : List ProfileLease
  unreleased : List ProfileLease

/-- A step of the lock: a call begins or performs its next operation. The arguments are what the
operation meets: the directory check and its token, an error of the filesystem, a write cut
short. -/
inductive LockOp where
  | acquire (t : TaskId) (profile : ProfileId)
  | stat (t : TaskId) (present : Bool) (token : LockToken)
  | create (t : TaskId) (io : Option String)
  | write (t : TaskId) (cut : Option (ℕ × String))
  | release (t : TaskId) (lease : ProfileLease)
  | read (t : TaskId) (io : Option String)
  | compare (t : TaskId)
  | remove (t : TaskId) (io : Option String)

namespace LockSystem

def setCall (s : LockSystem) (t : TaskId) (c : LockCall) : LockSystem :=
  { s with calls := Function.update s.calls t (some c) }

def setFile (s : LockSystem) (p : ProfileId) (f : Option LockFile) : LockSystem :=
  { s with files := Function.update s.files p f }

/-- Bytes written through a handle reach the path only while it still names the inode. -/
def writeFile (s : LockSystem) (p : ProfileId) (inode : ℕ) (bytes : List Char) : LockSystem :=
  match s.files p with
  | some f => if f.inode = inode then s.setFile p (some ⟨inode, bytes⟩) else s
  | none => s

def draw (s : LockSystem) (token : LockToken) : LockSystem :=
  { s with drawn := token :: s.drawn }

/-- The lease is handed out. -/
def issue (s : LockSystem) (l : ProfileLease) : LockSystem :=
  { s with issued := l :: s.issued, unreleased := l :: s.unreleased }

/-- `release_lock` is called with the lease. -/
def giveUp (s : LockSystem) (l : ProfileLease) : LockSystem :=
  { s with unreleased := s.unreleased.filter (· ≠ l) }

/-- `acquire_lock`: the profile must exist to be locked; then a token is drawn. -/
def acquireStat (s : LockSystem) (t : TaskId) (profile : ProfileId) (present : Bool)
    (token : LockToken) : Option LockSystem :=
  if !present then
    some (s.setCall t (.acquired (.error (.notFound ("profile " ++ profile.uuid.display)))))
  else if token ∈ s.drawn then none
  else some ((s.draw token).setCall t (.acquireCreate profile token))

/-- `create_new` fails when the path exists. -/
def acquireCreate (s : LockSystem) (t : TaskId) (profile : ProfileId) (token : LockToken)
    (io : Option String) : LockSystem :=
  match io, s.files profile with
  | some e, _ => s.setCall t (.acquired (.error (.io e)))
  | none, some _ => s.setCall t (.acquired
      (.error (.busy ("profile " ++ profile.uuid.display ++ " is already locked"))))
  | none, none =>
    { (s.setFile profile (some ⟨s.nextInode, []⟩)).setCall t
        (.acquireWrite ⟨profile, token⟩ s.nextInode) with nextInode := s.nextInode + 1 }

/-- Writing the token; a write or flush that fails may leave a part of it behind. -/
def acquireWrite (s : LockSystem) (t : TaskId) (lease : ProfileLease) (inode : ℕ)
    (cut : Option (ℕ × String)) : LockSystem :=
  match cut with
  | some (n, e) =>
    (s.writeFile lease.profile inode (lease.token.text.take n)).setCall t
      (.acquired (.error (.io e)))
  | none =>
    ((s.writeFile lease.profile inode lease.token.text).setCall t (.acquired (.ok lease))).issue
      lease

def releaseRead (s : LockSystem) (t : TaskId) (lease : ProfileLease) (io : Option String) :
    LockSystem :=
  match io, s.files lease.profile with
  | some e, _ => s.setCall t (.released (.error (.io e)))
  | none, none => s.setCall t (.released
      (.error (.precondition ("profile " ++ lease.profile.uuid.display ++ " is not locked"))))
  | none, some f => s.setCall t (.releaseCompare lease f.bytes)

/-- Only the holder of the matching token may release the lock. -/
def releaseCompare (s : LockSystem) (t : TaskId) (lease : ProfileLease) (held : List Char) :
    LockSystem :=
  if held ≠ lease.token.text then
    s.setCall t (.released
      (.error (.precondition ("lock token mismatch for profile " ++ lease.profile.uuid.display))))
  else s.setCall t (.releaseRemove lease)

def releaseRemove (s : LockSystem) (t : TaskId) (lease : ProfileLease) (io : Option String) :
    LockSystem :=
  match io, s.files lease.profile with
  | some e, _ => s.setCall t (.released (.error (.io e)))
  | none, none => s.setCall t (.released (.error (.io "No such file or directory (os error 2)")))
  | none, some _ => (s.setFile lease.profile none).setCall t (.released (.ok ()))

/-- The task has no call in progress. -/
def idle (s : LockSystem) (t : TaskId) : Bool :=
  match s.calls t with
  | none | some (.acquired _) | some (.released _) => true
  | _ => false

/-- One step. A lease is released by a caller that was given it. -/
def step (s : LockSystem) : LockOp → Option LockSystem
  | .acquire t p => if s.idle t then some (s.setCall t (.acquireStat p)) else none
  | .release t l =>
    if s.idle t ∧ l ∈ s.issued then some ((s.giveUp l).setCall t (.releaseRead l)) else none
  | .stat t present token =>
    match s.calls t with
    | some (.acquireStat p) => s.acquireStat t p present token
    | _ => none
  | .create t io =>
    match s.calls t with
    | some (.acquireCreate p token) => some (s.acquireCreate t p token io)
    | _ => none
  | .write t cut =>
    match s.calls t with
    | some (.acquireWrite l i) => some (s.acquireWrite t l i cut)
    | _ => none
  | .read t io =>
    match s.calls t with
    | some (.releaseRead l) => some (s.releaseRead t l io)
    | _ => none
  | .compare t =>
    match s.calls t with
    | some (.releaseCompare l held) => some (s.releaseCompare t l held)
    | _ => none
  | .remove t io =>
    match s.calls t with
    | some (.releaseRemove l) => some (s.releaseRemove t l io)
    | _ => none

/-- No lock file and no call: the store before any caller. -/
def initial : LockSystem := ⟨fun _ => none, 0, fun _ => none, [], [], []⟩

@[simp, grind =] theorem setCall_calls (s : LockSystem) (t u : TaskId) (c : LockCall) :
    (s.setCall t c).calls u = if u = t then some c else s.calls u := by
  simp [setCall, Function.update_apply]
@[simp, grind =] theorem setCall_files (s : LockSystem) (t : TaskId) (c : LockCall)
    (p : ProfileId) :
    (s.setCall t c).files p = s.files p := rfl
@[simp, grind =] theorem setCall_drawn (s : LockSystem) (t : TaskId) (c : LockCall) :
    (s.setCall t c).drawn = s.drawn := rfl
@[simp, grind =] theorem setCall_issued (s : LockSystem) (t : TaskId) (c : LockCall) :
    (s.setCall t c).issued = s.issued := rfl
@[simp, grind =] theorem setCall_unreleased (s : LockSystem) (t : TaskId) (c : LockCall) :
    (s.setCall t c).unreleased = s.unreleased := rfl
@[simp, grind =] theorem draw_calls (s : LockSystem) (token : LockToken) (t : TaskId) :
    (s.draw token).calls t = s.calls t := rfl
@[simp, grind =] theorem draw_drawn (s : LockSystem) (token : LockToken) :
    (s.draw token).drawn = token :: s.drawn := rfl
@[simp, grind =] theorem draw_issued (s : LockSystem) (token : LockToken) :
    (s.draw token).issued = s.issued := rfl
@[simp, grind =] theorem draw_unreleased (s : LockSystem) (token : LockToken) :
    (s.draw token).unreleased = s.unreleased := rfl
@[simp, grind =] theorem setFile_files (s : LockSystem) (p q : ProfileId) (f : Option LockFile) :
    (s.setFile p f).files q = if q = p then f else s.files q := by
  simp [setFile, Function.update_apply]
@[simp, grind =] theorem setFile_calls (s : LockSystem) (p : ProfileId) (f : Option LockFile)
    (t : TaskId) :
    (s.setFile p f).calls t = s.calls t := rfl
@[simp, grind =] theorem setFile_drawn (s : LockSystem) (p : ProfileId) (f : Option LockFile) :
    (s.setFile p f).drawn = s.drawn := rfl
@[simp, grind =] theorem setFile_issued (s : LockSystem) (p : ProfileId) (f : Option LockFile) :
    (s.setFile p f).issued = s.issued := rfl
@[simp, grind =] theorem setFile_unreleased (s : LockSystem) (p : ProfileId) (f : Option LockFile) :
    (s.setFile p f).unreleased = s.unreleased := rfl

theorem exists_writeFile (s : LockSystem) (p : ProfileId) (inode : ℕ) (bytes : List Char) :
    ∃ f, s.writeFile p inode bytes = s.setFile p f := by
  have hself : s.setFile p (s.files p) = s := by simp [setFile]
  unfold writeFile
  split
  · split_ifs
    · exact ⟨_, rfl⟩
    · exact ⟨_, hself.symm⟩
  · exact ⟨_, hself.symm⟩

theorem writeFile_of_names {s : LockSystem} {p : ProfileId} {inode : ℕ} {old : List Char}
    (h : s.files p = some ⟨inode, old⟩) (bytes : List Char) :
    s.writeFile p inode bytes = s.setFile p (some ⟨inode, bytes⟩) := by
  simp [writeFile, h]

end LockSystem

end Aegis.Store
