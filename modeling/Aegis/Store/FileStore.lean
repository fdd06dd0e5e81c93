import Aegis.Ipc.Protocol
import Aegis.Store.Lock
import Aegis.Store.Shred

/-! The file-backed store over a file tree: one call after another, any file operation of which may
fail. -/
namespace Aegis.Store
open Text FileTree FileTree.Run

/-- The store; the text of an error of the JSON parser is its own. -/
structure FileProfileStore where
  root : Path
  shredder : Shredder
  parseError : Bytes → String

def IoError.toError : IoError → Error
  | .notFound => .io "No such file or directory (os error 2)"
  | .alreadyExists => .io "File exists (os error 17)"
  | .other text => .io text

/-- The `?` of the source. -/
def raise {α : Type} (m : Run IoError α) : Run Error α := ExceptT.adapt IoError.toError m

def ofResult {α : Type} : Result α → Run Error α
  | .ok a => return a
  | .error e => throw e

namespace FileProfileStore

variable (s : FileProfileStore)

def profileDir (id : ProfileId) : Path := s.root ++ [id.uuid.display]

def metaPath (id : ProfileId) : Path := s.profileDir id ++ ["profile.json"]

def lockPath (id : ProfileId) : Path := s.profileDir id ++ ["profile.lock"]

def dataDir (id : ProfileId) : Path := s.profileDir id ++ ["data"]

def tempName (temp : Uuid) : FileName := "." ++ String.ofList temp.digits ++ ".tmp"

section Time

variable {Time : Type} [Chrono Time]

def readMeta (id : ProfileId) : Run Error (Ipc.Profile Time) := do
  match ← attempt (readFile (s.metaPath id)) with
  | .error .notFound => throw (.notFound ("profile " ++ id.uuid.display))
  | .error e => throw (IoError.toError e)
  | .ok bytes =>
    match fromSlice (Ipc.Profile Time) bytes with
    | some profile => return profile
    | none => throw (.config ("corrupt profile metadata for " ++ id.uuid.display ++ ": " ++
        s.parseError bytes))

/-- `write_meta`, with the identifier that is drawn for the temporary file. -/
def writeMeta (profile : Ipc.Profile Time) (temp : Uuid) : Run Error Unit := do
  let dir := s.profileDir profile.id
  raise (createDirAll dir)
  raise (writeFile (dir ++ [tempName temp]) (toVecPretty profile))
  match ← attempt (rename (dir ++ [tempName temp]) (s.metaPath profile.id)) with
  | .ok () => return ()
  | .error e => do
    let _ ← attempt (removeFile (dir ++ [tempName temp]))
    throw (IoError.toError e)

def isLocked (id : ProfileId) : Run Error Bool := do
  match ← attempt (metadata (s.lockPath id)) with
  | .ok _ => return true
  | .error .notFound => return false
  | .error e => throw (IoError.toError e)

/-- The length of a file added to a total; a file that is gone adds nothing. -/
def addLen (total : UInt64) (path : Path) : Run IoError UInt64 := do
  match ← attempt (symlinkMetadata path) with
  | .ok m => return UInt64.ofNat (min (total.toNat + m.len) (2 ^ 64 - 1))
  | .error .notFound => return total
  | .error e => throw e

/-- The entries of a directory add to the size, and to the stack of directories. -/
def sizeEntries (current : Path) : List (FileName × Node) → List Path → UInt64 →
    Run IoError (List Path × UInt64)
  | [], stack, total => return (stack, total)
  | (name, n) :: es, stack, total => do
    checkpoint
    match n with
    | .dir => sizeEntries current es ((current ++ [name]) :: stack) total
    | .file _ => sizeEntries current es stack (← addLen total (current ++ [name]))
    | _ => sizeEntries current es stack total

/-- The size of what is below the directories on the stack; one that is gone is passed over. -/
def sizeBelow : ℕ → List Path → UInt64 → Run IoError UInt64
  | _, [], total => return total
  | 0, _ :: _, _ => throw (.other "more directories than nodes")
  | turns + 1, current :: stack, total => do
    match ← attempt (readDir current) with
    | .error .notFound => sizeBelow turns stack total
    | .error e => throw e
    | .ok es => do
      let (stack, total) ← sizeEntries current es stack total
      sizeBelow turns stack total

def dirSize (dir : Path) : Run IoError UInt64 := do
  sizeBelow (← OverwriteShredder.turns) [dir] 0

def loadRefreshed (id : ProfileId) : Run Error (Ipc.Profile Time) := do
  let profile ← s.readMeta id
  let bytes ← raise (dirSize (s.profileDir id))
  let locked ← s.isLocked id
  return { profile with storage := ⟨bytes⟩, locked := locked }

/-- `apply_patch`: the result must be valid. -/
def applyPatch (spec : Ipc.ProfileSpec) (patch : Ipc.ProfilePatch) : Result Ipc.ProfileSpec :=
  let spec := { spec with
    name := patch.name.getD spec.name
    network := patch.network.getD spec.network
    protection := patch.protection.getD spec.protection
    permissions := patch.permissions.getD spec.permissions }
  match spec.toCore.validate with
  | .error e => .error e
  | .ok () => .ok spec

/-- `create`, with the identifiers that are drawn and the time it is. -/
def create (spec : Ipc.ProfileSpec) (id : ProfileId) (temp : Uuid) (now : Time) :
    Run Error (Ipc.Profile Time) := do
  ofResult spec.toCore.validate
  match ← attempt (metadata (s.profileDir id)) with
  | .ok _ => throw (.internal ("profile dir already exists for " ++ id.uuid.display))
  | .error _ => do
    raise (createDirAll (s.dataDir id))
    s.writeMeta ⟨id, spec, now, none, ⟨0⟩, false⟩ temp
    s.loadRefreshed id

/-- `update` with the metadata it read: an empty patch writes nothing. -/
def update (id : ProfileId) (patch : Ipc.ProfilePatch) (temp : Uuid) :
    Run Error (Ipc.Profile Time) := do
  let profile : Ipc.Profile Time ← s.readMeta id
  if patch.toCore.isEmpty then s.loadRefreshed id
  else do
    let spec ← ofResult (applyPatch profile.spec patch)
    s.writeMeta { profile with spec := spec } temp
    s.loadRefreshed id

def touchLaunch (id : ProfileId) (now : Time) (temp : Uuid) : Run Error Unit := do
  let profile ← s.readMeta id
  s.writeMeta { profile with lastLaunched := some now } temp

/-- The order of a listing: newest first, then by identifier. -/
def listedBefore [Ord Time] (a b : Ipc.Profile Time) : Bool :=
  (compare b.createdAt a.createdAt).then (compare a.id.uuid.display b.id.uuid.display) |>.isLE

/-- The profiles of the entries that are directories named by an identifier. -/
def loadEntries : List (FileName × Node) → List (Ipc.Profile Time) →
    Run Error (List (Ipc.Profile Time))
  | [], out => return out
  | (name, n) :: es, out => do
    raise checkpoint
    match n, Uuid.parse name with
    | .dir, some uuid => do
      match ← attempt (s.loadRefreshed ⟨uuid⟩ : Run Error (Ipc.Profile Time)) with
      | .ok profile => loadEntries es (out ++ [profile])
      | .error (.notFound _) => loadEntries es out
      | .error e => throw e
    | _, _ => loadEntries es out

def list [Ord Time] : Run Error (List (Ipc.Profile Time)) := do
  match ← attempt (readDir s.root) with
  | .error .notFound => return []
  | .error e => throw (IoError.toError e)
  | .ok es => do
    let out ← s.loadEntries es []
    return out.mergeSort listedBefore

end Time

def delete (id : ProfileId) : Run Error Unit := do
  match ← attempt (metadata (s.profileDir id)) with
  | .error _ => throw (.notFound ("profile " ++ id.uuid.display))
  | .ok _ => raise (s.shredder.shredDir (s.profileDir id))

def tokenBytes (token : LockToken) : Bytes := utf8 token.text

/-- `acquire_lock`, with the token that is drawn. -/
def acquireLock (id : ProfileId) (token : LockToken) : Run Error ProfileLease := do
  match ← attempt (metadata (s.profileDir id)) with
  | .error _ => throw (.notFound ("profile " ++ id.uuid.display))
  | .ok _ =>
    match ← attempt (openNew (s.lockPath id)) with
    | .error .alreadyExists => throw (.busy ("profile " ++ id.uuid.display ++ " is already locked"))
    | .error e => throw (IoError.toError e)
    | .ok q => do
      raise (writeAll q 0 (tokenBytes token))
      raise checkpoint
      return ⟨id, token⟩

def releaseLock (lease : ProfileLease) : Run Error Unit := do
  match ← attempt (readFile (s.lockPath lease.profile)) with
  | .error .notFound =>
    throw (.precondition ("profile " ++ lease.profile.uuid.display ++ " is not locked"))
  | .error e => throw (IoError.toError e)
  | .ok held =>
    if held ≠ tokenBytes lease.token then
      throw (.precondition ("lock token mismatch for profile " ++ lease.profile.uuid.display))
    else raise (removeFile (s.lockPath lease.profile))

/-! ### What only reads -/

section Reads

variable {s} {Time : Type} [Chrono Time]

theorem readMeta_readOnly (id : ProfileId) :
    ReadOnly (s.readMeta id : Run Error (Ipc.Profile Time)) := by
  refine (ReadOnly.query _).attempt.bind fun r => ?_
  rcases r with e | bytes
  · cases e <;> exact .throw _
  · simp only
    split
    · exact .pure _
    · exact .throw _

theorem isLocked_readOnly (id : ProfileId) : ReadOnly (s.isLocked id) := by
  refine (ReadOnly.query _).attempt.bind fun r => ?_
  rcases r with e | n
  · cases e with
    | notFound => exact .pure _
    | alreadyExists => exact .throw _
    | other text => exact .throw _
  · exact .pure _

theorem addLen_readOnly (total : UInt64) (path : Path) : ReadOnly (addLen total path) := by
  refine (ReadOnly.query _).attempt.bind fun r => ?_
  rcases r with e | n
  · cases e with
    | notFound => exact .pure _
    | alreadyExists => exact .throw _
    | other text => exact .throw _
  · exact .pure _

theorem sizeEntries_readOnly (current : Path) (es : List (FileName × Node)) (stack : List Path)
    (total : UInt64) : ReadOnly (sizeEntries current es stack total) := by
  induction es generalizing stack total with
  | nil => exact .pure _
  | cons e es ih =>
    refine (ReadOnly.query _).bind fun _ => ?_
    cases e.2 with
    | dir => exact ih _ _
    | file bytes => exact (addLen_readOnly _ _).bind fun total => ih _ _
    | link target => exact ih _ _
    | special => exact ih _ _

theorem sizeBelow_readOnly (turns : ℕ) (stack : List Path) (total : UInt64) :
    ReadOnly (sizeBelow turns stack total) := by
  induction turns generalizing stack total with
  | zero =>
    cases stack with
    | nil => exact .pure _
    | cons d stack => exact .throw _
  | succ turns ih =>
    cases stack with
    | nil => exact .pure _
    | cons d stack =>
      refine (ReadOnly.query _).attempt.bind fun r => ?_
      rcases r with e | es
      · cases e with
        | notFound => exact ih _ _
        | alreadyExists => exact .throw _
        | other text => exact .throw _
      · exact (sizeEntries_readOnly d es stack total).bind fun r => ih _ _

theorem loadRefreshed_readOnly (id : ProfileId) :
    ReadOnly (s.loadRefreshed id : Run Error (Ipc.Profile Time)) := by
  refine (readMeta_readOnly id).bind fun profile => .bind (.adapt _ ?_) fun bytes => ?_
  · exact .bind (fun _ => rfl) fun turns => sizeBelow_readOnly turns _ _
  · exact (isLocked_readOnly id).bind fun locked => .pure _

theorem loadEntries_readOnly (es : List (FileName × Node)) (out : List (Ipc.Profile Time)) :
    ReadOnly (s.loadEntries es out) := by
  induction es generalizing out with
  | nil => exact .pure _
  | cons e es ih =>
    refine .bind (.adapt _ (.query _)) fun _ => ?_
    split
    · refine (loadRefreshed_readOnly _).attempt.bind fun r => ?_
      rcases r with e | profile
      · cases e with
        | notFound reason => exact ih _
        | _ => exact .throw _
      · exact ih _
    · exact ih _

theorem list_readOnly [Ord Time] : ReadOnly (s.list : Run Error (List (Ipc.Profile Time))) := by
  refine (ReadOnly.query _).attempt.bind fun r => ?_
  rcases r with e | es
  · cases e with
    | notFound => exact .pure _
    | alreadyExists => exact .throw _
    | other text => exact .throw _
  · exact (loadEntries_readOnly es []).bind fun out => .pure _

end Reads

end FileProfileStore

end Aegis.Store
