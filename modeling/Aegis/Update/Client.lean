import Aegis.Lib.Disk
import Aegis.Update.Manifest

/-! The update client: signature, downgrade and hash checks, and the swap of the installed files.
The digest and the signature scheme are parameters, as is what the transport and the file system
answer to each call. -/
namespace Aegis
open Text Disk

/-- The cryptographic functions the client calls. -/
structure Primitives where
  sha256 : Bytes → Bytes
  /-- Whether a key accepts a signature of a message. -/
  ed25519 : Bytes → Bytes → Bytes → Bool

structure SignedUpdateClient where
  verifyingKey : Bytes
  installDir : Option Path

/-- Lowercase hex SHA-256. -/
def Primitives.sha256Hex (π : Primitives) (bytes : Bytes) : String :=
  String.ofList (hexEncode (π.sha256 bytes))

/-- The hash an artifact declares, as it is compared. -/
def Artifact.wanted (a : Artifact) : String := asciiLowercase (trim a.sha256)

namespace SignedUpdateClient

def withInstallDir (c : SignedUpdateClient) (dir : Path) : SignedUpdateClient :=
  { c with installDir := some dir }

def verifySignature (π : Primitives) (c : SignedUpdateClient) (m : UpdateManifest) :
    Result Unit :=
  match hexDecode (trim m.signature).toList with
  | none => .error (.integrity "signature is not valid hex")
  | some signature =>
    if signature.length ≠ 64 then .error (.integrity "signature has wrong length")
    else if π.ed25519 c.verifyingKey (signingBytes m) signature then .ok ()
    else .error (.integrity "manifest signature verification failed")

/-- The path an artifact is installed at: its file name under the install directory, or its
location where there is none. -/
def installPath (c : SignedUpdateClient) (a : Artifact) : Result Path :=
  match c.installDir with
  | some dir =>
    match (Path.parse a.location).fileName with
    | some name => .ok (dir.join name)
    | none => .error (.system ("artifact location has no file name: " ++ a.location))
  | none => .ok (Path.parse a.location)

/-- Check one artifact against what the transport serves for it. -/
def checkArtifact (π : Primitives) (a : Artifact) (fetched : Result Bytes) : Result Unit := do
  let bytes ← fetched
  let got := π.sha256Hex bytes
  if got ≠ a.wanted then
    throw (.integrity ("artifact hash mismatch for " ++ a.location ++ ": expected " ++ a.wanted ++
      ", got " ++ got))

/-- `fetch i` is what the transport answers for the artifact number `i`. -/
def verify (π : Primitives) (c : SignedUpdateClient) (m : UpdateManifest) (info : VersionInfo)
    (fetch : ℕ → Result Bytes) : Result VerifiedArtifact := do
  c.verifySignature π m
  if ¬ m.version.isNewerThan info.current then
    throw (.integrity ("downgrade rejected: offered " ++ m.version.display ++
      " is not newer than installed " ++ info.current.display))
  (m.artifacts.mapIdx fun i a => checkArtifact π a (fetch i)).forM id
  return ⟨m.version, m.artifacts⟩

end SignedUpdateClient

/-! ### Applying -/

/-- How the write of a temporary file ends: it may fail before the file is opened, or after some
of the bytes. -/
inductive Written where
  | whole
  | refused
  | cut (n : ℕ)

/-- What the outside answers while one artifact is installed and, later, undone or tidied up. A
flag is false where the system reports an error of its own. -/
structure Turn where
  createDir : Bool
  tryExists : Bool
  backUp : Bool
  fetch : Result Bytes
  write : Written
  install : Bool
  removeNew : Bool
  removeBackup : Bool

/-- What is needed to restore an artifact that was touched. -/
structure Backup where
  target : Path
  /-- Where the previous file was moved to. -/
  backup : Option Path
  wroteNew : Bool

/-- The name of a target with a suffix, empty where the path has none. -/
def suffixedPath (suffix : FileName) (target : Path) : Path :=
  target.withFileName (target.fileName.getD [] ++ suffix)

def backupPathFor : Path → Path := suffixedPath ".aegis-bak".toList
def tmpPathFor : Path → Path := suffixedPath ".aegis-tmp".toList

namespace Turn

/-- Move an existing file out of the way. -/
def moveAway (τ : Turn) (target : Path) (d : Files) : Option (Files × Option Path) :=
  if τ.tryExists && (d target).isSome then
    if τ.backUp then
      (d.rename target (backupPathFor target)).map fun d => (d, some (backupPathFor target))
    else none
  else some (d, none)

/-- Write the temporary file; the flag tells whether all of it was written. -/
def writeTemp (τ : Turn) (tmp : Path) (bytes : Bytes) (d : Files) : Files × Bool :=
  match τ.write with
  | .refused => (d, false)
  | .cut n => ((d.write tmp (bytes.take n)).getD d, false)
  | .whole =>
    match d.write tmp bytes with
    | none => (d, false)
    | some d => (d, true)

/-- Rename the temporary file into place. -/
def moveIn (τ : Turn) (target : Path) (d : Files) : Files × Bool :=
  if τ.install then
    match d.rename (tmpPathFor target) target with
    | none => (d, false)
    | some d => (d, true)
  else (d, false)

/-- Fetch the bytes again, check them and put them in place. -/
def place (π : Primitives) (τ : Turn) (a : Artifact) (target : Path) (d : Files) : Files × Bool :=
  match τ.fetch with
  | .error _ => (d, false)
  | .ok bytes =>
    if π.sha256Hex bytes ≠ a.wanted then (d, false)
    else
      match τ.writeTemp (tmpPathFor target) bytes d with
      | (d, false) => (d, false)
      | (d, true) => τ.moveIn target d

end Turn

/-- What one pass of the loop leaves: the files, the record it pushed, and whether the artifact
is in place. -/
structure Pass where
  files : Files
  record : Option Backup
  done : Bool

namespace SignedUpdateClient

def installArtifact (π : Primitives) (c : SignedUpdateClient) (x : Artifact × Turn) (d : Files) :
    Pass :=
  match c.installPath x.1 with
  | .error _ => ⟨d, none, false⟩
  | .ok target =>
    if target.parent.isSome && !x.2.createDir then ⟨d, none, false⟩
    else
      match x.2.moveAway target d with
      | none => ⟨d, none, false⟩
      | some (d, backup) =>
        let (d, done) := x.2.place π x.1 target d
        ⟨d, some ⟨target, backup, done⟩, done⟩

/-- Install artifacts until one fails; with the files left, the records pushed and whether all are
in place. -/
def installAll (π : Primitives) (c : SignedUpdateClient) :
    List (Artifact × Turn) → Files → Files × List (Backup × Turn) × Bool
  | [], d => (d, [], true)
  | x :: xs, d =>
    let pass := c.installArtifact π x d
    let records := pass.record.toList.map fun r => (r, x.2)
    if pass.done then
      let (d, rest, done) := installAll π c xs pass.files
      (d, records ++ rest, done)
    else (pass.files, records, false)

end SignedUpdateClient

/-- Remove the backup of an installed artifact; a failure is passed over. -/
def dropBackup (d : Files) (x : Backup × Turn) : Files :=
  match x.1.backup with
  | some b => if x.2.removeBackup then (d.removeFile b).getD d else d
  | none => d

/-- Remove what was written, then restore what was there; failures are passed over. The rename
that restores fails only where there is nothing to rename or something in its way. -/
def undo (d : Files) (x : Backup × Turn) : Files :=
  let d := if x.1.wroteNew && x.2.removeNew then (d.removeFile x.1.target).getD d else d
  match x.1.backup with
  | some b => (d.rename b x.1.target).getD d
  | none => d

/-- `turn i` is what the outside answers for the artifact number `i`. -/
def SignedUpdateClient.apply (π : Primitives) (c : SignedUpdateClient) (v : VerifiedArtifact)
    (turn : ℕ → Turn) (d : Files) : ApplyOutcome × Files :=
  match c.installAll π (v.artifacts.mapIdx fun i a => (a, turn i)) d with
  | (d, records, true) => (.applied, records.foldl dropBackup d)
  | (d, records, false) => (.rolledBack, records.reverse.foldl undo d)

end Aegis
