import Aegis.Ipc.Payload
import Aegis.Update.Resolve
import Aegis.Update.Verified

/-! Where updates come from in the daemon: the manifest that is offered, the location of each
artifact below the directory of images, and the client in use, if there is one. -/
namespace Aegis
open Text OsPath Disk

/-- What the file system gives for a location that the transport takes. -/
def FileTransport.fetch (os : Os) (t : FileTransport) (read : OsStr → Result Bytes)
    (location : String) : Result Bytes := do
  let path ← t.resolve os location
  read path

/-- Parse a manifest; `parseError` is what the parser says of bytes that are none. -/
def fetchManifest (parseError : Bytes → String) (fetched : Result Bytes) :
    Result UpdateManifest := do
  let bytes ← fetched
  match fromSlice UpdateManifest bytes with
  | some manifest => return manifest
  | none => throw (.integrity ("manifest is not valid JSON: " ++ parseError bytes))

/-- The signature must be valid whatever the version; a version that is not newer is no error. -/
def SignedUpdateClient.checkForUpdate (π : Primitives) (c : SignedUpdateClient)
    (parseError : Bytes → String) (fetched : Result Bytes) (info : VersionInfo) :
    Result (Option UpdateManifest) := do
  let manifest ← fetchManifest parseError fetched
  c.verifySignature π manifest
  return if manifest.version.isNewerThan info.current then some manifest else none

/-- A verifying key in hexadecimal; `isPoint` tells which keys are points of the curve. -/
def parseVerifyingKey (isPoint : Bytes → Bool) (hexKey : String) : Result Bytes :=
  match hexDecode (trim hexKey).toList with
  | none => .error (.config "verifying key is not valid hex")
  | some key =>
    if key.length ≠ 32 then .error (.config "verifying key must be 32 bytes")
    else if isPoint key then .ok key
    else .error (.config "verifying key is not a valid ed25519 point")

/-- The daemon's client: it installs at the locations themselves. Without a usable key updates are
disabled. -/
def updateClient (isPoint : Bytes → Bool) (key : Option String) : Option SignedUpdateClient :=
  match key.map (parseVerifyingKey isPoint) with
  | some (.ok key) => some ⟨key, none⟩
  | some (.error _) | none => none

/-! The operations of the client in use; a disabled one refuses each. -/

section Updates

variable (π : Primitives) (updates : Option SignedUpdateClient)

def checkForUpdate (parseError : Bytes → String) (fetched : Result Bytes) (info : VersionInfo) :
    Result (Option UpdateManifest) :=
  match updates with
  | some c => c.checkForUpdate π parseError fetched info
  | none => .error (.config "update checking is disabled: no update_verify_key configured")

def verifyUpdate (m : UpdateManifest) (info : VersionInfo) (fetch : ℕ → Result Bytes) :
    Result VerifiedArtifact :=
  match updates with
  | some c => c.verify π m info fetch
  | none => .error (.config "update verification is disabled: no update_verify_key configured")

def applyVerified (v : VerifiedArtifact) (turn : ℕ → Turn) (d : Files) :
    Result ApplyOutcome × Files :=
  match updates with
  | some c => ((.ok (c.apply π v turn d).1), (c.apply π v turn d).2)
  | none =>
    (.error (.config "update application is disabled: no update_verify_key configured"), d)

end Updates

variable {π : Primitives} {c : SignedUpdateClient}

theorem SignedUpdateClient.checkForUpdate_some {parseError : Bytes → String}
    {fetched : Result Bytes} {info : VersionInfo} {m : UpdateManifest}
    (h : c.checkForUpdate π parseError fetched info = .ok (some m)) :
    c.Signed π m ∧ info.current < m.version ∧
      ∃ bytes, fetched = .ok bytes ∧ fromSlice UpdateManifest bytes = some m := by
  cases fetched with
  | error e => cases h
  | ok bytes =>
    cases hread : fromSlice UpdateManifest bytes with
    | none => simp [checkForUpdate, fetchManifest, hread, bind, Except.bind, throw, throwThe,
        MonadExceptOf.throw] at h
    | some manifest =>
      cases hsigned : c.verifySignature π manifest with
      | error e => simp [checkForUpdate, fetchManifest, hread, hsigned, bind, Except.bind, pure,
          Except.pure] at h
      | ok u =>
        simp only [checkForUpdate, fetchManifest, hread, hsigned, bind, Except.bind, pure,
          Except.pure, Except.ok.injEq, Option.ite_none_right_eq_some, Option.some.injEq] at h
        obtain ⟨hnewer, rfl⟩ := h
        exact ⟨verifySignature_eq_ok.mp hsigned, Version.isNewerThan_iff.mp hnewer, bytes, rfl,
          hread⟩

end Aegis
