import Aegis.Ipc.Payload

/-! The command surface: requests, replies and the messages they are sent as. -/
namespace Aegis.Ipc
open Json Text Deserialize

/-! ### Profiles -/

structure ProfileSpec where
  name : String
  kind : ProfileType
  network : NetworkConfig
  protection : ProtectionLevel
  isolation : IsolationLevel
  browser : BrowserBackendId
  fingerprint : Option FingerprintPolicy
  permissions : PermissionPolicy

/-- The spec as the daemon works with it. -/
def ProfileSpec.toCore (s : ProfileSpec) : Aegis.ProfileSpec :=
  { s with permissions := s.permissions.toCore }

structure ProfilePatch where
  name : Option String
  network : Option NetworkConfig
  protection : Option ProtectionLevel
  permissions : Option PermissionPolicy

/-- The patch as the daemon works with it. -/
def ProfilePatch.toCore (p : ProfilePatch) : Aegis.ProfilePatch :=
  { p with permissions := p.permissions.map PermissionPolicy.toCore }

structure StorageUsage where
  bytes : UInt64

structure Profile (Time : Type) where
  id : ProfileId
  spec : ProfileSpec
  createdAt : Time
  lastLaunched : Option Time
  storage : StorageUsage
  locked : Bool

instance : Wire ProfileType :=
  .variants [("ephemeral", .ephemeral), ("persistent", .persistent)] (by rintro (_ | _) <;> rfl)

instance : Wire BrowserBackendId :=
  .variants [("chromium", .chromium), ("firefox", .firefox)] (by rintro (_ | _) <;> rfl)

def ProfileSpec.record : Record ProfileSpec :=
  .of
    (fun s => (s.name, s.kind, s.network, s.protection, s.isolation, s.browser, s.fingerprint,
      s.permissions, ()))
    (fun (name, kind, network, protection, isolation, browser, fingerprint, permissions, _) =>
      ⟨name, kind, network, protection, isolation, browser, fingerprint, permissions⟩)
    (fun _ => rfl)
    (.required "name" <| .required "kind" <| .required "network" <| .required "protection" <|
      .defaulted "isolation" .fullVm <| .defaulted "browser" .chromium <|
      .defaulted "fingerprint" none <| .defaulted "permissions" .secureDefault .nil)

instance : Wire ProfileSpec := ProfileSpec.record.wire (by decide)

def ProfilePatch.record : Record ProfilePatch :=
  .of (fun p => (p.name, p.network, p.protection, p.permissions, ()))
    (fun (name, network, protection, permissions, _) => ⟨name, network, protection, permissions⟩)
    (fun _ => rfl)
    (.defaulted "name" none <| .defaulted "network" none <| .defaulted "protection" none <|
      .defaulted "permissions" none .nil)

instance : Wire ProfilePatch := ProfilePatch.record.wire (by decide)

def StorageUsage.record : Record StorageUsage :=
  .of (fun s => (s.bytes, ())) (fun (bytes, _) => ⟨bytes⟩) (fun _ => rfl) (.required "bytes" .nil)

instance : Wire StorageUsage := StorageUsage.record.wire (by decide)

section Profile

variable {Time : Type} [Chrono Time]

def Profile.record : Record (Profile Time) :=
  .of (fun p => (p.id, p.spec, p.createdAt, p.lastLaunched, p.storage, p.locked, ()))
    (fun (id, spec, createdAt, lastLaunched, storage, locked, _) =>
      ⟨id, spec, createdAt, lastLaunched, storage, locked⟩)
    (fun _ => rfl)
    (.required "id" <| .required "spec" <| .required "created_at" <|
      .defaulted "last_launched" none <| .defaulted "storage" ⟨0⟩ <| .defaulted "locked" false .nil)

instance : Wire (Profile Time) :=
  Profile.record.wire (by
    show ["id", "spec", "created_at", "last_launched", "storage", "locked"].Nodup
    decide)

end Profile

/-! ### Sessions, diagnostics and status -/

structure SessionRequest where
  profile : ProfileId
  unlockRef : Option CredentialRef

def SessionRequest.record : Record SessionRequest :=
  .of (fun r => (r.profile, r.unlockRef, ())) (fun (profile, unlockRef, _) => ⟨profile, unlockRef⟩)
    (fun _ => rfl) (.required "profile" <| .defaulted "unlock_ref" none .nil)

instance : Wire SessionRequest := SessionRequest.record.wire (by decide)

inductive HealthLevel where
  | ok
  | degraded
  | down
  | unknown
  deriving DecidableEq

inductive EvidenceState where
  | configured
  | measured
  | verified
  | unknown
  deriving DecidableEq

structure DiagnosticItem where
  key : String
  level : HealthLevel
  detail : String
  evidence : EvidenceState

instance : Wire HealthLevel :=
  .variants [("ok", .ok), ("degraded", .degraded), ("down", .down), ("unknown", .unknown)]
    (by rintro (_ | _ | _ | _) <;> rfl)

instance : Wire EvidenceState :=
  .variants [("configured", .configured), ("measured", .measured), ("verified", .verified),
    ("unknown", .unknown)] (by rintro (_ | _ | _ | _) <;> rfl)

def DiagnosticItem.record : Record DiagnosticItem :=
  .of (fun i => (i.key, i.level, i.detail, i.evidence, ()))
    (fun (key, level, detail, evidence, _) => ⟨key, level, detail, evidence⟩) (fun _ => rfl)
    (.required "key" <| .required "level" <| .required "detail" <|
      .defaulted "evidence" .unknown .nil)

instance : Wire DiagnosticItem := DiagnosticItem.record.wire (by decide)

/-- A status snapshot of the daemon. -/
structure StatusDto where
  version : String
  platform : String
  isolationLevel : IsolationLevel
  enforcement : Enforcement
  hostBrowserAvailable : Bool
  hostBrowserPath : Option String

def StatusDto.record : Record StatusDto :=
  .of
    (fun s => (s.version, s.platform, s.isolationLevel, s.enforcement, s.hostBrowserAvailable,
      s.hostBrowserPath, ()))
    (fun (version, platform, isolationLevel, enforcement, hostBrowserAvailable, hostBrowserPath,
        _) =>
      ⟨version, platform, isolationLevel, enforcement, hostBrowserAvailable, hostBrowserPath⟩)
    (fun _ => rfl)
    (.required "version" <| .required "platform" <| .required "isolation_level" <|
      .required "enforcement" <| .required "host_browser_available" <|
      .optional "host_browser_path" .nil)

instance : Wire StatusDto := StatusDto.record.wire (by decide)

/-! ### Requests -/

/-- A command of a front-end. -/
inductive Request where
  | listProfiles
  | createProfile (spec : ProfileSpec)
  | updateProfile (id : ProfileId) (patch : ProfilePatch)
  | deleteProfile (id : ProfileId)
  | startSession (request : SessionRequest)
  | stopSession (id : SessionId)
  | listSessions
  | getDiagnostics (id : SessionId)
  | doctor
  | checkUpdate (info : VersionInfo)
  | applyUpdate (manifest : UpdateManifest)
  | getStatus
  | getEnforcement
  | setEnforcement (enforcement : Enforcement)

namespace Request

/-- The operation of a request, without arguments. -/
inductive Op where
  | listProfiles
  | createProfile
  | updateProfile
  | deleteProfile
  | startSession
  | stopSession
  | listSessions
  | getDiagnostics
  | doctor
  | checkUpdate
  | applyUpdate
  | getStatus
  | getEnforcement
  | setEnforcement
  deriving DecidableEq

def Op.names : List (String × Op) :=
  [("list-profiles", listProfiles), ("create-profile", createProfile),
    ("update-profile", updateProfile), ("delete-profile", deleteProfile),
    ("start-session", startSession), ("stop-session", stopSession), ("list-sessions", listSessions),
    ("get-diagnostics", getDiagnostics), ("doctor", doctor), ("check-update", checkUpdate),
    ("apply-update", applyUpdate), ("get-status", getStatus), ("get-enforcement", getEnforcement),
    ("set-enforcement", setEnforcement)]

theorem Op.lookup_nameIn (o : Op) : names.lookup (nameIn names o) = some o := by
  cases o <;> rfl

def op : Request → Op
  | listProfiles => .listProfiles
  | createProfile _ => .createProfile
  | updateProfile _ _ => .updateProfile
  | deleteProfile _ => .deleteProfile
  | startSession _ => .startSession
  | stopSession _ => .stopSession
  | listSessions => .listSessions
  | getDiagnostics _ => .getDiagnostics
  | doctor => .doctor
  | checkUpdate _ => .checkUpdate
  | applyUpdate _ => .applyUpdate
  | getStatus => .getStatus
  | getEnforcement => .getEnforcement
  | setEnforcement _ => .setEnforcement

def opName (r : Request) : String := nameIn Op.names r.op

/-- The fields of `UpdateProfile`. -/
def updateFields : Record (ProfileId × ProfilePatch × Unit) :=
  .required "id" <| .required "patch" .nil

def body : Request → Option Value
  | listProfiles | listSessions | doctor | getStatus | getEnforcement => none
  | createProfile spec => some (Wire.toValue spec)
  | updateProfile id patch => some (.object (updateFields.write (id, patch, ())))
  | deleteProfile id => some (Wire.toValue id)
  | startSession request => some (Wire.toValue request)
  | stopSession id => some (Wire.toValue id)
  | getDiagnostics id => some (Wire.toValue id)
  | checkUpdate info => some (Wire.toValue info)
  | applyUpdate manifest => some (Wire.toValue manifest)
  | setEnforcement enforcement => some (Wire.toValue enforcement)

def ofBody : Op → Option Value → Option Request
  | .listProfiles => unitContent listProfiles
  | .createProfile => newtypeContent none createProfile
  | .updateProfile => structContent updateFields fun (id, patch, _) => updateProfile id patch
  | .deleteProfile => newtypeContent none deleteProfile
  | .startSession => newtypeContent none startSession
  | .stopSession => newtypeContent none stopSession
  | .listSessions => unitContent listSessions
  | .getDiagnostics => newtypeContent none getDiagnostics
  | .doctor => unitContent doctor
  | .checkUpdate => newtypeContent none checkUpdate
  | .applyUpdate => newtypeContent none applyUpdate
  | .getStatus => unitContent getStatus
  | .getEnforcement => unitContent getEnforcement
  | .setEnforcement => newtypeContent none setEnforcement

theorem plain_body (r : Request) : ∀ v ∈ r.body, PlainValue v := by
  intro v hv
  cases r <;> cases hv
  case updateProfile => exact Record.plain_object _ (Record.plain _ _)
  all_goals exact Wire.plain _

theorem ofBody_body (r : Request) : ofBody r.op r.body = some r := by
  cases r with
  | updateProfile id patch => rw [op, body, ofBody, structContent_write (by decide)]
  | createProfile spec => rw [op, body, ofBody, newtypeContent_toValue]
  | deleteProfile id => rw [op, body, ofBody, newtypeContent_toValue]
  | startSession request => rw [op, body, ofBody, newtypeContent_toValue]
  | stopSession id => rw [op, body, ofBody, newtypeContent_toValue]
  | getDiagnostics id => rw [op, body, ofBody, newtypeContent_toValue]
  | checkUpdate info => rw [op, body, ofBody, newtypeContent_toValue]
  | applyUpdate manifest => rw [op, body, ofBody, newtypeContent_toValue]
  | setEnforcement enforcement => rw [op, body, ofBody, newtypeContent_toValue]
  | listProfiles | listSessions | doctor | getStatus | getEnforcement => rfl

instance : Wire Request :=
  .adjacent "op" "body" Op.names op body ofBody (by decide) Op.lookup_nameIn plain_body ofBody_body

end Request

/-! ### Replies -/

/-- The reply of the daemon to a request. -/
inductive Response (Time : Type) where
  | profiles (profiles : List (Profile Time))
  | profile (profile : Profile Time)
  | ok
  | session (summary : SessionSummary)
  | sessions (summaries : List SessionSummary)
  | diagnostics (protection : ProtectionStatus) (checklist : ConnectivityChecklist)
    (items : List DiagnosticItem)
  | doctor (checklist : ConnectivityChecklist)
  | updateAvailable (manifest : Option UpdateManifest)
  | updateApplied (outcome : ApplyOutcome)
  | status (status : StatusDto)
  | enforcement (enforcement : Enforcement)
  | error (message : String) (failureClass : FailureClass)

namespace Response

/-- What a reply is about. -/
inductive Kind where
  | profiles
  | profile
  | ok
  | session
  | sessions
  | diagnostics
  | doctor
  | updateAvailable
  | updateApplied
  | status
  | enforcement
  | error
  deriving DecidableEq

def Kind.names : List (String × Kind) :=
  [("profiles", profiles), ("profile", profile), ("ok", ok), ("session", session),
    ("sessions", sessions), ("diagnostics", diagnostics), ("doctor", doctor),
    ("update-available", updateAvailable), ("update-applied", updateApplied), ("status", status),
    ("enforcement", enforcement), ("error", error)]

theorem Kind.lookup_nameIn (k : Kind) : names.lookup (nameIn names k) = some k := by
  cases k <;> rfl

/-- The fields of `Diagnostics`. -/
def diagnosticsFields :
    Record (ProtectionStatus × ConnectivityChecklist × List DiagnosticItem × Unit) :=
  .required "protection" <| .required "checklist" <| .required "items" .nil

/-- The fields of `Error`. -/
def errorFields : Record (String × FailureClass × Unit) :=
  .required "message" <| .required "class" .nil

variable {Time : Type}

/-- The reply a failure is collapsed into. -/
def ofError (e : Error) : Response Time := .error e.display e.failureClass

def kind : Response Time → Kind
  | profiles _ => .profiles
  | profile _ => .profile
  | ok => .ok
  | session _ => .session
  | sessions _ => .sessions
  | diagnostics _ _ _ => .diagnostics
  | doctor _ => .doctor
  | updateAvailable _ => .updateAvailable
  | updateApplied _ => .updateApplied
  | status _ => .status
  | enforcement _ => .enforcement
  | error _ _ => .error

variable [Chrono Time]

def body : Response Time → Option Value
  | .profiles ps => some (Wire.toValue ps)
  | .profile p => some (Wire.toValue p)
  | ok => none
  | session summary => some (Wire.toValue summary)
  | sessions summaries => some (Wire.toValue summaries)
  | diagnostics protection checklist items =>
    some (.object (diagnosticsFields.write (protection, checklist, items, ())))
  | doctor checklist => some (Wire.toValue checklist)
  | updateAvailable manifest => some (Wire.toValue manifest)
  | updateApplied outcome => some (Wire.toValue outcome)
  | .status s => some (Wire.toValue s)
  | .enforcement e => some (Wire.toValue e)
  | error message failureClass => some (.object (errorFields.write (message, failureClass, ())))

/-- A missing content is no manifest. -/
def ofBody : Kind → Option Value → Option (Response Time)
  | .profiles => newtypeContent none profiles
  | .profile => newtypeContent none profile
  | .ok => unitContent ok
  | .session => newtypeContent none session
  | .sessions => newtypeContent none sessions
  | .diagnostics => structContent diagnosticsFields fun (protection, checklist, items, _) =>
    diagnostics protection checklist items
  | .doctor => newtypeContent none doctor
  | .updateAvailable => newtypeContent (some none) updateAvailable
  | .updateApplied => newtypeContent none updateApplied
  | .status => newtypeContent none status
  | .enforcement => newtypeContent none enforcement
  | .error => structContent errorFields fun (message, failureClass, _) => error message failureClass

theorem plain_body (r : Response Time) : ∀ v ∈ r.body, PlainValue v := by
  intro v hv
  cases r <;> cases hv
  case diagnostics => exact Record.plain_object _ (Record.plain _ _)
  case error => exact Record.plain_object _ (Record.plain _ _)
  all_goals exact Wire.plain _

theorem ofBody_body (r : Response Time) : ofBody r.kind r.body = some r := by
  cases r with
  | diagnostics protection checklist items =>
    rw [kind, body, ofBody, structContent_write (by decide)]
  | error message failureClass => rw [kind, body, ofBody, structContent_write (by decide)]
  | profiles profiles => rw [kind, body, ofBody, newtypeContent_toValue]
  | profile profile => rw [kind, body, ofBody, newtypeContent_toValue]
  | session summary => rw [kind, body, ofBody, newtypeContent_toValue]
  | sessions summaries => rw [kind, body, ofBody, newtypeContent_toValue]
  | doctor checklist => rw [kind, body, ofBody, newtypeContent_toValue]
  | updateAvailable manifest => rw [kind, body, ofBody, newtypeContent_toValue]
  | updateApplied outcome => rw [kind, body, ofBody, newtypeContent_toValue]
  | status status => rw [kind, body, ofBody, newtypeContent_toValue]
  | enforcement enforcement => rw [kind, body, ofBody, newtypeContent_toValue]
  | ok => rfl

instance : Wire (Response Time) :=
  .adjacent "result" "body" Kind.names kind body ofBody (by decide) Kind.lookup_nameIn plain_body
    ofBody_body

end Response

/-! ### The round trip -/

/-- Every request and every reply is read as it was sent. -/
theorem messages_roundtrip {Time : Type} [Chrono Time] (request : Request)
    (response : Response Time) :
    fromSlice Request (toVec request) = some request ∧
      fromSlice (Response Time) (toVec response) = some response :=
  ⟨fromSlice_toVec request, fromSlice_toVec response⟩

/-- A time in whole seconds, by the pairs of digits of its text. -/
structure Stamp where
  century : Fin 100
  year : Fin 100
  month : Fin 100
  day : Fin 100
  hour : Fin 100
  minute : Fin 100
  second : Fin 100

namespace Stamp

def high (n : Fin 100) : Char := Nat.digitChar (n / 10)
def low (n : Fin 100) : Char := Nat.digitChar (n % 10)

def ofDigits (a b : Char) : Option (Fin 100) :=
  (List.finRange 100).find? fun n => high n = a ∧ low n = b

theorem ofDigits_high_low (n : Fin 100) : ofDigits (high n) (low n) = some n := by
  revert n
  decide

def text (t : Stamp) : List Char :=
  [high t.century, low t.century, high t.year, low t.year, '-', high t.month, low t.month, '-',
    high t.day, low t.day, 'T', high t.hour, low t.hour, ':', high t.minute, low t.minute, ':',
    high t.second, low t.second, 'Z']

def ofText : List Char → Option Stamp
  | [a, b, c, d, '-', e, f, '-', g, h, 'T', i, j, ':', k, l, ':', m, n, 'Z'] => do
    return {
      century := ← ofDigits a b
      year := ← ofDigits c d
      month := ← ofDigits e f
      day := ← ofDigits g h
      hour := ← ofDigits i j
      minute := ← ofDigits k l
      second := ← ofDigits m n }
  | _ => none

instance : Chrono Stamp where
  toRfc3339 t := String.ofList t.text
  parse s := ofText s.toList
  parse_toRfc3339 t := by
    rw [String.toList_ofList]
    simp [text, ofText, ofDigits_high_low]

/-- 2026-01-02T03:04:05Z. -/
def sent : Stamp := ⟨20, 26, 1, 2, 3, 4, 5⟩

end Stamp

/-- A patch with a nested network configuration. -/
def sentRequest : Request :=
  .updateProfile ⟨7⟩ ⟨some "work \"1\"", some (.fromMode (.proxy
    ⟨.socks5, "10.0.0.1", 1080, some ⟨"proxy-1"⟩, true⟩)), none, some .secureDefault⟩

/-- A profile as it is after its creation. -/
def sentResponse : Response Stamp :=
  .profile ⟨⟨7⟩, ⟨"work", .persistent, .default, .strict, .hostProcess, .firefox, some .strict,
    .secureDefault⟩, .sent, none, ⟨4096⟩, false⟩

theorem messages_roundtrip_sent :
    fromSlice Request (toVec sentRequest) = some sentRequest ∧
      fromSlice (Response Stamp) (toVec sentResponse) = some sentResponse :=
  messages_roundtrip sentRequest sentResponse

end Aegis.Ipc
