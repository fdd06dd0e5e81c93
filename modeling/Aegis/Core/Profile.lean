import Aegis.Core.Network

/-! Profiles and what they configure: fingerprint normalization, permissions, the isolation
level and the global enforcement policy. -/
namespace Aegis

inductive ProtectionLevel where
  | balanced
  | strict
  deriving DecidableEq

inductive WebGlMode where
  | virtualBackend
  | restricted
  | disabled
  deriving DecidableEq

inductive CanvasMode where
  | passthrough
  | limited
  deriving DecidableEq

inductive LetterboxMode where
  | off
  | on
  deriving DecidableEq

inductive FontPolicy where
  | standardSet
  deriving DecidableEq

/-- The normalization policy of a session. -/
structure FingerprintPolicy where
  level : ProtectionLevel
  webgl : WebGlMode
  webgpuEnabled : Bool
  canvas : CanvasMode
  letterbox : LetterboxMode
  fonts : FontPolicy
  timerCoarseningUs : BitVec 32
  limitMediaDeviceEnumeration : Bool
  hardwareConcurrency : Option (BitVec 32)
  disableBatteryApi : Bool
  disableSensorApis : Bool
  blockDeviceApis : Bool
  timezone : Option String
  primaryLanguage : String
  deriving DecidableEq

namespace FingerprintPolicy

def balanced : FingerprintPolicy where
  level := .balanced
  webgl := .virtualBackend
  webgpuEnabled := false
  canvas := .passthrough
  letterbox := .off
  fonts := .standardSet
  timerCoarseningUs := 100
  limitMediaDeviceEnumeration := true
  hardwareConcurrency := some 4
  disableBatteryApi := true
  disableSensorApis := true
  blockDeviceApis := true
  timezone := some "UTC"
  primaryLanguage := "en-US"

def strict : FingerprintPolicy where
  level := .strict
  webgl := .disabled
  webgpuEnabled := false
  canvas := .limited
  letterbox := .on
  fonts := .standardSet
  timerCoarseningUs := 100000
  limitMediaDeviceEnumeration := true
  hardwareConcurrency := some 2
  disableBatteryApi := true
  disableSensorApis := true
  blockDeviceApis := true
  timezone := some "UTC"
  primaryLanguage := "en-US"

/-- The reason a policy breaks a rule that holds at every level, if it does. -/
def validate (p : FingerprintPolicy) : Option String :=
  if !p.blockDeviceApis then some "Bluetooth/USB/Serial/HID/MIDI must be blocked"
  else if p.level = .strict ∧ p.webgpuEnabled then
    some "WebGPU must be disabled in Strict mode"
  else if p.level = .strict ∧ p.webgl ≠ .disabled ∧ p.webgl = .virtualBackend then
    some "Strict mode must not expose a full WebGL backend"
  else none

end FingerprintPolicy

/-- The policy implied by a level. -/
def ProtectionLevel.policy : ProtectionLevel → FingerprintPolicy
  | balanced => .balanced
  | strict => .strict

/-- Both levels satisfy the rules they are checked against. -/
theorem ProtectionLevel.policy_validate (l : ProtectionLevel) : l.policy.validate = none := by
  cases l <;> decide

inductive Feature where
  | location
  | camera
  | microphone
  | notifications
  | clipboardRead
  | usb
  | bluetooth
  | serial
  | hid
  | midi
  | fileSystemAccess
  | autoplay
  | downloads
  deriving DecidableEq

inductive PermissionState where
  | block
  | ask
  | allow
  | confinedToVm
  | quarantine
  | limited
  deriving DecidableEq

/-- Default states, and overrides for an origin. -/
structure PermissionPolicy where
  defaults : Feature → Option PermissionState
  overrides : String → Option (Feature → Option PermissionState)

inductive IsolationLevel where
  | fullVm
  | hostProcess
  deriving DecidableEq

def IsolationLevel.label : IsolationLevel → String
  | fullVm => "full VM isolation"
  | hostProcess => "host process (reduced)"

/-- The containment layers that are mandatory. -/
structure Enforcement where
  requireVmIsolation : Bool
  requireGateway : Bool
  allowHostBrowser : Bool
  deriving DecidableEq

def Enforcement.secure : Enforcement := ⟨true, true, false⟩

inductive BrowserBackendId where
  | chromium
  | firefox
  deriving DecidableEq

inductive ProfileType where
  | ephemeral
  | persistent
  deriving DecidableEq

def ProfileType.isEphemeral : ProfileType → Bool
  | ephemeral => true
  | persistent => false

/-- What a profile is created from. -/
structure ProfileSpec where
  name : String
  kind : ProfileType
  network : NetworkConfig
  protection : ProtectionLevel
  isolation : IsolationLevel
  browser : BrowserBackendId
  fingerprint : Option FingerprintPolicy
  permissions : PermissionPolicy

structure Profile where
  id : ProfileId
  spec : ProfileSpec

end Aegis
