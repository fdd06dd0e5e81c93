import Aegis.Core.Profile
import Aegis.Lib.Text

/-! What a profile spec is checked for, what it comes to, and what it shows: the effective
fingerprint policy and permissions, patches, the preview and the configured diagnostics. -/
namespace Aegis

def ProtectionLevel.label : ProtectionLevel → String
  | balanced => "Balanced"
  | strict => "Strict"

def BrowserBackendId.label : BrowserBackendId → String
  | chromium => "Chromium"
  | firefox => "Firefox/Mullvad"

def ProfileType.label : ProfileType → String
  | ephemeral => "ephemeral"
  | persistent => "persistent"

/-- Device classes no path may grant. -/
def Feature.isHardBlocked : Feature → Bool
  | usb | bluetooth | serial | hid | midi => true
  | _ => false

namespace Enforcement

/-- No VM and no gateway: the browser runs on the host behind a proxy. -/
def hostBrowser : Enforcement := ⟨false, false, true⟩

/-- Whether the full VM-isolation posture is in force. -/
def isFullIsolation (e : Enforcement) : Bool := e.requireVmIsolation && e.requireGateway

/-- The isolation level that is reported for sessions under the policy. -/
def isolationLevel (e : Enforcement) : IsolationLevel :=
  if e.isFullIsolation then .fullVm else .hostProcess

/-- Full VM isolation is reported only where a VM is required. -/
theorem requireVmIsolation_of_fullVm {e : Enforcement} (h : e.isolationLevel = .fullVm) :
    e.requireVmIsolation = true := by
  unfold isolationLevel isFullIsolation at h
  split_ifs at h with hfull
  exact (Bool.and_eq_true_iff.mp hfull).1

end Enforcement

/-- The name the feature has in error texts. -/
def Feature.debug : Feature → String
  | location => "Location"
  | camera => "Camera"
  | microphone => "Microphone"
  | notifications => "Notifications"
  | clipboardRead => "ClipboardRead"
  | usb => "Usb"
  | bluetooth => "Bluetooth"
  | serial => "Serial"
  | hid => "Hid"
  | midi => "Midi"
  | fileSystemAccess => "FileSystemAccess"
  | autoplay => "Autoplay"
  | downloads => "Downloads"

namespace PermissionPolicy

/-- The default table. -/
def secureDefault : PermissionPolicy where
  defaults
    | .notifications => some .ask
    | .fileSystemAccess => some .confinedToVm
    | .autoplay => some .limited
    | .downloads => some .quarantine
    | _ => some .block
  overrides _ := none

/-- The state of a feature at an origin: the override, the default, or `block`. -/
def effective (p : PermissionPolicy) (origin : String) (feature : Feature) : PermissionState :=
  match (p.overrides origin).bind fun m => m feature with
  | some state => state
  | none => (p.defaults feature).getD .block

/-- The state a grant sets. -/
def granted : Feature → PermissionState
  | .fileSystemAccess => .confinedToVm
  | .downloads => .quarantine
  | _ => .allow

/-- Grant a feature for an origin; hard-blocked device classes are refused. -/
def grant (p : PermissionPolicy) (origin : String) (feature : Feature) : Result PermissionPolicy :=
  if feature.isHardBlocked then
    .error (.precondition ("feature " ++ feature.debug ++ " is hard-blocked and cannot be granted"))
  else
    let m := (p.overrides origin).getD fun _ => none
    .ok { p with
      overrides := Function.update p.overrides origin
        (some (Function.update m feature (some (granted feature)))) }

/-- No entry of the policy says anything but `block` on a hard-blocked device class. -/
structure BlocksDevices (p : PermissionPolicy) : Prop where
  defaults : ∀ f state, f.isHardBlocked = true → p.defaults f = some state → state = .block
  overrides : ∀ origin m f state, f.isHardBlocked = true → p.overrides origin = some m →
    m f = some state → state = .block

theorem BlocksDevices.effective {p : PermissionPolicy} (h : p.BlocksDevices) (origin : String)
    {f : Feature} (hf : f.isHardBlocked = true) : p.effective origin f = .block := by
  unfold PermissionPolicy.effective
  cases ho : (p.overrides origin).bind fun m => m f with
  | some state =>
    obtain ⟨m, hm, hstate⟩ := Option.bind_eq_some_iff.mp ho
    exact h.overrides origin m f state hf hm hstate
  | none =>
    cases hd : p.defaults f with
    | some state => exact h.defaults f state hf hd
    | none => rfl

theorem blocksDevices_secureDefault : secureDefault.BlocksDevices := by
  refine ⟨fun f state hf hstate => ?_, fun origin m f state hf hm => by cases hm⟩
  cases f <;> cases hf <;> cases hstate <;> rfl

/-- A checked grant opens no device class. -/
theorem BlocksDevices.grant {p q : PermissionPolicy} {origin : String} {f : Feature}
    (h : p.BlocksDevices) (hq : p.grant origin f = .ok q) : q.BlocksDevices := by
  unfold PermissionPolicy.grant at hq
  split_ifs at hq with hf
  cases hq
  refine ⟨h.defaults, fun o m g state hg hm hstate => ?_⟩
  simp only [Function.update_apply] at hm
  split_ifs at hm with ho
  · cases hm
    have hne : g ≠ f := fun he => hf (he ▸ hg)
    rw [Function.update_of_ne hne] at hstate
    cases hm : p.overrides origin with
    | none => rw [hm] at hstate; cases hstate
    | some m => rw [hm] at hstate; exact h.overrides origin m g state hg hm hstate
  · exact h.overrides o m g state hg hm hstate

end PermissionPolicy

/-- The rules of every level, as documented: device APIs blocked, sensors and battery suppressed,
and in Strict no WebGPU and no full WebGL backend. -/
structure FingerprintPolicy.NonNegotiable (p : FingerprintPolicy) : Prop where
  devices : p.blockDeviceApis = true
  sensors : p.disableSensorApis = true
  battery : p.disableBatteryApi = true
  webgpu : p.level = .strict → p.webgpuEnabled = false
  webgl : p.level = .strict → p.webgl ≠ .virtualBackend

/-- The check covers the rules but those on sensors and battery. -/
theorem FingerprintPolicy.validate_eq_none {p : FingerprintPolicy} : p.validate = none ↔
    p.blockDeviceApis = true ∧ (p.level = .strict → p.webgpuEnabled = false) ∧
      (p.level = .strict → p.webgl ≠ .virtualBackend) := by
  unfold validate
  cases p.blockDeviceApis <;> cases p.level <;> cases p.webgpuEnabled <;> cases p.webgl <;> simp

theorem FingerprintPolicy.nonNegotiable_iff {p : FingerprintPolicy} : p.NonNegotiable ↔
    p.validate = none ∧ p.disableSensorApis = true ∧ p.disableBatteryApi = true := by
  rw [validate_eq_none]
  constructor
  · rintro ⟨hd, hs, hb, hgpu, hgl⟩
    exact ⟨⟨hd, hgpu, hgl⟩, hs, hb⟩
  · rintro ⟨⟨hd, hgpu, hgl⟩, hs, hb⟩
    exact ⟨hd, hs, hb, hgpu, hgl⟩

instance (p : FingerprintPolicy) : Decidable p.NonNegotiable :=
  decidable_of_iff _ FingerprintPolicy.nonNegotiable_iff.symm

/-- The policy of a level keeps every rule. -/
theorem ProtectionLevel.policy_nonNegotiable (l : ProtectionLevel) : l.policy.NonNegotiable := by
  cases l <;> decide

namespace ProfileSpec

/-- An ephemeral Balanced profile through Tor. -/
def ephemeral (name : String) : ProfileSpec where
  name := name
  kind := .ephemeral
  network := .default
  protection := .balanced
  isolation := .fullVm
  browser := .chromium
  fingerprint := none
  permissions := .secureDefault

/-- The effective fingerprint policy: the override, or the policy of the level. -/
def resolvedFingerprint (spec : ProfileSpec) : FingerprintPolicy :=
  spec.fingerprint.getD spec.protection.policy

/-- The name is not empty and the policy of the level is sane. -/
def validate (spec : ProfileSpec) : Result Unit :=
  if Text.trim spec.name = "" then .error (.config "profile name must not be empty")
  else match spec.protection.policy.validate with
    | some reason => .error (.config ("fingerprint policy invalid: " ++ reason))
    | none => .ok ()

/-- Only the name is ever refused. -/
theorem validate_eq_ok {spec : ProfileSpec} :
    spec.validate = .ok () ↔ Text.trim spec.name ≠ "" := by
  unfold validate
  rw [spec.protection.policy_validate]
  split_ifs with h <;> simp [h]

/-- The resolved policy is that of the level exactly where the spec overrides nothing. -/
theorem resolvedFingerprint_eq_policy {spec : ProfileSpec} :
    spec.protection.policy = spec.resolvedFingerprint ↔
      spec.fingerprint = none ∨ spec.fingerprint = some spec.protection.policy := by
  unfold resolvedFingerprint
  cases spec.fingerprint with
  | none => simp
  | some p => simp [eq_comm]

end ProfileSpec

/-- A patch of a profile's mutable settings. -/
structure ProfilePatch where
  name : Option String
  network : Option NetworkConfig
  protection : Option ProtectionLevel
  permissions : Option PermissionPolicy

namespace ProfilePatch

/-- Whether the patch changes nothing. -/
def isEmpty (p : ProfilePatch) : Bool :=
  p.name.isNone && p.network.isNone && p.protection.isNone && p.permissions.isNone

/-- The spec with the fields of the patch in place of its own. -/
def set (p : ProfilePatch) (spec : ProfileSpec) : ProfileSpec :=
  { spec with
    name := p.name.getD spec.name
    network := p.network.getD spec.network
    protection := p.protection.getD spec.protection
    permissions := p.permissions.getD spec.permissions }

/-- `apply_patch`: the result must be valid. -/
def apply (spec : ProfileSpec) (p : ProfilePatch) : Result ProfileSpec :=
  match (p.set spec).validate with
  | .error e => .error e
  | .ok () => .ok (p.set spec)

theorem apply_eq_ok {spec spec' : ProfileSpec} {p : ProfilePatch} (h : apply spec p = .ok spec') :
    spec' = p.set spec := by
  unfold apply at h
  split at h <;> cases h
  rfl

end ProfilePatch

/-! ## What a profile shows -/

def representativeUserAgent : BrowserBackendId → String
  | .chromium => "Mozilla/5.0 (Windows NT 10.0; Win64; x64) AppleWebKit/537.36 " ++
      "(KHTML, like Gecko) Chrome/126.0.0.0 Safari/537.36"
  | .firefox => "Mozilla/5.0 (Windows NT 10.0; rv:128.0) Gecko/20100101 Firefox/128.0"

/-- The observable properties a profile is configured to present. -/
structure ProfilePreview where
  browser : BrowserBackendId
  userAgent : String
  isolation : IsolationLevel
  isolationLabel : String
  network : String
  protection : ProtectionLevel
  timezone : String
  language : String
  hardwareConcurrency : Option (BitVec 32)
  webgl : String
  webgpuEnabled : Bool
  canvas : String
  letterbox : Bool
  timerCoarseningUs : BitVec 32
  deviceApisBlocked : Bool
  limitMediaDevices : Bool
  batteryDisabled : Bool
  sensorsDisabled : Bool

/-- What a browser shows that runs the spec under the policy `fp`. -/
def ProfilePreview.under (fp : FingerprintPolicy) (spec : ProfileSpec) : ProfilePreview where
  browser := spec.browser
  userAgent := representativeUserAgent spec.browser
  isolation := spec.isolation
  isolationLabel := spec.isolation.label
  network := spec.network.mode.label
  protection := fp.level
  timezone := fp.timezone.getD "system-derived"
  language := fp.primaryLanguage
  hardwareConcurrency := fp.hardwareConcurrency
  webgl := match fp.webgl with
    | .virtualBackend => "virtual backend"
    | .restricted => "restricted"
    | .disabled => "disabled"
  webgpuEnabled := fp.webgpuEnabled
  canvas := match fp.canvas with
    | .passthrough => "passthrough"
    | .limited => "limited"
  letterbox := match fp.letterbox with
    | .on => true
    | .off => false
  timerCoarseningUs := fp.timerCoarseningUs
  deviceApisBlocked := fp.blockDeviceApis
  limitMediaDevices := fp.limitMediaDeviceEnumeration
  batteryDisabled := fp.disableBatteryApi
  sensorsDisabled := fp.disableSensorApis

/-- `ProfilePreview::from_spec`. -/
def ProfileSpec.preview (spec : ProfileSpec) : ProfilePreview :=
  .under spec.resolvedFingerprint spec

/-- A key and a detail of the diagnostics that a setting alone accounts for. -/
structure ConfiguredItem where
  key : String
  detail : String
  deriving DecidableEq

/-- The configured items of the diagnostics, as the preview has them. -/
def configuredProfileItems (profile : Profile) (preview : ProfilePreview) : List ConfiguredItem :=
  let engine := match profile.spec.browser with
    | .chromium => "chromium"
    | .firefox => "firefox"
  let environment := match profile.spec.isolation with
    | .fullVm => "linux"
    | .hostProcess => "host"
  let protection := match preview.protection with
    | .balanced => "balanced"
    | .strict => "strict"
  let cpu := (preview.hardwareConcurrency.map fun v => toString v.toNat).getD "guest-derived"
  [⟨"isolation", preview.isolationLabel⟩,
    ⟨"browser_engine", profile.spec.browser.label⟩,
    ⟨"cohort_profile", engine ++ "-" ++ environment ++ "-" ++ protection ++ "-v1"⟩,
    ⟨"protection_level", preview.protection.label⟩,
    ⟨"profile_persistence", profile.spec.kind.label⟩,
    ⟨"render_mode", "software/virtual rendering requested; runtime renderer not measured"⟩,
    ⟨"devices", if preview.deviceApisBlocked then
      "host device APIs blocked by configured browser policy"
      else "device APIs are not blocked by the configured policy"⟩,
    ⟨"site_user_agent", "real " ++ profile.spec.browser.label ++
      " engine version; exact runtime value not measured"⟩,
    ⟨"site_timezone", preview.timezone⟩,
    ⟨"site_language", preview.language⟩,
    ⟨"site_cpu", cpu ++ " logical CPUs"⟩,
    ⟨"site_webgl", preview.webgl⟩,
    ⟨"site_webgpu", if preview.webgpuEnabled then "enabled" else "disabled"⟩,
    ⟨"site_canvas", preview.canvas⟩,
    ⟨"site_media_devices", if preview.limitMediaDevices then "enumeration limited"
      else "enumeration not limited"⟩]

end Aegis
