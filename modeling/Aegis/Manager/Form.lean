import Aegis.Core.Spec

/-! The create-profile form: how its fields become a spec, and what of the proxy credentials gets
into one. -/
namespace Aegis

/-- The text of an optional field, trimmed; one that is blank counts as not given. -/
def given (field : Option String) : Option String := (field.map Text.trim).filter (· ≠ "")

/-- The switches of the "Advanced" panel. -/
structure FingerprintArgs where
  webgl : Option String
  webgpuEnabled : Option Bool
  canvas : Option String
  letterbox : Option Bool
  hardwareConcurrency : Option (BitVec 32)
  timezone : Option String
  language : Option String

namespace FingerprintArgs

def webglMode (base : WebGlMode) : Option String → Except String WebGlMode
  | none => .ok base
  | some "virtual-backend" | some "virtual" => .ok .virtualBackend
  | some "restricted" => .ok .restricted
  | some "disabled" | some "off" => .ok .disabled
  | some other => .error ("unknown WebGL mode: " ++ other)

def canvasMode (base : CanvasMode) : Option String → Except String CanvasMode
  | none => .ok base
  | some "passthrough" => .ok .passthrough
  | some "limited" => .ok .limited
  | some other => .error ("unknown canvas mode: " ++ other)

/-- The base policy with the switches that were set; the result is validated. -/
def applyTo (args : FingerprintArgs) (base : FingerprintPolicy) :
    Except String FingerprintPolicy := do
  let webgl ← webglMode base.webgl (given args.webgl)
  let canvas ← canvasMode base.canvas (given args.canvas)
  let fp := { base with
    webgl := webgl
    webgpuEnabled := args.webgpuEnabled.getD base.webgpuEnabled
    canvas := canvas
    letterbox := match args.letterbox with
      | some true => .on
      | some false => .off
      | none => base.letterbox
    hardwareConcurrency := match args.hardwareConcurrency with
      | some cores => if cores = 0 then none else some cores
      | none => base.hardwareConcurrency
    timezone := (given args.timezone).or base.timezone
    primaryLanguage := (given args.language).getD base.primaryLanguage }
  match fp.validate with
  | some reason => .error ("invalid fingerprint override: " ++ reason)
  | none => .ok fp

variable {args : FingerprintArgs} {base fp : FingerprintPolicy}

/-- An override has its base's level, sensors and battery, and passes the check. -/
theorem applyTo_eq_ok (h : args.applyTo base = .ok fp) :
    fp.level = base.level ∧ fp.disableSensorApis = base.disableSensorApis ∧
      fp.disableBatteryApi = base.disableBatteryApi ∧ fp.validate = none := by
  unfold applyTo at h
  cases hgl : webglMode base.webgl (given args.webgl) with
  | error e => rw [hgl] at h; cases h
  | ok webgl =>
    cases hcanvas : canvasMode base.canvas (given args.canvas) with
    | error e => rw [hgl, hcanvas] at h; cases h
    | ok canvas =>
      rw [hgl, hcanvas] at h
      simp only [bind, Except.bind] at h
      split at h
      · cases h
      · next hvalid => cases h; exact ⟨rfl, rfl, rfl, hvalid⟩

/-- No choice of switches relaxes a rule that the base keeps. -/
theorem nonNegotiable_applyTo (hbase : base.NonNegotiable) (h : args.applyTo base = .ok fp) :
    fp.NonNegotiable := by
  obtain ⟨-, hsensors, hbattery, hvalid⟩ := applyTo_eq_ok h
  rw [FingerprintPolicy.nonNegotiable_iff, hsensors, hbattery]
  exact ⟨hvalid, hbase.sensors, hbase.battery⟩

end FingerprintArgs

/-- The form. -/
structure CreateProfileArgs where
  name : String
  kind : Option String
  isolation : Option String
  networkMode : Option String
  bridges : Option String
  proxyHost : Option String
  proxyPort : Option Port
  proxyCredentials : Option String
  protection : Option String
  browser : Option String
  fingerprint : Option FingerprintArgs

namespace CreateProfileArgs

variable (a : CreateProfileArgs)

def profileType : ProfileType :=
  match a.kind with
  | some "persistent" => .persistent
  | _ => .ephemeral

def isolationLevel : IsolationLevel :=
  match a.isolation with
  | some "host-process" | some "host" => .hostProcess
  | _ => .fullVm

def protectionLevel : ProtectionLevel :=
  match a.protection with
  | some "strict" => .strict
  | _ => .balanced

def browserBackend : BrowserBackendId :=
  match a.browser with
  | some "firefox" | some "tor" | some "tor-browser" => .firefox
  | _ => .chromium

def fingerprintOverride : Except String (Option FingerprintPolicy) :=
  match a.fingerprint with
  | some args => (args.applyTo a.protectionLevel.policy).map some
  | none => .ok none

def bridgeLines : List String :=
  match a.bridges with
  | some raw => ((Text.lines raw).map Text.trim).filter (· ≠ "")
  | none => []

/-- The reference that stands for the credentials: it names the user. -/
def credentialsRef (credentials : Option String) : Option CredentialRef :=
  (given credentials).map fun c =>
    let user := Text.trim ((Text.split ':' c).headD "")
    ⟨if user = "" then "proxy" else "proxy:" ++ user⟩

def proxyConfig (protocol : ProxyProtocol) : Except String ProxyConfig :=
  match given a.proxyHost with
  | none => .error "proxy host must not be empty"
  | some host =>
    match a.proxyPort.filter (· ≠ 0) with
    | none => .error "proxy port must be between 1 and 65535"
    | some port => .ok ⟨protocol, host, port, credentialsRef a.proxyCredentials, true⟩

def networkConfig : Except String NetworkConfig :=
  let hostMode := a.isolationLevel = .hostProcess
  match a.networkMode with
  | none | some "tor" =>
    let bridges := a.bridgeLines
    .ok (.fromMode (.tor ⟨!bridges.isEmpty, bridges, none⟩))
  | some "socks5" | some "proxy" => (a.proxyConfig .socks5).map fun p => .fromMode (.proxy p)
  | some "http" => (a.proxyConfig .httpConnect).map fun p => .fromMode (.proxy p)
  | some "vpn" =>
    if hostMode then
      .error "VPN is available only with full-VM isolation; use Tor or a proxy for host mode"
    else
      .error ("VPN profiles require an endpoint and stored credentials; " ++
        "create them via the CLI/config")
  | some other => .error ("unknown network mode: " ++ other)

/-- The form under a given name, validated. -/
def specWithName (name : String) : Except String ProfileSpec := do
  let network ← a.networkConfig
  let fingerprint ← a.fingerprintOverride
  let spec : ProfileSpec :=
    { name := name
      kind := a.profileType
      network := network
      protection := a.protectionLevel
      isolation := a.isolationLevel
      browser := a.browserBackend
      fingerprint := fingerprint
      permissions := .secureDefault }
  match spec.validate with
  | .error e => .error ("invalid profile: " ++ e.display)
  | .ok () => .ok spec

def toSpec : Except String ProfileSpec :=
  let name := Text.trim a.name
  if name = "" then .error "profile name must not be empty" else a.specWithName name

def preview : Except String ProfilePreview :=
  let name := Text.trim a.name
  (a.specWithName (if name = "" then "preview" else name)).map ProfileSpec.preview

variable {a} {name : String} {spec : ProfileSpec}

/-! ### What is assembled -/

theorem specWithName_eq_ok (h : a.specWithName name = .ok spec) :
    spec.validate = .ok () ∧ spec.protection = a.protectionLevel ∧
      a.networkConfig = .ok spec.network ∧ a.fingerprintOverride = .ok spec.fingerprint := by
  unfold specWithName at h
  cases hnet : a.networkConfig with
  | error e => rw [hnet] at h; cases h
  | ok network =>
    cases hfp : a.fingerprintOverride with
    | error e => rw [hnet, hfp] at h; cases h
    | ok fingerprint =>
      rw [hnet, hfp] at h
      simp only [bind, Except.bind] at h
      split at h
      · cases h
      · next hvalid => cases h; exact ⟨hvalid, rfl, rfl, rfl⟩

/-- The policy a spec of the form comes to keeps every rule. -/
theorem nonNegotiable_specWithName (h : a.specWithName name = .ok spec) :
    spec.resolvedFingerprint.NonNegotiable := by
  obtain ⟨-, hlevel, -, hfp⟩ := specWithName_eq_ok h
  have hbase := a.protectionLevel.policy_nonNegotiable
  unfold ProfileSpec.resolvedFingerprint
  rw [hlevel]
  unfold fingerprintOverride at hfp
  cases hargs : a.fingerprint with
  | none =>
    rw [hargs] at hfp
    rw [← Except.ok.inj hfp]
    exact hbase
  | some args =>
    rw [hargs] at hfp
    dsimp only at hfp
    cases happly : args.applyTo a.protectionLevel.policy with
    | error e => rw [happly] at hfp; cases hfp
    | ok fp =>
      rw [happly] at hfp
      rw [← Except.ok.inj hfp]
      exact FingerprintArgs.nonNegotiable_applyTo hbase happly

/-! ### What of the credentials gets into it -/

/-- The reference is made of what stands before the first colon. -/
theorem credentialsRef_append {user : String} (h : ':' ∉ user.toList) (password : String) :
    credentialsRef (some (user ++ ":" ++ password)) =
      some ⟨if Text.trim user = "" then "proxy" else "proxy:" ++ Text.trim user⟩ := by
  have hcolon : Text.isWhitespace ':' = false := by decide
  have htext : user ++ ":" ++ password =
      String.ofList (user.toList ++ ':' :: password.toList) := by
    apply String.toList_inj.mp
    simp
  have hgiven : given (some (user ++ ":" ++ password)) =
      some (Text.trim (user ++ ":" ++ password)) := by
    have hne := Text.trim_append_cons_ne_empty hcolon user.toList password.toList
    rw [← htext] at hne
    exact Option.filter_some_pos (by simpa using hne)
  have huser : Text.trim ((Text.split ':' (Text.trim (user ++ ":" ++ password))).headD "") =
      Text.trim user := by
    rw [htext, Text.trim_first_piece hcolon h, String.ofList_toList]
  unfold credentialsRef
  rw [hgiven, Option.map_some, huser]

variable {credentials : Option String}

theorem networkConfig_congr (h : credentialsRef credentials = credentialsRef a.proxyCredentials) :
    networkConfig { a with proxyCredentials := credentials } = a.networkConfig := by
  have hproxy : ∀ protocol, proxyConfig { a with proxyCredentials := credentials } protocol =
      a.proxyConfig protocol := by
    intro protocol
    unfold proxyConfig
    rw [h]
  unfold networkConfig
  rw [hproxy, hproxy]
  rfl

/-- The spec depends on the credentials through their reference. -/
theorem specWithName_congr (h : credentialsRef credentials = credentialsRef a.proxyCredentials)
    (name : String) :
    specWithName { a with proxyCredentials := credentials } name = a.specWithName name := by
  unfold specWithName
  rw [networkConfig_congr h]
  rfl

/-- Credentials that differ in the password have one reference. -/
theorem credentialsRef_password {user : String} (h : ':' ∉ user.toList)
    (password password' : String) : credentialsRef (some (user ++ ":" ++ password)) =
      credentialsRef (some (user ++ ":" ++ password')) :=
  (credentialsRef_append h password).trans (credentialsRef_append h password').symm

example : credentialsRef (some "alice:hunter2") = some ⟨"proxy:alice"⟩ := by decide

/-- Forms that differ in the password convert to the same spec, or fail with the same message. -/
theorem toSpec_password (a : CreateProfileArgs) {user : String} (h : ':' ∉ user.toList)
    (password password' : String) :
    toSpec { a with proxyCredentials := some (user ++ ":" ++ password) } =
      toSpec { a with proxyCredentials := some (user ++ ":" ++ password') } := by
  have href := credentialsRef_password h password password'
  have hspec := specWithName_congr
    (a := { a with proxyCredentials := some (user ++ ":" ++ password') }) href
  unfold toSpec
  dsimp only at hspec ⊢
  rw [hspec]

/-- The form as the page sends it for an HTTP proxy. -/
def httpAuth (credentials : String) : CreateProfileArgs where
  name := "http-auth"
  kind := none
  isolation := none
  networkMode := some "http"
  bridges := none
  proxyHost := some "proxy.example"
  proxyPort := some 8080
  proxyCredentials := some credentials
  protection := none
  browser := none
  fingerprint := none

theorem toSpec_httpAuth : ':' ∉ "alice".toList ∧
    (httpAuth ("alice" ++ ":" ++ "hunter2")).toSpec =
      (httpAuth ("alice" ++ ":" ++ "correct: horse")).toSpec :=
  ⟨by decide, toSpec_password (httpAuth "") (by decide) "hunter2" "correct: horse"⟩

/-- Nor does the live preview show the password. -/
theorem preview_password (a : CreateProfileArgs) {user : String} (h : ':' ∉ user.toList)
    (password password' : String) :
    preview { a with proxyCredentials := some (user ++ ":" ++ password) } =
      preview { a with proxyCredentials := some (user ++ ":" ++ password') } := by
  have href := credentialsRef_password h password password'
  have hspec := specWithName_congr
    (a := { a with proxyCredentials := some (user ++ ":" ++ password') }) href
  unfold preview
  dsimp only at hspec ⊢
  rw [hspec]

end CreateProfileArgs
end Aegis
