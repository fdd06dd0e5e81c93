import Aegis.Core.Browser
import Aegis.Core.Session
import Aegis.Core.Vm
import Aegis.Gateway.Controller
import Aegis.Store.Lock

/-! The code of a session between two await points: what the start and the teardown of a
session do to its entry, which call they make next, and what they record. -/
namespace Aegis.Orchestrator
open Store

structure ImageSet where
  gateway : String
  browser : String

/-- The parts of the application configuration the orchestrator reads. -/
structure AppConfig where
  networkPrefix : String
  images : Option ImageSet
  imagesDir : String
  runtimeDir : String

/-- What the daemon runs with: its configuration, the host browsers that were located, and the
value of `AEGIS_HOST_PROXY`. -/
structure Wiring where
  config : AppConfig
  hostBrowser : Bool
  hostBrowserFirefox : Bool
  aegisHostProxy : Option String

/-- A resolved host-mode proxy. -/
structure HostProxy where
  endpoint : String
  probeHost : String
  probePort : Port
  deriving DecidableEq

/-- Read `scheme://host:port`. -/
def HostProxy.parse (endpoint : String) : Result HostProxy :=
  let authority := (Text.afterLast "://".toList endpoint.toList).getD endpoint.toList
  match Text.rsplitOnce ':' authority with
  | none => .error (.config ("host proxy '" ++ endpoint ++ "' is missing a host:port"))
  | some (host, port) =>
    match Text.parseUnsigned (2 ^ 16) port with
    | none => .error (.config ("host proxy '" ++ endpoint ++ "' has an invalid port"))
    | some n =>
      if host = [] then .error (.config ("host proxy '" ++ endpoint ++ "' is missing a host"))
      else .ok ⟨endpoint, String.ofList host, BitVec.ofNat 16 n⟩

/-- Which backend drives a session. -/
inductive SessionMode where
  | fullVm
  | hostProcess (userDataDir : String) (ephemeral : Bool) (engine : BrowserBackendId)
  deriving DecidableEq

/-- The 32 bytes of an ephemeral key. -/
abbrev SecretKey := BitVec 256

/-- Live state of a session. -/
structure SessionEntry where
  profile : ProfileId
  state : SessionState
  lease : ProfileLease
  mode : SessionMode
  gatewayVm : Option VmId
  browserVm : Option VmId
  browserHandle : Option BrowserHandle
  protection : ProtectionStatus
  publicIp : Option String
  checklist : Option ConnectivityChecklist
  ramKey : SecretKey

namespace SessionEntry

def summary (e : SessionEntry) (s : SessionId) : SessionSummary where
  id := s
  profile := e.profile
  state := e.state
  protection := e.protection
  publicIp := e.publicIp

/-- The entry a session is registered with. -/
def requested (profile : ProfileId) (lease : ProfileLease) (ramKey : SecretKey) :
    SessionEntry where
  profile := profile
  state := .requested
  lease := lease
  mode := .fullVm
  gatewayVm := none
  browserVm := none
  browserHandle := none
  protection := .noProtection
  publicIp := none
  checklist := none
  ramKey := ramKey

def setVm (e : SessionEntry) : VmRole → VmId → SessionEntry
  | .gateway, vm => { e with gatewayVm := some vm }
  | .browser, vm => { e with browserVm := some vm }

def setBrowserHandle (e : SessionEntry) (h : BrowserHandle) : SessionEntry :=
  { e with browserHandle := some h }

/-- Record what a preflight measured. -/
def setChecklist (e : SessionEntry) (c : ConnectivityChecklist) : SessionEntry :=
  { e with
    protection := c.status
    publicIp := c.observedIp.map IpObservation.ip
    checklist := some c }

/-- The references a finished teardown clears, with the state it leaves. -/
def cleared (e : SessionEntry) (state : SessionState) : SessionEntry :=
  { e with state := state, browserHandle := none, gatewayVm := none, browserVm := none }

end SessionEntry

inductive Severity where
  | info
  | notice
  | warning
  | critical
  deriving DecidableEq

inductive EventKind where
  | sessionState (state : String)
  | preflightCheck (check outcome : String)
  | killSwitch (state : String)
  | tunnel (state : String)
  | vm (role state : String)
  | profile (action : String)
  | failClosed (cls : FailureClass) (reason : String)
  | integrity (action outcome : String)
  deriving DecidableEq

/-- An audit record, without its timestamp. -/
structure AuditRecord where
  severity : Severity
  session : Option SessionId
  profile : Option ProfileId
  kind : EventKind
  deriving DecidableEq

/-- The calls of a teardown, in the order they are made. -/
inductive Cleanup where
  | terminate (handle : BrowserHandle)
  | removeDir (userDataDir : String)
  | shutdown (vm : VmId)
  | destroy (role : VmRole) (vm : VmId)
  | release (lease : ProfileLease)
  deriving DecidableEq

/-- What the sessions did, call by call: a call is recorded when it is made, and again when it
returned `Ok` where that matters; `entered` records the writes of a session's state. -/
inductive Event where
  | registered (s : SessionId) (profile : Profile)
  | entered (s : SessionId) (state : SessionState)
  | provisionCalled (s : SessionId) (req : VmProvisionRequest)
  | provisioned (s : SessionId) (role : VmRole) (vm : VmId)
  | configured (s : SessionId) (cfg : GatewayConfig)
  | firewallApplied (s : SessionId) (policy : FirewallPolicy)
  | startCalled (s : SessionId) (vm : VmId)
  | proxyReached (s : SessionId) (proxy : HostProxy)
  | launchCalled (s : SessionId) (req : BrowserLaunchRequest) (bundle : BackendPolicyBundle)
  | launched (s : SessionId) (handle : BrowserHandle)
  | engageCalled (s : SessionId)
  | stopCalled (s : SessionId)
  | cleanup (s : SessionId) (call : Cleanup)
  | audit (r : AuditRecord)

/-- Write the next state of a session, which the state graph must allow. -/
def transition (next : SessionState) (e : SessionEntry) : Result SessionEntry :=
  if e.state.canTransitionTo next then .ok { e with state := next }
  else .error (.internal
    ("illegal session transition " ++ e.state.debug ++ " -> " ++ next.debug))

/-- The record of a state, after its write. -/
def stateEvents (s : SessionId) (profile : ProfileId) (state : SessionState) : List Event :=
  [.audit ⟨.info, some s, some profile, .sessionState state.asStr⟩, .entered s state]

namespace Wiring

def hostBackendFor (w : Wiring) : BrowserBackendId → Result Unit
  | .chromium =>
    if w.hostBrowser then .ok () else .error (.config
      ("this profile requests the Chromium engine in host mode, but no host Chromium/Edge " ++
        "browser was located; install Chrome/Chromium/Edge or set AEGIS_BROWSER_BIN"))
  | .firefox =>
    if w.hostBrowserFirefox then .ok () else .error (.config
      ("this profile requests the Firefox engine in host mode, but no host Firefox / Tor " ++
        "Browser was located; install Firefox / the Tor Browser bundle or set " ++
        "AEGIS_FIREFOX_BIN"))

/-- The proxy a host-process session is routed through. -/
def hostProxyEndpoint (w : Wiring) : NetworkMode → Result HostProxy
  | .tor _ =>
    HostProxy.parse ((w.aegisHostProxy.filter fun p => Text.trim p ≠ "").getD
      "socks5h://127.0.0.1:9050")
  | .proxy cfg =>
    let scheme := match cfg.protocol with | .socks5 => "socks5h" | .httpConnect => "http"
    HostProxy.parse (scheme ++ "://" ++ cfg.host ++ ":" ++ toString cfg.port.toNat)
  | .vpn _ => .error (.unsupported "host mode needs Tor or a proxy, not a VPN")

def gatewayBaseImage (w : Wiring) : String :=
  (w.config.images.map ImageSet.gateway).getD
    (Text.joinPath w.config.imagesDir "gateway-base.qcow2")

def browserBaseImage (w : Wiring) : String :=
  (w.config.images.map ImageSet.browser).getD
    (Text.joinPath w.config.imagesDir "browser-base.qcow2")

/-- The request a VM of a session is provisioned with. -/
def provisionRequest (w : Wiring) (role : VmRole) (inst : InstanceId) : VmProvisionRequest where
  instanceId := inst
  role := role
  resources := match role with | .gateway => .gateway | .browser => .browser
  disk :=
    { backingImage := match role with
        | .gateway => w.gatewayBaseImage
        | .browser => w.browserBaseImage
      overlayPath := Text.joinPath w.config.runtimeDir (inst.slug ++ "-overlay.qcow2")
      destroyOnClose := true
      readOnlyRoot := true }
  gpu := .virtioGpu
  isolation := .hardened
  isolatedNetwork := w.config.networkPrefix ++ "-net"

/-- Every request the orchestrator builds is valid. -/
theorem provisionRequest_validate (w : Wiring) (role : VmRole) (inst : InstanceId) :
    (w.provisionRequest role inst).validate = .ok () := by
  have h : (w.provisionRequest role inst).isolation.validate = none :=
    IsolationPolicy.validate_eq_none.mpr rfl
  unfold VmProvisionRequest.validate
  rw [h]
  simp [provisionRequest]

def hostUserDataDir (w : Wiring) (profile : Profile) : String :=
  Text.joinPath (Text.joinPath w.config.runtimeDir "host-profiles") profile.id.uuid.display

end Wiring

/-- The gateway configuration derived from a profile's network settings. -/
def gatewayConfig (network : NetworkConfig) : GatewayConfig where
  mode := network.mode
  dns := network.dns
  ipv6 := network.ipv6
  downstreamCidr := "10.152.152.0/24"
  gatewayAddress := "10.152.152.1"

/-- The launch request of the full-VM path. -/
def browserLaunchRequest (s : SessionId) (profile : Profile) (cfg : GatewayConfig) :
    BrowserLaunchRequest where
  session := s
  profile := profile.id
  userDataDir := "/home/user/.aegis/profile"
  fingerprint := profile.spec.protection.policy
  permissions := profile.spec.permissions
  proxyEndpoint := match cfg.mode with
    | .tor _ => "socks5://" ++ cfg.gatewayAddress ++ ":9050"
    | _ => "socks5://" ++ cfg.gatewayAddress ++ ":1080"
  renderMode := .software
  production := true

/-- The launch request of the host-process path. -/
def hostLaunchRequest (s : SessionId) (profile : Profile) (userDataDir : String)
    (proxy : HostProxy) : BrowserLaunchRequest where
  session := s
  profile := profile.id
  userDataDir := userDataDir
  fingerprint := profile.spec.protection.policy
  permissions := profile.spec.permissions
  proxyEndpoint := proxy.endpoint
  renderMode := .software
  production := true

/-- The checklist of the reduced host-process preflight. -/
def hostChecklist : ConnectivityChecklist :=
  .new (CheckId.all.map fun id =>
    match id with
    | .tunnelReady => ⟨id, .pass,
        "host proxy endpoint reached; VM tunnel isolation is not available"⟩
    | .gatewayReady => ⟨id, .skipped, "host-process mode has no dedicated gateway VM"⟩
    | _ => ⟨id, .skipped, "not measured by the reduced host-process preflight"⟩)

/-- The host checklist never passes for a full one. -/
theorem hostChecklist_permitsBrowsing : hostChecklist.permitsBrowsing = false := by decide

/-- The call a start is waiting for. -/
inductive Drive where
  | provisionGateway
  | provisionBrowser (gw : VmId)
  | configure (gw br : VmId)
  | applyFirewall (gw br : VmId)
  | startGateway (br : VmId)
  | startBrowser
  | runPreflight
  | proxyReachable (proxy : HostProxy)
  | launch (req : BrowserLaunchRequest) (bundle : BackendPolicyBundle)
  | isRunning (handle : BrowserHandle)
  | touchLaunch

/-- What a call returned to the code waiting for it, with what that code draws at random or
renders before its next call. -/
inductive Input where
  | profile (r : Result Profile)
  | registered (s : SessionId) (key : Result SecretKey) (inst : InstanceId)
  | provisioned (r : Result VmId) (inst : InstanceId)
  | returned
  | started (r : Result Unit)
  | checklist (r : Result ConnectivityChecklist) (bundle : Result BackendPolicyBundle)
  | reachable (r : Result Bool) (bundle : Result BackendPolicyBundle)
  | launched (r : Result BrowserHandle)
  | running (r : Result Bool)
  | destroyed (overlayShredded : Result Bool)

/-- The error of the call that returned, where the call was neither to the lock nor to the
gateway. -/
def Input.error : Input → Option Error
  | .provisioned (.error e) _ | .started (.error e) | .checklist (.error e) _
  | .reachable (.error e) _ | .launched (.error e) | .running (.error e) => some e
  | _ => none

/-- How a part of a start ends: at its next call, with an error, or with the summary. The
events are newest first. -/
inductive Flow where
  | await (entry : SessionEntry) (next : Drive) (events : List Event)
  | raise (entry : SessionEntry) (err : Error) (events : List Event)
  | finish (entry : SessionEntry) (summary : SessionSummary) (events : List Event)

/-- Continue with the value of a result, or raise its error. -/
def Flow.try {α : Type} (r : Result α) (entry : SessionEntry) (events : List Event)
    (k : α → Flow) : Flow :=
  match r with
  | .ok a => k a
  | .error e => .raise entry e events

/-- Move to `next` and continue, or raise the error of an illegal transition. -/
def Flow.enter (s : SessionId) (next : SessionState) (entry : SessionEntry) (events : List Event)
    (k : SessionEntry → List Event → Flow) : Flow :=
  .try (transition next entry) entry events fun e =>
    k e (stateEvents s e.profile next ++ events)

section Start

variable (w : Wiring) (s : SessionId) (profile : Profile)

/-- `drive_start`, up to its first call. -/
def driveStart (inst : InstanceId) (entry : SessionEntry) (events : List Event) : Flow :=
  .enter s .provisioning entry events fun entry events =>
    .await entry .provisionGateway
      (.provisionCalled s (w.provisionRequest .gateway inst) :: events)

/-- `drive_start_host`, up to its first call. -/
def driveStartHost (entry : SessionEntry) (events : List Event) : Flow :=
  .try (w.hostBackendFor profile.spec.browser) entry events fun _ =>
  .try (w.hostProxyEndpoint profile.spec.network.mode) entry events fun proxy =>
  .enter s .provisioning entry events fun entry events =>
  .enter s .gatewayStarting entry events fun entry events =>
  .enter s .preflight entry events fun entry events =>
    .await entry (.proxyReachable proxy) events

/-- Render the policy, assert it is safe, and launch. -/
def launchWith (req : BrowserLaunchRequest) (bundle : Result BackendPolicyBundle)
    (entry : SessionEntry) (events : List Event) : Flow :=
  .try bundle entry events fun bundle =>
  .try (bundle.assertSafe req.production) entry events fun _ =>
    .await entry (.launch req bundle) (.launchCalled s req bundle :: events)

/-- The records of a preflight, one for each report. -/
def preflightEvents (c : ConnectivityChecklist) : List Event :=
  (c.reports.map fun r => Event.audit
    ⟨if r.outcome.isPass then .info else .warning, some s, some profile.id,
      .preflightCheck r.id.asStr r.outcome.asStr⟩).reverse

/-- The entry of a host-process session once its proxy answered. -/
def hostEntry (entry : SessionEntry) : SessionEntry :=
  { entry with
    protection := .partialProtection
    checklist := some hostChecklist
    mode := .hostProcess (w.hostUserDataDir profile) profile.spec.kind.isEphemeral
      profile.spec.browser }

/-- The records of a proxy that answered. -/
def probeEvents (proxy : HostProxy) : List Event :=
  [.audit ⟨.info, some s, some profile.id, .preflightCheck "host_proxy_reachable" "pass"⟩,
    .proxyReached s proxy]

/-- After a preflight: record the checklist, and go on only if it permits browsing. -/
def afterPreflight (c : ConnectivityChecklist) (bundle : Result BackendPolicyBundle)
    (entry : SessionEntry) : Flow :=
  let audits := preflightEvents s profile c
  let entry := entry.setChecklist c
  if !c.permitsBrowsing then
    .raise entry (.networkContainment
      ("preflight did not permit browsing; failing checks: [" ++
        ", ".intercalate (c.failures.map CheckId.asStr) ++ "]")) audits
  else
    launchWith s (browserLaunchRequest s profile (gatewayConfig profile.spec.network)) bundle
      entry audits

/-- After the probe of the host proxy: go on only if it is listening. -/
def afterProbe (proxy : HostProxy) (reachable : Bool) (bundle : Result BackendPolicyBundle)
    (entry : SessionEntry) : Flow :=
  if !reachable then
    .raise entry (.networkContainment
      ("host-mode proxy at " ++ proxy.probeHost ++ ":" ++ toString proxy.probePort.toNat ++
        " is not reachable; refusing to launch the host browser " ++
        "(it would leak onto the host's default route)")) []
  else
    launchWith s (hostLaunchRequest s profile (w.hostUserDataDir profile) proxy) bundle
      (hostEntry w profile entry) (probeEvents s profile proxy)

/-- The record of reduced protection a host-process session makes when it is browsing. -/
def browsingEvents : List Event :=
  match profile.spec.isolation with
  | .hostProcess => [.audit ⟨.warning, some s, some profile.id, .sessionState
      ("host-process browsing (reduced protection: " ++ IsolationLevel.hostProcess.label ++ ")")⟩]
  | .fullVm => []

/-- After the liveness check: enter `Browsing`. -/
def afterRunning (running : Bool) (entry : SessionEntry) : Flow :=
  if !running then
    .raise entry (.system (match profile.spec.isolation with
      | .hostProcess => "host browser launch returned without a live browser process"
      | .fullVm => "browser launch returned without a live browser process")) []
  else
    .enter s .browsing entry [] fun entry events =>
      .await entry .touchLaunch (browsingEvents s profile ++ events)

/-- Continue a start with what its call returned; `reply` is the gateway's. -/
def Drive.resume (reply : Option Gateway.Call) (entry : SessionEntry) :
    Drive → Input → Option Flow
  | .provisionGateway, .provisioned r inst => some <|
    .try r entry [] fun gw =>
      .await (entry.setVm .gateway gw) (.provisionBrowser gw)
        [.provisionCalled s (w.provisionRequest .browser inst), .provisioned s .gateway gw]
  | .provisionBrowser gw, .provisioned r _ => some <|
    .try r entry [] fun br =>
    .enter s .gatewayStarting (entry.setVm .browser br) [.provisioned s .browser br]
      fun entry events => .await entry (.configure gw br) events
  | .configure gw br, .returned =>
    match reply with
    | some (.done (.unit r)) => some <|
      .try r entry [] fun _ =>
        .await entry (.applyFirewall gw br) [.configured s (gatewayConfig profile.spec.network)]
    | _ => none
  | .applyFirewall gw br, .returned =>
    match reply with
    | some (.done (.unit r)) => some <|
      .try r entry [] fun _ =>
        .await entry (.startGateway br)
          [.startCalled s gw,
            .firewallApplied s (.failClosed (gatewayConfig profile.spec.network))]
    | _ => none
  | .startGateway br, .started r => some <|
    .try r entry [] fun _ => .await entry .startBrowser [.startCalled s br]
  | .startBrowser, .started r => some <|
    .try r entry [] fun _ =>
    .enter s .preflight entry [] fun entry events => .await entry .runPreflight events
  | .runPreflight, .checklist r bundle => some <|
    .try r entry [] fun c => afterPreflight s profile c bundle entry
  | .proxyReachable proxy, .reachable r bundle => some <|
    .try r entry [] fun ok => afterProbe w s profile proxy ok bundle entry
  | .launch _ _, .launched r => some <|
    .try r entry [] fun h => .await (entry.setBrowserHandle h) (.isRunning h) [.launched s h]
  | .isRunning _, .running r => some <|
    .try r entry [] fun running => afterRunning s profile running entry
  | .touchLaunch, .returned => some (.finish entry (entry.summary s) [])
  | _, _ => none

end Start

/-- How a teardown ends: the start failed, or the session was stopped. -/
inductive Ending where
  | failed (err : Error)
  | stopped

def Ending.state : Ending → SessionState
  | failed _ => .failed
  | stopped => .destroyed

def Ending.result (s : SessionId) (e : SessionEntry) : Ending → Result SessionSummary
  | failed err => .error err
  | stopped => .ok (e.summary s)

/-- The resources of an entry a teardown releases, in order. -/
def cleanupCalls (w : Wiring) (e : SessionEntry) : List Cleanup :=
  (match e.browserHandle, e.mode with
    | some h, .fullVm => [.terminate h]
    | some h, .hostProcess _ _ engine =>
      match w.hostBackendFor engine with
      | .ok () => [.terminate h]
      | .error _ => []
    | none, _ => []) ++
  (match e.mode with
    | .hostProcess dir true _ => [.removeDir dir]
    | _ => []) ++
  (match e.browserVm with
    | some vm => [.shutdown vm, .destroy .browser vm]
    | none => []) ++
  (match e.gatewayVm with
    | some vm => [.shutdown vm, .destroy .gateway vm]
    | none => []) ++
  [.release e.lease]

end Aegis.Orchestrator
