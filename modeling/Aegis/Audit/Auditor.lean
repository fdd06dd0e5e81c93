import Aegis.Core.Network
import Aegis.Core.Session

/-! The preflight auditor: six measurements folded into a checklist that permits browsing only
when every one of them was positive. -/
namespace Aegis.Audit

/-- What the auditor is told about the session it verifies. -/
structure PreflightContext where
  session : SessionId
  gatewayAddress : String
  modeLabel : String
  dns : DnsPolicy
  ipv6 : Ipv6Policy
  webrtcPolicyInstalled : Bool
  hostPublicIp : Option String

/-- The measurements, each of which may fail to run. -/
structure Probe where
  gatewayReachable : PreflightContext → Result Bool
  tunnelUp : PreflightContext → Result Bool
  dnsRouteOk : PreflightContext → Result Bool
  observePublicIp : PreflightContext → Result (Option IpObservation)
  ipv6Blocked : PreflightContext → Result Bool

structure Auditor where
  probe : Probe

def pass (id : CheckId) (detail : String) : CheckReport := ⟨id, .pass, detail⟩
def fail (id : CheckId) (detail : String) : CheckReport := ⟨id, .fail, detail⟩

/-- A measurement as a report; a probe that could not run is a failed measurement. -/
def booleanReport (id : CheckId) (result : Result Bool) (onTrue onFalse : String) : CheckReport :=
  match result with
  | .ok true => pass id onTrue
  | .ok false => fail id onFalse
  | .error e =>
    fail id ("probe could not verify this guarantee (" ++ e.failureClass.display ++ ")")

@[simp] theorem booleanReport_id (id : CheckId) (result : Result Bool) (t f : String) :
    (booleanReport id result t f).id = id := by
  unfold booleanReport
  split <;> rfl

/-- Only a measured `true` passes. -/
@[simp] theorem booleanReport_isPass (id : CheckId) (result : Result Bool) (t f : String) :
    (booleanReport id result t f).outcome.isPass = true ↔ result = .ok true := by
  rcases result with e | (_ | _) <;>
    simp [booleanReport, pass, fail, CheckOutcome.isPass]

namespace Auditor

variable (a : Auditor) (ctx : PreflightContext)

def checkGateway : CheckReport :=
  booleanReport .gatewayReady (a.probe.gatewayReachable ctx)
    "gateway VM is reachable on the management channel" "gateway VM is not reachable"

def checkTunnel : CheckReport :=
  booleanReport .tunnelReady (a.probe.tunnelUp ctx)
    "outbound tunnel is established" "outbound tunnel is not established"

def checkDns : CheckReport :=
  booleanReport .dnsRouteVerified (a.probe.dnsRouteOk ctx)
    "DNS resolves only through the intended route"
    "DNS route unverified — possible leak outside the tunnel"

/-- The WebRTC policy is read off the context; nothing is measured. -/
def checkWebrtc : CheckReport :=
  if ctx.webrtcPolicyInstalled then
    pass .webrtcPolicyLoaded "WebRTC policy blocking non-proxied UDP is installed"
  else
    fail .webrtcPolicyLoaded
      "WebRTC policy is not installed — host interface could leak via WebRTC"

def checkIpv6 : CheckReport :=
  booleanReport .ipv6PolicyVerified (a.probe.ipv6Blocked ctx)
    "IPv6 policy is verified in effect" "IPv6 policy is not verified — possible v6 leak"

/-- The public-address check and the observation it was made on. -/
def checkPublicIp : CheckReport × Option IpObservation :=
  match a.probe.observePublicIp ctx with
  | .ok (some obs) =>
    let matchesHost := ctx.hostPublicIp = some obs.ip
    let differs := obs.differsFromHost ∧ ¬ matchesHost
    let report :=
      if obs.viaTunnel ∧ differs then
        pass .publicIpObserved "public IP observed through the tunnel and differs from host"
      else if ¬ obs.viaTunnel then
        fail .publicIpObserved "public IP was not observed through the tunnel"
      else
        fail .publicIpObserved "observed public IP matches the host — traffic escaped the tunnel"
    (report, some obs)
  | .ok none =>
    (fail .publicIpObserved "no public IP could be observed from inside the session", none)
  | .error e =>
    (fail .publicIpObserved ("public IP could not be observed (" ++ e.failureClass.display ++ ")"),
      none)

def runPreflight : Result ConnectivityChecklist :=
  let gateway := a.checkGateway ctx
  let tunnel := a.checkTunnel ctx
  let dns := a.checkDns ctx
  let (publicIp, observedIp) := a.checkPublicIp ctx
  let webrtc := checkWebrtc ctx
  let ipv6 := a.checkIpv6 ctx
  let checklist := ConnectivityChecklist.new [gateway, tunnel, dns, publicIp, webrtc, ipv6]
  .ok { checklist with observedIp }

def runCheck (id : CheckId) : Result CheckReport :=
  .ok <| match id with
    | .gatewayReady => a.checkGateway ctx
    | .tunnelReady => a.checkTunnel ctx
    | .dnsRouteVerified => a.checkDns ctx
    | .publicIpObserved => (a.checkPublicIp ctx).1
    | .webrtcPolicyLoaded => checkWebrtc ctx
    | .ipv6PolicyVerified => a.checkIpv6 ctx

/-! ### What each check says -/

/-- The observation the public-address check accepts. -/
structure Accepts (obs : IpObservation) : Prop where
  viaTunnel : obs.viaTunnel = true
  differsFromHost : obs.differsFromHost = true
  notHost : ctx.hostPublicIp ≠ some obs.ip

theorem checkWebrtc_id : (checkWebrtc ctx).id = .webrtcPolicyLoaded := by
  unfold checkWebrtc
  split_ifs <;> rfl

theorem checkWebrtc_isPass :
    (checkWebrtc ctx).outcome.isPass = true ↔ ctx.webrtcPolicyInstalled = true := by
  unfold checkWebrtc
  split_ifs with h <;> simp [pass, fail, CheckOutcome.isPass, h]

theorem checkPublicIp_id : (a.checkPublicIp ctx).1.id = .publicIpObserved := by
  unfold checkPublicIp
  split
  · dsimp only
    split_ifs <;> rfl
  · rfl
  · rfl

/-- The observation is returned whatever the report says of it. -/
theorem checkPublicIp_observed : (a.checkPublicIp ctx).2 =
    match a.probe.observePublicIp ctx with
    | .ok obs => obs
    | .error _ => none := by
  unfold checkPublicIp
  rcases a.probe.observePublicIp ctx with e | (_ | obs) <;> rfl

theorem checkPublicIp_isPass : (a.checkPublicIp ctx).1.outcome.isPass = true ↔
    ∃ obs, a.probe.observePublicIp ctx = .ok (some obs) ∧ Accepts ctx obs := by
  unfold checkPublicIp
  rcases a.probe.observePublicIp ctx with e | (_ | obs)
  · simp [fail, CheckOutcome.isPass]
  · simp [fail, CheckOutcome.isPass]
  · dsimp only
    split_ifs with hsafe htunnel
    · exact ⟨fun _ => ⟨obs, rfl, hsafe.1, hsafe.2.1, hsafe.2.2⟩, fun _ => rfl⟩
    · refine ⟨nofun, ?_⟩
      rintro ⟨obs, ⟨⟩, hacc⟩
      exact absurd ⟨hacc.viaTunnel, hacc.differsFromHost, hacc.notHost⟩ hsafe
    · refine ⟨nofun, ?_⟩
      rintro ⟨obs, ⟨⟩, hacc⟩
      exact absurd hacc.viaTunnel htunnel

/-- A report carries the id it was asked for. -/
theorem runCheck_id {id : CheckId} {r : CheckReport} (h : a.runCheck ctx id = .ok r) :
    r.id = id := by
  unfold runCheck at h
  cases h
  cases id
  · exact booleanReport_id ..
  · exact booleanReport_id ..
  · exact booleanReport_id ..
  · exact a.checkPublicIp_id ctx
  · exact checkWebrtc_id ctx
  · exact booleanReport_id ..

/-! ### The gate -/

/-- The checklist a preflight returns. -/
def checklist : ConnectivityChecklist where
  reports := [a.checkGateway ctx, a.checkTunnel ctx, a.checkDns ctx, (a.checkPublicIp ctx).1,
    checkWebrtc ctx, a.checkIpv6 ctx]
  observedIp := (a.checkPublicIp ctx).2

theorem runPreflight_eq : a.runPreflight ctx = .ok (a.checklist ctx) := rfl

theorem checklist_ids : (a.checklist ctx).reports.map CheckReport.id = CheckId.all := by
  simp [checklist, checkGateway, checkTunnel, checkDns, checkIpv6, checkPublicIp_id,
    checkWebrtc_id, CheckId.all]

theorem runCheck_of_mem {r : CheckReport} (hr : r ∈ (a.checklist ctx).reports) :
    a.runCheck ctx r.id = .ok r := by
  simp only [checklist, List.mem_cons, List.not_mem_nil, or_false] at hr
  rcases hr with rfl | rfl | rfl | rfl | rfl | rfl
  · rw [checkGateway, booleanReport_id]; rfl
  · rw [checkTunnel, booleanReport_id]; rfl
  · rw [checkDns, booleanReport_id]; rfl
  · rw [checkPublicIp_id]; rfl
  · rw [checkWebrtc_id]; rfl
  · rw [checkIpv6, booleanReport_id]; rfl

/-- The report the checklist holds for a check is the one `run_check` returns. -/
theorem report_checklist (id : CheckId) :
    .ok <$> (a.checklist ctx).report id = some (a.runCheck ctx id) := by
  have hfound : ((a.checklist ctx).report id).isSome = true := by
    have hid : id ∈ (a.checklist ctx).reports.map CheckReport.id := by
      rw [checklist_ids]
      cases id <;> simp [CheckId.all]
    obtain ⟨r, hr, rfl⟩ := List.mem_map.mp hid
    exact List.find?_isSome.mpr ⟨r, hr, by simp⟩
  obtain ⟨r, hr⟩ := Option.isSome_iff_exists.mp hfound
  have hid : r.id = id := by simpa using List.find?_some hr
  rw [hr, ← hid, a.runCheck_of_mem ctx (List.mem_of_find?_eq_some hr)]
  rfl

theorem passed_checklist (id : CheckId) {r : CheckReport} (hr : a.runCheck ctx id = .ok r) :
    (a.checklist ctx).passed id = r.outcome.isPass := by
  have hreport := a.report_checklist ctx id
  rw [hr] at hreport
  obtain ⟨r', hr', he⟩ := Option.map_eq_some_iff.mp hreport
  cases he
  rw [ConnectivityChecklist.passed, hr']
  rfl

/-- What every measurement must have come to for the gate to open. -/
structure AllMeasured : Prop where
  gateway : a.probe.gatewayReachable ctx = .ok true
  tunnel : a.probe.tunnelUp ctx = .ok true
  dns : a.probe.dnsRouteOk ctx = .ok true
  publicIp : ∃ obs, a.probe.observePublicIp ctx = .ok (some obs) ∧ Accepts ctx obs
  webrtc : ctx.webrtcPolicyInstalled = true
  ipv6 : a.probe.ipv6Blocked ctx = .ok true

theorem permitsBrowsing_checklist :
    (a.checklist ctx).permitsBrowsing = true ↔ a.AllMeasured ctx := by
  have hall : (a.checklist ctx).permitsBrowsing = true ↔
      ∀ id, (a.checklist ctx).passed id = true := by
    rw [ConnectivityChecklist.permitsBrowsing_iff, ConnectivityChecklist.status_active_iff,
      ConnectivityChecklist.failures, List.filter_eq_nil_iff]
    refine ⟨fun h id => ?_, fun h id _ => by simp [h id]⟩
    have hid : id ∈ CheckId.all := by cases id <;> simp [CheckId.all]
    simpa using h id hid
  have hpassed : ∀ id, (a.checklist ctx).passed id = true ↔
      ∀ r, a.runCheck ctx id = .ok r → r.outcome.isPass = true := by
    intro id
    constructor
    · intro h r hr
      rwa [a.passed_checklist ctx id hr] at h
    · intro h
      rw [a.passed_checklist ctx id rfl]
      exact h _ rfl
  rw [hall]
  constructor
  · intro h
    exact {
      gateway := (booleanReport_isPass ..).mp ((hpassed .gatewayReady).mp (h _) _ rfl)
      tunnel := (booleanReport_isPass ..).mp ((hpassed .tunnelReady).mp (h _) _ rfl)
      dns := (booleanReport_isPass ..).mp ((hpassed .dnsRouteVerified).mp (h _) _ rfl)
      publicIp := (a.checkPublicIp_isPass ctx).mp ((hpassed .publicIpObserved).mp (h _) _ rfl)
      webrtc := (checkWebrtc_isPass ctx).mp ((hpassed .webrtcPolicyLoaded).mp (h _) _ rfl)
      ipv6 := (booleanReport_isPass ..).mp ((hpassed .ipv6PolicyVerified).mp (h _) _ rfl) }
  · intro h id
    refine (hpassed id).mpr fun r hr => ?_
    cases hr
    cases id
    · exact (booleanReport_isPass ..).mpr h.gateway
    · exact (booleanReport_isPass ..).mpr h.tunnel
    · exact (booleanReport_isPass ..).mpr h.dns
    · exact (a.checkPublicIp_isPass ctx).mpr h.publicIp
    · exact (checkWebrtc_isPass ctx).mpr h.webrtc
    · exact (booleanReport_isPass ..).mpr h.ipv6

/-- A preflight always returns one report per check in the fixed order, each the report of the
check run alone, and its checklist permits browsing exactly when every measurement was positive. -/
theorem runPreflight_exact : ∃ c, a.runPreflight ctx = .ok c ∧
    c.reports.map CheckReport.id = CheckId.all ∧
    (c.permitsBrowsing = true ↔ a.AllMeasured ctx) ∧
    ∀ r ∈ c.reports, a.runCheck ctx r.id = .ok r :=
  ⟨a.checklist ctx, a.runPreflight_eq ctx, a.checklist_ids ctx, a.permitsBrowsing_checklist ctx,
    fun _ hr => a.runCheck_of_mem ctx hr⟩

end Auditor

/-! ### The system probe -/

/-- What a build is for, as far as the probe tells builds apart. -/
inductive Target where
  | linux
  | other

/-- The error of a measurement that the probe cannot make. -/
def SystemProbe.unsupported (target : Target) (what : String) : Error :=
  .unsupported <| match target with
    | .linux => "live " ++ what ++ " probe not yet wired to the guest channel"
    | .other => "network probe '" ++ what ++ "' is only available inside the Linux Aegis VMs"

/-- The probe the daemon is built with. Until the guest channel is wired, no measurement runs. -/
def systemProbe (target : Target) : Probe where
  gatewayReachable _ := .error (SystemProbe.unsupported target "gateway_reachable")
  tunnelUp _ := .error (SystemProbe.unsupported target "tunnel_up")
  dnsRouteOk _ := .error (SystemProbe.unsupported target "dns_route_ok")
  observePublicIp _ := .error (SystemProbe.unsupported target "observe_public_ip")
  ipv6Blocked _ := .error (SystemProbe.unsupported target "ipv6_blocked")

namespace Auditor

/-- Every check of the system probe fails but the one that measures nothing. -/
theorem failures_systemProbe (target : Target) {ctx : PreflightContext}
    (h : ctx.webrtcPolicyInstalled = true) :
    (checklist ⟨systemProbe target⟩ ctx).failures =
      [.gatewayReady, .tunnelReady, .dnsRouteVerified, .publicIpObserved, .ipv6PolicyVerified] := by
  have hwebrtc : checkWebrtc ctx =
      pass .webrtcPolicyLoaded "WebRTC policy blocking non-proxied UDP is installed" := if_pos h
  rw [ConnectivityChecklist.failures]
  simp only [checklist, hwebrtc]
  rfl

theorem observedIp_systemProbe (target : Target) (ctx : PreflightContext) :
    (checklist ⟨systemProbe target⟩ ctx).observedIp = none := rfl

end Auditor

end Aegis.Audit
