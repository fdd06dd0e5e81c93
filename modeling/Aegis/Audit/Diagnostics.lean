import Aegis.Audit.Auditor
import Aegis.Ipc.Protocol

/-! The diagnostics items made of a checklist, and when the public-address item says of an
observation what the auditor said of it. -/
namespace Aegis.Ipc.DiagnosticItem

/-- An item whose evidence is not known yet. -/
def new (key : String) (level : HealthLevel) (detail : String) : DiagnosticItem :=
  ⟨key, level, detail, .unknown⟩

def withEvidence (i : DiagnosticItem) (evidence : EvidenceState) : DiagnosticItem :=
  { i with evidence }

end Aegis.Ipc.DiagnosticItem

namespace Aegis.Audit
open Ipc

/-- The key the item of a check is shown under. -/
def itemKey : CheckId → String
  | .gatewayReady => "gateway"
  | .tunnelReady => "tunnel"
  | .dnsRouteVerified => "dns"
  | .publicIpObserved => "public_ip_route"
  | .webrtcPolicyLoaded => "webrtc"
  | .ipv6PolicyVerified => "ipv6"

def outcomeHealth : CheckOutcome → HealthLevel × EvidenceState
  | .pass => (.ok, .verified)
  | .fail => (.down, .measured)
  | .skipped => (.unknown, .unknown)

def checkItem (checklist : ConnectivityChecklist) (id : CheckId) : DiagnosticItem :=
  match checklist.report id with
  | some report =>
    let (level, evidence) := outcomeHealth report.outcome
    (DiagnosticItem.new (itemKey id) level report.detail).withEvidence evidence
  | none =>
    (DiagnosticItem.new (itemKey id) .unknown "required runtime check is missing").withEvidence
      .unknown

/-- The item of the observed address. -/
def sitePublicIp (checklist : ConnectivityChecklist) : DiagnosticItem :=
  match checklist.observedIp with
  | some observation =>
    let safePath := observation.viaTunnel && observation.differsFromHost
    (DiagnosticItem.new "site_public_ip" (if safePath then .ok else .down)
      observation.ip).withEvidence .measured
  | none =>
    (DiagnosticItem.new "site_public_ip" .unknown
      "not observed from the browser network path").withEvidence .unknown

def checklistItems (checklist : ConnectivityChecklist) : List DiagnosticItem :=
  CheckId.all.map (checkItem checklist) ++ [sitePublicIp checklist]

/-! ### The public-address item -/

/-- The items show a green public address. -/
def SitePublicIpOk (items : List DiagnosticItem) : Prop :=
  ∃ i ∈ items, i.key = "site_public_ip" ∧ i.level = .ok

theorem checkItem_key (c : ConnectivityChecklist) (id : CheckId) :
    (checkItem c id).key = itemKey id := by
  unfold checkItem
  split <;> rfl

theorem itemKey_ne (id : CheckId) : itemKey id ≠ "site_public_ip" := by
  cases id <;> simp [itemKey]

theorem sitePublicIp_key (c : ConnectivityChecklist) :
    (sitePublicIp c).key = "site_public_ip" := by
  unfold sitePublicIp
  split <;> rfl

theorem sitePublicIp_level (c : ConnectivityChecklist) : (sitePublicIp c).level = .ok ↔
    ∃ obs, c.observedIp = some obs ∧ obs.viaTunnel = true ∧ obs.differsFromHost = true := by
  unfold sitePublicIp
  cases hobs : c.observedIp with
  | none => simp [DiagnosticItem.new, DiagnosticItem.withEvidence]
  | some obs =>
    simp only [DiagnosticItem.withEvidence, DiagnosticItem.new, Option.some.injEq,
      exists_eq_left', ← Bool.and_eq_true]
    split_ifs with hsafe <;> simp [hsafe]

/-- Exactly one item is the public address, and it is green on the two flags of the
observation alone. -/
theorem sitePublicIpOk_iff (c : ConnectivityChecklist) : SitePublicIpOk (checklistItems c) ↔
    ∃ obs, c.observedIp = some obs ∧ obs.viaTunnel = true ∧ obs.differsFromHost = true := by
  rw [← sitePublicIp_level]
  constructor
  · rintro ⟨i, hi, hkey, hlevel⟩
    rcases List.mem_append.mp hi with hcheck | hsite
    · obtain ⟨id, -, rfl⟩ := List.mem_map.mp hcheck
      rw [checkItem_key] at hkey
      exact absurd hkey (itemKey_ne id)
    · rwa [List.mem_singleton.mp hsite] at hlevel
  · intro hlevel
    exact ⟨sitePublicIp c, by simp [checklistItems], sitePublicIp_key c, hlevel⟩

variable (a : Auditor) (ctx : PreflightContext)

theorem observedIp_checklist {obs : IpObservation} :
    (a.checklist ctx).observedIp = some obs ↔ a.probe.observePublicIp ctx = .ok (some obs) := by
  show (a.checkPublicIp ctx).2 = some obs ↔ _
  rw [Auditor.checkPublicIp_observed]
  rcases a.probe.observePublicIp ctx with e | o <;> simp

/-- The observation claims to differ from the host and is the known host address. -/
def ContradictsHost (obs : IpObservation) : Prop :=
  obs.viaTunnel = true ∧ obs.differsFromHost = true ∧ ctx.hostPublicIp = some obs.ip

/-- The public-address item and the public-address check agree exactly when the probe did not
report the host's own address as a different one seen through the tunnel. -/
theorem sitePublicIp_agrees_iff {c : ConnectivityChecklist} (h : a.runPreflight ctx = .ok c) :
    (SitePublicIpOk (checklistItems c) ↔ c.passed .publicIpObserved = true) ↔
      ¬ ∃ obs, a.probe.observePublicIp ctx = .ok (some obs) ∧ ContradictsHost ctx obs := by
  rw [Auditor.runPreflight_eq] at h
  cases h
  rw [sitePublicIpOk_iff, a.passed_checklist ctx .publicIpObserved rfl, a.checkPublicIp_isPass]
  simp only [observedIp_checklist]
  constructor
  · rintro hagree ⟨obs, hobs, hcon⟩
    obtain ⟨obs', hobs', hacc⟩ := hagree.mp ⟨obs, hobs, hcon.1, hcon.2.1⟩
    obtain rfl : obs = obs' := by simpa using hobs.symm.trans hobs'
    exact hacc.notHost hcon.2.2
  · intro hnone
    constructor
    · rintro ⟨obs, hobs, htunnel, hdiffers⟩
      exact ⟨obs, hobs, htunnel, hdiffers, fun hhost => hnone ⟨obs, hobs, htunnel, hdiffers, hhost⟩⟩
    · rintro ⟨obs, hobs, hacc⟩
      exact ⟨obs, hobs, hacc.viaTunnel, hacc.differsFromHost⟩

/-- A probe that measures everything as good and sees the given address. -/
def seeing (obs : IpObservation) : Auditor where
  probe := ⟨fun _ => .ok true, fun _ => .ok true, fun _ => .ok true, fun _ => .ok (some obs),
    fun _ => .ok true⟩

/-- A Tor session on a host whose address is known. -/
def knownHost (ip : String) : PreflightContext where
  session := ⟨0⟩
  gatewayAddress := "10.152.152.10"
  modeLabel := "Tor"
  dns := DnsPolicy.tor
  ipv6 := .block
  webrtcPolicyInstalled := true
  hostPublicIp := some ip

theorem sitePublicIp_agrees_iff_seeing :
    (SitePublicIpOk (checklistItems
        ((seeing ⟨"185.220.101.1", true, true⟩).checklist (knownHost "203.0.113.9"))) ↔
      ((seeing ⟨"185.220.101.1", true, true⟩).checklist (knownHost "203.0.113.9")).passed
        .publicIpObserved = true) ↔
    ¬ ∃ obs, (seeing ⟨"185.220.101.1", true, true⟩).probe.observePublicIp
        (knownHost "203.0.113.9") = .ok (some obs) ∧
      ContradictsHost (knownHost "203.0.113.9") obs :=
  sitePublicIp_agrees_iff _ _ rfl

/-- The exit address is the host's although the probe marks it as different: the check fails and
the item is green. -/
theorem hostAddress_not_agrees : ∃ c,
    (seeing ⟨"203.0.113.55", true, true⟩).runPreflight (knownHost "203.0.113.55") = .ok c ∧
    ¬ (SitePublicIpOk (checklistItems c) ↔ c.passed .publicIpObserved = true) := by
  refine ⟨_, rfl, fun hagree => ?_⟩
  have hgreen : SitePublicIpOk (checklistItems ((seeing ⟨"203.0.113.55", true, true⟩).checklist
      (knownHost "203.0.113.55"))) :=
    (sitePublicIpOk_iff _).mpr ⟨_, rfl, rfl, rfl⟩
  have hfails : ((seeing ⟨"203.0.113.55", true, true⟩).checklist
      (knownHost "203.0.113.55")).passed .publicIpObserved = false := by
    decide
  exact Bool.false_ne_true (hfails.symm.trans (hagree.mp hgreen))

end Aegis.Audit
