import Aegis.Audit.Auditor
import Aegis.Orchestrator.Idempotent
import Aegis.Orchestrator.Views

/-! What a session says of its protection goes back to a measurement, over every run whose
preflights are the auditor's; and what is left of it with the probe the daemon is built with. -/
namespace Aegis.Orchestrator
open Transition Audit

/-- What the daemon tells its auditor about a session. The WebRTC policy is rendered after the
preflight and counted as installed. -/
def preflightContext (s : SessionId) (network : NetworkConfig) : PreflightContext where
  session := s
  gatewayAddress := (gatewayConfig network).gatewayAddress
  modeLabel := (gatewayConfig network).mode.label
  dns := (gatewayConfig network).dns
  ipv6 := (gatewayConfig network).ipv6
  webrtcPolicyInstalled := true
  hostPublicIp := none

/-- Every preflight is the auditor's, over measurements that the probe may have made. -/
def Attested (may : Probe → Prop) (w : World) : Label → Prop
  | .resume t (.checklist r _) => ∀ s profile, w.tasks t = some (.drive s profile .runPreflight) →
      ∃ p, may p ∧ r = Auditor.runPreflight ⟨p⟩ (preflightContext s profile.spec.network)
  | _ => True

/-- The part of an entry that a preflight decides. -/
structure Standing where
  mode : SessionMode
  checklist : Option ConnectivityChecklist
  protection : ProtectionStatus
  publicIp : Option String

def SessionEntry.standing (e : SessionEntry) : Standing :=
  ⟨e.mode, e.checklist, e.protection, e.publicIp⟩

/-- Where a session stands before its preflight. -/
def Standing.unmeasured : Standing := ⟨.fullVm, none, .noProtection, none⟩

/-- Where a checklist of the auditor leaves a session. -/
def Standing.measured (mode : SessionMode) (c : ConnectivityChecklist) : Standing :=
  ⟨mode, some c, c.status, c.observedIp.map IpObservation.ip⟩

/-- Where the reduced preflight leaves a session. -/
def Standing.reduced (cfg : Wiring) (profile : Profile) (publicIp : Option String) : Standing :=
  ⟨.hostProcess (cfg.hostUserDataDir profile) profile.spec.kind.isEphemeral profile.spec.browser,
    some hostChecklist, .partialProtection, publicIp⟩

/-- A session stands where a preflight of its own profile left it. -/
inductive Standing.Founded (cfg : Wiring) (may : Probe → Prop) (s : SessionId)
    (log : List Event) : Standing → Prop where
  | unmeasured : Founded cfg may s log .unmeasured
  | reduced {profile : Profile} : .registered s profile ∈ log →
      profile.spec.isolation = .hostProcess → Founded cfg may s log (.reduced cfg profile none)
  | measured {profile : Profile} {p : Probe} : .registered s profile ∈ log →
      profile.spec.isolation = .fullVm → may p →
      Founded cfg may s log (.measured .fullVm
        (Auditor.checklist ⟨p⟩ (preflightContext s profile.spec.network)))

/-- Every measurement of the session's preflight was positive. -/
def Measured (may : Probe → Prop) (s : SessionId) (log : List Event) : Prop :=
  ∃ profile p, .registered s profile ∈ log ∧ profile.spec.isolation = .fullVm ∧ may p ∧
    Auditor.AllMeasured ⟨p⟩ (preflightContext s profile.spec.network)

/-- What holds of every session over a run whose preflights are the auditor's. -/
structure Audited (cfg : Wiring) (may : Probe → Prop) (w : World) : Prop where
  standing : ∀ s e, w.sessions s = some e → e.standing.Founded cfg may s w.log
  launched : ∀ s req bundle, .launchCalled s req bundle ∈ w.log →
    (∃ profile, .registered s profile ∈ w.log ∧ profile.spec.isolation = .hostProcess) ∨
      Measured may s w.log

variable {cfg : Wiring} {may : Probe → Prop} {w w' : World} {t : TaskId} {s : SessionId}

theorem Standing.Founded.mono {st : Standing} {log log' : List Event}
    (h : st.Founded cfg may s log) (hl : log ⊆ log') : st.Founded cfg may s log' := by
  cases h with
  | unmeasured => exact .unmeasured
  | reduced hr hi => exact .reduced (hl hr) hi
  | measured hr hi hp => exact .measured (hl hr) hi hp

theorem Measured.mono {log log' : List Event} (h : Measured may s log) (hl : log ⊆ log') :
    Measured may s log' := by
  obtain ⟨profile, p, hr, hi, hp, hall⟩ := h
  exact ⟨profile, p, hl hr, hi, hp, hall⟩

/-! ### What a step writes -/

section Resume

variable {profile : Profile} {reply : Option Gateway.Call} {e : SessionEntry} {pc : Drive}
  {input : Input} {flow : Flow}

/-- A part of a start keeps the standing, unless it records a preflight. -/
theorem Resumes.standing (h : Resumes cfg s profile reply e pc input flow) :
    flow.entry.standing = e.standing ∨
    (∃ c bundle, pc = .runPreflight ∧ input = .checklist (.ok c) bundle ∧
      flow.entry.standing = .measured e.mode c) ∨
    ∃ proxy, pc = .proxyReachable proxy ∧
      flow.entry.standing = .reduced cfg profile e.publicIp := by
  cases h
  case preflightPassed c b req hc hreq hsafe => exact .inr (.inl ⟨c, _, rfl, rfl, rfl⟩)
  case preflightRefused c b text hc => exact .inr (.inl ⟨c, _, rfl, rfl, rfl⟩)
  case preflightUnsafe c b err hc hsafe => exact .inr (.inl ⟨c, _, rfl, rfl, rfl⟩)
  case proxyReached => exact .inr (.inr ⟨_, rfl, rfl⟩)
  case proxyUnsafe => exact .inr (.inr ⟨_, rfl, rfl⟩)
  all_goals exact .inl rfl

end Resume

theorem settle_standing (profile : Profile) (flow : Flow) :
    (settle cfg s profile flow).entry.standing = flow.entry.standing := by
  rcases settle_cases cfg s profile flow with ⟨e, next, evs, rfl, heq⟩ | ⟨e, sum, evs, rfl, heq⟩ |
    ⟨e, err, evs, rfl, -, heq⟩ | ⟨e, err, evs, c, cs, rfl, -, -, heq⟩ <;> rw [heq] <;> rfl

/-- Session code registers a session, records a preflight of the profile it drives, or keeps the
standing. -/
theorem Runs.standing {l : Label} {seg : Segment} (h : Runs cfg w t s l seg) :
    seg.entry.standing = .unmeasured ∨
    ∃ e, w.sessions s = some e ∧ (seg.entry.standing = e.standing ∨
      ∃ profile, (∃ c bundle, l = .resume t (.checklist (.ok c) bundle) ∧
          w.tasks t = some (.drive s profile .runPreflight) ∧
          seg.entry.standing = .measured e.mode c) ∨
        ∃ proxy, w.tasks t = some (.drive s profile (.proxyReachable proxy)) ∧
          seg.entry.standing = .reduced cfg profile e.publicIp) := by
  cases h with
  | start _ _ _ hstart =>
    rw [settle_standing]
    cases hstart <;> exact .inl rfl
  | @drive profile pc e input flow ht hs hf =>
    refine .inr ⟨e, hs, ?_⟩
    rw [settle_standing]
    rcases (Drive.resume_cases hf).standing with heq | ⟨c, bundle, rfl, rfl, heq⟩ |
      ⟨proxy, rfl, heq⟩
    · exact .inl heq
    · exact .inr ⟨profile, .inl ⟨c, bundle, rfl, ht, heq⟩⟩
    · exact .inr ⟨profile, .inr ⟨proxy, ht, heq⟩⟩
  | @failClosed err e reply input _ hs _ =>
    refine .inr ⟨e, hs, .inl ?_⟩
    rw [beginTeardown_entry]
    rfl
  | @teardown c cs ending e input _ hs _ =>
    refine .inr ⟨e, hs, .inl ?_⟩
    cases cs <;> rfl
  | @stop e e' evs _ hs hcases =>
    refine .inr ⟨e, hs, .inl ?_⟩
    rw [beginTeardown_entry]
    rcases hcases with ⟨htr, -⟩ | ⟨-, rfl, -⟩
    · obtain ⟨-, rfl⟩ := transition_eq_ok.mp htr
      rfl
    · rfl

/-- A session that was not measured shows no address. -/
theorem Standing.Founded.publicIp {st : Standing} {log : List Event} {profile : Profile}
    (h : st.Founded cfg may s log) (hreg : ∀ p, .registered s p ∈ log ↔ p = profile)
    (hi : profile.spec.isolation = .hostProcess) : st.publicIp = none := by
  cases h with
  | unmeasured => rfl
  | reduced _ _ => rfl
  | measured hr hfull _ =>
    rw [(hreg _).mp hr, hi] at hfull
    cases hfull

/-- Only positive measurements make a session's protection active. -/
theorem Standing.Founded.active {st : Standing} {log : List Event}
    (h : st.Founded cfg may s log) (ha : st.protection = .active) : Measured may s log := by
  cases h with
  | unmeasured => cases ha
  | reduced _ _ => cases ha
  | @measured profile p hr hi hp =>
    have hc := (ConnectivityChecklist.permitsBrowsing_iff _).mpr ha
    exact ⟨profile, p, hr, hi, hp, (Auditor.permitsBrowsing_checklist ⟨p⟩ _).mp hc⟩

/-- Session code leaves its session where a preflight of its own profile left it. -/
theorem Standing.Founded.runs {l : Label} {seg : Segment} (h : Audited cfg may w)
    (hg : Gated cfg w) (hok : Attested may w l) (hr : Runs cfg w t s l seg) :
    seg.entry.standing.Founded cfg may s w.log := by
  rcases hr.standing with heq | ⟨e, hs, heq | ⟨profile, ⟨c, bundle, rfl, ht, heq⟩ |
    ⟨proxy, ht, heq⟩⟩⟩
  · rw [heq]
    exact .unmeasured
  · rw [heq]
    exact h.standing s e hs
  · obtain ⟨hreg, ⟨hmode, hi, -⟩, -⟩ := hg.drive t s profile _ e ht hs
    obtain ⟨p, hp, hc⟩ := hok s profile ht
    obtain rfl : c = Auditor.checklist ⟨p⟩ (preflightContext s profile.spec.network) :=
      Except.ok.inj hc
    rw [heq, hmode]
    exact .measured ((hreg profile).mpr rfl) hi hp
  · obtain ⟨hreg, ⟨hi, -⟩, -⟩ := hg.drive t s profile _ e ht hs
    have hip : e.publicIp = none := (h.standing s e hs).publicIp hreg hi
    rw [heq, hip]
    exact .reduced ((hreg profile).mpr rfl) hi

/-- A browser is launched once the proxy answered or every measurement was positive. -/
theorem Runs.launches_measured {l : Label} {seg : Segment} {req : BrowserLaunchRequest}
    {bundle : BackendPolicyBundle} (hg : Gated cfg w) (hok : Attested may w l)
    (hr : Runs cfg w t s l seg) (hmem : .launchCalled s req bundle ∈ seg.events) :
    (∃ profile, .registered s profile ∈ w.log ∧ profile.spec.isolation = .hostProcess) ∨
      Measured may s w.log := by
  obtain ⟨profile, pc, e, input, flow, rfl, ht, hs, hres, rfl, hev⟩ :=
    hr.of_drive (.launchCalled s req bundle) rfl hmem
  obtain ⟨hreg, hreach, -⟩ := hg.drive t s profile pc e ht hs
  have hregistered : .registered s profile ∈ w.log := (hreg profile).mpr rfl
  cases hres <;> simp [Flow.events, stateEvents, preflightEvents, probeEvents] at hev
  case preflightPassed c b req hc hreq hsafe =>
    obtain ⟨-, hi, -⟩ := hreach
    obtain ⟨p, hp, heq⟩ := hok s profile ht
    obtain rfl : c = Auditor.checklist ⟨p⟩ (preflightContext s profile.spec.network) :=
      Except.ok.inj heq
    exact .inr ⟨profile, p, hregistered, hi, hp, (Auditor.permitsBrowsing_checklist ⟨p⟩ _).mp hc⟩
  case proxyReached => exact .inl ⟨profile, hregistered, hreach.1⟩
  case browsing =>
    unfold browsingEvents at hev
    split at hev <;> simp at hev

/-! ### Runs -/

theorem Audited.step {l : Label} (h : Audited cfg may w) (hg : Gated cfg w)
    (hok : Attested may w l) (hs : w.step cfg l = some w') : Audited cfg may w' where
  standing s e he := by
    have hlog := World.step_log_mono hs
    rcases World.step_entry hs he with he | ⟨t, seg, hr, rfl⟩
    · exact (h.standing s e he).mono hlog
    · exact (Standing.Founded.runs h hg hok hr).mono hlog
  launched s req bundle hmem := by
    have hlog := World.step_log_mono hs
    have hbefore : (∃ profile, .registered s profile ∈ w.log ∧
        profile.spec.isolation = .hostProcess) ∨ Measured may s w.log := by
      rcases World.step_log hs hmem rfl with hmem | ⟨t, seg, hr, -, hmem⟩
      · exact h.launched s req bundle hmem
      · exact hr.launches_measured hg hok hmem
    rcases hbefore with ⟨profile, hreg, hi⟩ | hmeasured
    · exact .inl ⟨profile, hlog hreg, hi⟩
    · exact .inr (hmeasured.mono hlog)

theorem audited_of_reach (hr : Reach (World.step cfg) World.Initial (Attested may) w) :
    Audited cfg may w := by
  refine hr.invariant (fun w h => ?_) fun w l w' hr h hok hs =>
    h.step (gated_of_reach hr.any) hok hs
  exact ⟨fun s e he => by simp [h.sessions] at he, fun s req b hmem => by simp [h.log] at hmem⟩

/-- What browses in a VM is active. -/
theorem Gated.active {e : SessionEntry} (h : Gated cfg w) (hs : w.sessions s = some e)
    (hb : e.state = .browsing) (hm : e.mode = .fullVm) : e.protection = .active := by
  obtain ⟨hopen, -⟩ := h.browsing s e hs hb
  unfold GateOpen at hopen
  rw [hm] at hopen
  exact hopen.protection

/-- Whatever the probe measures over a run, every session stands where a preflight of its own
profile left it; its protection is active, it browses in a VM, and a browser is launched for it
there only after every measurement of its preflight was positive. -/
theorem attested_of_reach (hr : Reach (World.step cfg) World.Initial (Attested may) w) :
    Audited cfg may w ∧ ∀ s e, w.sessions s = some e →
      e.protection = .active ∨ e.state = .browsing ∧ e.mode = .fullVm →
        Measured may s w.log := by
  have h := audited_of_reach hr
  refine ⟨h, fun s e he hclaims => ?_⟩
  have hactive : e.protection = .active := by
    rcases hclaims with ha | ⟨hb, hm⟩
    · exact ha
    · exact (gated_of_reach hr.any).active he hb hm
  exact (h.standing s e he).active hactive

/-! ### The probe the daemon is built with -/

/-- The measurements of the run are left to the system probe. -/
def Production (target : Target) : World → Label → Prop := Attested (· = systemProbe target)

/-- The error of a full-VM start while no measurement runs. -/
def unmeasuredError : Error :=
  .networkContainment ("preflight did not permit browsing; failing checks: [gateway_ready, " ++
    "tunnel_ready, dns_route_verified, public_ip_observed, ipv6_policy_verified]")

/-- What a daemon that measures nothing never claims: active protection, a public address, a
browser in a VM. A full-VM start gets as far as its preflight and fails closed. -/
structure Unattested (cfg : Wiring) (target : Target) (w : World) : Prop where
  protection : ∀ s e, w.sessions s = some e → e.protection ≠ .active ∧ e.publicIp = none
  launched : ∀ s req bundle, .launchCalled s req bundle ∈ w.log →
    ∃ profile proxy, .registered s profile ∈ w.log ∧ profile.spec.isolation = .hostProcess ∧
      cfg.hostProxyEndpoint profile.spec.network.mode = .ok proxy ∧ .proxyReached s proxy ∈ w.log
  browsing : ∀ s e, w.sessions s = some e → e.state = .browsing →
    e.mode ≠ .fullVm ∧ e.protection = .partialProtection
  refused : ∀ t s profile r bundle w', w.tasks t = some (.drive s profile .runPreflight) →
    Production target w (.resume t (.checklist r bundle)) →
    w.step cfg (.resume t (.checklist r bundle)) = some w' →
    w'.tasks t = some (.failClosed s unmeasuredError) ∧ .engageCalled s ∈ w'.log

theorem not_measured {target : Target} {log : List Event} :
    ¬ Measured (· = systemProbe target) s log := by
  rintro ⟨profile, p, -, -, rfl, hall⟩
  cases hall.gateway

theorem Standing.Founded.unattested {target : Target} {st : Standing} {log : List Event}
    (h : st.Founded cfg (· = systemProbe target) s log) :
    st.protection ≠ .active ∧ st.publicIp = none := by
  refine ⟨fun ha => not_measured (h.active ha), ?_⟩
  cases h with
  | unmeasured => rfl
  | reduced _ _ => rfl
  | measured _ _ hp =>
    subst hp
    rfl

theorem afterPreflight_systemProbe {target : Target} {profile : Profile} {e : SessionEntry}
    {bundle : Result BackendPolicyBundle} {c : ConnectivityChecklist}
    (hc : c = Auditor.checklist ⟨systemProbe target⟩ (preflightContext s profile.spec.network)) :
    afterPreflight s profile c bundle e =
      .raise (e.setChecklist c) unmeasuredError (preflightEvents s profile c) := by
  have hfailures : c.failures = [.gatewayReady, .tunnelReady, .dnsRouteVerified,
      .publicIpObserved, .ipv6PolicyVerified] := by
    rw [hc]
    exact Auditor.failures_systemProbe target rfl
  have hnot : c.permitsBrowsing = false := by
    rw [Bool.eq_false_iff, ne_eq, ConnectivityChecklist.permitsBrowsing_iff,
      ConnectivityChecklist.status_active_iff, hfailures]
    exact List.cons_ne_nil _ _
  unfold afterPreflight
  rw [hnot, hfailures]
  rfl

/-- A full-VM start fails closed as soon as its preflight returns. -/
theorem World.step_unmeasured {target : Target} {profile : Profile}
    {r : Result ConnectivityChecklist} {bundle : Result BackendPolicyBundle}
    (ht : w.tasks t = some (.drive s profile .runPreflight))
    (hok : Production target w (.resume t (.checklist r bundle)))
    (hs : w.step cfg (.resume t (.checklist r bundle)) = some w') :
    w'.tasks t = some (.failClosed s unmeasuredError) ∧ .engageCalled s ∈ w'.log := by
  obtain ⟨p, rfl, rfl⟩ := hok s profile ht
  simp only [World.step, World.resume, ht] at hs
  cases he : w.sessions s with
  | none =>
    rw [he] at hs
    cases hs
  | some e =>
    simp only [he, Drive.resume, Auditor.runPreflight_eq, Flow.try,
      afterPreflight_systemProbe rfl] at hs
    obtain ⟨-, htasks, hlog, -⟩ := World.commit_cases hs
    refine ⟨?_, ?_⟩
    · rw [htasks, if_pos rfl]
      rfl
    · rw [hlog]
      exact List.mem_append_left _ List.mem_cons_self

/-- As the daemon is built, no run has it claim a protection that was not measured: no session is
ever active, no browser is ever launched in a VM, and what browses is a host process whose proxy
answered. -/
theorem unattested_of_reach {target : Target}
    (hr : Reach (World.step cfg) World.Initial (Production target) w) :
    Unattested cfg target w := by
  have h := audited_of_reach hr
  have hg := gated_of_reach hr.any
  constructor
  case protection =>
    intro s e he
    exact (h.standing s e he).unattested
  case launched =>
    intro s req bundle hmem
    rcases h.launched s req bundle hmem with ⟨profile, hreg, hi⟩ | hmeasured
    · obtain ⟨us, vs, heq⟩ := List.append_of_mem hmem
      obtain ⟨d, hd, proxy, hproxy, rfl⟩ :=
        precedes_iff.mp ((hg.ordered s).probed profile hreg hi) us _ vs heq ⟨req, bundle, rfl⟩
      refine ⟨profile, proxy, hreg, hi, hproxy, ?_⟩
      rw [heq]
      exact List.mem_append_right us (List.mem_cons_of_mem _ hd)
    · exact absurd hmeasured not_measured
  case browsing =>
    intro s e he hb
    have hnot : e.mode ≠ .fullVm := fun hm =>
      (h.standing s e he).unattested.1 (hg.active he hb hm)
    refine ⟨hnot, ?_⟩
    obtain ⟨hopen, -⟩ := hg.browsing s e he hb
    unfold GateOpen at hopen
    cases hm : e.mode with
    | fullVm => exact absurd hm hnot
    | hostProcess dir ephemeral engine =>
      rw [hm] at hopen
      exact hopen.protection
  case refused =>
    intro t s profile r bundle w' ht hok hs
    exact World.step_unmeasured ht hok hs

/-! ### Runs with a preflight -/

/-- The label returns no preflight. -/
def unmeasuredStep (_ : World) : Label → Bool
  | .resume _ (.checklist _ _) => false
  | _ => true

theorem attested_of_unmeasured (w : World) (l : Label) (h : unmeasuredStep w l = true) :
    Attested may w l := by
  cases l with
  | resume t input =>
    cases input with
    | checklist r bundle => cases h
    | _ => trivial
  | _ => trivial

/-- The preflight of a session, as the auditor returns it to request `t`. -/
def preflight (t : TaskId) (s : SessionId) (profile : Profile) (p : Probe) : Label :=
  .resume t (.checklist
    (Auditor.runPreflight ⟨p⟩ (preflightContext s profile.spec.network)) (.ok safeBundle))

theorem attested_preflight {profile : Profile} {p : Probe}
    (ht : w.tasks t = some (.drive s profile .runPreflight)) (hp : may p) :
    Attested may w (preflight t s profile p) := by
  intro s' profile' ht'
  rw [ht] at ht'
  cases ht'
  exact ⟨p, hp, rfl⟩

/-- Request `t` starts session `s` of profile `p`, up to its preflight. -/
def measuredRun (t : TaskId) (s : SessionId) (p : ProfileId) (token : Store.LockToken) :
    List Label :=
  leaseRun t p token ++ provisionRun t s ⟨10⟩ ⟨11⟩ ++ gatewayRun t ++
    [.resume t (.started (.ok ())), .resume t (.started (.ok ()))]

/-- A probe that finds the tunnel up and nothing leaking. -/
def healthyProbe : Probe where
  gatewayReachable _ := .ok true
  tunnelUp _ := .ok true
  dnsRouteOk _ := .ok true
  observePublicIp _ := .ok (some ⟨"185.220.101.4", true, true⟩)
  ipv6Blocked _ := .ok true

/-- A session browses in its VM after a healthy preflight. -/
theorem attested_of_reach_healthy : ∃ w e, w.sessions ⟨0⟩ = some e ∧ e.state = .browsing ∧
    e.publicIp = some "185.220.101.4" ∧ Audited daemon (· = healthyProbe) w ∧
      Measured (· = healthyProbe) ⟨0⟩ w.log := by
  obtain ⟨u, v, w, hu, ht, hv, hw, e, he, hb, hm, hip⟩ : ∃ u v w,
      exec (fun w l => if unmeasuredStep w l then World.step daemon w l else none) booted
        (measuredRun 0 ⟨0⟩ ⟨0⟩ (Store.LockSystem.repeated 'a')) = some u ∧
      u.tasks 0 = some (.drive ⟨0⟩ (torProfile ⟨0⟩) .runPreflight) ∧
      World.step daemon u (preflight 0 ⟨0⟩ (torProfile ⟨0⟩) healthyProbe) = some v ∧
      exec (fun w l => if unmeasuredStep w l then World.step daemon w l else none) v
        [.resume 0 (.launched (.ok ⟨⟨0⟩, .chromium, "pid"⟩)), .resume 0 (.running (.ok true))] =
          some w ∧
      ∃ e, w.sessions ⟨0⟩ = some e ∧ e.state = .browsing ∧ e.mode = .fullVm ∧
        e.publicIp = some "185.220.101.4" :=
    ⟨_, _, _, rfl, rfl, rfl, rfl, _, rfl, rfl, rfl, rfl⟩
  have h₀ : Reach (World.step daemon) World.Initial (Attested (· = healthyProbe)) booted :=
    .start booted_initial
  have h₁ := (h₀.execWhere attested_of_unmeasured hu).next (attested_preflight ht rfl) hv
  obtain ⟨haudited, hmeasured⟩ := attested_of_reach (h₁.execWhere attested_of_unmeasured hw)
  exact ⟨w, e, he, hb, hip, haudited, hmeasured ⟨0⟩ e he (.inr ⟨hb, hm⟩)⟩

/-- A session browses on the host beside a full-VM start that fails closed. -/
theorem unattested_of_reach_host : ∃ w e, w.sessions ⟨0⟩ = some e ∧ e.state = .browsing ∧
    w.tasks 1 = some (.failClosed ⟨1⟩ unmeasuredError) ∧ Unattested daemon .linux w := by
  obtain ⟨u, w, hu, ht, hw, htask, e, he, hb⟩ : ∃ u w,
      exec (fun w l => if unmeasuredStep w l then World.step daemon w l else none) booted
        (.setEnforcement { Enforcement.secure with allowHostBrowser := true } ::
          hostRun 0 ⟨0⟩ (Store.LockSystem.repeated 'a') ++
          measuredRun 1 ⟨1⟩ ⟨1⟩ (Store.LockSystem.repeated 'b')) = some u ∧
      u.tasks 1 = some (.drive ⟨1⟩ (torProfile ⟨1⟩) .runPreflight) ∧
      World.step daemon u (preflight 1 ⟨1⟩ (torProfile ⟨1⟩) (systemProbe .linux)) = some w ∧
      w.tasks 1 = some (.failClosed ⟨1⟩ unmeasuredError) ∧
      ∃ e, w.sessions ⟨0⟩ = some e ∧ e.state = .browsing :=
    ⟨_, _, rfl, rfl, rfl, rfl, _, rfl, rfl⟩
  have h₀ : Reach (World.step daemon) World.Initial (Production .linux) booted :=
    .start booted_initial
  have h₁ := (h₀.execWhere attested_of_unmeasured hu).next (attested_preflight ht rfl) hw
  exact ⟨w, e, he, hb, htask, unattested_of_reach h₁⟩

end Aegis.Orchestrator
