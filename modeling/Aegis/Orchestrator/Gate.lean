import Aegis.Orchestrator.Steps
import Aegis.Store.Exclusion

/-! The gate to `Browsing`: what has happened before a session browses, over every run. -/
namespace Aegis.Orchestrator
open Transition

variable {cfg : Wiring} {w w' : World} {t : TaskId} {s : SessionId}

/-- Events that need no gate of the session to be open. -/
def Event.Neutral (s : SessionId) : Event → Prop
  | .registered u _ | .startCalled u _ | .launchCalled u _ _ => u ≠ s
  | .entered u state => u = s → state ≠ .browsing
  | _ => True

/-- The order of a session's calls: its gateway is configured and its firewall applied before a
VM starts; the host proxy answered before a host browser is launched; the launch returned before
the session is browsing. -/
structure Ordered (cfg : Wiring) (s : SessionId) (log : List Event) : Prop where
  configured : Precedes (fun ev => ∃ c, ev = .configured s c)
    (fun ev => ∃ vm, ev = .startCalled s vm) log
  applied : Precedes (fun ev => ∃ p, ev = .firewallApplied s p)
    (fun ev => ∃ vm, ev = .startCalled s vm) log
  probed : ∀ profile, .registered s profile ∈ log → profile.spec.isolation = .hostProcess →
    Precedes (fun ev => ∃ proxy, cfg.hostProxyEndpoint profile.spec.network.mode = .ok proxy ∧
        ev = .proxyReached s proxy)
      (fun ev => ∃ req bundle, ev = .launchCalled s req bundle) log
  launched : Precedes (fun ev => ∃ h, ev = .launched s h)
    (fun ev => ev = .entered s .browsing) log

/-- The gate of a full-VM session. -/
structure FullVmGate (s : SessionId) (e : SessionEntry) (log : List Event) : Prop where
  checklist : ∃ c, e.checklist = some c ∧ c.permitsBrowsing = true
  protection : e.protection = .active
  bundle : ∃ req bundle, .launchCalled s req bundle ∈ log ∧ req.production = true ∧
    bundle.assertSafe req.production = .ok ()
  configured : ∃ c, .configured s c ∈ log
  applied : ∃ p, .firewallApplied s p ∈ log

/-- The gate of a host-process session. -/
structure HostGate (cfg : Wiring) (s : SessionId) (e : SessionEntry) (log : List Event) : Prop where
  protection : e.protection = .partialProtection
  reached : ∃ profile proxy, .registered s profile ∈ log ∧ profile.spec.isolation = .hostProcess ∧
    cfg.hostProxyEndpoint profile.spec.network.mode = .ok proxy ∧ .proxyReached s proxy ∈ log

/-- The gate of the mode the session is driven in. -/
def GateOpen (cfg : Wiring) (s : SessionId) (e : SessionEntry) (log : List Event) : Prop :=
  match e.mode with
  | .fullVm => FullVmGate s e log
  | .hostProcess _ _ _ => HostGate cfg s e log

/-- What is known where a start waits for a call. -/
def Drive.Reached (cfg : Wiring) (s : SessionId) (profile : Profile) (e : SessionEntry)
    (log : List Event) : Drive → Prop
  | provisionGateway | provisionBrowser _ | configure _ _ =>
    e.mode = .fullVm ∧ profile.spec.isolation = .fullVm
  | applyFirewall _ _ =>
    e.mode = .fullVm ∧ profile.spec.isolation = .fullVm ∧ ∃ c, .configured s c ∈ log
  | startGateway _ | startBrowser | runPreflight =>
    e.mode = .fullVm ∧ profile.spec.isolation = .fullVm ∧ (∃ c, .configured s c ∈ log) ∧
      ∃ p, .firewallApplied s p ∈ log
  | proxyReachable proxy =>
    profile.spec.isolation = .hostProcess ∧
      cfg.hostProxyEndpoint profile.spec.network.mode = .ok proxy
  | launch _ _ => GateOpen cfg s e log
  | isRunning h => GateOpen cfg s e log ∧ .launched s h ∈ log
  | touchLaunch => GateOpen cfg s e log

/-- What holds of every session at every moment. -/
structure Gated (cfg : Wiring) (w : World) : Prop where
  acquire : ∀ t p profile host, w.tasks t = some (.acquireLock p profile host) →
    (host = true ↔ profile.spec.isolation = .hostProcess)
  drive : ∀ t s profile pc e, w.tasks t = some (.drive s profile pc) → w.sessions s = some e →
    (∀ p, .registered s p ∈ w.log ↔ p = profile) ∧ pc.Reached cfg s profile e w.log ∧
      (pc ≠ .touchLaunch → e.state ≠ .browsing)
  browsing : ∀ s e, w.sessions s = some e → e.state = .browsing →
    GateOpen cfg s e w.log ∧ .entered s .browsing ∈ w.log
  ordered : ∀ s, Ordered cfg s w.log

theorem GateOpen.mono {e : SessionEntry} {log log' : List Event} (h : GateOpen cfg s e log)
    (hl : ∀ ev ∈ log, ev ∈ log') : GateOpen cfg s e log' := by
  unfold GateOpen at *
  cases hm : e.mode with
  | fullVm =>
    rw [hm] at h
    obtain ⟨hc, hp, ⟨req, b, hb, hs⟩, ⟨c, hcfg⟩, ⟨p, happ⟩⟩ := h
    exact ⟨hc, hp, ⟨req, b, hl _ hb, hs⟩, ⟨c, hl _ hcfg⟩, ⟨p, hl _ happ⟩⟩
  | hostProcess dir eph eng =>
    rw [hm] at h
    obtain ⟨hp, profile, proxy, hr, hi, hpr, hreach⟩ := h
    exact ⟨hp, profile, proxy, hl _ hr, hi, hpr, hl _ hreach⟩

/-- The gate reads the mode, the checklist and the protection of an entry. -/
theorem GateOpen.congr {e e' : SessionEntry} {log : List Event} (h : GateOpen cfg s e log)
    (hm : e'.mode = e.mode) (hc : e'.checklist = e.checklist)
    (hp : e'.protection = e.protection) : GateOpen cfg s e' log := by
  unfold GateOpen at *
  rw [hm]
  cases hmode : e.mode with
  | fullVm =>
    rw [hmode] at h
    exact ⟨by rw [hc]; exact h.checklist, by rw [hp]; exact h.protection, h.bundle, h.configured,
      h.applied⟩
  | hostProcess dir eph eng =>
    rw [hmode] at h
    exact ⟨by rw [hp]; exact h.protection, h.reached⟩

theorem Drive.Reached.mono {profile : Profile} {e e' : SessionEntry} {log log' : List Event}
    {pc : Drive} (h : pc.Reached cfg s profile e log) (hl : ∀ ev ∈ log, ev ∈ log')
    (hm : e'.mode = e.mode) (hc : e'.checklist = e.checklist)
    (hp : e'.protection = e.protection) : pc.Reached cfg s profile e' log' := by
  have hgate (hg : GateOpen cfg s e log) : GateOpen cfg s e' log' := (hg.mono hl).congr hm hc hp
  cases pc <;> simp only [Drive.Reached] at h ⊢
  case launch => exact hgate h
  case touchLaunch => exact hgate h
  case isRunning => exact ⟨hgate h.1, hl _ h.2⟩
  all_goals grind

theorem Ordered.append {log evs : List Event} (h : Ordered cfg s log)
    (hn : ∀ ev ∈ evs, ev.Neutral s) : Ordered cfg s (evs ++ log) where
  configured := h.configured.append fun ev hev ⟨_, he⟩ => by
    have := hn ev hev; rw [he] at this; exact this rfl
  applied := h.applied.append fun ev hev ⟨_, he⟩ => by
    have := hn ev hev; rw [he] at this; exact this rfl
  probed profile hr hi := by
    have hr' : .registered s profile ∈ log := by
      rcases List.mem_append.mp hr with hr | hr
      · exact absurd rfl (hn _ hr)
      · exact hr
    refine (h.probed profile hr' hi).append fun ev hev ⟨_, _, he⟩ => ?_
    have := hn ev hev; rw [he] at this; exact this rfl
  launched := h.launched.append fun ev hev he => by
    have := hn ev hev; rw [he] at this; exact this rfl rfl

theorem Event.neutral_of_about {u : SessionId} {ev : Event} (h : ev.About u) (hne : u ≠ s) :
    ev.Neutral s := by
  cases ev <;> simp_all [Event.About, Event.session, Event.Neutral]

attribute [local simp] Event.Neutral

/-- Opening the gate and passing it: what a part of a start adds, on top of what was known. -/
def Flow.Gated (cfg : Wiring) (s : SessionId) (profile : Profile) (log : List Event) :
    Flow → Prop
  | .await e next evs =>
    next.Reached cfg s profile e (evs ++ log) ∧ (next ≠ .touchLaunch → e.state ≠ .browsing) ∧
      (e.state = .browsing → GateOpen cfg s e (evs ++ log) ∧ .entered s .browsing ∈ evs ++ log) ∧
      Ordered cfg s (evs ++ log) ∧ ∀ p, .registered s p ∈ evs ++ log ↔ p = profile
  | .raise e _ evs => e.state ≠ .browsing ∧ Ordered cfg s (evs ++ log)
  | .finish _ _ evs => evs = []

theorem neutral_stateEvents {p : ProfileId} {state : SessionState} (h : state ≠ .browsing) :
    ∀ ev ∈ stateEvents s p state, ev.Neutral s := by
  simp [stateEvents, h]

theorem neutral_preflightEvents (profile : Profile) (c : ConnectivityChecklist) :
    ∀ ev ∈ preflightEvents s profile c, ev.Neutral s := by
  simp [preflightEvents]

/-- Each part of a start keeps to the order of the calls and opens the gate before it launches. -/
theorem Resumes.gated {profile : Profile} {reply : Option Gateway.Call} {e : SessionEntry}
    {pc : Drive} {input : Input} {flow : Flow} {log : List Event}
    (h : Resumes cfg s profile reply e pc input flow)
    (hreg : ∀ p, .registered s p ∈ log ↔ p = profile)
    (hr : pc.Reached cfg s profile e log) (hstate : pc ≠ .touchLaunch → e.state ≠ .browsing)
    (ho : Ordered cfg s log) : flow.Gated cfg s profile log := by
  have hnil (e' : SessionEntry) (err : Error) (hs : e'.state ≠ .browsing) :
      Flow.Gated cfg s profile log (.raise e' err []) := ⟨hs, by simpa using ho⟩
  cases h with
  | callError hpc _ => exact hnil e _ (hstate hpc)
  | gatewayError _ hpc =>
    obtain ⟨gw, br, rfl | rfl⟩ := hpc <;> exact hnil e _ (hstate (by rintro ⟨⟩))
  | gatewayProvisioned =>
    exact ⟨hr, fun _ => hstate (by rintro ⟨⟩), fun hb => absurd hb (hstate (by rintro ⟨⟩)),
      ho.append (by simp), by simp [hreg]⟩
  | browserProvisioned _ =>
    exact ⟨hr, by simp, by simp, ho.append (by simp [stateEvents]), by simp [stateEvents, hreg]⟩
  | browserStopped _ => exact ⟨hstate (by rintro ⟨⟩), ho.append (by simp)⟩
  | configured _ =>
    exact ⟨⟨hr.1, hr.2, _, List.mem_cons_self⟩, fun _ => hstate (by rintro ⟨⟩),
      fun hb => absurd hb (hstate (by rintro ⟨⟩)), ho.append (by simp), by simp [hreg]⟩
  | firewallApplied _ =>
    obtain ⟨hm, hi, c, hc⟩ := hr
    have ho' : Ordered cfg s ([.firewallApplied s (.failClosed (gatewayConfig
      profile.spec.network))] ++ log) := ho.append (by simp)
    refine ⟨⟨hm, hi, ⟨c, by simp [hc]⟩, _, List.mem_cons_of_mem _ List.mem_cons_self⟩,
      fun _ => hstate (by rintro ⟨⟩), fun hb => absurd hb (hstate (by rintro ⟨⟩)), ?_,
      by simp [hreg]⟩
    -- the VM starts with both events before it
    exact ⟨⟨fun _ => ⟨_, List.mem_cons_of_mem _ hc, c, rfl⟩, ho'.configured⟩,
      ⟨fun _ => ⟨_, List.mem_cons_self, _, rfl⟩, ho'.applied⟩,
      fun p hp hi => ⟨by simp, ho'.probed p (by simpa using hp) hi⟩,
      ⟨by simp, ho'.launched⟩⟩
  | gatewayStarted =>
    obtain ⟨hm, hi, ⟨c, hc⟩, p, hp⟩ := hr
    refine ⟨⟨hm, hi, ⟨c, by simp [hc]⟩, p, by simp [hp]⟩, fun _ => hstate (by rintro ⟨⟩),
      fun hb => absurd hb (hstate (by rintro ⟨⟩)), ?_, by simp [hreg]⟩
    exact ⟨⟨fun _ => ⟨_, hc, c, rfl⟩, ho.configured⟩, ⟨fun _ => ⟨_, hp, p, rfl⟩, ho.applied⟩,
      fun p hp hi => ⟨by simp, ho.probed p (by simpa using hp) hi⟩, ⟨by simp, ho.launched⟩⟩
  | browserStarted _ =>
    obtain ⟨hm, hi, ⟨c, hc⟩, p, hp⟩ := hr
    exact ⟨⟨hm, hi, ⟨c, by simp [hc]⟩, p, by simp [hp]⟩, by simp, by simp,
      ho.append (neutral_stateEvents (by simp)), by simp [stateEvents, hreg]⟩
  | startStopped _ => exact hnil e _ (hstate (by rintro ⟨⟩))
  | @preflightPassed c bundle req hc hreq hsafe =>
    obtain ⟨hm, hi, ⟨cf, hcf⟩, p, hp⟩ := hr
    have hprod : req.production = true := by rw [hreq]; rfl
    have ho' := ho.append (neutral_preflightEvents (s := s) profile c)
    refine ⟨?_, fun _ => hstate (by rintro ⟨⟩), fun hb => absurd hb (hstate (by rintro ⟨⟩)), ?_,
      by simp [preflightEvents, hreg]⟩
    · have hmode : (e.setChecklist c).mode = .fullVm := hm
      simp only [Drive.Reached, GateOpen, hmode]
      exact ⟨⟨c, rfl, hc⟩, (ConnectivityChecklist.permitsBrowsing_iff c).mp hc,
        ⟨req, bundle, by simp, hprod, hsafe⟩, ⟨cf, by simp [hcf]⟩, ⟨p, by simp [hp]⟩⟩
    · refine ⟨⟨by simp, ho'.configured⟩, ⟨by simp, ho'.applied⟩, fun q hq hq' => ?_,
        ⟨by simp, ho'.launched⟩⟩
      have hq : q = profile := by simpa [preflightEvents, hreg] using hq
      rw [hq, hi] at hq'
      cases hq'
  | preflightRefused _ => exact ⟨hstate (by rintro ⟨⟩), ho.append (neutral_preflightEvents _ _)⟩
  | preflightUnsafe _ _ => exact ⟨hstate (by rintro ⟨⟩), ho.append (neutral_preflightEvents _ _)⟩
  | @proxyReached proxy bundle req hreq hsafe =>
    obtain ⟨hi, hproxy⟩ := hr
    have hmem : .registered s profile ∈ log := (hreg profile).mpr rfl
    have ho' : Ordered cfg s (probeEvents s profile proxy ++ log) :=
      ho.append (by simp [probeEvents])
    refine ⟨?_, fun _ => hstate (by rintro ⟨⟩), fun hb => absurd hb (hstate (by rintro ⟨⟩)), ?_,
      by simp [probeEvents, hreg]⟩
    · exact ⟨rfl, profile, proxy, by simp [hmem], hi, hproxy, by simp [probeEvents]⟩
    · refine ⟨⟨by simp, ho'.configured⟩, ⟨by simp, ho'.applied⟩, fun q hq hq' => ?_,
        ⟨by simp, ho'.launched⟩⟩
      have hq : q = profile := by simpa [probeEvents, hreg] using hq
      subst hq
      exact ⟨fun _ => ⟨_, by simp [probeEvents], proxy, hproxy, rfl⟩,
        ho'.probed q (List.mem_append_right _ hmem) hq'⟩
  | proxyUnreachable => exact hnil e _ (hstate (by rintro ⟨⟩))
  | proxyUnsafe _ => exact ⟨hstate (by rintro ⟨⟩), ho.append (by simp [probeEvents])⟩
  | launched =>
    refine ⟨⟨?_, by simp⟩, fun _ => hstate (by rintro ⟨⟩),
      fun hb => absurd hb (hstate (by rintro ⟨⟩)),
      ho.append (by simp), by simp [hreg]⟩
    exact (GateOpen.mono hr (by simp +contextual)).congr rfl rfl rfl
  | @browsing h _ =>
    have hevs : ∀ ev ∈ browsingEvents s profile, ev.Neutral s := by
      unfold browsingEvents; cases profile.spec.isolation <;> simp
    obtain ⟨hg, hl⟩ := hr
    have hopen : GateOpen cfg s { e with state := .browsing }
        (browsingEvents s profile ++ stateEvents s e.profile .browsing ++ log) :=
      (hg.mono (by simp +contextual)).congr rfl rfl rfl
    refine ⟨hopen, by simp, fun _ => ⟨hopen, by simp [stateEvents]⟩, ?_, fun p => ?_⟩
    · rw [List.append_assoc]
      refine Ordered.append ?_ hevs
      refine ⟨⟨by simp, by simp, ho.configured⟩, ⟨by simp, by simp, ho.applied⟩,
        fun q hq hq' => ⟨by simp, by simp, ho.probed q (by simpa [stateEvents] using hq) hq'⟩,
        ⟨by simp, fun _ => ⟨_, hl, h, rfl⟩, ho.launched⟩⟩
    · have hno : .registered s p ∉ browsingEvents s profile := fun hp => hevs _ hp rfl
      simp [hno, stateEvents, hreg]
  | browsingStopped _ => exact hnil e _ (hstate (by rintro ⟨⟩))
  | notRunning => exact hnil e _ (hstate (by rintro ⟨⟩))
  | touched => rfl

/-- A session that has started no VM and launched no browser is in order. -/
theorem ordered_of_early {log : List Event} (hstart : ∀ vm, .startCalled s vm ∉ log)
    (hlaunch : ∀ req bundle, .launchCalled s req bundle ∉ log)
    (hbrowsing : .entered s .browsing ∉ log) : Ordered cfg s log where
  configured := precedes_of_forall_not fun _ hev ⟨vm, he⟩ => hstart vm (he ▸ hev)
  applied := precedes_of_forall_not fun _ hev ⟨vm, he⟩ => hstart vm (he ▸ hev)
  probed _ _ _ := precedes_of_forall_not fun _ hev ⟨req, b, he⟩ => hlaunch req b (he ▸ hev)
  launched := precedes_of_forall_not fun _ hev he => hbrowsing (he ▸ hev)

/-- The first part of a start keeps to the order as well: no gate is needed yet. -/
theorem Starts.gated {p : ProfileId} {profile : Profile} {host : Bool} {lease : Store.ProfileLease}
    {key : SecretKey} {flow : Flow} {log : List Event}
    (h : Starts cfg s p profile lease key host flow)
    (hhost : host = true ↔ profile.spec.isolation = .hostProcess)
    (hnew : ∀ ev ∈ log, ev.session ≠ some s) : flow.Gated cfg s profile log := by
  have hno (ev : Event) (he : ev.session = some s) : ev ∉ log := fun hev => hnew ev hev he
  have hreg (q : Profile) : .registered s q ∉ log := hno _ rfl
  have hstart (vm : VmId) : .startCalled s vm ∉ log := hno _ rfl
  have hlaunch (req : BrowserLaunchRequest) (b : BackendPolicyBundle) :
    .launchCalled s req b ∉ log := hno _ rfl
  have hbrowsing : .entered s .browsing ∉ log := hno _ rfl
  cases h with
  | fullVm =>
    have hi : profile.spec.isolation = .fullVm := by
      cases hi : profile.spec.isolation <;> simp_all
    refine ⟨⟨rfl, hi⟩, by simp, by simp, ordered_of_early ?_ ?_ ?_, fun q => ?_⟩ <;>
      simp [stateEvents, hreg, hstart, hlaunch, hbrowsing]
  | hostRefused =>
    refine ⟨by simp [SessionEntry.requested], ordered_of_early ?_ ?_ ?_⟩ <;>
      simp [stateEvents, hstart, hlaunch, hbrowsing]
  | hostProbe _ hproxy =>
    refine ⟨⟨hhost.mp rfl, hproxy⟩, by simp, by simp, ordered_of_early ?_ ?_ ?_, fun q => ?_⟩ <;>
      simp [stateEvents, hreg, hstart, hlaunch, hbrowsing]

/-- What session code establishes of its session. -/
structure Segment.Gated (cfg : Wiring) (s : SessionId) (log : List Event) (seg : Segment) :
    Prop where
  drive : ∀ q pc, seg.task = .drive s q pc →
    (∀ p, .registered s p ∈ seg.events ++ log ↔ p = q) ∧
      pc.Reached cfg s q seg.entry (seg.events ++ log) ∧
      (pc ≠ .touchLaunch → seg.entry.state ≠ .browsing)
  browsing : seg.entry.state = .browsing →
    GateOpen cfg s seg.entry (seg.events ++ log) ∧ .entered s .browsing ∈ seg.events ++ log
  ordered : Ordered cfg s (seg.events ++ log)

/-- Settling a flow keeps what it established: engaging the kill switch and beginning a teardown
are neutral, and the state does not change. -/
theorem settle_gated {profile : Profile} {flow : Flow} {log : List Event}
    (hf : flow.Gated cfg s profile log)
    (hfinish : ∀ e sum evs, flow = .finish e sum evs → Ordered cfg s log ∧
      (e.state = .browsing → GateOpen cfg s e log ∧ .entered s .browsing ∈ log)) :
    (settle cfg s profile flow).Gated cfg s log := by
  rcases settle_cases cfg s profile flow with ⟨e, next, evs, rfl, heq⟩ | ⟨e, sum, evs, rfl, heq⟩ |
    ⟨e, err, evs, rfl, -, heq⟩ | ⟨e, err, evs, c, cs, rfl, -, -, heq⟩ <;> rw [heq]
  · obtain ⟨hr, hs, hg, ho, hreg⟩ := hf
    exact ⟨by rintro q pc ⟨⟩; exact ⟨hreg, hr, hs⟩, hg, ho⟩
  · have hevs : evs = [] := hf
    subst hevs
    obtain ⟨ho, hb⟩ := hfinish e sum [] rfl
    exact ⟨by simp, by simpa using hb, by simpa using ho⟩
  · obtain ⟨hs, ho⟩ := hf
    have ho' : Ordered cfg s ([.engageCalled s] ++ (evs ++ log)) := ho.append (by simp)
    exact ⟨by simp, fun hb => absurd hb hs, ho'⟩
  · obtain ⟨hs, ho⟩ := hf
    have ho' : Ordered cfg s ([.cleanup s c] ++ (evs ++ log)) := ho.append (by simp)
    exact ⟨by simp, fun hb => absurd hb hs, ho'⟩

/-- A piece of teardown code keeps the mode, the checklist and the protection, records neutral
events, and never enters `Browsing`. -/
structure Closes (s : SessionId) (e : SessionEntry) (seg : Segment) : Prop where
  mode : seg.entry.mode = e.mode
  checklist : seg.entry.checklist = e.checklist
  protection : seg.entry.protection = e.protection
  state : seg.entry.state = .browsing → e.state = .browsing
  task : ∀ q pc, seg.task ≠ .drive s q pc
  events : ∀ ev ∈ seg.events, ev.Neutral s

theorem closes_beginTeardown {ending : Ending} {e e' : SessionEntry} {evs : List Event}
    (hm : e'.mode = e.mode) (hc : e'.checklist = e.checklist) (hp : e'.protection = e.protection)
    (hs : e'.state = .browsing → e.state = .browsing) (hn : ∀ ev ∈ evs, ev.Neutral s) :
    Closes s e (beginTeardown cfg s ending e' evs) := by
  obtain ⟨c, cs, -, heq⟩ := beginTeardown_eq cfg s ending e' evs
  rw [heq]
  exact ⟨hm, hc, hp, hs, by simp, by simpa using hn⟩

theorem closes_teardown {ending : Ending} {e : SessionEntry} {evs : List Event}
    {cs : List Cleanup} (hn : ∀ ev ∈ evs, ev.Neutral s) :
    Closes s e (teardown s ending e evs cs) := by
  cases cs with
  | cons c cs => exact ⟨rfl, rfl, rfl, id, by simp [teardown], by simpa [teardown] using hn⟩
  | nil =>
    have hstate : ending.state ≠ .browsing := by cases ending <;> simp [Ending.state]
    refine ⟨rfl, rfl, rfl, fun h => absurd h hstate, by simp [teardown], ?_⟩
    simpa [teardown, hstate] using hn

/-- Session code is a part of a start, or teardown code. -/
theorem Runs.cases {l : Label} {seg : Segment} (h : Runs cfg w t s l seg) :
    (∃ p profile host lease key flow, w.sessions s = none ∧
      w.tasks t = some (.acquireLock p profile host) ∧
      Starts cfg s p profile lease key host flow ∧ seg = settle cfg s profile flow) ∨
    (∃ profile pc entry input flow, w.tasks t = some (.drive s profile pc) ∧
      w.sessions s = some entry ∧ Resumes cfg s profile (w.gateway.calls t) entry pc input flow ∧
      seg = settle cfg s profile flow) ∨
    (∃ entry, w.sessions s = some entry ∧ Closes s entry seg) := by
  cases h with
  | start ht hs _ hstart => exact .inl ⟨_, _, _, _, _, _, hs, ht, hstart, rfl⟩
  | drive ht hs hf => exact .inr (.inl ⟨_, _, _, _, _, ht, hs, Drive.resume_cases hf, rfl⟩)
  | @failClosed err e _ _ _ hs _ =>
    refine .inr (.inr ⟨e, hs, ?_⟩)
    exact closes_beginTeardown rfl rfl rfl id (by simp [failClosedEvents])
  | @teardown c cs ending e input _ hs _ =>
    refine .inr (.inr ⟨e, hs, ?_⟩)
    refine closes_teardown ?_
    unfold destroyedEvents
    split <;> simp
  | @stop e e' evs _ hs hcases =>
    refine .inr (.inr ⟨e, hs, ?_⟩)
    rcases hcases with ⟨htr, rfl⟩ | ⟨-, rfl, rfl⟩
    · obtain ⟨-, rfl⟩ := transition_eq_ok.mp htr
      exact closes_beginTeardown rfl rfl rfl (by simp) (by simp [stateEvents])
    · exact closes_beginTeardown rfl rfl rfl id (by simp)

/-- Where another call drives the session, only teardown code can run beside it. -/
theorem Runs.closes_of_other {l : Label} {seg : Segment} {u : TaskId} {profile : Profile}
    {pc : Drive} (h : Runs cfg w t s l seg) (ht : w.Tracked) (hne : u ≠ t)
    (hu : w.tasks u = some (.drive s profile pc)) :
    ∃ e, w.sessions s = some e ∧ Closes s e seg := by
  rcases h.cases with ⟨p, q, host, lease, key, flow, hs, -, -, -⟩ |
    ⟨q, pc', e, input, flow, hd, -, -, -⟩ | hclose
  · exact absurd hs (ht.task u _ s hu rfl)
  · exact absurd (ht.starter u t _ _ s hu hd rfl rfl) hne
  · exact hclose

theorem Closes.gated {e : SessionEntry} {log : List Event} {seg : Segment} (h : Closes s e seg)
    (ho : Ordered cfg s log)
    (hb : e.state = .browsing → GateOpen cfg s e log ∧ .entered s .browsing ∈ log) :
    seg.Gated cfg s log where
  drive q pc hq := absurd hq (h.task q pc)
  browsing hs := by
    obtain ⟨hg, he⟩ := hb (h.state hs)
    exact ⟨(hg.mono (by simp +contextual)).congr h.mode h.checklist h.protection, by simp [he]⟩
  ordered := ho.append h.events

/-- Session code keeps its session gated. -/
theorem Gated.runs {l : Label} {seg : Segment} (h : Gated cfg w) (ht : w.Tracked)
    (hr : Runs cfg w t s l seg) : seg.Gated cfg s w.log := by
  rcases hr.cases with ⟨p, profile, host, lease, key, flow, hs, hacq, hstart, rfl⟩ |
    ⟨profile, pc, e, input, flow, hd, hs, hres, rfl⟩ | ⟨e, hs, hclose⟩
  · have hnew : ∀ ev ∈ w.log, ev.session ≠ some s := fun ev hev he => ht.event ev hev s he hs
    refine settle_gated (hstart.gated (h.acquire t p profile host hacq) hnew) fun e sum evs hf => ?_
    subst hf
    cases hstart
  · obtain ⟨hreg, hreach, hstate⟩ := h.drive t s profile pc e hd hs
    refine settle_gated (hres.gated hreg hreach hstate (h.ordered s)) fun e' sum evs hf => ?_
    subst hf
    cases hres
    exact ⟨h.ordered s, h.browsing s e hs⟩
  · exact hclose.gated (h.ordered s) (h.browsing s e hs)

theorem Gated.step {l : Label} (h : Gated cfg w) (ht : w.Tracked)
    (hs : w.step cfg l = some w') : Gated cfg w' := by
  rcases World.step_cases hs with ⟨e, -, rfl⟩ | ⟨op, k, -, -, -, rfl⟩ | ⟨op, g, -, -, -, rfl⟩ |
    ⟨t, task, hm, hset⟩ | ⟨t, s, seg, hr, hc⟩
  · exact ⟨h.acquire, h.drive, h.browsing, h.ordered⟩
  · exact ⟨h.acquire, h.drive, h.browsing, h.ordered⟩
  · exact ⟨h.acquire, h.drive, h.browsing, h.ordered⟩
  · obtain ⟨hsess, hlog, -, htasks, -, -⟩ := World.setTask_cases hset
    have hnone := hm.session
    constructor
    case acquire =>
      intro u p profile host hu
      rw [htasks] at hu
      split_ifs at hu with he
      · cases hu; cases hm; assumption
      · exact h.acquire u p profile host hu
    case drive =>
      intro u s profile pc e hu he
      rw [htasks] at hu
      rw [hsess] at he
      rw [hlog]
      split_ifs at hu with hut
      · cases hu; cases hnone
      · exact h.drive u s profile pc e hu he
    case browsing =>
      intro s e he hb
      rw [hsess] at he
      rw [hlog]
      exact h.browsing s e he hb
    case ordered => rw [hlog]; exact h.ordered
  · obtain ⟨hsess, htasks, hlog, -, -⟩ := World.commit_cases hc
    have hseg := h.runs ht hr
    have hmem : ∀ ev ∈ w.log, ev ∈ w'.log := fun ev hev => by simp [hlog, hev]
    constructor
    case acquire =>
      intro u p profile host hu
      rw [htasks] at hu
      split_ifs at hu with he
      · rcases hr.task_kind with hk | ⟨r, hk⟩ <;> rw [Option.some.inj hu] at hk <;> cases hk
      · exact h.acquire u p profile host hu
    case drive =>
      intro u k profile pc e hu he
      rw [htasks] at hu
      rw [hsess] at he
      split_ifs at hu with hut
      · -- the task that just ran drives its own session
        have hk : k = s := hr.task_session (by rw [Option.some.inj hu]; rfl)
        rw [if_pos hk] at he
        cases he
        rw [hk, hlog]
        exact hseg.drive profile pc (by rw [← hk]; exact Option.some.inj hu)
      · by_cases hk : k = s
        · subst hk
          rw [if_pos rfl] at he
          cases he
          obtain ⟨e, hse, hclose⟩ := hr.closes_of_other ht hut hu
          obtain ⟨hreg, hreach, hstate⟩ := h.drive u k profile pc e hu hse
          refine ⟨fun p => ?_, hreach.mono hmem hclose.mode hclose.checklist hclose.protection,
            fun hpc hb => hstate hpc (hclose.state hb)⟩
          have hno : .registered k p ∉ seg.events := fun hp => hclose.events _ hp rfl
          simp [hlog, hno, hreg]
        · rw [if_neg hk] at he
          obtain ⟨hreg, hreach, hstate⟩ := h.drive u k profile pc e hu he
          refine ⟨fun p => ?_, hreach.mono hmem rfl rfl rfl, hstate⟩
          have hno : .registered k p ∉ seg.events := fun hp =>
            Event.neutral_of_about (hr.about _ hp) (Ne.symm hk) rfl
          simp [hlog, hno, hreg]
    case browsing =>
      intro k e he hb
      rw [hsess] at he
      split_ifs at he with hk
      · cases he
        rw [hk, hlog]
        exact hseg.browsing hb
      · obtain ⟨hg, hent⟩ := h.browsing k e he hb
        exact ⟨hg.mono hmem, hmem _ hent⟩
    case ordered =>
      intro k
      rw [hlog]
      by_cases hk : k = s
      · rw [hk]; exact hseg.ordered
      · exact (h.ordered k).append fun ev hev =>
          Event.neutral_of_about (hr.about ev hev) (Ne.symm hk)

theorem gated_initial (h : w.Initial) : Gated cfg w where
  acquire t p profile host ht := by simp [h.tasks] at ht
  drive t s profile pc e ht := by simp [h.tasks] at ht
  browsing s e he := by simp [h.sessions] at he
  ordered s := by
    rw [h.log]
    exact ordered_of_early (by simp) (by simp) (by simp)

theorem gated_of_reach (hr : Reach (World.step cfg) World.Initial anyStep w) : Gated cfg w :=
  hr.invariant (fun _ h => gated_initial h) fun _ _ _ hr h _ hs => h.step (tracked_of_reach hr) hs

/-- What has happened before a session browses, in the order in which it happened. -/
def BrowsingGate (cfg : Wiring) (s : SessionId) (e : SessionEntry) (log : List Event) : Prop :=
  (match e.mode with
    | .fullVm => FullVmGate s e log ∧
      Precedes (fun ev => ∃ c, ev = .configured s c) (fun ev => ∃ vm, ev = .startCalled s vm) log ∧
      Precedes (fun ev => ∃ p, ev = .firewallApplied s p) (fun ev => ∃ vm, ev = .startCalled s vm)
        log
    | .hostProcess _ _ _ => HostGate cfg s e log ∧
      ∃ profile, .registered s profile ∈ log ∧
        Precedes (fun ev => ∃ proxy,
            cfg.hostProxyEndpoint profile.spec.network.mode = .ok proxy ∧
              ev = .proxyReached s proxy)
          (fun ev => ∃ req bundle, ev = .launchCalled s req bundle) log) ∧
  .entered s .browsing ∈ log ∧
  Precedes (fun ev => ∃ h, ev = .launched s h) (fun ev => ev = .entered s .browsing) log

/-- In every reachable state a browsing session has passed its gate. -/
theorem browsingGate_of_reach {e : SessionEntry}
    (hr : Reach (World.step cfg) World.Initial anyStep w) (hs : w.sessions s = some e)
    (hb : e.state = .browsing) : BrowsingGate cfg s e w.log := by
  have hg := gated_of_reach hr
  have ho := hg.ordered s
  obtain ⟨hopen, hent⟩ := hg.browsing s e hs hb
  refine ⟨?_, hent, ho.launched⟩
  unfold GateOpen at hopen
  cases hm : e.mode with
  | fullVm =>
    rw [hm] at hopen
    exact ⟨hopen, ho.configured, ho.applied⟩
  | hostProcess dir eph eng =>
    rw [hm] at hopen
    obtain ⟨profile, proxy, hreg, hi, -, -⟩ := hopen.reached
    exact ⟨hopen, profile, hreg, ho.probed profile hreg hi⟩

/-! ### A run to `Browsing` -/

/-- A daemon with one host browser. -/
def daemon : Wiring where
  config := ⟨"aegis", none, "/var/lib/aegis/images", "/run/aegis"⟩
  hostBrowser := true
  hostBrowserFirefox := false
  aegisHostProxy := none

/-- The daemon before its first request. -/
def booted : World :=
  ⟨.secure, fun _ => none, fun _ => none, .initial, .initial [], []⟩

theorem booted_initial : booted.Initial := ⟨fun _ => rfl, fun _ => rfl, rfl, ⟨[], rfl⟩, rfl⟩

/-- An ephemeral Tor profile with full VM isolation. -/
def torProfile (p : ProfileId) : Profile where
  id := p
  spec :=
    { name := "tor", kind := .ephemeral, network := .default, protection := .balanced
      isolation := .fullVm, browser := .chromium, fingerprint := none
      permissions := ⟨fun _ => none, fun _ => none⟩ }

def checklistPassed : ConnectivityChecklist := .new (CheckId.all.map fun id => ⟨id, .pass, ""⟩)

def safeBundle : BackendPolicyBundle := ⟨.chromium, ["--incognito"]⟩

def succeeded : Result Gateway.CommandOutput := .ok ⟨some 0, "", ""⟩

/-- Request `t` starts a session of `p` and takes the lock with the given token. -/
def leaseRun (t : TaskId) (p : ProfileId) (token : Store.LockToken) : List Label :=
  [.startSession t p, .resume t (.profile (.ok (torProfile p))), .lock (.stat t true token),
    .lock (.create t none), .lock (.write t none)]

/-- The start of session `s` provisions its VMs. -/
def provisionRun (t : TaskId) (s : SessionId) (gw br : VmId) : List Label :=
  [.resume t (.registered s (.ok 0) ⟨0⟩), .resume t (.provisioned (.ok gw) ⟨1⟩),
    .resume t (.provisioned (.ok br) ⟨2⟩)]

/-- The start configures the gateway and applies the firewall. -/
def gatewayRun (t : TaskId) : List Label :=
  [.gateway (.run t succeeded), .gateway (.access t), .resume t .returned,
    .gateway (.access t), .gateway (.run t succeeded), .gateway (.access t),
    .resume t .returned]

/-- The start boots both VMs, passes the preflight and launches. -/
def launchRun (t : TaskId) (h : BrowserHandle) : List Label :=
  [.resume t (.started (.ok ())), .resume t (.started (.ok ())),
    .resume t (.checklist (.ok checklistPassed) (.ok safeBundle)), .resume t (.launched (.ok h))]

/-- A complete start. -/
def browsingRun : List Label :=
  leaseRun 0 ⟨0⟩ (Store.LockSystem.repeated 'a') ++ provisionRun 0 ⟨0⟩ ⟨10⟩ ⟨11⟩ ++ gatewayRun 0 ++
    launchRun 0 ⟨⟨0⟩, .chromium, "pid"⟩ ++ [.resume 0 (.running (.ok true))]

theorem browsingRun_state : (exec (World.step daemon) booted browsingRun).map
    (fun w => (w.sessions ⟨0⟩).map SessionEntry.state) = some (some .browsing) := rfl

/-- The complete start browses behind its gate. -/
theorem browsingGate_browsingRun : ∃ (w : World) (e : SessionEntry), w.sessions ⟨0⟩ = some e ∧
    e.state = .browsing ∧ BrowsingGate daemon ⟨0⟩ e w.log := by
  obtain ⟨w, hw, hstate⟩ := Option.map_eq_some_iff.mp browsingRun_state
  obtain ⟨e, he, hb⟩ := Option.map_eq_some_iff.mp hstate
  exact ⟨w, e, he, hb, browsingGate_of_reach ((Reach.start booted_initial).exec hw) he hb⟩

end Aegis.Orchestrator
