import Aegis.Core.Spec
import Aegis.Orchestrator.Idempotent
import Aegis.Orchestrator.Policies

/-! What a session does for the spec it is registered with: its gateway configuration, its launch
request and its mode; and when the fingerprint policy it applies is the one that is shown. -/
namespace Aegis.Orchestrator
open Transition

variable {cfg : Wiring} {w w' : World} {t : TaskId} {s : SessionId}

/-- The launch request of a profile, in the mode its isolation level asks for. -/
def LaunchesFor (cfg : Wiring) (s : SessionId) (profile : Profile) (req : BrowserLaunchRequest) :
    Prop :=
  match profile.spec.isolation with
  | .fullVm => req = browserLaunchRequest s profile (gatewayConfig profile.spec.network)
  | .hostProcess => ∃ proxy, cfg.hostProxyEndpoint profile.spec.network.mode = .ok proxy ∧
      req = hostLaunchRequest s profile (cfg.hostUserDataDir profile) proxy

/-- A session is registered once, and what it does is what its profile asks for. -/
structure Faithful (cfg : Wiring) (w : World) : Prop where
  unique : ∀ s p q, .registered s p ∈ w.log → .registered s q ∈ w.log → p = q
  configured : ∀ s c profile, .configured s c ∈ w.log → .registered s profile ∈ w.log →
    c = gatewayConfig profile.spec.network
  launched : ∀ s req bundle profile, .launchCalled s req bundle ∈ w.log →
    .registered s profile ∈ w.log → LaunchesFor cfg s profile req
  mode : ∀ s e dir eph engine, w.sessions s = some e → e.mode = .hostProcess dir eph engine →
    ∃ profile, .registered s profile ∈ w.log ∧ profile.spec.isolation = .hostProcess

section Runs

variable {l : Label} {seg : Segment}

/-- Session code registers a new session, with the profile its call took the lock for. -/
theorem Runs.registers {q : Profile} (h : Runs cfg w t s l seg)
    (hmem : .registered s q ∈ seg.events) : w.sessions s = none ∧
      ∃ p host, w.tasks t = some (.acquireLock p q host) := by
  rcases h.cases with ⟨p, profile, host, lease, key, flow, hs, ht, hstart, rfl⟩ |
    ⟨profile, pc, e, input, flow, -, -, hres, rfl⟩ | ⟨e, -, hclose⟩
  · have hev := settle_registered.mp hmem
    obtain rfl : q = profile := by cases hstart <;> simpa [Flow.events, stateEvents] using hev
    exact ⟨hs, p, host, ht⟩
  · exact absurd (settle_registered.mp hmem) (hres.not_registered q)
  · exact absurd rfl (hclose.events _ hmem)

/-- The gateway is configured as the profile of the start asks for. -/
theorem Runs.configured {c : GatewayConfig} (h : Runs cfg w t s l seg)
    (hmem : .configured s c ∈ seg.events) : ∃ profile pc,
      w.tasks t = some (.drive s profile pc) ∧ c = gatewayConfig profile.spec.network := by
  obtain ⟨profile, pc, e, input, flow, rfl, ht, -, hres, -, hev⟩ :=
    h.of_drive (.configured s c) rfl hmem
  refine ⟨profile, pc, ht, ?_⟩
  cases hres
  case configured => simpa [Flow.events] using hev
  case browsing =>
    cases hi : profile.spec.isolation <;>
      simp [Flow.events, browsingEvents, hi, stateEvents] at hev
  all_goals simp [Flow.events, stateEvents, preflightEvents, probeEvents] at hev

/-- The browser is launched as the profile of the start asks for. -/
theorem Runs.launchCalled {req : BrowserLaunchRequest} {bundle : BackendPolicyBundle}
    (hg : Gated cfg w) (h : Runs cfg w t s l seg)
    (hmem : .launchCalled s req bundle ∈ seg.events) : ∃ profile pc,
      w.tasks t = some (.drive s profile pc) ∧ LaunchesFor cfg s profile req := by
  obtain ⟨profile, pc, e, input, flow, rfl, ht, hs, hres, -, hev⟩ :=
    h.of_drive (.launchCalled s req bundle) rfl hmem
  obtain ⟨-, hreached, -⟩ := hg.drive t s profile pc e ht hs
  refine ⟨profile, pc, ht, ?_⟩
  unfold LaunchesFor
  cases hres
  case preflightPassed c b r hc hr hsafe =>
    obtain ⟨rfl, -⟩ : req = r ∧ bundle = b := by simpa [Flow.events, preflightEvents] using hev
    rw [hreached.2.1]
    exact hr
  case proxyReached proxy b r hr hsafe =>
    obtain ⟨rfl, -⟩ : req = r ∧ bundle = b := by simpa [Flow.events, probeEvents] using hev
    obtain ⟨hi, hproxy⟩ := hreached
    rw [hi]
    exact ⟨proxy, hproxy, hr⟩
  case browsing =>
    cases hi : profile.spec.isolation <;>
      simp [Flow.events, browsingEvents, hi, stateEvents] at hev
  all_goals simp [Flow.events, stateEvents, preflightEvents, probeEvents] at hev

end Runs

theorem Faithful.runs {l : Label} {seg : Segment} (h : Faithful cfg w) (ht : w.Tracked)
    (ho : Owning cfg w) (hg : Gated cfg w) (hr : Runs cfg w t s l seg)
    (hc : w.commit t s seg = some w') : Faithful cfg w' := by
  obtain ⟨hsess, -, hlog, -, -⟩ := World.commit_cases hc
  -- a session that is registered now was not mentioned before
  have hreg (k : SessionId) (q : Profile) (hmem : .registered k q ∈ w'.log) :
      .registered k q ∈ w.log ∨ k = s ∧ w.sessions s = none ∧ (∀ ev ∈ w.log, ev.session ≠ some s) ∧
        ∃ p host, w.tasks t = some (.acquireLock p q host) := by
    rw [hlog, List.mem_append] at hmem
    refine hmem.symm.imp_right fun hev => ?_
    obtain rfl : k = s := by rcases hr.about _ hev with ha | ha <;> cases ha; rfl
    obtain ⟨hs, hacq⟩ := hr.registers hev
    exact ⟨rfl, hs, fun ev he hk => ht.event ev he k hk hs, hacq⟩
  have hdriven (profile : Profile) (hs : w.sessions s ≠ none)
      (hmem : .registered s profile ∈ w'.log) : .registered s profile ∈ w.log := by
    rcases hreg s profile hmem with hold | ⟨-, hnone, -⟩
    · exact hold
    · exact absurd hnone hs
  constructor
  case unique =>
    intro k p q hp hq
    rcases hreg k p hp with hp | ⟨rfl, -, hnew, _, _, hacq⟩
    · rcases hreg k q hq with hq | ⟨rfl, -, hnew, -⟩
      · exact h.unique k p q hp hq
      · exact absurd rfl (hnew _ hp)
    · rcases hreg k q hq with hq | ⟨-, -, -, _, _, hacq'⟩
      · exact absurd rfl (hnew _ hq)
      · rw [hacq] at hacq'
        cases hacq'
        rfl
  case configured =>
    intro k c profile hmem hp
    rw [hlog, List.mem_append] at hmem
    rcases hmem with hev | hold
    · obtain rfl : k = s := by rcases hr.about _ hev with ha | ha <;> cases ha; rfl
      obtain ⟨q, pc, hd, rfl⟩ := hr.configured hev
      have hq := ho.driven t k q pc hd
      rw [h.unique k profile q (hdriven profile (ht.task t _ k hd rfl) hp) hq]
    · rcases hreg k profile hp with hp | ⟨rfl, -, hnew, -⟩
      · exact h.configured k c profile hold hp
      · exact absurd rfl (hnew _ hold)
  case launched =>
    intro k req bundle profile hmem hp
    rw [hlog, List.mem_append] at hmem
    rcases hmem with hev | hold
    · obtain rfl : k = s := by rcases hr.about _ hev with ha | ha <;> cases ha; rfl
      obtain ⟨q, pc, hd, hreq⟩ := hr.launchCalled hg hev
      have hq := ho.driven t k q pc hd
      rw [h.unique k profile q (hdriven profile (ht.task t _ k hd rfl) hp) hq]
      exact hreq
    · rcases hreg k profile hp with hp | ⟨rfl, -, hnew, -⟩
      · exact h.launched k req bundle profile hold hp
      · exact absurd rfl (hnew _ hold)
  case mode =>
    intro k e dir eph engine he hm
    have hgrow : w.log ⊆ w'.log := by rw [hlog]; exact List.subset_append_right ..
    rw [hsess] at he
    split_ifs at he with hk
    · subst hk
      cases he
      rcases hr.mode hm with ⟨e, he, hm⟩ | ⟨profile, proxy, bundle, -, hd, -⟩
      · obtain ⟨profile, hp, hi⟩ := h.mode k e dir eph engine he hm
        exact ⟨profile, hgrow hp, hi⟩
      · obtain ⟨e, he⟩ := Option.ne_none_iff_exists'.mp (ht.task t _ k hd rfl)
        obtain ⟨-, ⟨hi, -⟩, -⟩ := hg.drive t k profile _ e hd he
        exact ⟨profile, hgrow (ho.driven t k profile _ hd), hi⟩
    · obtain ⟨profile, hp, hi⟩ := h.mode k e dir eph engine he hm
      exact ⟨profile, hgrow hp, hi⟩

theorem Faithful.step {l : Label} (h : Faithful cfg w) (ht : w.Tracked) (ho : Owning cfg w)
    (hg : Gated cfg w) (hs : w.step cfg l = some w') : Faithful cfg w' := by
  rcases World.step_cases hs with ⟨e, -, rfl⟩ | ⟨op, k, -, -, -, rfl⟩ | ⟨op, g, -, -, -, rfl⟩ |
    ⟨t, task, hm, hset⟩ | ⟨t, s, seg, hr, hc⟩
  · exact ⟨h.unique, h.configured, h.launched, h.mode⟩
  · exact ⟨h.unique, h.configured, h.launched, h.mode⟩
  · exact ⟨h.unique, h.configured, h.launched, h.mode⟩
  · obtain ⟨hsess, hlog, -, -, -, -⟩ := World.setTask_cases hset
    constructor
    case unique => rw [hlog]; exact h.unique
    case configured => rw [hlog]; exact h.configured
    case launched => rw [hlog]; exact h.launched
    case mode =>
      intro s e dir eph engine he
      rw [hlog]
      exact h.mode s e dir eph engine (hsess s ▸ he)
  · exact h.runs ht ho hg hr hc

theorem faithful_initial (h : w.Initial) : Faithful cfg w := by
  constructor <;> simp [h.log, h.sessions]

theorem faithful_of_reach (hr : Reach (World.step cfg) World.Initial anyStep w) :
    Faithful cfg w :=
  hr.invariant (fun _ h => faithful_initial h) fun _ _ _ hr h _ hs =>
    h.step (tracked_of_reach hr) (owning_of_reach hr) (gated_of_reach hr) hs

/-! ### The fingerprint policy that is applied and the one that is shown -/

/-- The policy of the request is the effective policy of the profile, and so the one the preview
and the configured diagnostics show. -/
structure AppliesShown (profile : Profile) (req : BrowserLaunchRequest) : Prop where
  policy : req.fingerprint = profile.spec.resolvedFingerprint
  preview : profile.spec.preview = .under req.fingerprint profile.spec
  items : configuredProfileItems profile profile.spec.preview =
    configuredProfileItems profile (.under req.fingerprint profile.spec)

theorem appliesShown_iff {profile : Profile} {req : BrowserLaunchRequest} :
    AppliesShown profile req ↔ req.fingerprint = profile.spec.resolvedFingerprint := by
  constructor
  · exact fun h => h.policy
  · intro h
    have hpreview : profile.spec.preview = .under req.fingerprint profile.spec := by
      rw [h, ProfileSpec.preview]
    exact ⟨h, hpreview, by rw [hpreview]⟩

/-- Both start modes apply the policy of the level. -/
theorem LaunchesFor.fingerprint {profile : Profile} {req : BrowserLaunchRequest}
    (h : LaunchesFor cfg s profile req) : req.fingerprint = profile.spec.protection.policy := by
  unfold LaunchesFor at h
  split at h
  · rw [h]
    rfl
  · obtain ⟨proxy, -, rfl⟩ := h
    rfl

/-- In every run, a launch applies the policy that is shown for its profile exactly where the
profile overrides no fingerprint, or with the policy of its level. -/
theorem appliesShown_of_reach {req : BrowserLaunchRequest} {bundle : BackendPolicyBundle}
    {profile : Profile} (hr : Reach (World.step cfg) World.Initial anyStep w)
    (hp : .registered s profile ∈ w.log) (hl : .launchCalled s req bundle ∈ w.log) :
    AppliesShown profile req ↔ profile.spec.fingerprint = none ∨
      profile.spec.fingerprint = some profile.spec.protection.policy := by
  have hreq := (faithful_of_reach hr).launched s req bundle profile hl hp
  rw [appliesShown_iff, hreq.fingerprint, ProfileSpec.resolvedFingerprint_eq_policy]

/-- The Tor profile with a fingerprint override. -/
def overriding (fp : Option FingerprintPolicy) : Profile :=
  { torProfile ⟨0⟩ with spec := { (torProfile ⟨0⟩).spec with fingerprint := fp } }

/-- The steps of a full-VM start of a profile, up to its launch. -/
def launchingRun (profile : Profile) : List Label :=
  [.startSession 0 profile.id, .resume 0 (.profile (.ok profile)),
    .lock (.stat 0 true (Store.LockSystem.repeated 'a')), .lock (.create 0 none),
    .lock (.write 0 none)] ++
  provisionRun 0 ⟨0⟩ ⟨10⟩ ⟨11⟩ ++ gatewayRun 0 ++ launchRun 0 ⟨⟨0⟩, .chromium, "pid"⟩

def overridingRequest (fp : Option FingerprintPolicy) : BrowserLaunchRequest :=
  browserLaunchRequest ⟨0⟩ (overriding fp) (gatewayConfig (overriding fp).spec.network)

theorem launchingRun_log (fp : Option FingerprintPolicy) :
    (exec (World.step daemon) booted (launchingRun (overriding fp))).map
      (fun w => (w.log[24]?, w.log[1]?)) = some (some (.registered ⟨0⟩ (overriding fp)),
        some (.launchCalled ⟨0⟩ (overridingRequest fp) safeBundle)) := rfl

theorem launchingRun_reach (fp : Option FingerprintPolicy) : ∃ w,
    Reach (World.step daemon) World.Initial anyStep w ∧
      .registered ⟨0⟩ (overriding fp) ∈ w.log ∧
      .launchCalled ⟨0⟩ (overridingRequest fp) safeBundle ∈ w.log := by
  obtain ⟨w, hw, hlog⟩ := Option.map_eq_some_iff.mp (launchingRun_log fp)
  obtain ⟨hreg, hlaunch⟩ := Prod.mk.inj hlog
  exact ⟨w, (Reach.start booted_initial).exec hw, List.mem_of_getElem? hreg,
    List.mem_of_getElem? hlaunch⟩

/-- Without an override the policy that is shown is applied. -/
theorem appliesShown_launchingRun : AppliesShown (overriding none) (overridingRequest none) := by
  obtain ⟨w, hr, hreg, hlaunch⟩ := launchingRun_reach none
  exact (appliesShown_of_reach hr hreg hlaunch).mpr (.inl rfl)

/-- A Balanced profile that overrides its fingerprint with the Strict policy is shown as Strict
and launched as Balanced. -/
theorem overridden_not_applied : ∃ w, Reach (World.step daemon) World.Initial anyStep w ∧
    .registered ⟨0⟩ (overriding (some .strict)) ∈ w.log ∧
    .launchCalled ⟨0⟩ (overridingRequest (some .strict)) safeBundle ∈ w.log ∧
    (overriding (some .strict)).spec.preview.protection = .strict ∧
    (overridingRequest (some .strict)).fingerprint = .balanced ∧
    ¬ AppliesShown (overriding (some .strict)) (overridingRequest (some .strict)) := by
  obtain ⟨w, hr, hreg, hlaunch⟩ := launchingRun_reach (some .strict)
  refine ⟨w, hr, hreg, hlaunch, rfl, rfl, fun h => ?_⟩
  have hpolicy : FingerprintPolicy.balanced = FingerprintPolicy.strict := h.policy
  exact absurd hpolicy (by decide)

end Aegis.Orchestrator
