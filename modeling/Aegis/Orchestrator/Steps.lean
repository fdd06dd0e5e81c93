import Aegis.Orchestrator.World

/-! What a step of the daemon can do, said once: the invariants are derived from these cases. -/
namespace Aegis.Orchestrator
open Store

variable {cfg : Wiring} {w w' : World} {t : TaskId} {s : SessionId}

theorem transition_eq_ok {next : SessionState} {e e' : SessionEntry} :
    transition next e = .ok e' ↔
      e.state.canTransitionTo next = true ∧ e' = { e with state := next } := by
  unfold transition
  split_ifs with h <;> simp [h, eq_comm]

theorem transition_error {next : SessionState} {e : SessionEntry} {err : Error}
    (h : transition next e = .error err) :
    e.state.canTransitionTo next = false ∧ ∃ text, err = .internal text := by
  unfold transition at h
  split_ifs at h with hcan
  cases h
  exact ⟨by simpa using hcan, _, rfl⟩

/-- Everything a call that returned to a start leads to: its error, what the code does with its
value, or the error that code meets. -/
inductive Resumes (cfg : Wiring) (s : SessionId) (profile : Profile) (reply : Option Gateway.Call)
    (e : SessionEntry) : Drive → Input → Flow → Prop where
  | callError {pc : Drive} {input : Input} {err : Error} : pc ≠ .touchLaunch →
      input.error = some err →
      Resumes cfg s profile reply e pc input (.raise e err [])
  | gatewayError {pc : Drive} {err : Error} : reply = some (.done (.unit (.error err))) →
      (∃ gw br, pc = .configure gw br ∨ pc = .applyFirewall gw br) →
      Resumes cfg s profile reply e pc .returned (.raise e err [])
  | gatewayProvisioned {gw : VmId} {inst : InstanceId} :
      Resumes cfg s profile reply e .provisionGateway (.provisioned (.ok gw) inst)
        (.await (e.setVm .gateway gw) (.provisionBrowser gw)
          [.provisionCalled s (cfg.provisionRequest .browser inst), .provisioned s .gateway gw])
  | browserProvisioned {gw br : VmId} {inst : InstanceId} :
      e.state.canTransitionTo .gatewayStarting = true →
      Resumes cfg s profile reply e (.provisionBrowser gw) (.provisioned (.ok br) inst)
        (.await { e.setVm .browser br with state := .gatewayStarting } (.configure gw br)
          (stateEvents s e.profile .gatewayStarting ++ [.provisioned s .browser br]))
  | browserStopped {gw br : VmId} {inst : InstanceId} {text : String} :
      e.state.canTransitionTo .gatewayStarting = false →
      Resumes cfg s profile reply e (.provisionBrowser gw) (.provisioned (.ok br) inst)
        (.raise (e.setVm .browser br) (.internal text) [.provisioned s .browser br])
  | configured {gw br : VmId} : reply = some (.done (.unit (.ok ()))) →
      Resumes cfg s profile reply e (.configure gw br) .returned
        (.await e (.applyFirewall gw br) [.configured s (gatewayConfig profile.spec.network)])
  | firewallApplied {gw br : VmId} : reply = some (.done (.unit (.ok ()))) →
      Resumes cfg s profile reply e (.applyFirewall gw br) .returned
        (.await e (.startGateway br)
          [.startCalled s gw,
            .firewallApplied s (.failClosed (gatewayConfig profile.spec.network))])
  | gatewayStarted {br : VmId} :
      Resumes cfg s profile reply e (.startGateway br) (.started (.ok ()))
        (.await e .startBrowser [.startCalled s br])
  | browserStarted : e.state.canTransitionTo .preflight = true →
      Resumes cfg s profile reply e .startBrowser (.started (.ok ()))
        (.await { e with state := .preflight } .runPreflight (stateEvents s e.profile .preflight))
  | startStopped {text : String} : e.state.canTransitionTo .preflight = false →
      Resumes cfg s profile reply e .startBrowser (.started (.ok ())) (.raise e (.internal text) [])
  | preflightPassed {c : ConnectivityChecklist} {bundle : BackendPolicyBundle}
      {req : BrowserLaunchRequest} : c.permitsBrowsing = true →
      req = browserLaunchRequest s profile (gatewayConfig profile.spec.network) →
      bundle.assertSafe req.production = .ok () →
      Resumes cfg s profile reply e .runPreflight (.checklist (.ok c) (.ok bundle))
        (.await (e.setChecklist c) (.launch req bundle)
          (.launchCalled s req bundle :: preflightEvents s profile c))
  | preflightRefused {c : ConnectivityChecklist} {bundle : Result BackendPolicyBundle}
      {text : String} : c.permitsBrowsing = false →
      Resumes cfg s profile reply e .runPreflight (.checklist (.ok c) bundle)
        (.raise (e.setChecklist c) (.networkContainment text) (preflightEvents s profile c))
  | preflightUnsafe {c : ConnectivityChecklist} {bundle : Result BackendPolicyBundle}
      {err : Error} : c.permitsBrowsing = true →
      (bundle = .error err ∨ ∃ b, bundle = .ok b ∧ b.assertSafe true = .error err) →
      Resumes cfg s profile reply e .runPreflight (.checklist (.ok c) bundle)
        (.raise (e.setChecklist c) err (preflightEvents s profile c))
  | proxyReached {proxy : HostProxy} {bundle : BackendPolicyBundle} {req : BrowserLaunchRequest} :
      req = hostLaunchRequest s profile (cfg.hostUserDataDir profile) proxy →
      bundle.assertSafe req.production = .ok () →
      Resumes cfg s profile reply e (.proxyReachable proxy) (.reachable (.ok true) (.ok bundle))
        (.await (hostEntry cfg profile e) (.launch req bundle)
          (.launchCalled s req bundle :: probeEvents s profile proxy))
  | proxyUnreachable {proxy : HostProxy} {bundle : Result BackendPolicyBundle} {text : String} :
      Resumes cfg s profile reply e (.proxyReachable proxy) (.reachable (.ok false) bundle)
        (.raise e (.networkContainment text) [])
  | proxyUnsafe {proxy : HostProxy} {bundle : Result BackendPolicyBundle} {err : Error} :
      (bundle = .error err ∨ ∃ b, bundle = .ok b ∧ b.assertSafe true = .error err) →
      Resumes cfg s profile reply e (.proxyReachable proxy) (.reachable (.ok true) bundle)
        (.raise (hostEntry cfg profile e) err (probeEvents s profile proxy))
  | launched {req : BrowserLaunchRequest} {bundle : BackendPolicyBundle} {h : BrowserHandle} :
      Resumes cfg s profile reply e (.launch req bundle) (.launched (.ok h))
        (.await (e.setBrowserHandle h) (.isRunning h) [.launched s h])
  | browsing {h : BrowserHandle} : e.state.canTransitionTo .browsing = true →
      Resumes cfg s profile reply e (.isRunning h) (.running (.ok true))
        (.await { e with state := .browsing } .touchLaunch
          (browsingEvents s profile ++ stateEvents s e.profile .browsing))
  | browsingStopped {h : BrowserHandle} {text : String} :
      e.state.canTransitionTo .browsing = false →
      Resumes cfg s profile reply e (.isRunning h) (.running (.ok true))
        (.raise e (.internal text) [])
  | notRunning {h : BrowserHandle} {text : String} :
      Resumes cfg s profile reply e (.isRunning h) (.running (.ok false))
        (.raise e (.system text) [])
  | touched : Resumes cfg s profile reply e .touchLaunch .returned (.finish e (e.summary s) [])

section Resume

variable {profile : Profile} {reply : Option Gateway.Call} {e : SessionEntry}

theorem launchWith_cases (req : BrowserLaunchRequest) (bundle : Result BackendPolicyBundle)
    (e : SessionEntry) (events : List Event) :
    (∃ b, bundle = .ok b ∧ b.assertSafe req.production = .ok () ∧
      launchWith s req bundle e events =
        .await e (.launch req b) (.launchCalled s req b :: events)) ∨
    (∃ err, (bundle = .error err ∨ ∃ b, bundle = .ok b ∧ b.assertSafe req.production = .error err) ∧
      launchWith s req bundle e events = .raise e err events) := by
  unfold launchWith
  cases bundle with
  | error err => exact .inr ⟨err, .inl rfl, rfl⟩
  | ok b =>
    cases hb : b.assertSafe req.production with
    | error err => exact .inr ⟨err, .inr ⟨b, rfl, hb⟩, by simp [Flow.try, hb]⟩
    | ok u => exact .inl ⟨b, rfl, hb, by simp [Flow.try, hb]⟩

theorem enter_cases (next : SessionState) (e : SessionEntry) (events : List Event)
    (k : SessionEntry → List Event → Flow) :
    (e.state.canTransitionTo next = true ∧ Flow.enter s next e events k =
      k { e with state := next } (stateEvents s e.profile next ++ events)) ∨
    (e.state.canTransitionTo next = false ∧ ∃ text, Flow.enter s next e events k =
      .raise e (.internal text) events) := by
  unfold Flow.enter
  cases h : transition next e with
  | ok e' =>
    obtain ⟨hcan, rfl⟩ := transition_eq_ok.mp h
    exact .inl ⟨hcan, rfl⟩
  | error err =>
    obtain ⟨hcan, text, rfl⟩ := transition_error h
    exact .inr ⟨hcan, text, rfl⟩

theorem Drive.resume_cases {pc : Drive} {input : Input} {flow : Flow}
    (h : pc.resume cfg s profile reply e input = some flow) :
    Resumes cfg s profile reply e pc input flow := by
  unfold Drive.resume at h
  split at h
  next r inst =>
    cases h
    cases r with
    | error err => exact .callError nofun rfl
    | ok gw => exact .gatewayProvisioned
  next gw r inst =>
    cases h
    cases r with
    | error err => exact .callError nofun rfl
    | ok br =>
      simp only [Flow.try]
      rcases enter_cases .gatewayStarting (e.setVm .browser br) [.provisioned s .browser br]
        (fun e events => Flow.await e (.configure gw br) events) with
        ⟨hcan, hk⟩ | ⟨hcan, text, hk⟩
      · rw [hk]; exact .browserProvisioned hcan
      · rw [hk]; exact .browserStopped hcan
  next gw br =>
    split at h
    next _ r =>
      cases h
      cases r with
      | error err => exact .gatewayError rfl ⟨gw, br, .inl rfl⟩
      | ok u => exact .configured rfl
    · cases h
  next gw br =>
    split at h
    next _ r =>
      cases h
      cases r with
      | error err => exact .gatewayError rfl ⟨gw, br, .inr rfl⟩
      | ok u => exact .firewallApplied rfl
    · cases h
  next br r =>
    cases h
    cases r with
    | error err => exact .callError nofun rfl
    | ok u => exact .gatewayStarted
  next r =>
    cases h
    cases r with
    | error err => exact .callError nofun rfl
    | ok u =>
      simp only [Flow.try]
      rcases enter_cases .preflight e [] (fun e events => Flow.await e .runPreflight events) with
        ⟨hcan, hk⟩ | ⟨hcan, text, hk⟩
      · rw [hk]; exact .browserStarted hcan
      · rw [hk]; exact .startStopped hcan
  next r bundle =>
    cases h
    cases r with
    | error err => exact .callError nofun rfl
    | ok c =>
      simp only [Flow.try, afterPreflight]
      split_ifs with hc
      · exact .preflightRefused (by simpa using hc)
      · have hc : c.permitsBrowsing = true := by simpa using hc
        rcases launchWith_cases (s := s)
          (browserLaunchRequest s profile (gatewayConfig profile.spec.network)) bundle
          (e.setChecklist c) (preflightEvents s profile c) with ⟨b, rfl, hb, hk⟩ | ⟨err, hb, hk⟩
        · rw [hk]; exact .preflightPassed hc rfl hb
        · rw [hk]; exact .preflightUnsafe hc hb
  next proxy r bundle =>
    cases h
    cases r with
    | error err => exact .callError nofun rfl
    | ok reached =>
      simp only [Flow.try, afterProbe]
      cases reached with
      | false => exact .proxyUnreachable
      | true =>
        rcases launchWith_cases (s := s)
          (hostLaunchRequest s profile (cfg.hostUserDataDir profile) proxy) bundle
          (hostEntry cfg profile e) (probeEvents s profile proxy) with
          ⟨b, rfl, hb, hk⟩ | ⟨err, hb, hk⟩
        · simp only [Bool.not_true, Bool.false_eq_true, if_false, hk]
          exact .proxyReached rfl hb
        · simp only [Bool.not_true, Bool.false_eq_true, if_false, hk]
          exact .proxyUnsafe hb
  next req bundle r =>
    cases h
    cases r with
    | error err => exact .callError nofun rfl
    | ok h => exact .launched
  next handle r =>
    cases h
    cases r with
    | error err => exact .callError nofun rfl
    | ok running =>
      simp only [Flow.try, afterRunning]
      cases running with
      | false => exact .notRunning
      | true =>
        simp only [Bool.not_true, Bool.false_eq_true, if_false]
        rcases enter_cases .browsing e []
          (fun e events => Flow.await e .touchLaunch (browsingEvents s profile ++ events)) with
          ⟨hcan, hk⟩ | ⟨hcan, text, hk⟩
        · rw [hk]
          simp only [List.append_nil]
          exact .browsing hcan
        · rw [hk]; exact .browsingStopped hcan
  next => cases h; exact .touched
  · cases h

/-- A full-VM start always reaches its first call. -/
theorem driveStart_eq (p : ProfileId) (lease : ProfileLease) (key : SecretKey) (inst : InstanceId)
    (events : List Event) : driveStart cfg s inst (.requested p lease key) events =
      .await { SessionEntry.requested p lease key with state := .provisioning } .provisionGateway
        (.provisionCalled s (cfg.provisionRequest .gateway inst) ::
          (stateEvents s p .provisioning ++ events)) := rfl

/-- A host-process start reaches the probe of its proxy, or fails before any transition. -/
theorem driveStartHost_cases (cfg : Wiring) (s : SessionId) (profile : Profile) (p : ProfileId)
    (lease : ProfileLease) (key : SecretKey) (events : List Event) :
    (∃ err, driveStartHost cfg s profile (.requested p lease key) events =
      .raise (.requested p lease key) err events) ∨
    (∃ proxy, cfg.hostBackendFor profile.spec.browser = .ok () ∧
      cfg.hostProxyEndpoint profile.spec.network.mode = .ok proxy ∧
      driveStartHost cfg s profile (.requested p lease key) events =
        .await { SessionEntry.requested p lease key with state := .preflight }
          (.proxyReachable proxy)
          (stateEvents s p .preflight ++ (stateEvents s p .gatewayStarting ++
            (stateEvents s p .provisioning ++ events)))) := by
  unfold driveStartHost
  cases hb : cfg.hostBackendFor profile.spec.browser with
  | error err => exact .inl ⟨err, rfl⟩
  | ok u =>
    cases hp : cfg.hostProxyEndpoint profile.spec.network.mode with
    | error err => exact .inl ⟨err, rfl⟩
    | ok proxy => exact .inr ⟨proxy, rfl, rfl, rfl⟩

/-- How a start begins, in either mode, with the entry it registered. -/
inductive Starts (cfg : Wiring) (s : SessionId) (p : ProfileId) (profile : Profile)
    (lease : ProfileLease) (key : SecretKey) : Bool → Flow → Prop where
  | fullVm {inst : InstanceId} : Starts cfg s p profile lease key false
      (.await { SessionEntry.requested p lease key with state := .provisioning } .provisionGateway
        (.provisionCalled s (cfg.provisionRequest .gateway inst) ::
          (stateEvents s p .provisioning ++
          (stateEvents s p .requested ++ [.registered s profile]))))
  | hostRefused {err : Error} : Starts cfg s p profile lease key true
      (.raise (.requested p lease key) err (stateEvents s p .requested ++ [.registered s profile]))
  | hostProbe {proxy : HostProxy} : cfg.hostBackendFor profile.spec.browser = .ok () →
      cfg.hostProxyEndpoint profile.spec.network.mode = .ok proxy →
      Starts cfg s p profile lease key true
        (.await { SessionEntry.requested p lease key with state := .preflight }
          (.proxyReachable proxy)
          (stateEvents s p .preflight ++ (stateEvents s p .gatewayStarting ++
            (stateEvents s p .provisioning ++
              (stateEvents s p .requested ++ [.registered s profile])))))

theorem starts_cases (p : ProfileId) (lease : ProfileLease) (key : SecretKey) (inst : InstanceId)
    (host : Bool) : Starts cfg s p profile lease key host
      (if host then driveStartHost cfg s profile (.requested p lease key)
          (stateEvents s p .requested ++ [.registered s profile])
        else driveStart cfg s inst (.requested p lease key)
          (stateEvents s p .requested ++ [.registered s profile])) := by
  cases host with
  | false => exact .fullVm
  | true =>
    simp only [if_true]
    rcases driveStartHost_cases cfg s profile p lease key
      (stateEvents s p .requested ++ [.registered s profile]) with
      ⟨err, heq⟩ | ⟨proxy, hb, hp, heq⟩ <;> rw [heq]
    · exact .hostRefused
    · exact .hostProbe hb hp

end Resume

/-- The first call of a teardown is made where the teardown begins. -/
theorem beginTeardown_eq (cfg : Wiring) (s : SessionId) (ending : Ending) (e : SessionEntry)
    (events : List Event) : ∃ c cs, cleanupCalls cfg e = c :: cs ∧
      beginTeardown cfg s ending e events =
        ⟨{ e with browserHandle := none }, .teardown s (c :: cs) ending,
          .cleanup s c :: events⟩ := by
  cases h : cleanupCalls cfg e with
  | nil => simp [cleanupCalls] at h
  | cons c cs => exact ⟨c, cs, rfl, by simp [beginTeardown, h, teardown]⟩

/-- The pieces of session code a step can run, with what they leave. -/
inductive Runs (cfg : Wiring) (w : World) (t : TaskId) (s : SessionId) :
    Label → Segment → Prop where
  | start {p : ProfileId} {profile : Profile} {host : Bool} {lease : ProfileLease}
      {key : SecretKey} {flow : Flow} {input : Input} :
      w.tasks t = some (.acquireLock p profile host) → w.sessions s = none →
      w.lock.calls t = some (.acquired (.ok lease)) →
      Starts cfg s p profile lease key host flow →
      Runs cfg w t s (.resume t input) (settle cfg s profile flow)
  | drive {profile : Profile} {pc : Drive} {entry : SessionEntry} {input : Input} {flow : Flow} :
      w.tasks t = some (.drive s profile pc) → w.sessions s = some entry →
      pc.resume cfg s profile (w.gateway.calls t) entry input = some flow →
      Runs cfg w t s (.resume t input) (settle cfg s profile flow)
  | failClosed {err : Error} {entry : SessionEntry} {reply : Gateway.Reply} {input : Input} :
      w.tasks t = some (.failClosed s err) → w.sessions s = some entry →
      w.gateway.calls t = some (.done reply) →
      Runs cfg w t s (.resume t input)
        (beginTeardown cfg s (.failed err) entry (failClosedEvents s entry err))
  | teardown {c : Cleanup} {cs : List Cleanup} {ending : Ending} {entry : SessionEntry}
      {input : Input} :
      w.tasks t = some (.teardown s (c :: cs) ending) → w.sessions s = some entry →
      c.returned (w.lock.calls t) = true →
      Runs cfg w t s (.resume t input)
        (teardown s ending entry (destroyedEvents s entry c input) cs)
  | stop {entry entry' : SessionEntry} {events : List Event} :
      w.tasks t = none → w.sessions s = some entry →
      (transition .closing entry = .ok entry' ∧
          events = stateEvents s entry'.profile .closing ++ [.stopCalled s] ∨
        (∃ e, transition .closing entry = .error e) ∧ entry' = entry ∧ events = [.stopCalled s]) →
      Runs cfg w t s (.stopSession t s) (beginTeardown cfg s .stopped entry' events)

/-- The steps of a call that concern no session. -/
inductive Moves (w : World) (t : TaskId) : Label → Task → Prop where
  | startSession {p : ProfileId} : w.tasks t = none →
      Moves w t (.startSession t p) (.getProfile p)
  | unknown {s : SessionId} {e : Error} : w.tasks t = none → w.sessions s = none →
      Moves w t (.stopSession t s) (.done (.error e))
  | refused {p : ProfileId} {e : Error} {input : Input} : w.tasks t = some (.getProfile p) →
      Moves w t (.resume t input) (.done (.error e))
  | fetched {p : ProfileId} {profile : Profile} {host : Bool} {input : Input} :
      w.tasks t = some (.getProfile p) →
      (host = true ↔ profile.spec.isolation = .hostProcess) →
      Moves w t (.resume t input) (.acquireLock p profile host)
  | busy {p : ProfileId} {profile : Profile} {host : Bool} {e : Error} {input : Input} :
      w.tasks t = some (.acquireLock p profile host) →
      w.lock.calls t = some (.acquired (.error e)) → Moves w t (.resume t input) (.done (.error e))
  | noKey {p : ProfileId} {profile : Profile} {host : Bool} {lease : ProfileLease} {e : Error}
      {input : Input} : w.tasks t = some (.acquireLock p profile host) →
      w.lock.calls t = some (.acquired (.ok lease)) →
      Moves w t (.resume t input) (.releaseLock lease e)
  | released {lease : ProfileLease} {e : Error} {r : Result Unit} {input : Input} :
      w.tasks t = some (.releaseLock lease e) → w.lock.calls t = some (.released r) →
      Moves w t (.resume t input) (.done (.error e))

/-- The task a step lets run. -/
def Label.task : Label → Option TaskId
  | startSession t _ | stopSession t _ | resume t _ => some t
  | _ => none

/-- The session whose start a task runs. -/
def Task.starter : Task → Option SessionId
  | drive s _ _ | failClosed s _ | teardown s _ (.failed _) => some s
  | _ => none

/-- The session a task works on. -/
def Task.session : Task → Option SessionId
  | drive s _ _ | failClosed s _ | teardown s _ _ => some s
  | _ => none

/-- The session an event is about. -/
def Event.session : Event → Option SessionId
  | .registered s _ | .entered s _ | .provisionCalled s _ | .provisioned s _ _ | .configured s _
  | .firewallApplied s _ | .startCalled s _ | .proxyReached s _ | .launchCalled s _ _
  | .launched s _ | .engageCalled s | .stopCalled s | .cleanup s _ => some s
  | .audit _ => none

namespace World

/-- Beginning to wait changes the task and makes its call. -/
theorem setTask_cases {task : Task} (h : w.setTask t task = some w') :
    (∀ u, w'.sessions u = w.sessions u) ∧ w'.log = w.log ∧ w'.enforcement = w.enforcement ∧
    (∀ u, w'.tasks u = if u = t then some task else w.tasks u) ∧
    (match task.request with
      | .lock op => w.lock.step (op t) = some w'.lock
      | _ => w'.lock = w.lock) ∧
    (match task.request with
      | .gateway req => w.gateway.step (.begin t req) = some w'.gateway
      | _ => w'.gateway = w.gateway) := by
  unfold setTask at h
  cases hr : task.request with
  | none =>
    rw [hr] at h
    cases h
    exact ⟨fun _ => rfl, rfl, rfl, fun u => Function.update_apply .., rfl, rfl⟩
  | lock op =>
    rw [hr] at h
    obtain ⟨l, hl, rfl⟩ := Option.map_eq_some_iff.mp h
    exact ⟨fun _ => rfl, rfl, rfl, fun u => Function.update_apply .., hl, rfl⟩
  | gateway req =>
    rw [hr] at h
    obtain ⟨g, hg, rfl⟩ := Option.map_eq_some_iff.mp h
    exact ⟨fun _ => rfl, rfl, rfl, fun u => Function.update_apply .., rfl, hg⟩

/-- The effect of a piece of session code on the sessions, the tasks and the log. -/
theorem commit_cases {seg : Segment} (h : w.commit t s seg = some w') :
    (∀ u, w'.sessions u = if u = s then some seg.entry else w.sessions u) ∧
    (∀ u, w'.tasks u = if u = t then some seg.task else w.tasks u) ∧
    w'.log = seg.events ++ w.log ∧
    (match seg.task.request with
      | .lock op => w.lock.step (op t) = some w'.lock
      | _ => w'.lock = w.lock) ∧
    (match seg.task.request with
      | .gateway req => w.gateway.step (.begin t req) = some w'.gateway
      | _ => w'.gateway = w.gateway) := by
  obtain ⟨hs, hl, -, ht, hlock, hgw⟩ := setTask_cases h
  refine ⟨fun u => ?_, ht, hl, hlock, hgw⟩
  rw [hs]
  exact Function.update_apply ..

theorem hostMode_iff {enforcement : Enforcement} {profile : Profile} {host : Bool}
    (h : hostMode cfg enforcement profile = .ok host) :
    host = true ↔ profile.spec.isolation = .hostProcess := by
  unfold hostMode at h
  split at h
  next hi => cases h; simp [hi]
  next hi =>
    split_ifs at h
    split at h <;> cases h
    simp [hi]

theorem resume_cases {input : Input} (h : w.resume cfg t input = some w') :
    (∃ task, Moves w t (.resume t input) task ∧ w.setTask t task = some w') ∨
    (∃ s seg, Runs cfg w t s (.resume t input) seg ∧ w.commit t s seg = some w') := by
  unfold resume at h
  split at h
  next p r ht =>
    unfold fetched at h
    split at h
    next e => exact .inl ⟨_, .refused ht, h⟩
    next profile =>
      split at h
      next e _ => exact .inl ⟨_, .refused ht, h⟩
      next host hm => exact .inl ⟨_, .fetched ht (hostMode_iff hm), h⟩
  next p profile host s key inst ht =>
    split at h
    next lease hl =>
      unfold leased at h
      split at h
      next e => exact .inl ⟨_, .noKey ht hl, h⟩
      next key =>
        by_cases hs : w.sessions s = none
        · rw [if_pos hs] at h
          exact .inr ⟨s, _, .start ht hs hl (starts_cases ..), h⟩
        · rw [if_neg hs] at h
          cases h
    next e hl => exact .inl ⟨_, .busy ht hl, h⟩
    · cases h
  next l e ht =>
    split at h
    next r hl => exact .inl ⟨_, .released ht hl, h⟩
    · cases h
  next s profile pc ht =>
    split at h
    · cases h
    next entry hs =>
      split at h
      · cases h
      next flow hf => exact .inr ⟨s, _, .drive ht hs hf, h⟩
  next s e ht =>
    split at h
    next entry reply hs hg => exact .inr ⟨s, _, .failClosed ht hs hg, h⟩
    · cases h
  next s c cs ending ht =>
    split at h
    · cases h
    next entry hs =>
      split_ifs at h with hc
      exact .inr ⟨s, _, .teardown ht hs hc, h⟩
  · cases h

/-- A step changes the enforcement, advances the lock or the gateway, moves a call that concerns
no session, or runs a piece of session code. -/
theorem step_cases {l : Label} (h : w.step cfg l = some w') :
    (∃ e, l = .setEnforcement e ∧ w' = { w with enforcement := e }) ∨
    (∃ op k, l = .lock op ∧ internalLock op = true ∧ w.lock.step op = some k ∧
      w' = { w with lock := k }) ∨
    (∃ op g, l = .gateway op ∧ internalGateway op = true ∧ w.gateway.step op = some g ∧
      w' = { w with gateway := g }) ∨
    (∃ t task, Moves w t l task ∧ w.setTask t task = some w') ∨
    (∃ t s seg, Runs cfg w t s l seg ∧ w.commit t s seg = some w') := by
  cases l with
  | setEnforcement e => exact .inl ⟨e, rfl, (Option.some.inj h).symm⟩
  | lock op =>
    simp only [step] at h
    split_ifs at h with hop
    obtain ⟨k, hk, rfl⟩ := Option.map_eq_some_iff.mp h
    exact .inr (.inl ⟨op, k, rfl, hop, hk, rfl⟩)
  | gateway op =>
    simp only [step] at h
    split_ifs at h with hop
    obtain ⟨g, hg, rfl⟩ := Option.map_eq_some_iff.mp h
    exact .inr (.inr (.inl ⟨op, g, rfl, hop, hg, rfl⟩))
  | startSession t p =>
    simp only [step] at h
    split_ifs at h with ht
    exact .inr (.inr (.inr (.inl ⟨t, _, .startSession ht, h⟩)))
  | stopSession t s =>
    simp only [step] at h
    split_ifs at h with ht
    unfold stop at h
    split at h
    next hs => exact .inr (.inr (.inr (.inl ⟨t, _, .unknown ht hs, h⟩)))
    next entry hs =>
      split at h
      next entry' htr =>
        exact .inr (.inr (.inr (.inr ⟨t, s, _, .stop ht hs (.inl ⟨htr, rfl⟩), h⟩)))
      next e htr =>
        exact .inr (.inr (.inr (.inr ⟨t, s, _, .stop ht hs (.inr ⟨⟨e, htr⟩, rfl, rfl⟩), h⟩)))
  | resume t input =>
    exact .inr (.inr (.inr ((resume_cases h).imp (fun h => ⟨t, h⟩) fun h => ⟨t, h⟩)))

end World

theorem Moves.label {l : Label} {task : Task} (h : Moves w t l task) : l.task = some t := by
  cases h <;> rfl

theorem Runs.label {l : Label} {seg : Segment} (h : Runs cfg w t s l seg) : l.task = some t := by
  cases h <;> rfl

/-- A step changes no task but the one it lets run. -/
theorem World.step_tasks {l : Label} {u : TaskId} (h : w.step cfg l = some w')
    (hu : l.task ≠ some u) : w'.tasks u = w.tasks u := by
  rcases step_cases h with ⟨e, -, rfl⟩ | ⟨op, k, -, -, -, rfl⟩ | ⟨op, g, -, -, -, rfl⟩ |
    ⟨t, task, hm, hset⟩ | ⟨t, s, seg, hr, hc⟩
  · rfl
  · rfl
  · rfl
  · obtain ⟨-, -, -, htasks, -, -⟩ := setTask_cases hset
    rw [htasks, if_neg fun hut => hu (by rw [hm.label, hut])]
  · obtain ⟨-, htasks, -, -, -⟩ := commit_cases hc
    rw [htasks, if_neg fun hut => hu (by rw [hr.label, hut])]

theorem Moves.not_done {l : Label} {task : Task} {r : Result SessionSummary}
    (h : Moves w t l task) : w.tasks t ≠ some (.done r) := by
  cases h <;> simp_all

theorem Runs.not_done {l : Label} {seg : Segment} {r : Result SessionSummary}
    (h : Runs cfg w t s l seg) : w.tasks t ≠ some (.done r) := by
  cases h <;> simp_all

/-- A call that returned stays so. -/
theorem World.step_done {l : Label} {r : Result SessionSummary} (h : w.step cfg l = some w')
    (hd : w.tasks t = some (.done r)) : w'.tasks t = some (.done r) := by
  by_cases hl : l.task = some t
  · rcases step_cases h with ⟨e, rfl, -⟩ | ⟨op, k, rfl, -⟩ | ⟨op, g, rfl, -⟩ | ⟨u, task, hm, -⟩ |
      ⟨u, s, seg, hr, -⟩
    · cases hl
    · cases hl
    · cases hl
    · obtain rfl : u = t := Option.some.inj (hm.label.symm.trans hl)
      exact absurd hd hm.not_done
    · obtain rfl : u = t := Option.some.inj (hr.label.symm.trans hl)
      exact absurd hd hr.not_done
  · rw [step_tasks h hl]
    exact hd

/-! ## Tracking -/

def Flow.entry : Flow → SessionEntry
  | await e _ _ | raise e _ _ | finish e _ _ => e

def Flow.events : Flow → List Event
  | await _ _ evs | raise _ _ evs | finish _ _ evs => evs

/-- An event is about the session, or an audit record. -/
def Event.About (s : SessionId) (ev : Event) : Prop := ev.session = some s ∨ ev.session = none

attribute [local simp] Event.About Event.session

theorem Resumes.about {profile : Profile} {reply : Option Gateway.Call} {e : SessionEntry}
    {pc : Drive} {input : Input} {flow : Flow} (h : Resumes cfg s profile reply e pc input flow) :
    ∀ ev ∈ flow.events, ev.About s := by
  cases h <;> simp [Flow.events, stateEvents, preflightEvents, probeEvents]
  case browsing => unfold browsingEvents; cases profile.spec.isolation <;> simp

/-- What settling a flow adds: the call that engages the kill switch or begins the teardown. -/
theorem settle_cases (cfg : Wiring) (s : SessionId) (profile : Profile) (flow : Flow) :
    (∃ e next evs, flow = .await e next evs ∧
      settle cfg s profile flow = ⟨e, .drive s profile next, evs⟩) ∨
    (∃ e sum evs, flow = .finish e sum evs ∧
      settle cfg s profile flow = ⟨e, .done (.ok sum), evs⟩) ∨
    (∃ e err evs, flow = .raise e err evs ∧ err.requiresKillswitch = true ∧
      settle cfg s profile flow = ⟨e, .failClosed s err, .engageCalled s :: evs⟩) ∨
    (∃ e err evs c cs, flow = .raise e err evs ∧ err.requiresKillswitch = false ∧
      cleanupCalls cfg e = c :: cs ∧
      settle cfg s profile flow =
        ⟨{ e with browserHandle := none }, .teardown s (c :: cs) (.failed err),
          .cleanup s c :: evs⟩) := by
  cases flow with
  | await e next evs => exact .inl ⟨e, next, evs, rfl, rfl⟩
  | finish e sum evs => exact .inr (.inl ⟨e, sum, evs, rfl, rfl⟩)
  | raise e err evs =>
    cases herr : err.requiresKillswitch with
    | true => exact .inr (.inr (.inl ⟨e, err, evs, rfl, herr, by simp [settle, herr]⟩))
    | false =>
      obtain ⟨c, cs, hc, heq⟩ := beginTeardown_eq cfg s (.failed err) e evs
      exact .inr (.inr (.inr ⟨e, err, evs, c, cs, rfl, herr, hc, by simp [settle, herr, heq]⟩))

/-- A start goes on where its flow awaits a call. -/
theorem settle_drive {u : SessionId} {profile q : Profile} {flow : Flow} {pc : Drive}
    (h : (settle cfg s profile flow).task = .drive u q pc) :
    u = s ∧ q = profile ∧ ∃ e evs, flow = .await e pc evs ∧
      settle cfg s profile flow = ⟨e, .drive s profile pc, evs⟩ := by
  rcases settle_cases cfg s profile flow with ⟨e, next, evs, rfl, heq⟩ | ⟨e, sum, evs, rfl, heq⟩ |
    ⟨e, err, evs, rfl, -, heq⟩ | ⟨e, err, evs, c, cs, rfl, -, -, heq⟩ <;> rw [heq] at h <;> cases h
  exact ⟨rfl, rfl, e, evs, rfl, heq⟩

/-- A start fails closed where its flow raises an error that requires it. -/
theorem settle_failClosed {u : SessionId} {profile : Profile} {flow : Flow} {err : Error}
    (h : (settle cfg s profile flow).task = .failClosed u err) :
    err.requiresKillswitch = true ∧ ∃ e evs, flow = .raise e err evs := by
  rcases settle_cases cfg s profile flow with ⟨e, next, evs, rfl, heq⟩ | ⟨e, sum, evs, rfl, heq⟩ |
    ⟨e, err, evs, rfl, hks, heq⟩ | ⟨e, err, evs, c, cs, rfl, -, -, heq⟩ <;> rw [heq] at h <;>
    cases h
  exact ⟨hks, e, evs, rfl⟩

/-- A start tears down at once where its flow raises another error. -/
theorem settle_teardown {u : SessionId} {profile : Profile} {flow : Flow} {cs : List Cleanup}
    {ending : Ending} (h : (settle cfg s profile flow).task = .teardown u cs ending) :
    ∃ e err evs, flow = .raise e err evs ∧ err.requiresKillswitch = false ∧
      ending = .failed err ∧ settle cfg s profile flow = beginTeardown cfg s ending e evs := by
  rcases settle_cases cfg s profile flow with ⟨e, next, evs, rfl, heq⟩ | ⟨e, sum, evs, rfl, heq⟩ |
    ⟨e, err, evs, rfl, -, heq⟩ | ⟨e, err, evs, c, cs, rfl, hno, -, heq⟩ <;> rw [heq] at h <;>
    cases h
  exact ⟨e, err, evs, rfl, hno, rfl, by simp [settle, hno]⟩

@[simp] theorem beginTeardown_task (ending : Ending) (e : SessionEntry) (evs : List Event) :
    (beginTeardown cfg s ending e evs).task = .teardown s (cleanupCalls cfg e) ending := by
  obtain ⟨c, cs, hcs, heq⟩ := beginTeardown_eq cfg s ending e evs
  rw [heq, hcs]

@[simp] theorem beginTeardown_entry (ending : Ending) (e : SessionEntry) (evs : List Event) :
    (beginTeardown cfg s ending e evs).entry = { e with browserHandle := none } := by
  obtain ⟨c, cs, -, heq⟩ := beginTeardown_eq cfg s ending e evs
  rw [heq]

/-- A teardown that begins records its first call only. -/
theorem mem_beginTeardown {ending : Ending} {e : SessionEntry} {evs : List Event} {ev : Event}
    (h : ev ∈ (beginTeardown cfg s ending e evs).events) :
    ev ∈ evs ∨ ∃ c, ev = .cleanup s c := by
  obtain ⟨c, cs, -, heq⟩ := beginTeardown_eq cfg s ending e evs
  rw [heq] at h
  rcases List.mem_cons.mp h with rfl | h
  · exact .inr ⟨c, rfl⟩
  · exact .inl h

/-- Settling a flow records the call that engages the kill switch, or that begins a teardown. -/
theorem mem_settle {profile : Profile} {flow : Flow} {ev : Event}
    (h : ev ∈ (settle cfg s profile flow).events) :
    ev ∈ flow.events ∨ ev = .engageCalled s ∨ ∃ c, ev = .cleanup s c := by
  rcases settle_cases cfg s profile flow with ⟨e, next, evs, rfl, heq⟩ | ⟨e, sum, evs, rfl, heq⟩ |
    ⟨e, err, evs, rfl, -, heq⟩ | ⟨e, err, evs, c, cs, rfl, -, -, heq⟩ <;> rw [heq] at h
  · exact .inl h
  · exact .inl h
  · exact (List.mem_cons.mp h).elim (fun he => .inr (.inl he)) .inl
  · exact (List.mem_cons.mp h).elim (fun he => .inr (.inr ⟨c, he⟩)) .inl

theorem settle_about {profile : Profile} {flow : Flow} (h : ∀ ev ∈ flow.events, ev.About s) :
    ∀ ev ∈ (settle cfg s profile flow).events, ev.About s := by
  intro ev hev
  rcases mem_settle hev with hev | rfl | ⟨c, rfl⟩
  · exact h ev hev
  · exact .inl rfl
  · exact .inl rfl

theorem beginTeardown_about {ending : Ending} {e : SessionEntry} {evs : List Event}
    (h : ∀ ev ∈ evs, ev.About s) :
    ∀ ev ∈ (beginTeardown cfg s ending e evs).events, ev.About s := by
  intro ev hev
  rcases mem_beginTeardown hev with hev | ⟨c, rfl⟩
  · exact h ev hev
  · exact .inl rfl

theorem Task.session_of_starter {task : Task} (h : task.starter = some s) :
    task.session = some s := by
  cases task with
  | teardown u cs ending => cases ending <;> simp_all [Task.starter, Task.session]
  | _ => simp_all [Task.starter, Task.session]

theorem Moves.session {l : Label} {task : Task} (h : Moves w t l task) : task.session = none := by
  cases h <;> rfl

theorem Moves.task_before {l : Label} {task a : Task} (h : Moves w t l task)
    (ha : w.tasks t = some a) : a.session = none := by
  cases h with
  | startSession ht | unknown ht => rw [ht] at ha; cases ha
  | refused ht | fetched ht | busy ht | noKey ht | released ht => rw [ht] at ha; cases ha; rfl

/-- Session code goes on working on its session, or the call is done. -/
theorem Runs.task_kind {l : Label} {seg : Segment} (h : Runs cfg w t s l seg) :
    seg.task.session = some s ∨ ∃ r, seg.task = .done r := by
  have hsettle (profile : Profile) (flow : Flow) :
      (settle cfg s profile flow).task.session = some s ∨
        ∃ r, (settle cfg s profile flow).task = .done r := by
    rcases settle_cases cfg s profile flow with ⟨e, next, evs, rfl, heq⟩ |
      ⟨e, sum, evs, rfl, heq⟩ | ⟨e, err, evs, rfl, -, heq⟩ |
      ⟨e, err, evs, c, cs, rfl, -, -, heq⟩ <;> rw [heq] <;> simp [Task.session]
  cases h with
  | start _ _ _ _ => exact hsettle _ _
  | drive _ _ _ => exact hsettle _ _
  | failClosed _ _ _ => exact .inl (by rw [beginTeardown_task]; rfl)
  | @teardown c cs _ _ _ _ _ _ => cases cs <;> simp [Orchestrator.teardown, Task.session]
  | stop _ _ _ => exact .inl (by rw [beginTeardown_task]; rfl)

/-- Session code stays with its session. -/
theorem Runs.task_session {l : Label} {seg : Segment} {u : SessionId} (h : Runs cfg w t s l seg)
    (hu : seg.task.session = some u) : u = s := by
  rcases h.task_kind with hs | ⟨r, hr⟩
  · rw [hu] at hs
    exact Option.some.inj hs
  · rw [hr] at hu
    cases hu

/-- The task that runs session code was free, was acquiring the lease, or works on the session. -/
theorem Runs.task_before {l : Label} {seg : Segment} (h : Runs cfg w t s l seg) :
    w.tasks t = none ∨
      ∃ a, w.tasks t = some a ∧ (a.session = none ∨ a.session = some s) := by
  cases h with
  | start ht _ _ _ => exact .inr ⟨_, ht, .inl rfl⟩
  | drive ht _ _ => exact .inr ⟨_, ht, .inr rfl⟩
  | failClosed ht _ _ => exact .inr ⟨_, ht, .inr rfl⟩
  | teardown ht _ _ => exact .inr ⟨_, ht, .inr rfl⟩
  | stop ht _ _ => exact .inl ht

/-- A start stays with its task. -/
theorem Runs.task_starter {l : Label} {seg : Segment} {u : SessionId} (h : Runs cfg w t s l seg)
    (hu : seg.task.starter = some u) :
    u = s ∧ (w.sessions s = none ∨ ∃ a, w.tasks t = some a ∧ a.starter = some s) := by
  refine ⟨h.task_session (Task.session_of_starter hu), ?_⟩
  cases h with
  | start _ hs _ _ => exact .inl hs
  | drive ht _ _ => exact .inr ⟨_, ht, rfl⟩
  | failClosed ht _ _ => exact .inr ⟨_, ht, rfl⟩
  | @teardown c cs ending _ _ ht _ _ =>
    refine .inr ⟨_, ht, ?_⟩
    cases cs <;> cases ending <;> simp_all [Orchestrator.teardown, Task.starter]
  | stop _ _ _ =>
    rw [beginTeardown_task] at hu
    cases hu

theorem Runs.about {l : Label} {seg : Segment} (h : Runs cfg w t s l seg) :
    ∀ ev ∈ seg.events, ev.About s := by
  cases h with
  | start _ _ _ hstart =>
    refine settle_about ?_
    cases hstart <;> simp [Flow.events, stateEvents]
  | drive _ _ hf => exact settle_about (Drive.resume_cases hf).about
  | failClosed _ _ _ => exact beginTeardown_about (by simp [failClosedEvents])
  | @teardown c cs ending e input _ _ _ =>
    cases cs <;> simp only [Orchestrator.teardown, destroyedEvents] <;> split <;> simp
  | stop _ _ hev =>
    refine beginTeardown_about ?_
    rcases hev with ⟨-, rfl⟩ | ⟨-, -, rfl⟩ <;> simp [stateEvents]

namespace World

/-- What a step records about a session is recorded by a piece of its session code. -/
theorem step_log {l : Label} {ev : Event} (h : w.step cfg l = some w') (hmem : ev ∈ w'.log)
    (hs : ev.session = some s) :
    ev ∈ w.log ∨ ∃ t seg, Runs cfg w t s l seg ∧ w.commit t s seg = some w' ∧ ev ∈ seg.events := by
  rcases step_cases h with ⟨e, -, rfl⟩ | ⟨op, k, -, -, -, rfl⟩ | ⟨op, g, -, -, -, rfl⟩ |
    ⟨t, task, -, hset⟩ | ⟨t, u, seg, hr, hc⟩
  · exact .inl hmem
  · exact .inl hmem
  · exact .inl hmem
  · obtain ⟨-, hlog, -, -, -, -⟩ := setTask_cases hset
    exact .inl (hlog ▸ hmem)
  · obtain ⟨-, -, hlog, -, -⟩ := commit_cases hc
    rw [hlog, List.mem_append] at hmem
    refine hmem.symm.imp_right fun hev => ?_
    obtain rfl : s = u := by
      rcases hr.about ev hev with he | he <;> rw [hs] at he <;> cases he
      rfl
    exact ⟨t, seg, hr, hc, hev⟩

/-- The log only grows. -/
theorem step_log_mono {l : Label} (h : w.step cfg l = some w') : w.log ⊆ w'.log := by
  rcases step_cases h with ⟨e, -, rfl⟩ | ⟨op, k, -, -, -, rfl⟩ | ⟨op, g, -, -, -, rfl⟩ |
    ⟨t, task, -, hset⟩ | ⟨t, u, seg, -, hc⟩
  · exact List.Subset.refl _
  · exact List.Subset.refl _
  · exact List.Subset.refl _
  · obtain ⟨-, hlog, -, -, -, -⟩ := setTask_cases hset
    rw [hlog]
    exact List.Subset.refl _
  · obtain ⟨-, -, hlog, -, -⟩ := commit_cases hc
    rw [hlog]
    exact List.subset_append_right ..

/-- A step lets no task go on but the one it resumes. -/
theorem step_waits {l : Label} {a : Task} (h : w.step cfg l = some w') (ha : w.tasks t = some a) :
    w'.tasks t = some a ∨ ∃ input, l = .resume t input := by
  by_cases hl : l.task = some t
  · right
    cases l with
    | resume u input =>
      cases hl
      exact ⟨input, rfl⟩
    | startSession u p =>
      cases hl
      simp [step, ha] at h
    | stopSession u k =>
      cases hl
      simp [step, ha] at h
    | _ => cases hl
  · left
    rw [step_tasks h hl]
    exact ha

/-- A start takes the lock for the profile it fetched, in the mode the enforcement allows. -/
theorem step_fetched {l : Label} {p q : ProfileId} {profile : Profile} {host : Bool}
    (hs : w.step cfg l = some w') (ht : w.tasks t = some (.getProfile p))
    (ht' : w'.tasks t = some (.acquireLock q profile host)) :
    l = .resume t (.profile (.ok profile)) ∧ q = p ∧
      hostMode cfg w.enforcement profile = .ok host := by
  obtain ⟨input, rfl⟩ : ∃ input, l = .resume t input := by
    rcases step_waits hs ht with hwaits | hresume
    · rw [ht'] at hwaits
      cases hwaits
    · exact hresume
  have htasks {task : Task} (h : w.setTask t task = some w') : w'.tasks t = some task := by
    obtain ⟨-, -, -, htasks, -⟩ := setTask_cases h
    rw [htasks, if_pos rfl]
  cases input with
  | profile r =>
    simp only [step, resume, ht, fetched] at hs
    cases r with
    | error e =>
      rw [htasks hs] at ht'
      cases ht'
    | ok fetched =>
      cases hm : hostMode cfg w.enforcement fetched with
      | error e =>
        simp only [hm] at hs
        rw [htasks hs] at ht'
        cases ht'
      | ok host' =>
        simp only [hm] at hs
        rw [htasks hs] at ht'
        cases ht'
        exact ⟨rfl, rfl, hm⟩
  | _ =>
    simp only [step, resume, ht] at hs
    cases hs

/-- Every session a call works on or the log mentions has an entry, and one call starts it. -/
structure Tracked (w : World) : Prop where
  task : ∀ t a s, w.tasks t = some a → a.session = some s → w.sessions s ≠ none
  event : ∀ ev ∈ w.log, ∀ s, ev.session = some s → w.sessions s ≠ none
  starter : ∀ t u a b s, w.tasks t = some a → w.tasks u = some b → a.starter = some s →
    b.starter = some s → t = u

theorem Initial.tracked (h : Initial w) : w.Tracked where
  task t a s ha := by simp [h.tasks] at ha
  event ev hev := by simp [h.log] at hev
  starter t u a b s ha := by simp [h.tasks] at ha

theorem Tracked.step {l : Label} (h : w.Tracked) (hs : w.step cfg l = some w') : w'.Tracked := by
  rcases step_cases hs with ⟨e, -, rfl⟩ | ⟨op, k, -, -, -, rfl⟩ | ⟨op, g, -, -, -, rfl⟩ |
    ⟨t, task, hm, hset⟩ | ⟨t, s, seg, hr, hc⟩
  · exact ⟨h.task, h.event, h.starter⟩
  · exact ⟨h.task, h.event, h.starter⟩
  · exact ⟨h.task, h.event, h.starter⟩
  · obtain ⟨hsess, hlog, -, htasks, -, -⟩ := setTask_cases hset
    have hnone := hm.session
    constructor
    case task => grind [h.task]
    case event => grind [h.event]
    case starter => grind [h.starter, Task.session_of_starter]
  · obtain ⟨hsess, htasks, hlog, -, -⟩ := commit_cases hc
    have hsession := fun u => hr.task_session (u := u)
    have hstarter := fun u => hr.task_starter (u := u)
    constructor
    case task => grind [h.task]
    case event =>
      intro ev hev k hk
      rw [hlog, List.mem_append] at hev
      rcases hev with hev | hev
      · rcases hr.about ev hev with he | he
        · grind
        · rw [he] at hk; cases hk
      · have := h.event ev hev k hk
        grind
    case starter => grind [h.starter, h.task, Task.session_of_starter]

end World

theorem tracked_of_reach
    (hr : Transition.Reach (World.step cfg) World.Initial Transition.anyStep w) : w.Tracked :=
  hr.invariant (fun _ h => h.tracked) fun _ _ _ _ h _ hs => h.step hs

end Aegis.Orchestrator
