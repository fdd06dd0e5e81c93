import Aegis.Orchestrator.Gate

/-! How a browser comes and goes: a start launches once, and whatever it launched can be
terminated. -/
namespace Aegis.Orchestrator
open Transition

variable {cfg : Wiring} {w w' : World} {t : TaskId} {s : SessionId}

/-- The step of a start that calls `launch`, or that learns that it returned a browser. -/
def Drive.Launches : Drive → Input → Prop
  | runPreflight, .checklist (.ok c) (.ok bundle) =>
    c.permitsBrowsing = true ∧ bundle.assertSafe true = .ok ()
  | proxyReachable _, .reachable (.ok true) (.ok bundle) => bundle.assertSafe true = .ok ()
  | launch _ _, .launched (.ok _) => True
  | _, _ => False

/-- The start of a session has not seen its launch return. -/
def Drive.AwaitsLaunch : Drive → Prop
  | isRunning _ | touchLaunch => False
  | _ => True

/-- The backend that launched a browser of this mode is there to terminate it. -/
def SessionMode.Wired (cfg : Wiring) : SessionMode → Prop
  | fullVm => True
  | hostProcess _ _ engine => cfg.hostBackendFor engine = .ok ()

/-- A start that awaits its launch has launched nothing, and the backend of every session is
there. -/
structure Launching (cfg : Wiring) (w : World) : Prop where
  awaits : ∀ t s profile pc, w.tasks t = some (.drive s profile pc) → pc.AwaitsLaunch →
    ∀ h, .launched s h ∉ w.log
  wired : ∀ s e, w.sessions s = some e → e.mode.Wired cfg
  probing : ∀ t s profile proxy, w.tasks t = some (.drive s profile (.proxyReachable proxy)) →
    cfg.hostBackendFor profile.spec.browser = .ok ()

/-! ### What a part of a start does to the browser -/

section Resume

variable {profile : Profile} {reply : Option Gateway.Call} {e : SessionEntry} {pc : Drive}
  {input : Input} {flow : Flow}

/-- Only the return of `launch` sets the handle. -/
theorem Resumes.launching (h : Resumes cfg s profile reply e pc input flow) :
    (∃ req bundle handle, pc = .launch req bundle ∧ input = .launched (.ok handle) ∧
      flow = .await (e.setBrowserHandle handle) (.isRunning handle) [.launched s handle]) ∨
    flow.entry.browserHandle = e.browserHandle ∧ (∀ k, .launched s k ∉ flow.events) ∧
      ∀ e' next evs, flow = .await e' next evs → next.AwaitsLaunch → pc.AwaitsLaunch := by
  cases h
  case launched => exact .inl ⟨_, _, _, rfl, rfl, rfl⟩
  all_goals refine .inr ⟨rfl, ?_, ?_⟩
  all_goals simp [Flow.events, stateEvents, preflightEvents, probeEvents, Drive.AwaitsLaunch]
  case browsing.refine_1 => unfold browsingEvents; cases profile.spec.isolation <;> simp

/-- A start calls `launch` only where it says so. -/
theorem Resumes.launches (h : Resumes cfg s profile reply e pc input flow)
    {req : BrowserLaunchRequest} {bundle : BackendPolicyBundle}
    (hl : .launchCalled s req bundle ∈ flow.events) : pc.Launches input := by
  cases h <;> simp [Flow.events, stateEvents, preflightEvents, probeEvents] at hl
  case preflightPassed hc hreq hsafe => subst hreq; exact ⟨hc, hsafe⟩
  case proxyReached hreq hsafe => subst hreq; exact hsafe
  case browsing => unfold browsingEvents at hl; split at hl <;> simp at hl

/-- A part of a start does not revive a session that has ended. -/
theorem Resumes.not_ended (h : Resumes cfg s profile reply e pc input flow)
    (hf : ¬ flow.entry.state.Ended) : ¬ e.state.Ended := by
  intro he
  cases h <;> first
    | exact hf he
    | exact hf (he.next (by assumption))

theorem Resumes.wired (h : Resumes cfg s profile reply e pc input flow) (he : e.mode.Wired cfg)
    (hp : ∀ proxy, pc = .proxyReachable proxy → cfg.hostBackendFor profile.spec.browser = .ok ()) :
    flow.entry.mode.Wired cfg := by
  cases h
  case proxyReached => exact hp _ rfl
  case proxyUnsafe => exact hp _ rfl
  all_goals exact he

theorem Resumes.not_probing (h : Resumes cfg s profile reply e pc input flow) {e' : SessionEntry}
    {proxy : HostProxy} {evs : List Event} : flow ≠ .await e' (.proxyReachable proxy) evs := by
  cases h <;> simp

end Resume

/-- A teardown that takes a handle terminates its browser first. -/
theorem cleanupCalls_of_handle {e : SessionEntry} {h : BrowserHandle}
    (hh : e.browserHandle = some h) (hw : e.mode.Wired cfg) :
    ∃ cs, cleanupCalls cfg e = .terminate h :: cs := by
  unfold cleanupCalls
  rw [hh]
  cases hm : e.mode with
  | fullVm => exact ⟨_, rfl⟩
  | hostProcess dir eph engine =>
    have hb : cfg.hostBackendFor engine = .ok () := by rw [hm] at hw; exact hw
    simp [hb]

theorem terminate_mem_beginTeardown {ending : Ending} {e : SessionEntry} {h : BrowserHandle}
    {evs : List Event} (hh : e.browserHandle = some h) (hw : e.mode.Wired cfg) :
    .cleanup s (.terminate h) ∈ (beginTeardown cfg s ending e evs).events := by
  obtain ⟨cs, hcs⟩ := cleanupCalls_of_handle hh hw
  simp [beginTeardown, hcs, teardown]

theorem settle_entry (profile : Profile) (flow : Flow) :
    (settle cfg s profile flow).entry.state = flow.entry.state ∧
      (settle cfg s profile flow).entry.mode = flow.entry.mode := by
  rcases settle_cases cfg s profile flow with ⟨e, next, evs, rfl, heq⟩ | ⟨e, sum, evs, rfl, heq⟩ |
    ⟨e, err, evs, rfl, -, heq⟩ | ⟨e, err, evs, c, cs, rfl, -, -, heq⟩ <;> rw [heq] <;>
    exact ⟨rfl, rfl⟩

/-- The events of a session that only its start records, after its first call. -/
def Event.OfDrive (s : SessionId) : Event → Prop
  | .provisioned u _ _ | .configured u _ | .firewallApplied u _ | .startCalled u _
  | .proxyReached u _ | .launchCalled u _ _ | .launched u _ => u = s
  | _ => False

/-- Settling a flow adds no event of the start. -/
theorem settle_ofDrive {profile : Profile} {flow : Flow} (ev : Event) (hev : ev.OfDrive s) :
    ev ∈ (settle cfg s profile flow).events ↔ ev ∈ flow.events := by
  refine ⟨fun hmem => ?_, fun hmem => ?_⟩
  · rcases mem_settle hmem with hmem | rfl | ⟨c, rfl⟩
    · exact hmem
    · cases hev
    · cases hev
  · rcases settle_cases cfg s profile flow with ⟨e, next, evs, rfl, heq⟩ |
      ⟨e, sum, evs, rfl, heq⟩ | ⟨e, err, evs, rfl, -, heq⟩ |
      ⟨e, err, evs, c, cs, rfl, -, -, heq⟩ <;> rw [heq]
    · exact hmem
    · exact hmem
    · exact List.mem_cons_of_mem _ hmem
    · exact List.mem_cons_of_mem _ hmem

theorem not_ofDrive_beginTeardown {ending : Ending} {e : SessionEntry} {evs : List Event}
    {ev : Event} (hev : ev.OfDrive s) (hno : ev ∉ evs) :
    ev ∉ (beginTeardown cfg s ending e evs).events := by
  intro hmem
  rcases mem_beginTeardown hmem with hmem | ⟨c, rfl⟩
  · exact hno hmem
  · cases hev

/-- What only a start records is recorded by a part of a start. -/
theorem Runs.of_drive {l : Label} {seg : Segment} (h : Runs cfg w t s l seg) (ev : Event)
    (hev : ev.OfDrive s) (hmem : ev ∈ seg.events) :
    ∃ profile pc e input flow, l = .resume t input ∧ w.tasks t = some (.drive s profile pc) ∧
      w.sessions s = some e ∧ Resumes cfg s profile (w.gateway.calls t) e pc input flow ∧
      seg = settle cfg s profile flow ∧ ev ∈ flow.events := by
  cases h with
  | start _ _ _ hstart =>
    rw [settle_ofDrive ev hev] at hmem
    cases hstart <;> simp only [Flow.events, stateEvents] at hmem <;>
      cases ev <;> simp_all [Event.OfDrive]
  | @drive profile pc e input flow ht hs hf =>
    exact ⟨profile, pc, e, input, flow, rfl, ht, hs, Drive.resume_cases hf, rfl,
      (settle_ofDrive ev hev).mp hmem⟩
  | failClosed _ _ _ =>
    refine absurd hmem (not_ofDrive_beginTeardown hev fun he => ?_)
    simp only [failClosedEvents, List.mem_cons, List.not_mem_nil, or_false] at he
    rcases he with rfl | rfl <;> exact hev
  | @teardown c cs ending e input _ _ _ =>
    cases cs <;> simp only [Orchestrator.teardown, destroyedEvents] at hmem <;>
      split at hmem <;> cases ev <;> simp_all [Event.OfDrive]
  | stop _ _ hcases =>
    refine absurd hmem (not_ofDrive_beginTeardown hev fun he => ?_)
    rcases hcases with ⟨-, rfl⟩ | ⟨-, -, rfl⟩ <;> cases ev <;>
      simp_all [stateEvents, Event.OfDrive]

/-- A stop leaves an entry that has ended and refers to what it did. -/
theorem stop_entry {e e' : SessionEntry} {evs : List Event}
    (h : transition .closing e = .ok e' ∧
        evs = stateEvents s e'.profile .closing ++ [.stopCalled s] ∨
      (∃ err, transition .closing e = .error err) ∧ e' = e ∧ evs = [.stopCalled s]) :
    e'.state.Ended ∧ e' = { e with state := e'.state } ∧
      ∀ ev ∈ evs, ev = .stopCalled s ∨ ev = .entered s .closing ∨ ∃ r, ev = .audit r := by
  rcases h with ⟨htr, rfl⟩ | ⟨⟨err, htr⟩, rfl, rfl⟩
  · obtain ⟨-, rfl⟩ := transition_eq_ok.mp htr
    exact ⟨.inl rfl, rfl, by simp [stateEvents]⟩
  · refine ⟨?_, rfl, by simp⟩
    rcases e'.state.closing_or_ended with hcan | hended
    · rw [(transition_error htr).1] at hcan
      cases hcan
    · exact hended

/-- Session code does not revive a session that has ended. -/
theorem Runs.ended {l : Label} {seg : Segment} {e : SessionEntry} (h : Runs cfg w t s l seg)
    (hs : w.sessions s = some e) (hend : e.state.Ended) : seg.entry.state.Ended := by
  cases h with
  | start _ hs' _ _ => rw [hs] at hs'; cases hs'
  | @drive profile pc e' input flow _ hs' hf =>
    rw [hs] at hs'
    cases hs'
    rw [(settle_entry profile flow).1]
    by_contra hno
    exact (Drive.resume_cases hf).not_ended hno hend
  | @failClosed err e' _ _ _ hs' _ =>
    rw [hs] at hs'
    cases hs'
    rw [beginTeardown_entry]
    exact hend
  | @teardown c cs ending e' input _ hs' _ =>
    rw [hs] at hs'
    cases hs'
    cases cs with
    | nil => cases ending <;> simp [Orchestrator.teardown, SessionEntry.cleared, Ending.state,
        SessionState.Ended]
    | cons d ds => exact hend
  | @stop e' e'' evs _ _ hcases =>
    rw [beginTeardown_entry]
    exact (stop_entry hcases).1

/-- The launch of a browser returns to the start that waits for it. -/
theorem Runs.launched {l : Label} {seg : Segment} {k : BrowserHandle} (h : Runs cfg w t s l seg)
    (hmem : .launched s k ∈ seg.events) :
    ∃ profile req bundle e, l = .resume t (.launched (.ok k)) ∧
      w.tasks t = some (.drive s profile (.launch req bundle)) ∧ w.sessions s = some e ∧
      seg = ⟨e.setBrowserHandle k, .drive s profile (.isRunning k), [.launched s k]⟩ := by
  obtain ⟨profile, pc, e, input, flow, rfl, ht, hs, hres, rfl, hev⟩ :=
    h.of_drive (.launched s k) rfl hmem
  rcases hres.launching with ⟨req, bundle, handle, rfl, rfl, rfl⟩ | ⟨-, hno, -⟩
  · obtain rfl : k = handle := by simpa [Flow.events] using hev
    exact ⟨profile, req, bundle, e, rfl, ht, hs, rfl⟩
  · exact absurd hev (hno k)

/-! ### The invariant -/

section Runs

variable {l : Label} {seg : Segment}

theorem Launching.runs_wired (h : Launching cfg w) (hr : Runs cfg w t s l seg) :
    seg.entry.mode.Wired cfg := by
  rcases hr.cases with ⟨p, profile, host, lease, key, flow, -, -, hstart, rfl⟩ |
    ⟨profile, pc, e, input, flow, hd, hs, hres, rfl⟩ | ⟨e, hs, hclose⟩
  · rw [(settle_entry profile flow).2]
    cases hstart <;> trivial
  · rw [(settle_entry profile flow).2]
    refine hres.wired (h.wired s e hs) ?_
    rintro proxy rfl
    exact h.probing t s profile proxy hd
  · rw [hclose.mode]
    exact h.wired s e hs

theorem Launching.runs_probing {profile : Profile} {proxy : HostProxy}
    (hr : Runs cfg w t s l seg) (htask : seg.task = .drive s profile (.proxyReachable proxy)) :
    cfg.hostBackendFor profile.spec.browser = .ok () := by
  rcases hr.cases with ⟨p, q, host, lease, key, flow, -, -, hstart, rfl⟩ |
    ⟨q, pc, e, input, flow, -, -, hres, rfl⟩ | ⟨e, -, hclose⟩
  · obtain ⟨-, rfl, e, evs, rfl, -⟩ := settle_drive htask
    cases hstart
    assumption
  · obtain ⟨-, rfl, e', evs, rfl, -⟩ := settle_drive htask
    exact absurd rfl hres.not_probing
  · exact absurd htask (hclose.task _ _)

/-- A start that still awaits its launch has launched nothing. -/
theorem Launching.runs_awaits {profile : Profile} {pc : Drive} (h : Launching cfg w)
    (ht : w.Tracked) (hr : Runs cfg w t s l seg) (htask : seg.task = .drive s profile pc)
    (hpc : pc.AwaitsLaunch) (k : BrowserHandle) : .launched s k ∉ seg.events ++ w.log := by
  have hevents : .launched s k ∉ seg.events := fun hmem => by
    obtain ⟨q, req, bundle, e, -, -, -, rfl⟩ := hr.launched hmem
    cases htask
    exact hpc
  have hlog : .launched s k ∉ w.log := by
    rcases hr.cases with ⟨p, q, host, lease, key, flow, hs, -, -, -⟩ |
      ⟨q, pc', e, input, flow, hd, -, hres, rfl⟩ | ⟨e, -, hclose⟩
    · exact fun hmem => ht.event _ hmem s rfl hs
    · refine h.awaits t s q pc' hd ?_ k
      obtain ⟨-, rfl, e', evs, rfl, -⟩ := settle_drive htask
      rcases hres.launching with ⟨_, _, handle, rfl, -, -⟩ | ⟨-, -, hnext⟩
      · trivial
      · exact hnext e' pc evs rfl hpc
    · exact absurd htask (hclose.task _ _)
  simp [hevents, hlog]

end Runs

theorem Launching.runs {l : Label} {seg : Segment} (h : Launching cfg w) (ht : w.Tracked)
    (hr : Runs cfg w t s l seg) (hc : w.commit t s seg = some w') : Launching cfg w' := by
  obtain ⟨hsess, htasks, hlog, -, -⟩ := World.commit_cases hc
  constructor
  case awaits =>
    intro u k profile pc hu hpc b
    rw [htasks] at hu
    rw [hlog]
    split_ifs at hu with hut
    · have hk : k = s := hr.task_session (by rw [Option.some.inj hu]; rfl)
      subst hk
      exact h.runs_awaits ht hr (Option.some.inj hu) hpc b
    · have hevents : .launched k b ∉ seg.events := fun hmem => by
        obtain rfl : k = s := by rcases hr.about _ hmem with ha | ha <;> cases ha; rfl
        obtain ⟨q, req, bundle, e, -, hd, -, -⟩ := hr.launched hmem
        exact hut (ht.starter u t _ _ k hu hd rfl rfl)
      have hno := h.awaits u k profile pc hu hpc b
      simp [hevents, hno]
  case wired =>
    intro k e he
    rw [hsess] at he
    split_ifs at he with hk
    · cases he; exact h.runs_wired hr
    · exact h.wired k e he
  case probing =>
    intro u k profile proxy hu
    rw [htasks] at hu
    split_ifs at hu with hut
    · have hk : k = s := hr.task_session (by rw [Option.some.inj hu]; rfl)
      subst hk
      exact Launching.runs_probing hr (Option.some.inj hu)
    · exact h.probing u k profile proxy hu

/-- A call that concerns no session drives none. -/
theorem Moves.drive {l : Label} {task : Task} {u : TaskId} {profile : Profile} {pc : Drive}
    (hm : Moves w t l task) (hset : w.setTask t task = some w')
    (hu : w'.tasks u = some (.drive s profile pc)) : w.tasks u = some (.drive s profile pc) := by
  obtain ⟨-, -, -, htasks, -, -⟩ := World.setTask_cases hset
  rw [htasks] at hu
  split_ifs at hu
  · have := hm.session
    rw [Option.some.inj hu] at this
    cases this
  · exact hu

theorem Launching.step {l : Label} (h : Launching cfg w) (ht : w.Tracked)
    (hs : w.step cfg l = some w') : Launching cfg w' := by
  rcases World.step_cases hs with ⟨e, -, rfl⟩ | ⟨op, k, -, -, -, rfl⟩ | ⟨op, g, -, -, -, rfl⟩ |
    ⟨t, task, hm, hset⟩ | ⟨t, s, seg, hr, hc⟩
  · exact ⟨h.awaits, h.wired, h.probing⟩
  · exact ⟨h.awaits, h.wired, h.probing⟩
  · exact ⟨h.awaits, h.wired, h.probing⟩
  · obtain ⟨hsess, hlog, -, -, -, -⟩ := World.setTask_cases hset
    constructor
    case awaits => exact fun u s p pc hu hpc => hlog ▸ h.awaits u s p pc (hm.drive hset hu) hpc
    case wired => exact fun s e he => h.wired s e (hsess s ▸ he)
    case probing => exact fun u s p proxy hu => h.probing u s p proxy (hm.drive hset hu)
  · exact h.runs ht hr hc

theorem launching_initial (h : w.Initial) : Launching cfg w := by
  constructor <;> simp [h.tasks, h.sessions]

theorem launching_of_reach (hr : Reach (World.step cfg) World.Initial anyStep w) :
    Launching cfg w :=
  hr.invariant (fun _ h => launching_initial h) fun _ _ _ hr h _ hs =>
    h.step (tracked_of_reach hr) hs

end Aegis.Orchestrator
