import Aegis.Orchestrator.KillSwitch

/-! Failed sessions whose firewall had been applied: the kill switch is engaged when they enter
`Failed`, over every run in which they fail by errors that require it. -/
namespace Aegis.Orchestrator
open Transition

variable {cfg : Wiring} {w w' : World} {t : TaskId} {s : SessionId}

/-- The firewall of a session had been applied. Only full-VM starts apply one. -/
def Applied (s : SessionId) (log : List Event) : Prop := ∃ policy, .firewallApplied s policy ∈ log

/-- The calls a start makes before its firewall is applied, if it ever is. -/
def Drive.BeforeFirewall : Drive → Prop
  | provisionGateway | provisionBrowser _ | configure _ _ | applyFirewall _ _
  | proxyReachable _ => True
  | _ => False

/-- Whatever the return of a call makes of the start, an error that ends it requires the kill
switch. -/
def Drive.FailsContained (e : SessionEntry) (pc : Drive) (input : Input) : Prop :=
  (∀ err, input.error = some err → err.requiresKillswitch = true) ∧
  match pc, input with
  | .startBrowser, .started (.ok ()) => e.state = .gatewayStarting
  | .runPreflight, .checklist (.ok c) bundle => c.permitsBrowsing = true →
    ∀ err, (bundle = .error err ∨ ∃ b, bundle = .ok b ∧ b.assertSafe true = .error err) →
      err.requiresKillswitch = true
  | .isRunning _, .running (.ok running) => running = true ∧ e.state = .preflight
  | _, _ => True

/-- Starts whose firewall is applied fail by errors that require the kill switch, and nobody arms
it again before such a start has failed. -/
def FailuresCutOff (w : World) (l : Label) : Prop :=
  ArmsUncut (fun _ => True) Applied w l ∧
  ∀ t input s profile pc e, l = .resume t input → w.tasks t = some (.drive s profile pc) →
    w.sessions s = some e → Applied s w.log → pc.FailsContained e input

/-- The firewall of a start is applied after its first calls, and a start that failed after that
failed closed. -/
structure CutFailures (w : World) : Prop where
  early : ∀ t s profile pc, w.tasks t = some (.drive s profile pc) → pc.BeforeFirewall →
    ¬ Applied s w.log
  failed : ∀ t s cs err, w.tasks t = some (.teardown s cs (.failed err)) → Applied s w.log →
    err.requiresKillswitch = true

section Resume

variable {profile : Profile} {reply : Option Gateway.Call} {e : SessionEntry} {pc : Drive}
  {input : Input} {flow : Flow}

/-- A contained failure of a start whose firewall was applied requires the kill switch. -/
theorem Resumes.contained (h : Resumes cfg s profile reply e pc input flow)
    (hpc : ¬ pc.BeforeFirewall) (hc : pc.FailsContained e input) {e' : SessionEntry}
    {err : Error} {evs : List Event} (hf : flow = .raise e' err evs) :
    err.requiresKillswitch = true := by
  obtain ⟨herror, hvalue⟩ := hc
  cases h <;> cases hf
  case callError _ he => exact herror _ he
  case gatewayError =>
    obtain ⟨gw, br, he | he⟩ := ‹∃ gw br, pc = .configure gw br ∨ pc = .applyFirewall gw br› <;>
      exact absurd (he ▸ trivial) hpc
  case browserStopped => exact absurd trivial hpc
  case startStopped hno =>
    have hstate : e.state = .gatewayStarting := hvalue
    rw [hstate] at hno
    cases hno
  case preflightRefused => rfl
  case preflightUnsafe hperm hb => exact hvalue hperm _ hb
  case proxyUnreachable => exact absurd trivial hpc
  case proxyUnsafe => exact absurd trivial hpc
  case browsingStopped hno =>
    have hstate : e.state = .preflight := hvalue.2
    rw [hstate] at hno
    cases hno
  case notRunning => cases hvalue.1

/-- The firewall is applied where the start goes on. -/
theorem Resumes.applied (h : Resumes cfg s profile reply e pc input flow)
    (hev : Applied s flow.events) : ∃ gw br e' evs, pc = .applyFirewall gw br ∧
      flow = .await e' (.startGateway br) evs := by
  obtain ⟨policy, hev⟩ := hev
  cases h <;> simp [Flow.events, stateEvents, preflightEvents, probeEvents] at hev
  case firewallApplied gw br _ => exact ⟨gw, br, _, _, rfl, rfl⟩
  case browsing =>
    unfold browsingEvents at hev
    split at hev <;> simp at hev

theorem Resumes.beforeFirewall (h : Resumes cfg s profile reply e pc input flow)
    {e' : SessionEntry} {next : Drive} {evs : List Event} (hf : flow = .await e' next evs)
    (hn : next.BeforeFirewall) : pc.BeforeFirewall := by
  cases h <;> cases hf <;> trivial

end Resume

theorem applied_append {evs log : List Event} :
    Applied s (evs ++ log) ↔ Applied s evs ∨ Applied s log := by
  simp [Applied, exists_or]

/-- Session code applies the firewall of a session where its start goes on. -/
theorem Runs.applied {l : Label} {seg : Segment} {k : SessionId} (h : Runs cfg w t s l seg)
    (hev : Applied k seg.events) : k = s ∧ ∃ profile gw br e input flow e' evs,
      w.tasks t = some (.drive s profile (.applyFirewall gw br)) ∧
      flow = .await e' (.startGateway br) evs ∧ seg = settle cfg s profile flow ∧
      Resumes cfg s profile (w.gateway.calls t) e (.applyFirewall gw br) input flow := by
  obtain ⟨policy, hmem⟩ := hev
  obtain rfl : k = s := by rcases h.about _ hmem with ha | ha <;> cases ha; rfl
  obtain ⟨profile, pc, e, input, flow, -, ht, -, hres, rfl, hf⟩ :=
    h.of_drive (.firewallApplied k policy) rfl hmem
  obtain ⟨gw, br, e', evs, rfl, rfl⟩ := hres.applied ⟨policy, hf⟩
  exact ⟨rfl, profile, gw, br, e, input, _, e', evs, ht, rfl, rfl, hres⟩

theorem joinsDriven_applied : JoinsDriven cfg Applied := by
  intro w t s l seg k hr hev
  rw [applied_append] at hev
  rcases hev with hev | hev
  · obtain ⟨rfl, profile, gw, br, e, input, flow, e', evs, -, rfl, rfl, -⟩ := hr.applied hev
    exact .inr ⟨profile, _, rfl⟩
  · exact .inl hev

theorem CutFailures.runs {l : Label} {seg : Segment} (h : CutFailures w) (ht : w.Tracked)
    (hf : FailsClosed w) (hok : FailuresCutOff w l) (hr : Runs cfg w t s l seg)
    (hc : w.commit t s seg = some w') : CutFailures w' := by
  obtain ⟨-, htasks, hlog, -, -⟩ := World.commit_cases hc
  have hnew (k : SessionId) (hk : Applied k w'.log) :
      Applied k w.log ∨ k = s ∧ Applied k seg.events := by
    rw [hlog, applied_append] at hk
    exact hk.symm.imp_right fun he => ⟨(hr.applied he).1, he⟩
  constructor
  case early =>
    intro u k profile pc hu hpc happ
    rw [htasks] at hu
    split_ifs at hu with hut
    · have hk : k = s := hr.task_session (by rw [Option.some.inj hu]; rfl)
      subst hk
      have hu := Option.some.inj hu
      rcases hnew k happ with happ | ⟨-, happ⟩
      · rcases hr.cases with ⟨p, q, host, lease, key, flow, hs, -, -, -⟩ |
          ⟨q, pc', e, input, flow, hd, -, hres, rfl⟩ | ⟨e, -, hclose⟩
        · obtain ⟨policy, hmem⟩ := happ
          exact ht.event _ hmem k rfl hs
        · obtain ⟨-, rfl, e', evs, rfl, -⟩ := settle_drive hu
          exact h.early t k _ pc' hd (hres.beforeFirewall rfl hpc) happ
        · exact hclose.task _ _ hu
      · obtain ⟨-, q, gw, br, e, input, flow, e', evs, -, rfl, rfl, -⟩ := hr.applied happ
        cases hu
        exact hpc
    · rcases hnew k happ with happ | ⟨rfl, happ⟩
      · exact h.early u k profile pc hu hpc happ
      · obtain ⟨-, q, gw, br, e, input, flow, e', evs, hd, -⟩ := hr.applied happ
        exact hut (ht.starter u t _ _ k hu hd rfl rfl)
  case failed =>
    intro u k cs err hu happ
    rw [htasks] at hu
    split_ifs at hu with hut
    · have hk : k = s := hr.task_session (by rw [Option.some.inj hu]; rfl)
      subst hk
      have hu := Option.some.inj hu
      have happ : Applied k w.log := by
        rcases hnew k happ with happ | ⟨-, happ⟩
        · exact happ
        · obtain ⟨-, q, gw, br, e, input, flow, e', evs, -, rfl, rfl, -⟩ := hr.applied happ
          cases hu
      cases hr with
      | start _ hs _ _ =>
        obtain ⟨policy, hmem⟩ := happ
        exact absurd hs (ht.event _ hmem k rfl)
      | @drive profile pc e input flow hd hs hflow =>
        obtain ⟨e', err', evs, rfl, -, herr, -⟩ := settle_teardown hu
        cases herr
        exact (Drive.resume_cases hflow).contained
          (fun hpc => h.early t k profile pc hd hpc happ)
          (hok.2 t input k profile pc e rfl hd hs happ) rfl
      | failClosed hd _ _ =>
        rw [beginTeardown_task] at hu
        cases hu
        exact hf.error t k err hd
      | @teardown c ds ending e input hd _ _ =>
        cases ds with
        | nil => cases hu
        | cons d ds => cases hu; exact h.failed t k _ err hd happ
      | stop _ _ _ =>
        rw [beginTeardown_task] at hu
        cases hu
    · rcases hnew k happ with happ | ⟨rfl, happ⟩
      · exact h.failed u k cs err hu happ
      · obtain ⟨-, q, gw, br, e, input, flow, e', evs, hd, -⟩ := hr.applied happ
        exact absurd (ht.starter u t _ _ k hu hd rfl rfl) hut

theorem CutFailures.step {l : Label} (h : CutFailures w) (ht : w.Tracked) (hf : FailsClosed w)
    (hok : FailuresCutOff w l) (hs : w.step cfg l = some w') : CutFailures w' := by
  rcases World.step_cases hs with ⟨e, -, rfl⟩ | ⟨op, k, -, -, -, rfl⟩ |
    ⟨op, g, -, -, -, rfl⟩ | ⟨t, task, hm, hset⟩ | ⟨t, s, seg, hr, hc⟩
  · exact ⟨h.early, h.failed⟩
  · exact ⟨h.early, h.failed⟩
  · exact ⟨h.early, h.failed⟩
  · obtain ⟨-, hlog, -, htasks, -, -⟩ := World.setTask_cases hset
    have hsession := hm.session
    refine ⟨fun u k profile pc hu hpc => ?_, fun u k cs err hu happ => ?_⟩
    · rw [hlog]
      exact h.early u k profile pc (hm.drive hset hu) hpc
    · rw [hlog] at happ
      exact h.failed u k cs err (by grind [Task.session]) happ
  · exact h.runs ht hf hok hr hc

theorem cutFailures_of_reach (hr : Reach (World.step cfg) World.Initial FailuresCutOff w) :
    CutFailures w :=
  hr.invariant (fun w h => by constructor <;> simp [h.tasks]) fun _ _ _ hr h hok hs =>
    h.step (tracked_of_reach hr.any) (failsClosed_of_reach hr.any) hok hs

/-! ### Entering `Failed` -/

/-- A session enters `Failed` where the teardown of its failed start ends. -/
theorem Runs.entered_failed {l : Label} {seg : Segment} (h : Runs cfg w t s l seg)
    (hev : .entered s .failed ∈ seg.events) :
    ∃ c err, w.tasks t = some (.teardown s [c] (.failed err)) := by
  cases h with
  | start _ _ _ hstart =>
    rcases mem_settle hev with hev | he | ⟨_, he⟩
    · cases hstart <;> simp [Flow.events, stateEvents] at hev
    · cases he
    · cases he
  | drive _ _ hf =>
    rcases mem_settle hev with hev | he | ⟨_, he⟩
    · cases Drive.resume_cases hf <;>
        simp [Flow.events, stateEvents, preflightEvents, probeEvents] at hev
      unfold browsingEvents at hev
      split at hev <;> simp at hev
    · cases he
    · cases he
  | failClosed _ _ _ =>
    rcases mem_beginTeardown hev with hev | ⟨_, he⟩
    · simp [failClosedEvents] at hev
    · cases he
  | @teardown c cs ending e input ht _ _ =>
    cases cs with
    | nil =>
      cases ending with
      | failed err => exact ⟨c, err, ht⟩
      | stopped =>
        simp only [Orchestrator.teardown, destroyedEvents, Ending.state] at hev
        split at hev <;> simp at hev
    | cons d ds =>
      simp only [Orchestrator.teardown, destroyedEvents] at hev
      split at hev <;> simp at hev
  | stop _ _ hcases =>
    obtain ⟨-, -, hevs⟩ := stop_entry hcases
    rcases mem_beginTeardown hev with hev | ⟨_, he⟩
    · rcases hevs _ hev with he | he | ⟨_, he⟩ <;> cases he
    · cases he

/-- A full-VM session whose firewall had been applied enters `Failed` with the kill switch
engaged. -/
def FailedCutOff (w w' : World) : Prop :=
  ∀ evs s, w'.log = evs ++ w.log → .entered s .failed ∈ evs → Applied s w.log →
    w'.gateway.state.killswitch = .engaged

/-- Failed means cut off, as long as the starts fail by errors that require the kill switch. -/
theorem failedCutOff_of_reach {l : Label}
    (hr : Reach (World.step cfg) World.Initial FailuresCutOff w)
    (hs : w.step cfg l = some w') : FailedCutOff w w' := by
  intro evs s hlog hev happ
  have hengaged : Engaged (fun _ => True) Applied w :=
    engaged_of_reach (fun _ _ h => h) joinsDriven_applied (fun _ _ h => h.1) hr
  have hne : w'.log ≠ w.log := fun he => by
    rw [he] at hlog
    rw [List.self_eq_append_left.mp hlog] at hev
    cases hev
  rcases World.step_cases hs with ⟨e, -, rfl⟩ | ⟨op, k, -, -, -, rfl⟩ |
    ⟨op, g, -, -, -, rfl⟩ | ⟨t, task, hm, hset⟩ | ⟨t, u, seg, hrun, hc⟩
  · exact absurd rfl hne
  · exact absurd rfl hne
  · exact absurd rfl hne
  · exact absurd (World.setTask_cases hset).2.1 hne
  · obtain ⟨-, -, hlog', -, -⟩ := World.commit_cases hc
    rw [List.append_cancel_right (hlog.symm.trans hlog')] at hev
    obtain rfl : s = u := by rcases hrun.about _ hev with ha | ha <;> cases ha; rfl
    obtain ⟨c, err, ht⟩ := hrun.entered_failed hev
    have hks := (cutFailures_of_reach hr).failed t s [c] err ht happ
    rw [(World.commit_gateway hc).1]
    exact hengaged s happ (.inr ⟨t, [c], err, ht, hks, trivial⟩)

def Event.isApplied : Event → Bool
  | .firewallApplied _ _ => true
  | _ => false

/-- A test of the condition, for one start whose preflight refuses. -/
def failuresCutOff (w : World) : Label → Bool
  | .gateway (.access t) => (w.gateway.calls t).all fun c => !c.rearms ||
      w.log.all fun ev => !ev.isApplied
  | .resume t input =>
    match w.tasks t with
    | some (.drive s _ pc) =>
      match pc, input with
      | .runPreflight, .checklist (.ok c) _ => !c.permitsBrowsing
      | .startBrowser, .started (.ok ()) => (w.sessions s).all (·.state = .gatewayStarting)
      | .isRunning _, _ => false
      | _, input => input.error.isNone
    | _ => true
  | _ => true

theorem failuresCutOff_sound (w : World) (l : Label) (h : failuresCutOff w l = true) :
    FailuresCutOff w l := by
  constructor
  · cases l with
    | gateway op =>
      cases op with
      | access t =>
        rintro c hc hrearms s ⟨policy, hev⟩ -
        simp only [failuresCutOff, hc, Option.all_some, hrearms, Bool.not_true, Bool.false_or,
          List.all_eq_true] at h
        exact absurd (h _ hev) (by simp [Event.isApplied])
      | _ => trivial
    | _ => trivial
  · rintro t input s profile pc e rfl ht hs -
    simp only [failuresCutOff, ht] at h
    split at h
    next c bundle =>
      refine ⟨by simp [Input.error], fun hperm => ?_⟩
      rw [hperm] at h
      cases h
    next => exact ⟨by simp [Input.error], by simpa [hs] using h⟩
    next => cases h
    next pc input h₁ h₂ h₃ =>
      refine ⟨fun err he => by simp [he] at h, ?_⟩
      split <;> grind

/-- A start of session 0 whose preflight refuses fails closed. -/
def refusedRun : List Label :=
  leaseRun 0 ⟨0⟩ (Store.LockSystem.repeated 'a') ++ provisionRun 0 ⟨0⟩ ⟨10⟩ ⟨11⟩ ++ gatewayRun 0 ++
    [.resume 0 (.started (.ok ())), .resume 0 (.started (.ok ())),
      .resume 0 (.checklist (.ok (.new [])) (.ok safeBundle)),
      .gateway (.run 0 succeeded), .gateway (.access 0), .resume 0 .returned] ++
    List.replicate 4 (.resume 0 (.destroyed (.ok true))) ++
    [.lock (.read 0 none), .lock (.compare 0), .lock (.remove 0 none)]

/-- The world before that start enters `Failed`. -/
theorem refusedRun_applied :
    (exec (fun w l => if failuresCutOff w l then World.step daemon w l else none) booted
      refusedRun).map (fun w => (w.log.filter Event.isApplied,
        (World.step daemon w (.resume 0 .returned)).map fun w' => w'.log.head?)) =
    some ([.firewallApplied ⟨0⟩ (.failClosed (gatewayConfig .default))],
      some (some (.entered ⟨0⟩ .failed))) := rfl

/-- A start refused by its preflight has the kill switch engaged when it enters `Failed`. -/
theorem failedCutOff_refusedRun : ∃ w w' : World, Applied ⟨0⟩ w.log ∧
    w'.log.head? = some (.entered ⟨0⟩ .failed) ∧ FailedCutOff w w' := by
  obtain ⟨w, hw, hlast⟩ := Option.map_eq_some_iff.mp refusedRun_applied
  obtain ⟨happ, hstep⟩ := Prod.mk.inj hlast
  obtain ⟨w', hw', hhead⟩ := Option.map_eq_some_iff.mp hstep
  have hmem : Event.firewallApplied ⟨0⟩ (.failClosed (gatewayConfig .default)) ∈
      w.log.filter Event.isApplied := by
    rw [happ]
    exact List.mem_cons_self
  exact ⟨w, w', ⟨_, (List.mem_filter.mp hmem).1⟩, hhead, failedCutOff_of_reach
    ((Reach.start booted_initial).execWhere failuresCutOff_sound hw) hw'⟩

/-- The gateway VM of session 0 does not start, by an error of the hypervisor. -/
def crashedRun : List Label :=
  leaseRun 0 ⟨0⟩ (Store.LockSystem.repeated 'a') ++ provisionRun 0 ⟨0⟩ ⟨10⟩ ⟨11⟩ ++ gatewayRun 0 ++
    [.resume 0 (.started (.error (.system "failed to start domain")))] ++
    List.replicate 4 (.resume 0 (.destroyed (.ok true))) ++
    [.lock (.read 0 none), .lock (.compare 0), .lock (.remove 0 none)]

/-- The world before that start enters `Failed`. -/
def crashed : World := (exec (World.step daemon) booted crashedRun).getD booted

theorem crashed_applied : crashed.log.filter Event.isApplied =
    [.firewallApplied ⟨0⟩ (.failClosed (gatewayConfig .default))] := rfl

/-- The session enters `Failed` with the kill switch armed. -/
theorem crashed_not_cut_off : ∃ l w', Reach (World.step daemon) World.Initial anyStep crashed ∧
    World.step daemon crashed l = some w' ∧ ¬ FailedCutOff crashed w' := by
  have hrun : exec (World.step daemon) booted crashedRun = some crashed := rfl
  refine ⟨.resume 0 .returned, _, (Reach.start booted_initial).exec hrun, rfl, fun h => ?_⟩
  have hmem : Event.firewallApplied ⟨0⟩ (.failClosed (gatewayConfig .default)) ∈
      crashed.log.filter Event.isApplied := by
    rw [crashed_applied]
    exact List.mem_cons_self
  have hengaged := h [_, _] ⟨0⟩ rfl List.mem_cons_self ⟨_, (List.mem_filter.mp hmem).1⟩
  cases hengaged

end Aegis.Orchestrator
