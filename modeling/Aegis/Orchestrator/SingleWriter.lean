import Aegis.Orchestrator.Launch
import Aegis.Orchestrator.Leases

/-! One browser of a profile at a time: what a live browser needs, over every run in which no
stop overtakes a launch. -/
namespace Aegis.Orchestrator
open Store Transition

variable {cfg : Wiring} {w w' : World} {t : TaskId} {s : SessionId}

/-- A browser is live from the moment its launch returned until it is told to terminate. -/
def LiveBrowser (s : SessionId) (h : BrowserHandle) (log : List Event) : Prop :=
  .launched s h ∈ log ∧ .cleanup s (.terminate h) ∉ log

/-- No stop has overtaken the start that launches: its session is still in `Preflight`. No lock
file is created beside a release that is about to remove one. -/
def LaunchesUnstopped (w : World) : Label → Prop
  | .lock op => w.lock.CreatesAlone op
  | .resume t input => ∀ s profile pc e, w.tasks t = some (.drive s profile pc) →
    w.sessions s = some e → pc.Launches input → e.state = .preflight
  | _ => True

/-- The lease of a session is unreleased and no teardown of the session has begun. -/
structure World.Holds (w : World) (s : SessionId) (e : SessionEntry) : Prop where
  lease : e.lease ∈ w.lock.unreleased
  teardown : ∀ t cs ending, w.tasks t ≠ some (.teardown s cs ending)

/-- A session that has not ended holds its lease while it is driven, and so does every session
with a live browser. -/
structure Steady (w : World) : Prop where
  driven : ∀ t s profile pc e, w.tasks t = some (.drive s profile pc) → w.sessions s = some e →
    ¬ e.state.Ended → w.Holds s e
  live : ∀ s h, LiveBrowser s h w.log →
    ∃ e, w.sessions s = some e ∧ e.browserHandle = some h ∧ w.Holds s e

/-! ### What keeps a session's lease -/

/-- Only session code of the session itself lets go of its lease. -/
theorem World.Holds.other {l : Label} {seg : Segment} {u : SessionId} {e : SessionEntry}
    (h : w.Holds u e) (hl : w.Leased) (hu : w.sessions u = some e) (hne : u ≠ s)
    (hr : Runs cfg w t s l seg) (hc : w.commit t s seg = some w') : w'.Holds u e where
  lease := by
    rcases hr.lock_cases hc with he | ⟨k, cs, ending, htask, hk⟩
    · rw [he]; exact h.lease
    · rw [(lock_release hk).1]
      refine ⟨h.lease, fun he => ?_⟩
      rcases hr.keeps hl with ⟨p, lease, -, hp, -, hkeep⟩ | ⟨f, hf, hkeep⟩
      · have := hkeep.release _ _ _ k htask List.mem_cons_self
        exact hl.pending_entry t lease u e hp hu (he.trans this)
      · have := hkeep.release _ _ _ k htask List.mem_cons_self
        exact hne (hl.entry_unique u s e f hu hf (he.trans this))
  teardown v cs ending := by
    obtain ⟨-, htasks, -, -, -⟩ := commit_cases hc
    rw [htasks]
    split_ifs
    · intro he
      exact hne (hr.task_session (by rw [Option.some.inj he]; rfl))
    · exact h.teardown v cs ending

theorem World.Holds.moves {l : Label} {task : Task} {e : SessionEntry} (h : w.Holds s e)
    (hl : w.Leased) (hs : w.sessions s = some e) (hm : Moves w t l task)
    (hset : w.setTask t task = some w') : w'.Holds s e where
  lease := by
    obtain ⟨-, -, -, -, hlock, -⟩ := setTask_cases hset
    cases hm with
    | fetched ht hhost => rw [(lock_acquire hlock).1]; exact h.lease
    | @noKey p profile host lease err _ ht hlc =>
      rw [(lock_release hlock).1]
      exact ⟨h.lease, hl.pending_entry t lease s e ⟨⟨p, profile, host, ht⟩, hlc⟩ hs⟩
    | startSession | unknown | refused | busy | released =>
      have hlock : w'.lock = w.lock := hlock
      rw [hlock]; exact h.lease
  teardown v cs ending := by
    obtain ⟨-, -, -, htasks, -, -⟩ := setTask_cases hset
    have := hm.session
    grind [h.teardown v cs ending, Task.session]

/-- A part of a start that goes on lets go of nothing. -/
theorem World.Holds.goesOn {l : Label} {seg : Segment} {e e' : SessionEntry} (h : w.Holds s e)
    (he : e'.lease = e.lease) (hr : Runs cfg w t s l seg)
    (htask : ∀ cs ending, seg.task ≠ .teardown s cs ending)
    (hc : w.commit t s seg = some w') : w'.Holds s e' where
  lease := by
    rcases hr.lock_cases hc with hlock | ⟨k, cs, ending, ht, -⟩
    · rw [hlock, he]; exact h.lease
    · exact absurd ht (htask _ _)
  teardown v cs ending := by
    obtain ⟨-, htasks, -, -, -⟩ := commit_cases hc
    rw [htasks]
    split_ifs
    · exact fun ht => htask cs ending (Option.some.inj ht)
    · exact h.teardown v cs ending

/-! ### The invariant is kept by every piece of session code -/

/-- Where another call drives the session and it has not ended, only a stop runs beside it. -/
theorem Steady.ended_of_other {l : Label} {seg : Segment} {u : TaskId} {profile : Profile}
    {pc : Drive} (h : Steady w) (ht : w.Tracked) (hr : Runs cfg w t s l seg) (hne : u ≠ t)
    (hu : w.tasks u = some (.drive s profile pc)) : seg.entry.state.Ended := by
  have hrun := hr
  cases hr with
  | start _ hs _ _ => exact absurd hs (ht.task u _ s hu rfl)
  | drive hd _ _ => exact absurd (ht.starter u t _ _ s hu hd rfl rfl) hne
  | failClosed hd _ _ => exact absurd (ht.starter u t _ _ s hu hd rfl rfl) hne
  | @teardown c cs ending e input hd hs _ =>
    by_cases he : e.state.Ended
    · exact hrun.ended hs he
    · exact absurd hd ((h.driven u s profile pc e hu hs he).teardown t _ _)
  | stop _ _ hcases =>
    rw [beginTeardown_entry]
    exact (stop_entry hcases).1

section Runs

variable {l : Label} {seg : Segment}

/-- A start that goes on holds its lease as long as its session has not ended. -/
theorem Steady.runs_driven {profile : Profile} {pc : Drive} (h : Steady w) (ht : w.Tracked)
    (hl : w.Leased) (hr : Runs cfg w t s l seg) (htask : seg.task = .drive s profile pc)
    (hend : ¬ seg.entry.state.Ended) (hc : w.commit t s seg = some w') :
    w'.Holds s seg.entry := by
  have hno : ∀ cs ending, seg.task ≠ .teardown s cs ending := by simp [htask]
  rcases hr.keeps hl with ⟨p, lease, hs, hpend, -, hkeep⟩ | ⟨e, hs, hkeep⟩
  · have hholds : w.Holds s seg.entry :=
      ⟨hkeep.lease ▸ hl.pending t lease hpend, fun u cs ending hu => ht.task u _ s hu rfl hs⟩
    exact hholds.goesOn rfl hr hno hc
  · rcases hr.cases with ⟨p, q, host, lease, key, flow, hs', -, -, -⟩ |
      ⟨q, pc', e', input, flow, hd, hs', hres, rfl⟩ | ⟨e', -, hclose⟩
    · rw [hs] at hs'; cases hs'
    · rw [hs] at hs'
      cases hs'
      rw [(settle_entry q flow).1] at hend
      exact (h.driven t s q pc' e hd hs (hres.not_ended hend)).goesOn hkeep.lease hr hno hc
    · exact absurd htask (hclose.task _ _)

/-- A live browser stays the browser of its session, which holds its lease. -/
theorem Steady.runs_live {k : BrowserHandle} (h : Steady w) (hb : Launching cfg w)
    (hl : w.Leased) (hok : LaunchesUnstopped w l) (hr : Runs cfg w t s l seg)
    (hc : w.commit t s seg = some w')
    (hlive : LiveBrowser s k (seg.events ++ w.log)) :
    seg.entry.browserHandle = some k ∧ w'.Holds s seg.entry := by
  obtain ⟨hmem, hterm⟩ := hlive
  simp only [List.mem_append, not_or] at hmem hterm
  rcases hmem with hmem | hmem
  · obtain ⟨profile, req, bundle, e, rfl, hd, hs, rfl⟩ := hr.launched hmem
    have hstate := hok s profile _ e hd hs trivial
    have hholds := h.driven t s profile _ e hd hs (by rw [hstate]; decide)
    exact ⟨rfl, hholds.goesOn rfl hr (by simp) hc⟩
  · obtain ⟨e, hs, hhandle, hholds⟩ := h.live s k ⟨hmem, hterm.2⟩
    have hwired := hb.wired s e hs
    have hkeep : seg.entry.lease = e.lease := by
      rcases hr.keeps hl with ⟨p, lease, hs', -⟩ | ⟨e', hs', hkeep⟩
      · rw [hs] at hs'; cases hs'
      · rw [hs] at hs'; cases hs'; exact hkeep.lease
    cases hr with
    | start _ hs' _ _ => rw [hs] at hs'; cases hs'
    | @drive profile pc e' input flow hd hs' hf =>
      rw [hs] at hs'
      cases hs'
      have hres := Drive.resume_cases hf
      have hsame : flow.entry.browserHandle = some k := by
        rcases hres.launching with ⟨_, _, _, rfl, -, -⟩ | ⟨he, -, -⟩
        · exact absurd hmem (hb.awaits t s profile _ hd trivial k)
        · rw [he, hhandle]
      have hmode : flow.entry.mode.Wired cfg :=
        hres.wired hwired (by rintro proxy rfl; exact hb.probing t s profile proxy hd)
      have hr' := Runs.drive hd hs hf
      rcases settle_cases cfg s profile flow with ⟨e', next, evs, rfl, heq⟩ |
        ⟨e', sum, evs, rfl, heq⟩ | ⟨e', err, evs, rfl, -, heq⟩ |
        ⟨e', err, evs, c, cs, rfl, herr, -, heq⟩
      · exact ⟨by rw [heq]; exact hsame, hholds.goesOn hkeep hr' (by simp [heq]) hc⟩
      · exact ⟨by rw [heq]; exact hsame, hholds.goesOn hkeep hr' (by simp [heq]) hc⟩
      · exact ⟨by rw [heq]; exact hsame, hholds.goesOn hkeep hr' (by simp [heq]) hc⟩
      · refine absurd ?_ hterm.1
        simp only [settle, herr, Bool.false_eq_true, if_false]
        exact terminate_mem_beginTeardown hsame hmode
    | @failClosed err e' reply _ hd hs' hg =>
      rw [hs] at hs'
      cases hs'
      exact absurd (terminate_mem_beginTeardown hhandle hwired) hterm.1
    | teardown hd _ _ => exact absurd hd (hholds.teardown _ _ _)
    | @stop e' e'' evs _ hs' hcases =>
      rw [hs] at hs'
      cases hs'
      refine absurd ?_ hterm.1
      rcases hcases with ⟨htr, -⟩ | ⟨-, rfl, -⟩
      · obtain ⟨-, rfl⟩ := transition_eq_ok.mp htr
        exact terminate_mem_beginTeardown hhandle hwired
      · exact terminate_mem_beginTeardown hhandle hwired

end Runs

theorem Steady.runs {l : Label} {seg : Segment} (h : Steady w) (hb : Launching cfg w)
    (ht : w.Tracked) (hl : w.Leased) (hok : LaunchesUnstopped w l) (hr : Runs cfg w t s l seg)
    (hc : w.commit t s seg = some w') : Steady w' := by
  obtain ⟨hsess, htasks, hlog, -, -⟩ := World.commit_cases hc
  have hold (k : SessionId) (ev : Event) (he : ev.session = some k) (hk : k ≠ s) :
      ev ∉ seg.events := fun hev => by
    rcases hr.about ev hev with ha | ha <;> rw [he] at ha <;> cases ha
    exact hk rfl
  constructor
  case driven =>
    intro u k profile pc e hu he hend
    rw [htasks] at hu
    rw [hsess] at he
    split_ifs at hu with hut
    · have hk : k = s := hr.task_session (by rw [Option.some.inj hu]; rfl)
      subst hk
      rw [if_pos rfl] at he
      cases he
      exact h.runs_driven ht hl hr (Option.some.inj hu) hend hc
    · by_cases hk : k = s
      · subst hk
        rw [if_pos rfl] at he
        cases he
        exact absurd (h.ended_of_other ht hr hut hu) hend
      · rw [if_neg hk] at he
        exact (h.driven u k profile pc e hu he hend).other hl he hk hr hc
  case live =>
    intro k b hlive
    rw [hlog] at hlive
    by_cases hk : k = s
    · subst hk
      obtain ⟨hhandle, hholds⟩ := h.runs_live hb hl hok hr hc hlive
      exact ⟨seg.entry, by rw [hsess, if_pos rfl], hhandle, hholds⟩
    · have hlive' : LiveBrowser k b w.log := by
        obtain ⟨hmem, hterm⟩ := hlive
        simp only [List.mem_append, not_or] at hmem hterm
        exact ⟨hmem.resolve_left (hold k _ rfl hk), hterm.2⟩
      obtain ⟨e, he, hhandle, hholds⟩ := h.live k b hlive'
      exact ⟨e, by rw [hsess, if_neg hk]; exact he, hhandle, hholds.other hl he hk hr hc⟩

theorem Steady.step {l : Label} (h : Steady w) (hb : Launching cfg w) (ht : w.Tracked)
    (hl : w.Leased) (hok : LaunchesUnstopped w l) (hs : w.step cfg l = some w') : Steady w' := by
  -- where neither the tasks nor the log change, the unreleased leases decide
  have hkeep (w' : World) (htasks : w'.tasks = w.tasks) (hsess : w'.sessions = w.sessions)
      (hlog : w'.log = w.log) (hun : ∀ l ∈ w.lock.unreleased, l ∈ w'.lock.unreleased) :
      Steady w' := by
    have hholds (s : SessionId) (e : SessionEntry) (hh : w.Holds s e) : w'.Holds s e :=
      ⟨hun _ hh.lease, htasks ▸ hh.teardown⟩
    constructor
    case driven =>
      rw [htasks, hsess]
      exact fun t s p pc e ht hs he => hholds s e (h.driven t s p pc e ht hs he)
    case live =>
      rw [hlog, hsess]
      intro s b hlive
      obtain ⟨e, he, hh, hw⟩ := h.live s b hlive
      exact ⟨e, he, hh, hholds s e hw⟩
  rcases World.step_cases hs with ⟨e, -, rfl⟩ | ⟨op, k, -, hop, hk, rfl⟩ | ⟨op, g, -, -, -, rfl⟩ |
    ⟨t, task, hm, hset⟩ | ⟨t, s, seg, hr, hc⟩
  · exact hkeep _ rfl rfl rfl fun _ hl => hl
  · exact hkeep _ rfl rfl rfl (lock_internal hk hop).1
  · exact hkeep _ rfl rfl rfl fun _ hl => hl
  · obtain ⟨hsess, hlog, -, -, -, -⟩ := World.setTask_cases hset
    constructor
    case driven =>
      intro u s profile pc e hu he hend
      rw [hsess] at he
      exact (h.driven u s profile pc e (hm.drive hset hu) he hend).moves hl he hm hset
    case live =>
      intro s b hb
      rw [hlog] at hb
      obtain ⟨e, he, hh, hw⟩ := h.live s b hb
      exact ⟨e, by rw [hsess]; exact he, hh, hw.moves hl he hm hset⟩
  · exact h.runs hb ht hl hok hr hc

theorem steady_initial (h : w.Initial) : Steady w := by
  constructor <;> simp [h.tasks, h.log, LiveBrowser]

theorem steady_of_reach (hr : Reach (World.step cfg) World.Initial LaunchesUnstopped w) :
    Steady w :=
  hr.invariant (fun _ h => steady_initial h) fun _ _ _ hr h hok hs =>
    h.step (launching_of_reach hr.any) (tracked_of_reach hr.any) (World.leased_of_reach hr.any)
      hok hs

/-! ### The single writer -/

/-- One browser of a profile is live at most. -/
def OneBrowser (w : World) : Prop :=
  ∀ s u e f h k, w.sessions s = some e → w.sessions u = some f → e.profile = f.profile →
    LiveBrowser s h w.log → LiveBrowser u k w.log → s = u ∧ h = k

/-- Where a step calls `launch` for a session, the session's lease is unreleased. -/
def LaunchHeld (w w' : World) : Prop :=
  ∀ evs s req bundle, w'.log = evs ++ w.log → .launchCalled s req bundle ∈ evs →
    ∃ e, w.sessions s = some e ∧ e.lease ∈ w.lock.unreleased

/-- One browser is live, and the next admitted step calls `launch` under an unreleased lease
only. -/
def SingleWriter (cfg : Wiring) (ok : World → Label → Prop) (w : World) : Prop :=
  OneBrowser w ∧ ∀ l w', ok w l → w.step cfg l = some w' → LaunchHeld w w'

theorem oneBrowser_of_steady (h : Steady w) (hl : w.Leased) (hx : w.lock.Exclusive) :
    OneBrowser w := by
  intro s u e f b k hs hu hp hb hk
  obtain ⟨e', hs', hhandle, hholds⟩ := h.live s b hb
  obtain ⟨f', hu', hhandle', hholds'⟩ := h.live u k hk
  rw [hs] at hs'
  rw [hu] at hu'
  cases hs'
  cases hu'
  -- both leases are unreleased, so they are one lease
  have hprofile : e.lease.profile = f.lease.profile := by
    rw [(hl.entry s e hs).2, (hl.entry u f hu).2, hp]
  have hlease := hx.eq_of_held hholds.lease hholds'.lease hprofile
  obtain rfl := hl.entry_unique s u e f hs hu hlease
  rw [hs] at hu
  cases hu
  rw [hhandle] at hhandle'
  exact ⟨rfl, Option.some.inj hhandle'⟩

theorem Steady.launchHeld {l : Label} (h : Steady w) (hok : LaunchesUnstopped w l)
    (hs : w.step cfg l = some w') : LaunchHeld w w' := by
  intro evs s req bundle hlog hmem
  have hnil : w'.log ≠ w.log := fun he => by
    rw [he] at hlog
    rw [List.self_eq_append_left.mp hlog] at hmem
    cases hmem
  rcases World.step_cases hs with ⟨e, -, rfl⟩ | ⟨op, k, -, -, -, rfl⟩ | ⟨op, g, -, -, -, rfl⟩ |
    ⟨t, task, hm, hset⟩ | ⟨t, u, seg, hr, hc⟩
  · exact absurd rfl hnil
  · exact absurd rfl hnil
  · exact absurd rfl hnil
  · exact absurd (World.setTask_cases hset).2.1 hnil
  · obtain ⟨-, -, hlog', -, -⟩ := World.commit_cases hc
    have hevs : evs = seg.events := List.append_cancel_right (hlog.symm.trans hlog')
    rw [hevs] at hmem
    obtain rfl : s = u := by
      rcases hr.about _ hmem with ha | ha <;> cases ha
      rfl
    obtain ⟨profile, pc, e, input, flow, rfl, hd, hse, hres, rfl, hev⟩ :=
      hr.of_drive (.launchCalled s req bundle) rfl hmem
    have hstate := hok s profile pc e hd hse (hres.launches hev)
    exact ⟨e, hse, (h.driven t s profile pc e hd hse (by rw [hstate]; decide)).lease⟩

/-- As long as no stop overtakes a launch, a profile has one writer. -/
theorem singleWriter_of_reach
    (hr : Reach (World.step cfg) World.Initial LaunchesUnstopped w) :
    SingleWriter cfg LaunchesUnstopped w := by
  have hx : w.lock.Exclusive :=
    LockSystem.exclusive_of_reach (World.lock_of_reach hr fun _ _ h => h)
  exact ⟨oneBrowser_of_steady (steady_of_reach hr) (World.leased_of_reach hr.any) hx,
    fun l w' hok hs => (steady_of_reach hr).launchHeld hok hs⟩

/-- The events that make browsers live or not. -/
def Event.OfBrowser : Event → Bool
  | .launched _ _ | .cleanup _ (.terminate _) => true
  | _ => false

theorem liveBrowser_iff {h : BrowserHandle} {log : List Event} : LiveBrowser s h log ↔
    .launched s h ∈ log.filter Event.OfBrowser ∧
      .cleanup s (.terminate h) ∉ log.filter Event.OfBrowser := by
  simp [LiveBrowser, Event.OfBrowser]

/-- The calls whose return can launch. -/
def Drive.nearLaunch : Drive → Bool
  | runPreflight | proxyReachable _ | launch _ _ => true
  | _ => false

theorem Drive.Launches.nearLaunch {pc : Drive} {input : Input} (h : pc.Launches input) :
    pc.nearLaunch = true := by
  unfold Drive.Launches at h
  split at h <;> first
    | rfl
    | exact h.elim

/-- A test of the condition, for steps that create no lock file. -/
def launchesUnstopped (w : World) : Label → Bool
  | .lock (.create _ _) => false
  | .resume t _ =>
    match w.tasks t with
    | some (.drive s _ pc) => !pc.nearLaunch || (w.sessions s).all (·.state = .preflight)
    | _ => true
  | _ => true

theorem launchesUnstopped_sound (w : World) (l : Label) (h : launchesUnstopped w l = true) :
    LaunchesUnstopped w l := by
  cases l with
  | lock op =>
    rintro t p token rfl
    cases h
  | resume t input =>
    intro s profile pc e ht hs hl
    simpa [launchesUnstopped, ht, hs, hl.nearLaunch] using h
  | _ => trivial

/-- The complete start once it has created its lock file. -/
def creating : World := (exec (World.step daemon) booted (browsingRun.take 4)).getD booted

theorem creating_reach : Reach (World.step daemon) World.Initial LaunchesUnstopped creating := by
  have h₀ : Reach (World.step daemon) World.Initial LaunchesUnstopped booted :=
    .start booted_initial
  have h₁ : Reach (World.step daemon) World.Initial LaunchesUnstopped _ :=
    h₀.execWhere launchesUnstopped_sound (show exec _ _ (browsingRun.take 3) = some _ from rfl)
  refine h₁.next (l := .lock (.create 0 none)) ?_ rfl
  -- the only call is the acquisition itself
  rintro _ p token ⟨⟩ - - u c l hu hc
  cases u with
  | zero => cases hu; cases hc
  | succ u => cases hu

theorem browsingRun_browsers :
    (exec (fun w l => if launchesUnstopped w l then World.step daemon w l else none) creating
      (browsingRun.drop 4)).map (fun w => w.log.filter Event.OfBrowser) =
    some [.launched ⟨0⟩ ⟨⟨0⟩, .chromium, "pid"⟩] := rfl

/-- A complete start has one live browser, and stays the single writer of its profile. -/
theorem singleWriter_browsingRun : ∃ w, LiveBrowser ⟨0⟩ ⟨⟨0⟩, .chromium, "pid"⟩ w.log ∧
    SingleWriter daemon LaunchesUnstopped w := by
  obtain ⟨w, hw, hlog⟩ := Option.map_eq_some_iff.mp browsingRun_browsers
  exact ⟨w, liveBrowser_iff.mpr (by rw [hlog]; exact ⟨List.mem_cons_self, by simp⟩),
    singleWriter_of_reach (creating_reach.execWhere launchesUnstopped_sound hw)⟩

/-! ### A stop that overtakes a launch -/

/-- Request `t` stops session `s`, which has both VMs and no browser. -/
def stopRun (t : TaskId) (s : SessionId) : List Label :=
  [.stopSession t s] ++ List.replicate 4 (.resume t (.destroyed (.ok true))) ++
    [.lock (.read t none), .lock (.compare t), .lock (.remove t none), .resume t .returned]

/-- Session 0 is stopped during its preflight, session 1 of the same profile starts, and then
the preflight of session 0 returns. -/
def overtakenRun : List Label :=
  leaseRun 0 ⟨0⟩ (LockSystem.repeated 'a') ++ provisionRun 0 ⟨0⟩ ⟨10⟩ ⟨11⟩ ++ gatewayRun 0 ++
    (launchRun 0 ⟨⟨0⟩, .chromium, "pid"⟩).take 2 ++ stopRun 1 ⟨0⟩ ++
    leaseRun 2 ⟨0⟩ (LockSystem.repeated 'b') ++ provisionRun 2 ⟨1⟩ ⟨12⟩ ⟨13⟩ ++ gatewayRun 2 ++
    launchRun 2 ⟨⟨1⟩, .chromium, "pid"⟩ ++ (launchRun 0 ⟨⟨0⟩, .chromium, "pid"⟩).drop 2

theorem overtakenRun_browsers : (exec (World.step daemon) booted overtakenRun).map
    (fun w => ((w.sessions ⟨0⟩).map SessionEntry.profile, (w.sessions ⟨1⟩).map SessionEntry.profile,
      w.log.filter Event.OfBrowser)) =
    some (some ⟨0⟩, some ⟨0⟩, [.launched ⟨0⟩ ⟨⟨0⟩, .chromium, "pid"⟩,
      .launched ⟨1⟩ ⟨⟨1⟩, .chromium, "pid"⟩]) := rfl

/-- The profile has two live browsers then. -/
theorem overtakenRun_two_browsers : ∃ w,
    Reach (World.step daemon) World.Initial anyStep w ∧ ¬ SingleWriter daemon anyStep w := by
  obtain ⟨w, hw, hb⟩ := Option.map_eq_some_iff.mp overtakenRun_browsers
  simp only [Prod.mk.injEq, Option.map_eq_some_iff] at hb
  obtain ⟨⟨e, he, hpe⟩, ⟨f, hf, hpf⟩, hlog⟩ := hb
  refine ⟨w, (Reach.start booted_initial).exec hw, fun h => ?_⟩
  have hne := h.1 ⟨0⟩ ⟨1⟩ e f _ _ he hf (hpe.trans hpf.symm)
    (liveBrowser_iff.mpr (by rw [hlog]; exact ⟨List.mem_cons_self, by simp⟩))
    (liveBrowser_iff.mpr (by rw [hlog]; exact ⟨List.mem_cons_of_mem _ List.mem_cons_self, by simp⟩))
  exact absurd hne.1 (by decide)

end Aegis.Orchestrator
