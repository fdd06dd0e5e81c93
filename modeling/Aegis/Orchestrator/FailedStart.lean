import Aegis.Orchestrator.Alone
import Aegis.Orchestrator.CutOff
import Aegis.Orchestrator.Leases

/-! What a failed start leaves: the course of a call of `start_session` from the lease it acquired
to the error it returns, while other calls interleave. -/
namespace Aegis.Orchestrator
open Store Transition

variable {cfg : Wiring} {w w' : World} {t : TaskId} {s : SessionId} {lease : ProfileLease}
  {e : SessionEntry} {err : Error}

/-- No stop interleaves: the session that was registered with the lease is not stopped. -/
def Unstopped (lease : ProfileLease) (w : World) : Label → Prop
  | .stopSession _ u => ∀ e, w.sessions u = some e → e.lease ≠ lease
  | _ => True

def Event.OfDestroy (s : SessionId) (ev : Event) : Prop :=
  ∃ role vm, ev = .cleanup s (.destroy role vm)

/-- The `Critical` record of a start that fails closed. -/
def Event.OfFailClosed (s : SessionId) (err : Error) (ev : Event) : Prop :=
  ∃ r, ev = .audit r ∧ r.severity = .critical ∧ r.session = some s ∧
    r.kind = .failClosed err.failureClass err.display

/-- The kill switch was engaged and the failure recorded, before any VM was destroyed. -/
structure CutFirst (s : SessionId) (err : Error) (log : List Event) : Prop where
  engaged : .engageCalled s ∈ log
  recorded : ∃ ev ∈ log, ev.OfFailClosed s err
  engaged_first : Precedes (· = .engageCalled s) (Event.OfDestroy s) log
  recorded_first : Precedes (Event.OfFailClosed s err) (Event.OfDestroy s) log

/-- What a failed start leaves of the session it registered. -/
structure CleanedUp (s : SessionId) (e : SessionEntry) (err : Error) (log : List Event) : Prop where
  vm : ∀ role vm, .provisioned s role vm ∈ log → .cleanup s (.destroy role vm) ∈ log
  browser : ∀ h, .launched s h ∈ log → .cleanup s (.terminate h) ∈ log
  state : e.state = .failed
  browsing : .entered s .browsing ∉ log
  cut : err.requiresKillswitch = true → CutFirst s err log

/-! ### Only the start works on its session -/

/-- The session registered with the lease, which only this start works on. -/
structure OnlyStarts (w : World) (t : TaskId) (lease : ProfileLease) (s : SessionId)
    (e : SessionEntry) : Prop where
  entry : w.sessions s = some e
  lease : e.lease = lease
  only : ∀ u a, w.tasks u = some a → a.session = some s → u = t

/-- No session is registered with the lease, and it was given up. -/
structure Unregistered (w : World) (lease : ProfileLease) : Prop where
  free : ∀ s e, w.sessions s = some e → e.lease ≠ lease
  issued : lease ∈ w.lock.issued
  unreleased : lease ∉ w.lock.unreleased

/-- The session has not been torn down, and has not browsed. -/
structure Untouched (s : SessionId) (log : List Event) : Prop where
  cleanup : ∀ c, .cleanup s c ∉ log
  browsing : .entered s .browsing ∉ log

/-- How far a start has come that acquired the lease. -/
inductive Course (t : TaskId) (lease : ProfileLease) (w : World) : Prop where
  | pending : w.Pending t lease → Course t lease w
  | keyless {err : Error} : w.tasks t = some (.releaseLock lease err) → Unregistered w lease →
      Course t lease w
  | refused {err : Error} {r : Result Unit} : w.tasks t = some (.done (.error err)) →
      Unregistered w lease → w.lock.calls t = some (.released r) → Course t lease w
  | driven {s : SessionId} {e : SessionEntry} {profile : Profile} {pc : Drive} :
      w.tasks t = some (.drive s profile pc) → OnlyStarts w t lease s e →
      (pc ≠ .touchLaunch → Untouched s w.log) → Course t lease w
  | failing {s : SessionId} {e : SessionEntry} {err : Error} :
      w.tasks t = some (.failClosed s err) → OnlyStarts w t lease s e → Untouched s w.log →
      .engageCalled s ∈ w.log → Course t lease w
  | torn {s : SessionId} {e : SessionEntry} {cs : List Cleanup} {err : Error} :
      w.tasks t = some (.teardown s cs (.failed err)) → OnlyStarts w t lease s e →
      .entered s .browsing ∉ w.log → (err.requiresKillswitch = true → CutFirst s err w.log) →
      cs.getLast? = some (.release lease) →
      (cs = [.release lease] → lease ∈ w.lock.issued ∧ lease ∉ w.lock.unreleased) →
      Course t lease w
  | failed {s : SessionId} {e : SessionEntry} {err : Error} {r : Result Unit} :
      w.tasks t = some (.done (.error err)) → OnlyStarts w t lease s e → e.state = .failed →
      .entered s .browsing ∉ w.log → (err.requiresKillswitch = true → CutFirst s err w.log) →
      w.lock.calls t = some (.released r) → lease ∈ w.lock.issued → lease ∉ w.lock.unreleased →
      Course t lease w
  | succeeded {sum : SessionSummary} : w.tasks t = some (.done (.ok sum)) → Course t lease w

/-! ### The steps of others -/

/-- A step of others, as the start sees it. -/
structure Frame (t : TaskId) (lease : ProfileLease) (w w' : World) : Prop where
  task : w'.tasks t = w.tasks t
  entry : ∀ s e, e.lease = lease → (w'.sessions s = some e ↔ w.sessions s = some e)
  only : ∀ s e u a, w.sessions s = some e → e.lease = lease → w'.tasks u = some a →
    a.session = some s → w.tasks u = some a
  log : ∃ evs, w'.log = evs ++ w.log ∧
    ∀ s e, w.sessions s = some e → e.lease = lease → ∀ ev ∈ evs, ev.session ≠ some s
  acquired : w.lock.calls t = some (.acquired (.ok lease)) →
    w'.lock.calls t = some (.acquired (.ok lease))
  released : ∀ r, w.lock.calls t = some (.released r) → w'.lock.calls t = some (.released r)
  gaveUp : lease ∈ w.lock.issued → lease ∉ w.lock.unreleased →
    lease ∈ w'.lock.issued ∧ lease ∉ w'.lock.unreleased

theorem OnlyStarts.frame (h : OnlyStarts w t lease s e) (hf : Frame t lease w w') :
    OnlyStarts w' t lease s e where
  entry := (hf.entry s e h.lease).mpr h.entry
  lease := h.lease
  only u a hu ha := h.only u a (hf.only s e u a h.entry h.lease hu ha) ha

theorem Unregistered.frame (h : Unregistered w lease) (hf : Frame t lease w w') :
    Unregistered w' lease where
  free s e he hl := h.free s e ((hf.entry s e hl).mp he) hl
  issued := (hf.gaveUp h.issued h.unreleased).1
  unreleased := (hf.gaveUp h.issued h.unreleased).2

theorem CutFirst.append {log : List Event} (h : CutFirst s err log) (evs : List Event) :
    CutFirst s err (evs ++ log) where
  engaged := List.mem_append_right _ h.engaged
  recorded := by
    obtain ⟨ev, hev, hr⟩ := h.recorded
    exact ⟨ev, List.mem_append_right _ hev, hr⟩
  engaged_first := h.engaged_first.append_of_mem ⟨_, h.engaged, rfl⟩
  recorded_first := h.recorded_first.append_of_mem h.recorded

theorem Course.frame (h : Course t lease w) (hf : Frame t lease w w') : Course t lease w' := by
  obtain ⟨evs, hlog, hevs⟩ := hf.log
  have hnew (s : SessionId) (e : SessionEntry) (ho : OnlyStarts w t lease s e) (ev : Event)
      (hev : ev.session = some s) (hmem : ev ∈ w'.log) : ev ∈ w.log := by
    rw [hlog, List.mem_append] at hmem
    exact hmem.resolve_left fun he => hevs s e ho.entry ho.lease ev he hev
  cases h with
  | pending hp =>
    obtain ⟨⟨p, profile, host, ht⟩, hc⟩ := hp
    exact .pending ⟨⟨p, profile, host, hf.task.trans ht⟩, hf.acquired hc⟩
  | keyless ht hu => exact .keyless (hf.task.trans ht) (hu.frame hf)
  | refused ht hu hc => exact .refused (hf.task.trans ht) (hu.frame hf) (hf.released _ hc)
  | @driven s e _ _ ht ho hb =>
    refine .driven (hf.task.trans ht) (ho.frame hf) fun hpc => ?_
    obtain ⟨hcleanup, hbrowsing⟩ := hb hpc
    exact ⟨fun c hc => hcleanup c (hnew s e ho _ rfl hc),
      fun hm => hbrowsing (hnew s e ho _ rfl hm)⟩
  | @failing s e _ ht ho hb hen =>
    refine .failing (hf.task.trans ht) (ho.frame hf)
      ⟨fun c hc => hb.cleanup c (hnew s e ho _ rfl hc),
        fun hm => hb.browsing (hnew s e ho _ rfl hm)⟩ ?_
    rw [hlog]
    exact List.mem_append_right _ hen
  | @torn s e cs err ht ho hb hcut hlast hrel =>
    exact .torn (hf.task.trans ht) (ho.frame hf) (fun hm => hb (hnew s e ho _ rfl hm))
      (fun hk => hlog ▸ (hcut hk).append evs) hlast fun hcs => hf.gaveUp (hrel hcs).1 (hrel hcs).2
  | @failed s e err r ht ho hstate hb hcut hc hi hu =>
    exact .failed (hf.task.trans ht) (ho.frame hf) hstate (fun hm => hb (hnew s e ho _ rfl hm))
      (fun hk => hlog ▸ (hcut hk).append evs) (hf.released r hc) (hf.gaveUp hi hu).1
        (hf.gaveUp hi hu).2
  | succeeded ht => exact .succeeded (hf.task.trans ht)

/-- A call that begins to wait changes no other call of the lock. -/
theorem setTask_lockCalls {u : TaskId} {task : Task} (h : w.setTask u task = some w')
    (htu : t ≠ u) : w'.lock.calls t = w.lock.calls t := by
  obtain ⟨-, -, -, -, hlock, -⟩ := World.setTask_cases h
  have hsame (hlock : w'.lock = w.lock) : w'.lock.calls t = w.lock.calls t := by rw [hlock]
  have hrelease (l : ProfileLease) (hlock : w.lock.step (.release u l) = some w'.lock) :
      w'.lock.calls t = w.lock.calls t := by
    rw [(lock_release hlock).2.2, if_neg htu]
  cases task with
  | acquireLock p profile host => rw [(lock_acquire hlock).2.2, if_neg htu]
  | releaseLock l err => exact hrelease l hlock
  | drive s profile pc => cases pc <;> exact hsame hlock
  | teardown s cs ending =>
    cases cs with
    | nil => exact hsame hlock
    | cons c cs => cases c <;> first | exact hsame hlock | exact hrelease _ hlock
  | getProfile p => exact hsame hlock
  | failClosed s err => exact hsame hlock
  | done r => exact hsame hlock

theorem step_gaveUp {l : Label} (hl : w.lock.Ledger) (hs : w.step cfg l = some w')
    (hi : lease ∈ w.lock.issued) (hu : lease ∉ w.lock.unreleased) :
    lease ∈ w'.lock.issued ∧ lease ∉ w'.lock.unreleased := by
  rcases World.step_lock hs with he | ⟨op, hop, -⟩
  · rw [he]
    exact ⟨hi, hu⟩
  · exact lock_gaveUp hl hop hi hu

/-- A step of the daemon that runs another task, on another session, is a step of others. -/
theorem frame_of_step {l : Label} (hl : w.lock.Ledger) (hs : w.step cfg l = some w')
    (htask : l.task ≠ some t)
    (hother : ∀ u k seg, Runs cfg w u k l seg → seg.entry.lease ≠ lease ∧
      ∀ e, w.sessions k = some e → e.lease ≠ lease) : Frame t lease w w' := by
  have hgave (hi : lease ∈ w.lock.issued) (hu : lease ∉ w.lock.unreleased) :=
    step_gaveUp hl hs hi hu
  have htasks := World.step_tasks hs htask
  rcases World.step_cases hs with ⟨e, -, rfl⟩ | ⟨op, k, -, hop, hk, rfl⟩ | ⟨op, g, -, -, -, rfl⟩ |
    ⟨u, task, hm, hset⟩ | ⟨u, k, seg, hr, hc⟩
  · exact ⟨htasks, fun _ _ _ => Iff.rfl, fun _ _ _ _ _ _ hu _ => hu, ⟨[], rfl, by simp⟩, id,
      fun _ => id, hgave⟩
  · exact ⟨htasks, fun _ _ _ => Iff.rfl, fun _ _ _ _ _ _ hu _ => hu, ⟨[], rfl, by simp⟩,
      fun hc => lock_returned hk hop hc trivial, fun r hc => lock_returned hk hop hc trivial,
      hgave⟩
  · exact ⟨htasks, fun _ _ _ => Iff.rfl, fun _ _ _ _ _ _ hu _ => hu, ⟨[], rfl, by simp⟩, id,
      fun _ => id, hgave⟩
  · obtain ⟨hsess, hlog, -, hts, -, -⟩ := World.setTask_cases hset
    have htu : t ≠ u := by
      rintro rfl
      exact htask hm.label
    have hcalls := setTask_lockCalls hset htu
    refine ⟨htasks, fun s e _ => by rw [hsess], fun s e v a _ _ hv ha => ?_, ⟨[], hlog, by simp⟩,
      fun hc => hcalls.trans hc, fun r hc => hcalls.trans hc, hgave⟩
    rw [hts] at hv
    split_ifs at hv
    · rw [← Option.some.inj hv, hm.session] at ha
      cases ha
    · exact hv
  · obtain ⟨hsess, hts, hlog, -, -⟩ := World.commit_cases hc
    have htu : t ≠ u := by
      rintro rfl
      exact htask hr.label
    have hcalls := setTask_lockCalls hc htu
    obtain ⟨hnew, hold⟩ := hother u k seg hr
    refine ⟨htasks, fun s e he => ?_, fun s e v a hs he hv ha => ?_, ⟨seg.events, hlog, ?_⟩,
      fun hc => hcalls.trans hc, fun r hc => hcalls.trans hc, hgave⟩
    · rw [hsess]
      split_ifs with hks
      · subst hks
        exact ⟨fun h => absurd he (Option.some.inj h ▸ hnew), fun h => absurd he (hold e h)⟩
      · rfl
    · rw [hts] at hv
      split_ifs at hv
      · obtain rfl := hr.task_session (by rw [Option.some.inj hv]; exact ha)
        exact absurd he (hold e hs)
      · exact hv
    · intro s e hs he ev hev hses
      rcases hr.about ev hev with ha | ha <;> rw [hses] at ha <;> cases ha
      exact hold e hs he

/-- Others leave the lease alone: they register no session with it, and stop none. -/
theorem Course.others {l : Label} {u : TaskId} {k : SessionId} {seg : Segment}
    (h : Course t lease w) (hdone : ∀ sum, w.tasks t ≠ some (.done (.ok sum))) (hw : w.Leased)
    (hok : Unstopped lease w l) (hr : Runs cfg w u k l seg) (hut : u ≠ t) :
    seg.entry.lease ≠ lease ∧ ∀ e, w.sessions k = some e → e.lease ≠ lease := by
  have hold (e : SessionEntry) (he : w.sessions k = some e) : e.lease ≠ lease := by
    intro hlease
    have honly (s : SessionId) (f : SessionEntry) (ho : OnlyStarts w t lease s f) : False := by
      obtain rfl := hw.entry_unique k s e f he ho.entry (hlease.trans ho.lease.symm)
      rcases hr.begins with ⟨a, ha, hses⟩ | hs | rfl
      · exact hut (ho.only u a ha hses)
      · rw [he] at hs; cases hs
      · exact hok e he hlease
    cases h with
    | pending hp => exact hw.pending_entry t lease k e hp he hlease
    | keyless _ hfree => exact hfree.free k e he hlease
    | refused _ hfree _ => exact hfree.free k e he hlease
    | driven _ ho _ => exact honly _ _ ho
    | failing _ ho _ _ => exact honly _ _ ho
    | torn _ ho _ _ _ _ => exact honly _ _ ho
    | failed _ ho _ _ _ _ _ _ => exact honly _ _ ho
    | succeeded hd => exact hdone _ hd
  refine ⟨fun hlease => ?_, hold⟩
  rcases hr.keeps hw with ⟨p, l', hs, hp, -, hkeep⟩ | ⟨e, he, hkeep⟩
  · rw [hkeep.lease] at hlease
    subst hlease
    have hun := hw.pending u l' hp
    have honly (s : SessionId) (f : SessionEntry) (ho : OnlyStarts w t l' s f) : False :=
      hw.pending_entry u l' s f hp ho.entry ho.lease
    cases h with
    | pending hp' => exact hut (hw.pending_unique u t l' hp hp')
    | keyless _ hfree => exact hfree.unreleased hun
    | refused _ hfree _ => exact hfree.unreleased hun
    | driven _ ho _ => exact honly _ _ ho
    | failing _ ho _ _ => exact honly _ _ ho
    | torn _ ho _ _ _ _ => exact honly _ _ ho
    | failed _ ho _ _ _ _ _ _ => exact honly _ _ ho
    | succeeded hd => exact hdone _ hd
  · exact hold e he (hkeep.lease ▸ hlease)

/-! ### The steps of the start -/

theorem Untouched.append {log : List Event} (h : Untouched s log) (evs : List Event)
    (hc : ∀ c, .cleanup s c ∉ evs) (hb : .entered s .browsing ∉ evs) :
    Untouched s (evs ++ log) where
  cleanup c hm := (List.mem_append.mp hm).elim (hc c) (h.cleanup c)
  browsing hm := (List.mem_append.mp hm).elim hb h.browsing

/-- Nothing happened to a session that is not registered. -/
theorem untouched_of_tracked (ht : w.Tracked) (hs : w.sessions s = none) : Untouched s w.log :=
  ⟨fun _ hm => ht.event _ hm s rfl hs, fun hm => ht.event _ hm s rfl hs⟩

theorem cleanupCalls_getLast (cfg : Wiring) (e : SessionEntry) :
    (cleanupCalls cfg e).getLast? = some (.release e.lease) := by
  simp [cleanupCalls]

/-- A teardown that makes its last call gives the lease up. -/
theorem commit_release {seg : Segment} {cs : List Cleanup} {ending : Ending}
    (hc : w.commit t s seg = some w') (htask : seg.task = .teardown s (.release lease :: cs) ending)
    (hi : lease ∈ w'.lock.issued) : lease ∈ w'.lock.issued ∧ lease ∉ w'.lock.unreleased := by
  obtain ⟨-, -, -, hlock, -⟩ := World.commit_cases hc
  rw [htask] at hlock
  exact ⟨hi, fun hm => ((lock_release hlock).1 lease).mp hm |>.2 rfl⟩

theorem CutFirst.of_untouched {log : List Event} {r : AuditRecord} (h : Untouched s log)
    (hen : .engageCalled s ∈ log) (hr : Event.OfFailClosed s err (.audit r)) (first : AuditRecord) :
    CutFirst s err (.audit first :: .audit r :: log) where
  engaged := by simp [hen]
  recorded := ⟨_, by simp, hr⟩
  engaged_first := by
    refine precedes_of_forall_not fun ev hev => ?_
    rintro ⟨role, vm, rfl⟩
    simp at hev
    exact h.cleanup _ hev
  recorded_first := by
    refine precedes_of_forall_not fun ev hev => ?_
    rintro ⟨role, vm, rfl⟩
    simp at hev
    exact h.cleanup _ hev

/-- The start begins its teardown. -/
theorem Course.of_beginTeardown {evs : List Event}
    (hc : w.commit t s (beginTeardown cfg s (.failed err) e evs) = some w')
    (ho : OnlyStarts w' t lease s (beginTeardown cfg s (.failed err) e evs).entry)
    (hi : lease ∈ w'.lock.issued) (hb : .entered s .browsing ∉ evs ++ w.log)
    (hcut : err.requiresKillswitch = true → CutFirst s err (evs ++ w.log)) :
    Course t lease w' := by
  obtain ⟨-, htasks, hlog, -, -⟩ := World.commit_cases hc
  obtain ⟨c, cs, hcs, heq⟩ := beginTeardown_eq cfg s (.failed err) e evs
  rw [heq] at ho hc
  have hlease : e.lease = lease := ho.lease
  have hlast := cleanupCalls_getLast cfg e
  rw [hcs, hlease] at hlast
  rw [heq] at htasks hlog
  refine .torn (by rw [htasks, if_pos rfl]) ho ?_ (fun hk => ?_) hlast ?_
  · rw [hlog]
    simpa using hb
  · rw [hlog]
    exact (hcut hk).append [_]
  · rintro hone
    cases hone
    exact commit_release hc rfl hi

/-- The start fails before it was torn down or had browsed. -/
theorem Course.of_raise {profile : Profile} {evs : List Event}
    (hc : w.commit t s (settle cfg s profile (.raise e err evs)) = some w')
    (ho : OnlyStarts w' t lease s (settle cfg s profile (.raise e err evs)).entry)
    (hi : lease ∈ w'.lock.issued) (hb : Untouched s (evs ++ w.log)) : Course t lease w' := by
  cases hk : err.requiresKillswitch with
  | true =>
    have heq : settle cfg s profile (.raise e err evs) =
        ⟨e, .failClosed s err, .engageCalled s :: evs⟩ := by simp [settle, hk]
    rw [heq] at hc ho
    obtain ⟨-, htasks, hlog, -, -⟩ := World.commit_cases hc
    refine .failing (by rw [htasks, if_pos rfl]) ho ?_ (by rw [hlog]; simp)
    rw [hlog]
    exact hb.append [_] (by simp) (by simp)
  | false =>
    have heq : settle cfg s profile (.raise e err evs) =
        beginTeardown cfg s (.failed err) e evs := by simp [settle, hk]
    rw [heq] at hc ho
    exact .of_beginTeardown hc ho hi hb.browsing (by simp [hk])

theorem OnlyStarts.runs {l : Label} {seg : Segment} (h : OnlyStarts w t lease s e) (hw : w.Leased)
    (hr : Runs cfg w t s l seg) (hc : w.commit t s seg = some w') :
    OnlyStarts w' t lease s seg.entry := by
  obtain ⟨hsess, htasks, -, -, -⟩ := World.commit_cases hc
  refine ⟨by rw [hsess, if_pos rfl], ?_, fun u a hu ha => ?_⟩
  · rcases hr.keeps hw with ⟨p, l', hs, -⟩ | ⟨e', hs, hkeep⟩
    · rw [h.entry] at hs; cases hs
    · rw [h.entry] at hs
      cases hs
      exact hkeep.lease.trans h.lease
  · rw [htasks] at hu
    split_ifs at hu with hut
    · exact hut
    · exact h.only u a hu ha

/-- A start that still waits for a call touches its session no more than that. -/
theorem Resumes.untouched {profile : Profile} {reply : Option Gateway.Call} {pc : Drive}
    {input : Input} {flow : Flow} (h : Resumes cfg s profile reply e pc input flow) :
    (∀ c, .cleanup s c ∉ flow.events) ∧
      ((∀ e' evs, flow ≠ .await e' .touchLaunch evs) → .entered s .browsing ∉ flow.events) := by
  cases h
  case browsing =>
    refine ⟨fun c => ?_, fun hno => absurd rfl (hno _ _)⟩
    simp only [Flow.events, browsingEvents]
    split <;> simp [stateEvents]
  all_goals
    simp [Flow.events, stateEvents, preflightEvents, probeEvents]

theorem Resumes.touchLaunch {profile : Profile} {reply : Option Gateway.Call} {input : Input}
    {flow : Flow} (h : Resumes cfg s profile reply e .touchLaunch input flow) :
    ∃ sum, flow = .finish e sum [] := by
  cases h
  case callError hne _ => exact absurd rfl hne
  case gatewayError hpc =>
    obtain ⟨gw, br, hpc | hpc⟩ := hpc <;> cases hpc
  case touched => exact ⟨_, rfl⟩

theorem Course.moves {l : Label} {task : Task} (h : Course t lease w) (hw : w.Leased)
    (hl : w.lock.Ledger) (hm : Moves w t l task) (hset : w.setTask t task = some w') :
    Course t lease w' := by
  obtain ⟨hsess, -, -, htasks, hlock, -⟩ := World.setTask_cases hset
  have hmine : w'.tasks t = some task := by rw [htasks, if_pos rfl]
  have hsession {a : Task} (ha : w.tasks t = some a) : a.session = none := hm.task_before ha
  cases h with
  | pending hp =>
    obtain ⟨⟨p, profile, host, ht⟩, hc⟩ := hp
    have hp : w.Pending t lease := ⟨⟨p, profile, host, ht⟩, hc⟩
    cases hm with
    | noKey _ hl' =>
      rw [hc] at hl'
      cases hl'
      obtain ⟨hun, hiss, -⟩ := lock_release hlock
      refine .keyless hmine ⟨fun s e he => ?_, ?_, fun hm => ((hun lease).mp hm).2 rfl⟩
      · exact hw.pending_entry t lease s e hp (hsess s ▸ he)
      · rw [hiss]
        exact hl.unreleased lease (hw.pending t lease hp)
    | busy _ hl' => rw [hc] at hl'; cases hl'
    | startSession ht' | unknown ht' | refused ht' | fetched ht' | released ht' =>
      rw [ht] at ht'; cases ht'
  | keyless ht hu =>
    cases hm with
    | released ht' hr =>
      rw [ht] at ht'
      cases ht'
      have hlock : w'.lock = w.lock := hlock
      exact .refused hmine ⟨fun s e he => hu.free s e (hsess s ▸ he), hlock ▸ hu.issued,
        hlock ▸ hu.unreleased⟩ (hlock ▸ hr)
    | startSession ht' | unknown ht' | refused ht' | fetched ht' | noKey ht' | busy ht' =>
      rw [ht] at ht'; cases ht'
  | refused ht _ _ | failed ht _ _ _ _ _ _ _ | succeeded ht =>
    exact absurd ht hm.not_done
  | driven ht _ _ => cases hsession ht
  | failing ht _ _ _ => cases hsession ht
  | torn ht _ _ _ _ _ => cases hsession ht

/-- The start registers its session. -/
theorem Course.registered {l : Label} {seg : Segment} (hp : w.Pending t lease) (ht : w.Tracked)
    (hi : lease ∈ w'.lock.issued) (hr : Runs cfg w t s l seg)
    (hc : w.commit t s seg = some w') : Course t lease w' := by
  obtain ⟨⟨p, profile, host, hd⟩, hl⟩ := hp
  obtain ⟨hsess, htasks, hlog, -, -⟩ := World.commit_cases hc
  cases hr with
  | @start p' profile' host' lease' key flow input hd' hs hl' hstart =>
    rw [hl] at hl'
    cases hl'
    have hclean := untouched_of_tracked ht hs
    have ho : OnlyStarts w' t lease s (settle cfg s profile' flow).entry := by
      refine ⟨by rw [hsess, if_pos rfl], ?_, fun u a hu ha => ?_⟩
      · rw [(keeps_settle cfg s profile' flow).lease]
        cases hstart <;> rfl
      · rw [htasks] at hu
        split_ifs at hu with hut
        · exact hut
        · exact absurd hs (ht.task u a s hu ha)
    have hevents : (∀ c, .cleanup s c ∉ flow.events) ∧ .entered s .browsing ∉ flow.events := by
      cases hstart <;> simp [Flow.events, stateEvents]
    cases hstart with
    | fullVm =>
      refine .driven (by rw [htasks, if_pos rfl]; rfl) ho fun _ => ?_
      rw [hlog]
      exact hclean.append _ hevents.1 hevents.2
    | hostProbe _ _ =>
      refine .driven (by rw [htasks, if_pos rfl]; rfl) ho fun _ => ?_
      rw [hlog]
      exact hclean.append _ hevents.1 hevents.2
    | hostRefused => exact .of_raise hc ho hi (hclean.append _ hevents.1 hevents.2)
  | drive hd' _ _ => rw [hd] at hd'; cases hd'
  | failClosed hd' _ _ => rw [hd] at hd'; cases hd'
  | teardown hd' _ _ => rw [hd] at hd'; cases hd'
  | stop hd' _ _ => rw [hd] at hd'; cases hd'

/-- The start goes on, or fails. -/
theorem Course.resumed {k : SessionId} {l : Label} {seg : Segment} {profile : Profile} {pc : Drive}
    (hd : w.tasks t = some (.drive s profile pc)) (ho : OnlyStarts w t lease s e)
    (hb : pc ≠ .touchLaunch → Untouched s w.log) (hw : w.Leased) (hi : lease ∈ w'.lock.issued)
    (hr : Runs cfg w t k l seg) (hc : w.commit t k seg = some w') : Course t lease w' := by
  obtain ⟨-, htasks, hlog, -, -⟩ := World.commit_cases hc
  obtain ⟨a, ha, hses⟩ : ∃ a, w.tasks t = some a ∧ (a.session = none ∨ a.session = some k) := by
    rcases hr.task_before with hn | h
    · rw [hd] at hn; cases hn
    · exact h
  rw [hd] at ha
  cases ha
  obtain rfl : s = k := by rcases hses with h | h <;> cases h; rfl
  have ho' := ho.runs hw hr hc
  cases hr with
  | @drive profile' pc' e' input flow hd' hs hf =>
    rw [hd] at hd'
    cases hd'
    have hres := Drive.resume_cases hf
    obtain ⟨hcleanup, hbrowsing⟩ := hres.untouched
    have hpc (hno : ∀ sum, flow ≠ .finish e' sum []) : pc ≠ .touchLaunch := by
      rintro rfl
      obtain ⟨sum, hsum⟩ := hres.touchLaunch
      exact hno sum hsum
    cases flow with
    | await f next evs =>
      refine .driven (by rw [htasks, if_pos rfl]; rfl) ho' fun hnext => ?_
      rw [hlog]
      exact (hb (hpc (by simp))).append _ hcleanup (hbrowsing (by simp [hnext]))
    | finish f sum evs => exact .succeeded (by rw [htasks, if_pos rfl]; rfl)
    | raise f err evs =>
      exact .of_raise hc ho' hi ((hb (hpc (by simp))).append _ hcleanup (hbrowsing (by simp)))
  | start hd' _ _ _ => rw [hd] at hd'; cases hd'
  | failClosed hd' _ _ => rw [hd] at hd'; cases hd'
  | teardown hd' _ _ => rw [hd] at hd'; cases hd'
  | stop hd' _ _ => rw [hd] at hd'; cases hd'

/-- The kill switch is engaged: the start records it and begins its teardown. -/
theorem Course.cut {k : SessionId} {l : Label} {seg : Segment}
    (hd : w.tasks t = some (.failClosed s err)) (ho : OnlyStarts w t lease s e)
    (hb : Untouched s w.log) (hen : .engageCalled s ∈ w.log) (hw : w.Leased)
    (hi : lease ∈ w'.lock.issued) (hr : Runs cfg w t k l seg) (hc : w.commit t k seg = some w') :
    Course t lease w' := by
  cases hr with
  | @failClosed err' e' reply input hd' hs _ =>
    have hr' : Runs cfg w t k (.resume t input) _ := .failClosed hd' hs (by assumption)
    rw [hd] at hd'
    cases hd'
    refine .of_beginTeardown hc (ho.runs hw hr' hc) hi ?_ fun _ => ?_
    · simp [failClosedEvents, hb.browsing]
    · exact .of_untouched hb hen ⟨_, rfl, rfl, rfl, rfl⟩ _
  | start hd' _ _ _ => rw [hd] at hd'; cases hd'
  | drive hd' _ _ => rw [hd] at hd'; cases hd'
  | teardown hd' _ _ => rw [hd] at hd'; cases hd'
  | stop hd' _ _ => rw [hd] at hd'; cases hd'

/-- The teardown makes its next call, or writes the final state. -/
theorem Course.tears {k : SessionId} {l : Label} {seg : Segment} {cs : List Cleanup}
    (hd : w.tasks t = some (.teardown s cs (.failed err))) (ho : OnlyStarts w t lease s e)
    (hb : .entered s .browsing ∉ w.log)
    (hcut : err.requiresKillswitch = true → CutFirst s err w.log)
    (hlast : cs.getLast? = some (.release lease))
    (hrel : cs = [.release lease] → lease ∈ w.lock.issued ∧ lease ∉ w.lock.unreleased)
    (hw : w.Leased) (hi : lease ∈ w'.lock.issued) (hr : Runs cfg w t k l seg)
    (hc : w.commit t k seg = some w') : Course t lease w' := by
  obtain ⟨hsess, htasks, hlog, hlock, -⟩ := World.commit_cases hc
  cases hr with
  | @teardown c ds ending e' input hd' hs hret =>
    have hr' : Runs cfg w t k (.resume t input) _ := .teardown hd' hs hret
    rw [hd] at hd'
    cases hd'
    have ho' := ho.runs hw hr' hc
    cases ds with
    | nil =>
      obtain rfl : c = .release lease := by simpa using hlast
      have hlock : w'.lock = w.lock := hlock
      obtain ⟨r, hcalls⟩ : ∃ r, w.lock.calls t = some (.released r) := by
        cases hcall : w.lock.calls t with
        | none => rw [hcall] at hret; cases hret
        | some call =>
          cases call with
          | released r => exact ⟨r, rfl⟩
          | _ => rw [hcall] at hret; cases hret
      refine .failed (by rw [htasks, if_pos rfl]; rfl) ho' rfl ?_ (fun hk => ?_) (hlock ▸ hcalls) hi
        (hlock ▸ (hrel rfl).2)
      · rw [hlog, List.mem_append, not_or]
        refine ⟨fun hev => ?_, hb⟩
        rcases teardown_events hev with ⟨_, _, hnil, -⟩ | he | ⟨_, he⟩
        · cases hnil
        · cases he
        · cases he
      · rw [hlog]
        exact (hcut hk).append _
    | cons d ds =>
      refine .torn (by rw [htasks, if_pos rfl]; rfl) ho' ?_ (fun hk => ?_) (by simpa using hlast) ?_
      · rw [hlog, List.mem_append, not_or]
        refine ⟨fun hev => ?_, hb⟩
        rcases teardown_events hev with ⟨_, _, -, he⟩ | he | ⟨_, he⟩ <;> cases he
      · rw [hlog]
        exact (hcut hk).append _
      · intro hone
        cases hone
        exact commit_release hc rfl hi
  | start hd' _ _ _ => rw [hd] at hd'; cases hd'
  | drive hd' _ _ => rw [hd] at hd'; cases hd'
  | failClosed hd' _ _ => rw [hd] at hd'; cases hd'
  | stop hd' _ _ => rw [hd] at hd'; cases hd'

theorem Course.runs {k : SessionId} {l : Label} {seg : Segment} (h : Course t lease w)
    (hw : w.Leased) (ht : w.Tracked) (hi : lease ∈ w'.lock.issued) (hr : Runs cfg w t k l seg)
    (hc : w.commit t k seg = some w') : Course t lease w' := by
  cases h with
  | pending hp => exact .registered hp ht hi hr hc
  | keyless hd _ => cases hr <;> simp_all
  | driven hd ho hb => exact .resumed hd ho hb hw hi hr hc
  | failing hd ho hb hen => exact .cut hd ho hb hen hw hi hr hc
  | torn hd ho hb hcut hlast hrel => exact .tears hd ho hb hcut hlast hrel hw hi hr hc
  | refused hd _ _ | failed hd _ _ _ _ _ _ _ | succeeded hd => exact absurd hd hr.not_done

theorem Course.issued (h : Course t lease w) (hw : w.Leased) (hl : w.lock.Ledger)
    (hdone : ∀ sum, w.tasks t ≠ some (.done (.ok sum))) : lease ∈ w.lock.issued := by
  have honly {s : SessionId} {e : SessionEntry} (ho : OnlyStarts w t lease s e) :
      lease ∈ w.lock.issued := ho.lease ▸ (hw.entry s e ho.entry).1
  cases h with
  | pending hp => exact hl.unreleased lease (hw.pending t lease hp)
  | keyless _ hu => exact hu.issued
  | refused _ hu _ => exact hu.issued
  | driven _ ho _ => exact honly ho
  | failing _ ho _ _ => exact honly ho
  | torn _ ho _ _ _ _ => exact honly ho
  | failed _ _ _ _ _ _ hi _ => exact hi
  | succeeded hd => exact absurd hd (hdone _)

theorem step_issued {l : Label} (hs : w.step cfg l = some w') (hi : lease ∈ w.lock.issued) :
    lease ∈ w'.lock.issued := by
  rcases World.step_lock hs with he | ⟨op, hop, -⟩
  · rw [he]; exact hi
  · cases hint : internalLock op with
    | true => exact (lock_internal hop hint).2.1 lease hi
    | false =>
      cases op <;> simp [internalLock] at hint
      · exact (lock_acquire hop).2.1 ▸ hi
      · exact (lock_release hop).2.1 ▸ hi

theorem Course.step {l : Label} (h : Course t lease w)
    (hreach : Reach (World.step cfg) World.Initial anyStep w) (hok : Unstopped lease w l)
    (hs : w.step cfg l = some w') : Course t lease w' := by
  have hw := World.leased_of_reach hreach
  have ht := tracked_of_reach hreach
  have hl := World.lockLedger_of_reach hreach
  by_cases hdone : ∃ sum, w.tasks t = some (.done (.ok sum))
  · obtain ⟨sum, hd⟩ := hdone
    exact .succeeded (World.step_done hs hd)
  have hdone (sum : SessionSummary) (hd : w.tasks t = some (.done (.ok sum))) : False :=
    hdone ⟨sum, hd⟩
  by_cases htask : l.task = some t
  · rcases World.step_cases hs with ⟨e, rfl, -⟩ | ⟨op, k, rfl, -⟩ | ⟨op, g, rfl, -⟩ |
      ⟨u, task, hm, hset⟩ | ⟨u, k, seg, hr, hc⟩
    · cases htask
    · cases htask
    · cases htask
    · obtain rfl : u = t := Option.some.inj (hm.label.symm.trans htask)
      exact h.moves hw hl hm hset
    · obtain rfl : u = t := Option.some.inj (hr.label.symm.trans htask)
      exact h.runs hw ht (step_issued hs (h.issued hw hl hdone)) hr hc
  · refine h.frame (frame_of_step hl hs htask fun u k seg hr => ?_)
    refine h.others hdone hw hok hr ?_
    rintro rfl
    exact htask hr.label

theorem course_of_reach {w₀ : World} (h0 : Reach (World.step cfg) World.Initial anyStep w₀)
    (hacq : w₀.Pending t lease)
    (hr : Reach (World.step cfg) (· = w₀) (Unstopped lease) w) :
    Course t lease w ∧ Reach (World.step cfg) World.Initial anyStep w := by
  induction hr with
  | start hi =>
    subst hi
    exact ⟨.pending hacq, h0⟩
  | next hr hok hs ih => exact ⟨ih.1.step ih.2 hok hs, ih.2.next trivial hs⟩

/-! ### Its session is tidied up -/

/-- A session keeps its lease. -/
theorem step_lease {l : Label} (hw : w.Leased) (hs : w.step cfg l = some w')
    (he : w.sessions s = some e) : ∃ e', w'.sessions s = some e' ∧ e'.lease = e.lease := by
  rcases World.step_cases hs with ⟨_, -, rfl⟩ | ⟨op, k, -, -, -, rfl⟩ | ⟨op, g, -, -, -, rfl⟩ |
    ⟨u, task, hm, hset⟩ | ⟨u, k, seg, hr, hc⟩
  · exact ⟨e, he, rfl⟩
  · exact ⟨e, he, rfl⟩
  · exact ⟨e, he, rfl⟩
  · obtain ⟨hsess, -, -, -, -, -⟩ := World.setTask_cases hset
    exact ⟨e, (hsess s).trans he, rfl⟩
  · obtain ⟨hsess, -, -, -, -⟩ := World.commit_cases hc
    by_cases hks : s = k
    · subst hks
      refine ⟨seg.entry, by rw [hsess, if_pos rfl], ?_⟩
      rcases hr.keeps hw with ⟨p, l', hn, -⟩ | ⟨e', he', hkeep⟩
      · rw [he] at hn; cases hn
      · rw [he] at he'
        cases he'
        exact hkeep.lease
    · exact ⟨e, by rw [hsess, if_neg hks]; exact he, rfl⟩

/-- A session that is not registered yet was never stopped beside another call. -/
theorem stopsAlone_of_unregistered (hr : Reach (World.step cfg) World.Initial anyStep w)
    (hs : w.sessions s = none) : Reach (World.step cfg) World.Initial (StopsAlone s) w := by
  induction hr with
  | start hi => exact .start hi
  | @next w w' l hr _ hstep ih =>
    have hbefore : w.sessions s = none := by
      cases he : w.sessions s with
      | none => rfl
      | some e =>
        obtain ⟨e', he', -⟩ := step_lease (World.leased_of_reach hr) hstep he
        rw [hs] at he'
        cases he'
    refine (ih hbefore).next ?_ hstep
    cases l with
    | stopSession u k =>
      rintro rfl t a ha hses
      exact (tracked_of_reach hr).task t a k ha hses hbefore
    | _ => trivial

/-- The session that is registered with the lease is never stopped beside another call. -/
theorem stopsAlone_of_unstopped {w₀ : World}
    (h0 : Reach (World.step cfg) World.Initial anyStep w₀) (hacq : w₀.Pending t lease)
    (hr : Reach (World.step cfg) (· = w₀) (Unstopped lease) w)
    (hlease : ∀ e, w.sessions s = some e → e.lease = lease) :
    Reach (World.step cfg) World.Initial (StopsAlone s) w := by
  induction hr with
  | start hi =>
    subst hi
    refine stopsAlone_of_unregistered h0 ?_
    cases he : World.sessions _ s with
    | none => rfl
    | some e =>
      exact absurd (hlease e he)
        ((World.leased_of_reach h0).pending_entry t lease s e hacq he)
  | @next w w' l hr hok hs ih =>
    have hreach := (course_of_reach h0 hacq hr).2
    have hbefore (e : SessionEntry) (he : w.sessions s = some e) : e.lease = lease := by
      obtain ⟨e', he', hl⟩ := step_lease (World.leased_of_reach hreach) hs he
      exact hl.symm.trans (hlease e' he')
    refine (ih hbefore).next ?_ hs
    cases l with
    | stopSession u k =>
      rintro rfl t' a ha hses
      cases he : w.sessions k with
      | none => exact (tracked_of_reach hreach).task t' a k ha hses he
      | some e => exact hok e he (hbefore e he)
    | _ => trivial

/-! ### A failed start cleans up -/

/-- From the moment a start has its lease, with any calls interleaving but a stop of its session:
if it returns an error, it has released the lease, and it has cleaned up the session it
registered. -/
theorem failedStart_cleansUp {w₀ : World}
    (h0 : Reach (World.step cfg) World.Initial anyStep w₀) (hacq : w₀.Pending t lease)
    (hr : Reach (World.step cfg) (· = w₀) (Unstopped lease) w)
    (herr : w.tasks t = some (.done (.error err))) :
    (lease ∈ w.lock.issued ∧ lease ∉ w.lock.unreleased ∧
      ∃ r, w.lock.calls t = some (.released r)) ∧
    ∀ s e, w.sessions s = some e → e.lease = lease → CleanedUp s e err w.log := by
  obtain ⟨hcourse, hreach⟩ := course_of_reach h0 hacq hr
  cases hcourse with
  | refused hd hu hc =>
    exact ⟨⟨hu.issued, hu.unreleased, _, hc⟩, fun s e he hl => absurd hl (hu.free s e he)⟩
  | @failed s e err' r hd ho hstate hb hcut hc hi hu =>
    rw [herr] at hd
    cases hd
    refine ⟨⟨hi, hu, r, hc⟩, fun s' e' he hl => ?_⟩
    obtain rfl := (World.leased_of_reach hreach).entry_unique s' s e' e he ho.entry
      (hl.trans ho.lease.symm)
    obtain rfl : e = e' := Option.some.inj (ho.entry.symm.trans he)
    have halone := stopsAlone_of_unstopped h0 hacq hr fun f hf => by
      rw [he] at hf
      cases hf
      exact hl
    -- every call that worked on the session has returned
    have hreturned (u : TaskId) (a : Task) (ha : w.tasks u = some a) : a.session ≠ some s' := by
      intro hses
      obtain rfl := ho.only u a ha hses
      rw [herr] at ha
      cases ha
      cases hses
    obtain ⟨hvm, hbrowser⟩ := (alone_of_reach halone).2.disposed he (.inr (.inr hstate)) hreturned
    exact ⟨hvm, hbrowser, hstate, hb, hcut⟩
  | pending hp =>
    obtain ⟨⟨p, profile, host, hd⟩, -⟩ := hp
    rw [herr] at hd; cases hd
  | keyless hd _ => rw [herr] at hd; cases hd
  | driven hd _ _ => rw [herr] at hd; cases hd
  | failing hd _ _ _ => rw [herr] at hd; cases hd
  | torn hd _ _ _ _ _ => rw [herr] at hd; cases hd
  | succeeded hd => rw [herr] at hd; cases hd

/-- A test that a step stops no session. -/
def stopsNone (_ : World) : Label → Bool
  | .stopSession _ _ => false
  | _ => true

theorem stopsNone_sound (lease : ProfileLease) (w : World) (l : Label) (h : stopsNone w l = true) :
    Unstopped lease w l := by
  cases l with
  | stopSession u k => cases h
  | _ => trivial

/-- The start whose preflight refuses, when it has its lease. -/
def leaseAcquired : World := (exec (World.step daemon) booted (refusedRun.take 5)).getD booted

theorem refusedRun_returns :
    (exec (fun w l => if stopsNone w l then World.step daemon w l else none) leaseAcquired
      (refusedRun.drop 5 ++ [.resume 0 .returned])).map (fun w => (w.tasks 0,
        (w.sessions ⟨0⟩).map SessionEntry.lease, w.log.filter Event.OfResource)) =
    some (some (.done (.error (.networkContainment
        ("preflight did not permit browsing; failing checks: [" ++ ", ".intercalate
          ((ConnectivityChecklist.new []).failures.map CheckId.asStr) ++ "]")))),
      some ⟨⟨0⟩, Store.LockSystem.repeated 'a'⟩,
      [.cleanup ⟨0⟩ (.destroy .gateway ⟨10⟩), .cleanup ⟨0⟩ (.destroy .browser ⟨11⟩),
        .provisioned ⟨0⟩ .browser ⟨11⟩, .provisioned ⟨0⟩ .gateway ⟨10⟩]) := rfl

/-- A start refused by its preflight cleans up both VMs it provisioned. -/
theorem failedStart_refusedRun : ∃ (w : World) (e : SessionEntry) (text : String),
    .provisioned ⟨0⟩ .gateway ⟨10⟩ ∈ w.log ∧
      CleanedUp ⟨0⟩ e (.networkContainment text) w.log := by
  obtain ⟨w, hw, hend⟩ := Option.map_eq_some_iff.mp refusedRun_returns
  obtain ⟨herr, hend⟩ := Prod.mk.inj hend
  obtain ⟨hlease, hlog⟩ := Prod.mk.inj hend
  obtain ⟨e, he, hl⟩ := Option.map_eq_some_iff.mp hlease
  have hrun : exec (World.step daemon) booted (refusedRun.take 5) = some leaseAcquired := rfl
  have hstart : Reach (World.step daemon) (· = leaseAcquired)
    (Unstopped ⟨⟨0⟩, Store.LockSystem.repeated 'a'⟩) leaseAcquired := .start rfl
  have hmem : Event.provisioned ⟨0⟩ .gateway ⟨10⟩ ∈ w.log.filter Event.OfResource := by
    rw [hlog]
    simp
  exact ⟨w, e, _, (List.mem_filter.mp hmem).1,
    (failedStart_cleansUp ((Reach.start booted_initial).exec hrun) ⟨⟨_, _, _, rfl⟩, rfl⟩
      (hstart.execWhere (stopsNone_sound _) hw) herr).2 ⟨0⟩ e he hl⟩

end Aegis.Orchestrator
