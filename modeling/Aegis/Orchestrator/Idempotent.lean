import Aegis.Orchestrator.Leases
import Aegis.Orchestrator.Cleanup
import Aegis.Store.Removal

/-! Stopping a session again: what the teardown of a session that ended does to the others. -/
namespace Aegis.Orchestrator
open Store Transition

variable {cfg : Wiring} {w w' : World} {t : TaskId} {s : SessionId}

/-- The session has the user-data directory: its entry names it, and no teardown of the session
removed it. -/
def World.UsesDir (w : World) (u : SessionId) (dir : String) : Prop :=
  ∃ e eph engine, w.sessions u = some e ∧ e.mode = .hostProcess dir eph engine ∧
    .cleanup u (.removeDir dir) ∉ w.log

/-- A call that `t` makes for the session takes nothing from another one: what it terminates or
destroys was launched or provisioned for the session itself, no other session has the directory
or the lease, and the lock file it is about to remove is the session's own. -/
def World.Harmless (w : World) (t : TaskId) (s : SessionId) : Cleanup → Prop
  | .terminate h => .launched s h ∈ w.log
  | .removeDir dir => ∀ u, u ≠ s → ¬ w.UsesDir u dir
  | .shutdown vm => ∃ role, .provisioned s role vm ∈ w.log
  | .destroy role vm => .provisioned s role vm ∈ w.log
  | .release l => (∀ u e, u ≠ s → w.sessions u = some e → e.lease ≠ l) ∧
    (∀ u, ¬ w.Pending u l) ∧
    (w.lock.calls t = some (.releaseRemove l) →
      w.lock.files l.profile = none ∨ ∃ i, w.lock.files l.profile = some ⟨i, l.token.text⟩)

/-- Whatever call the stop `t` of the session is waiting for is harmless. -/
def HarmlessStop (t : TaskId) (s : SessionId) (w : World) : Prop :=
  ∀ c cs ending, w.tasks t = some (.teardown s (c :: cs) ending) → w.Harmless t s c

/-- While the stop `t` has a directory to remove, no start of another session comes to use it,
and while it has yet to remove its lock file, none of that profile is created. -/
def StopsApart (cfg : Wiring) (t : TaskId) (s : SessionId) (w : World) : Label → Prop
  | .resume u (.reachable (.ok true) _) => ∀ k profile proxy cs ending,
    w.tasks u = some (.drive k profile (.proxyReachable proxy)) → k ≠ s →
    w.tasks t = some (.teardown s cs ending) → .removeDir (cfg.hostUserDataDir profile) ∉ cs
  | .lock op => w.lock.CreatesApart t op
  | _ => True

/-- The stop is harmless so far, and will be. -/
structure Apart (t : TaskId) (s : SessionId) (w : World) : Prop where
  task : (∃ cs ending, w.tasks t = some (.teardown s cs ending)) ∨ ∃ r, w.tasks t = some (.done r)
  dir : ∀ cs ending dir, w.tasks t = some (.teardown s cs ending) → .removeDir dir ∈ cs →
    ∀ u, u ≠ s → ¬ w.UsesDir u dir
  lock : ∀ l cs ending, w.tasks t = some (.teardown s (.release l :: cs) ending) →
    w.lock.RemovesOwn t

/-! ### The directories -/

/-- Only the answer of the proxy makes an entry name a directory. -/
theorem Runs.mode {l : Label} {seg : Segment} {dir : String} {eph : Bool}
    {engine : BrowserBackendId} (h : Runs cfg w t s l seg)
    (hm : seg.entry.mode = .hostProcess dir eph engine) :
    (∃ e, w.sessions s = some e ∧ e.mode = .hostProcess dir eph engine) ∨
    ∃ profile proxy bundle, l = .resume t (.reachable (.ok true) bundle) ∧
      w.tasks t = some (.drive s profile (.proxyReachable proxy)) ∧
      dir = cfg.hostUserDataDir profile := by
  cases h with
  | @start _ profile _ _ _ flow _ _ _ _ hstart =>
    rw [(settle_entry profile flow).2] at hm
    cases hstart <;> cases hm
  | @drive profile pc e input flow hd hs hf =>
    rw [(settle_entry profile flow).2] at hm
    have hres := Drive.resume_cases hf
    clear hf
    cases hres
    case proxyReached proxy bundle req _ _ =>
      cases hm
      exact .inr ⟨profile, proxy, _, rfl, hd, rfl⟩
    case proxyUnsafe proxy bundle err _ =>
      cases hm
      exact .inr ⟨profile, proxy, _, rfl, hd, rfl⟩
    all_goals exact .inl ⟨e, hs, hm⟩
  | @failClosed err e _ _ _ hs _ =>
    obtain ⟨c, cs, -, heq⟩ := beginTeardown_eq cfg s (.failed err) e (failClosedEvents s e err)
    rw [heq] at hm
    exact .inl ⟨e, hs, hm⟩
  | @teardown c cs ending e input _ hs _ => cases cs <;> exact .inl ⟨e, hs, hm⟩
  | @stop e e' evs _ hs hcases =>
    obtain ⟨-, hentry, -⟩ := stop_entry hcases
    obtain ⟨c, cs, -, heq⟩ := beginTeardown_eq cfg s .stopped e' evs
    rw [heq] at hm
    refine .inl ⟨e, hs, ?_⟩
    rw [hentry] at hm
    exact hm

theorem step_usesDir {l : Label} {u : SessionId} {dir : String} (hs : w.step cfg l = some w')
    (hu : w'.UsesDir u dir) :
    w.UsesDir u dir ∨ ∃ v profile proxy bundle, l = .resume v (.reachable (.ok true) bundle) ∧
      w.tasks v = some (.drive u profile (.proxyReachable proxy)) ∧
      dir = cfg.hostUserDataDir profile := by
  obtain ⟨e, eph, engine, he, hm, hno⟩ := hu
  rcases World.step_cases hs with ⟨_, -, rfl⟩ | ⟨op, k, -, -, -, rfl⟩ | ⟨op, g, -, -, -, rfl⟩ |
    ⟨v, task, -, hset⟩ | ⟨v, k, seg, hr, hc⟩
  · exact .inl ⟨e, eph, engine, he, hm, hno⟩
  · exact .inl ⟨e, eph, engine, he, hm, hno⟩
  · exact .inl ⟨e, eph, engine, he, hm, hno⟩
  · obtain ⟨hsess, hlog, -, -, -, -⟩ := World.setTask_cases hset
    exact .inl ⟨e, eph, engine, (hsess u).symm.trans he, hm, hlog ▸ hno⟩
  · obtain ⟨hsess, -, hlog, -, -⟩ := World.commit_cases hc
    rw [hlog, List.mem_append, not_or] at hno
    rw [hsess] at he
    split_ifs at he with huk
    · subst huk
      cases he
      rcases hr.mode hm with ⟨e', he', hm'⟩ | ⟨profile, proxy, bundle, hl, hd, hdir⟩
      · exact .inl ⟨e', eph, engine, he', hm', hno.2⟩
      · exact .inr ⟨v, profile, proxy, bundle, hl, hd, hdir⟩
    · exact .inl ⟨e, eph, engine, he, hm, hno.2⟩

/-! ### The lock file -/

theorem World.written_of_reach (hr : Reach (World.step cfg) World.Initial anyStep w) :
    w.lock.Written := by
  refine hr.invariant (fun w h => h.lock ▸ LockSystem.written_initial) fun w l w' _ h _ hs => ?_
  rcases step_lock hs with he | ⟨op, hop, -⟩
  · rw [he]
    exact h
  · exact h.step hop

theorem step_removesOwn {l : Label} (h : w.lock.RemovesOwn t) (hw : w.lock.Written)
    (hok : StopsApart cfg t s w l) (hs : w.step cfg l = some w') : w'.lock.RemovesOwn t := by
  rcases World.step_lock hs with he | ⟨op, hop, rfl | hint⟩
  · rw [he]
    exact h
  · exact h.step hw hok hop
  · refine h.step hw ?_ hop
    rintro u p token rfl
    cases hint

/-- A release that has just begun has read nothing. -/
theorem removesOwn_of_release {a b : LockSystem} {l : ProfileLease}
    (h : a.step (.release t l) = some b) : b.RemovesOwn t := by
  intro c k hc hk
  rw [(lock_release h).2.2, if_pos rfl] at hc
  cases hc
  cases hk

/-! ### The stop -/

/-- A teardown that is resumed makes its next call, or ends. -/
theorem step_teardown {l : Label} {cs : List Cleanup} {ending : Ending}
    (hs : w.step cfg l = some w') (ht : w.tasks t = some (.teardown s cs ending)) :
    w'.tasks t = some (.teardown s cs ending) ∨
    ∃ c ds e evs, cs = c :: ds ∧ w.commit t s (teardown s ending e evs ds) = some w' := by
  rcases World.step_waits hs ht with hw | ⟨input, rfl⟩
  · exact .inl hw
  rcases World.step_cases hs with ⟨_, he, -⟩ | ⟨_, _, he, -⟩ | ⟨_, _, he, -⟩ | ⟨v, task, hm, -⟩ |
    ⟨v, k, seg, hr, hc⟩
  · cases he
  · cases he
  · cases he
  · obtain rfl : t = v := Option.some.inj hm.label
    exact absurd ht hm.of_teardown
  · obtain rfl : t = v := Option.some.inj hr.label
    obtain ⟨c, ds, e, input, rfl, rfl, -, rfl⟩ := hr.of_teardown ht
    exact .inr ⟨c, ds, e, _, rfl, hc⟩

theorem Apart.step {l : Label} (h : Apart t s w) (hw : w.lock.Written)
    (hok : StopsApart cfg t s w l) (hs : w.step cfg l = some w') : Apart t s w' := by
  have hdir (cs cs' : List Cleanup) (ending : Ending)
      (ht : w.tasks t = some (.teardown s cs ending)) (hsub : cs' ⊆ cs) (dir : String)
      (hmem : .removeDir dir ∈ cs') (u : SessionId) (hu : u ≠ s) : ¬ w'.UsesDir u dir := by
    intro huse
    rcases step_usesDir hs huse with hold | ⟨v, profile, proxy, bundle, rfl, hd, rfl⟩
    · exact h.dir cs ending dir ht (hsub hmem) u hu hold
    · exact hok u profile proxy cs ending hd hu ht (hsub hmem)
  rcases h.task with ⟨cs, ending, ht⟩ | ⟨r, hd⟩
  · rcases step_teardown hs ht with hsame | ⟨c, ds, e, evs, rfl, hc⟩
    · refine ⟨.inl ⟨cs, ending, hsame⟩, ?_, ?_⟩
      · intro cs' ending' dir ht'
        rw [hsame] at ht'
        cases ht'
        exact hdir cs cs ending ht (List.Subset.refl _) dir
      · intro l cs' ending' ht'
        rw [hsame] at ht'
        cases ht'
        exact step_removesOwn (h.lock l cs' _ ht) hw hok hs
    · obtain ⟨-, htasks, -, hlock, -⟩ := World.commit_cases hc
      have hmine : w'.tasks t = some (teardown s ending e evs ds).task := by rw [htasks, if_pos rfl]
      cases ds with
      | nil =>
        refine ⟨.inr ⟨_, hmine⟩, ?_, ?_⟩
        · intro cs' ending' dir ht'
          rw [hmine] at ht'
          cases ht'
        · intro l cs' ending' ht'
          rw [hmine] at ht'
          cases ht'
      | cons d ds =>
        refine ⟨.inl ⟨_, _, hmine⟩, ?_, ?_⟩
        · intro cs' ending' dir ht'
          rw [hmine] at ht'
          cases ht'
          exact hdir _ _ ending ht (List.subset_cons_self ..) dir
        · intro l cs' ending' ht'
          rw [hmine] at ht'
          cases ht'
          exact removesOwn_of_release hlock
  · have hdone := World.step_done hs hd
    refine ⟨.inr ⟨r, hdone⟩, ?_, ?_⟩
    · intro cs ending dir ht
      rw [hdone] at ht
      cases ht
    · intro l cs ending ht
      rw [hdone] at ht
      cases ht

/-- A directory is removed only where the entry names it. -/
theorem mode_of_removeDir {e : SessionEntry} {dir : String}
    (h : .removeDir dir ∈ cleanupCalls cfg e) :
    ∃ engine, e.mode = .hostProcess dir true engine := by
  simp only [cleanupCalls, List.mem_append, or_assoc] at h
  rcases h with h | h | h | h | h
  · split at h
    · simp at h
    · split at h <;> simp at h
    · simp at h
  · split at h
    next dir' engine hm =>
      cases List.mem_singleton.mp h
      exact ⟨engine, hm⟩
    · simp at h
  · split at h <;> simp at h
  · split at h <;> simp at h
  · simp at h

/-- The stop begins. -/
theorem apart_of_stop {e : SessionEntry} (hs : w.step cfg (.stopSession t s) = some w')
    (he : w.sessions s = some e)
    (hdir : ∀ dir engine, e.mode = .hostProcess dir true engine → ∀ u, u ≠ s → ¬ w.UsesDir u dir) :
    Apart t s w' := by
  rcases World.step_cases hs with ⟨_, hl, -⟩ | ⟨_, _, hl, -⟩ | ⟨_, _, hl, -⟩ | ⟨v, task, hm, -⟩ |
    ⟨v, k, seg, hr, hc⟩
  · cases hl
  · cases hl
  · cases hl
  · cases hm with
    | unknown _ hn => rw [he] at hn; cases hn
  · cases hr with
    | @stop e' e'' evs _ he' hcases =>
      rw [he] at he'
      cases he'
      obtain ⟨-, hentry, -⟩ := stop_entry hcases
      obtain ⟨c, cs, hcalls, heq⟩ := beginTeardown_eq cfg s .stopped e'' evs
      rw [heq] at hc
      obtain ⟨-, htasks, -, hlock, -⟩ := World.commit_cases hc
      have hmine : w'.tasks t = some (.teardown s (c :: cs) .stopped) := by rw [htasks, if_pos rfl]
      refine ⟨.inl ⟨_, _, hmine⟩, ?_, ?_⟩
      · intro cs' ending dir ht hmem u hu huse
        rw [hmine] at ht
        cases ht
        rw [← hcalls, hentry] at hmem
        obtain ⟨engine, hmode⟩ := mode_of_removeDir hmem
        rcases step_usesDir hs huse with hold | ⟨_, _, _, _, hl, -⟩
        · exact hdir dir engine hmode u hu hold
        · cases hl
      · intro l cs' ending ht
        rw [hmine] at ht
        cases ht
        exact removesOwn_of_release hlock

/-- From the moment a session is stopped, any calls interleaving: the stop takes nothing from
another session if none has the directory that the entry of the stopped session still names, and
as long as it stays apart from the starts of its profile. -/
theorem harmlessStop_of_reach {w₀ w₁ : World} {e : SessionEntry}
    (h0 : Reach (World.step cfg) World.Initial anyStep w₀) (he : w₀.sessions s = some e)
    (hdir : ∀ dir engine, e.mode = .hostProcess dir true engine → ∀ u, u ≠ s → ¬ w₀.UsesDir u dir)
    (hs : w₀.step cfg (.stopSession t s) = some w₁)
    (hr : Reach (World.step cfg) (· = w₁) (StopsApart cfg t s) w) : HarmlessStop t s w := by
  obtain ⟨hapart, hreach⟩ : Apart t s w ∧ Reach (World.step cfg) World.Initial anyStep w := by
    induction hr with
    | start hi =>
      subst hi
      exact ⟨apart_of_stop hs he hdir, h0.next trivial hs⟩
    | next hr hok hs ih =>
      exact ⟨ih.1.step (World.written_of_reach ih.2) hok hs, ih.2.next trivial hs⟩
  intro c cs ending ht
  have hown := (owning_of_reach hreach).calls t s _ ending c ht List.mem_cons_self
  cases c with
  | terminate b => exact hown
  | removeDir dir => exact hapart.dir _ ending dir ht List.mem_cons_self
  | shutdown vm => exact hown
  | destroy role vm => exact hown
  | release l =>
    have hleased := World.leased_of_reach hreach
    obtain ⟨f, hf⟩ := Option.ne_none_iff_exists'.mp
      ((tracked_of_reach hreach).task t _ s ht rfl)
    obtain rfl : l = f.lease := hleased.release t s _ ending f l ht hf List.mem_cons_self
    refine ⟨fun u g hu hg hl => hu (hleased.entry_unique u s g f hg hf hl), fun u hp => ?_, ?_⟩
    · exact hleased.pending_entry u _ s f hp hf rfl
    · exact fun hc => hapart.lock _ cs ending ht _ _ hc rfl

/-! ### A host-process session that is stopped twice -/

/-- An ephemeral Tor profile that browses on the host. -/
def hostProfile (p : ProfileId) : Profile :=
  { torProfile p with spec := { (torProfile p).spec with isolation := .hostProcess } }

/-- Request `t` starts session `s` of profile 0, until it has returned. -/
def hostRun (t : TaskId) (s : SessionId) (token : LockToken) : List Label :=
  [.startSession t ⟨0⟩, .resume t (.profile (.ok (hostProfile ⟨0⟩))), .lock (.stat t true token),
    .lock (.create t none), .lock (.write t none), .resume t (.registered s (.ok 0) ⟨0⟩),
    .resume t (.reachable (.ok true) (.ok safeBundle)),
    .resume t (.launched (.ok ⟨s, .chromium, "pid"⟩)), .resume t (.running (.ok true)),
    .resume t .returned]

/-- Session 0 browses on the host and is stopped. -/
def hostStoppedRun : List Label :=
  .setEnforcement { Enforcement.secure with allowHostBrowser := true } ::
    hostRun 0 ⟨0⟩ (LockSystem.repeated 'a') ++
    [.stopSession 1 ⟨0⟩, .resume 1 .returned, .resume 1 .returned, .lock (.read 1 none),
      .lock (.compare 1), .lock (.remove 1 none), .resume 1 .returned]

def hostStopped : World := (exec (World.step daemon) booted hostStoppedRun).getD booted

/-- The directory of the profile's sessions. -/
def hostDir : String := daemon.hostUserDataDir (hostProfile ⟨0⟩)

def Event.IsRegistered : Event → Bool
  | .registered _ _ => true
  | _ => false

theorem hostStopped_reached : Reach (World.step daemon) World.Initial anyStep hostStopped := by
  have hrun : exec (World.step daemon) booted hostStoppedRun = some hostStopped := rfl
  exact (Reach.start booted_initial).exec hrun

/-- While no other session is registered, stopping session 0 again is harmless. -/
theorem harmlessStop_hostStopped : ∃ w : World,
    w.tasks 3 = some (.teardown ⟨0⟩ [.removeDir hostDir,
      .release ⟨⟨0⟩, LockSystem.repeated 'a'⟩] .stopped) ∧ HarmlessStop 3 ⟨0⟩ w := by
  obtain ⟨e, he⟩ : ∃ e, hostStopped.sessions ⟨0⟩ = some e := ⟨_, rfl⟩
  have hregistered : hostStopped.log.filter Event.IsRegistered =
    [.registered ⟨0⟩ (hostProfile ⟨0⟩)] := rfl
  have halone (dir : String) (u : SessionId) (hu : u ≠ ⟨0⟩) : ¬ hostStopped.UsesDir u dir := by
    rintro ⟨f, eph, engine, hf, hm, -⟩
    obtain ⟨profile, hreg, -⟩ := ((owning_of_reach hostStopped_reached).entry u f hf).dir _ _ _ hm
    have hmem : Event.registered u profile ∈ hostStopped.log.filter Event.IsRegistered :=
      List.mem_filter.mpr ⟨hreg, rfl⟩
    rw [hregistered, List.mem_singleton] at hmem
    cases hmem
    exact hu rfl
  have hstep : ∃ w, hostStopped.step daemon (.stopSession 3 ⟨0⟩) = some w ∧
    w.tasks 3 = some (.teardown ⟨0⟩ [.removeDir hostDir,
      .release ⟨⟨0⟩, LockSystem.repeated 'a'⟩] .stopped) := ⟨_, rfl, rfl⟩
  obtain ⟨w, hw, ht⟩ := hstep
  exact ⟨w, ht, harmlessStop_of_reach hostStopped_reached he (fun dir _ _ => halone dir) hw
    (.start rfl)⟩

/-- Session 1 of the same profile browses after session 0 was stopped. -/
def hostSecond : World :=
  (exec (World.step daemon) hostStopped (hostRun 2 ⟨1⟩ (LockSystem.repeated 'b'))).getD hostStopped

/-- Stopping session 0 again, which is `Destroyed`, removes the directory of session 1. -/
theorem hostSecond_stoppedAgain : ∃ (w : World) (e : SessionEntry),
    Reach (World.step daemon) World.Initial anyStep hostSecond ∧
      hostSecond.sessions ⟨0⟩ = some e ∧ e.state = .destroyed ∧
      hostSecond.step daemon (.stopSession 3 ⟨0⟩) = some w ∧ ¬ HarmlessStop 3 ⟨0⟩ w := by
  have hrun : exec (World.step daemon) hostStopped (hostRun 2 ⟨1⟩ (LockSystem.repeated 'b')) =
    some hostSecond := rfl
  obtain ⟨e, he, hstate⟩ : ∃ e, hostSecond.sessions ⟨0⟩ = some e ∧ e.state = .destroyed :=
    ⟨_, rfl, rfl⟩
  have hstep : ∃ w, hostSecond.step daemon (.stopSession 3 ⟨0⟩) = some w ∧
      w.tasks 3 = some (.teardown ⟨0⟩ [.removeDir hostDir,
        .release ⟨⟨0⟩, LockSystem.repeated 'a'⟩] .stopped) ∧
      (w.sessions ⟨1⟩).map SessionEntry.mode = some (.hostProcess hostDir true .chromium) ∧
      called w.log ⟨1⟩ (.removeDir hostDir) = false := ⟨_, rfl, rfl, rfl, rfl⟩
  obtain ⟨w, hw, ht, hmode, hcalled⟩ := hstep
  refine ⟨w, e, hostStopped_reached.exec hrun, he, hstate, hw, fun h => ?_⟩
  obtain ⟨f, hf, hm⟩ := Option.map_eq_some_iff.mp hmode
  refine h _ _ _ ht ⟨1⟩ (by decide) ⟨f, true, .chromium, hf, hm, fun hmem => ?_⟩
  rw [called_iff.mpr hmem] at hcalled
  cases hcalled

end Aegis.Orchestrator
