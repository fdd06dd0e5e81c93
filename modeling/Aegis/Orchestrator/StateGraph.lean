import Aegis.Orchestrator.Cleanup
import Mathlib.Data.List.Chain

/-! The states written to a session, over every run: which writes follow the state graph. -/
namespace Aegis.Orchestrator
open Transition

variable {cfg : Wiring} {w w' : World} {t : TaskId} {s : SessionId}

/-- The states written to a session, newest first. -/
def written (s : SessionId) (log : List Event) : List SessionState :=
  log.filterMap fun ev => match ev with
    | .entered u state => if u = s then some state else none
    | _ => none

/-- A write leaves the state as it is, or follows the graph. -/
def Follows (new old : SessionState) : Prop := new = old ∨ old.canTransitionTo new = true

/-- The state of an entry is the last one written. -/
def Recorded (w : World) : Prop :=
  ∀ s e, w.sessions s = some e → (written s w.log).head? = some e.state

/-- Every change of a session's state follows the graph. -/
def FollowsGraph (w : World) : Prop := ∀ s, (written s w.log).IsChain Follows

/-- A start that failed finishes its teardown before its session is `Destroyed`. -/
def FailsUndestroyed (w : World) : Label → Prop
  | .resume t _ => ∀ s c err e, w.tasks t = some (.teardown s [c] (.failed err)) →
    w.sessions s = some e → e.state ≠ .destroyed
  | _ => True

theorem written_append (evs log : List Event) :
    written s (evs ++ log) = written s evs ++ written s log := by
  simp [written]

theorem written_eq_nil {log : List Event} (h : ∀ state, .entered s state ∉ log) :
    written s log = [] := by
  rw [written, List.filterMap_eq_nil_iff]
  intro ev hev
  split
  next u state =>
    split_ifs with hu
    · exact absurd (hu ▸ hev) (h state)
    · rfl
  · rfl

theorem written_destroyedEvents (s : SessionId) (e : SessionEntry) (c : Cleanup) (input : Input) :
    written s (destroyedEvents s e c input) = [] :=
  written_eq_nil (by unfold destroyedEvents; split <;> simp)

/-- What a piece of session code writes ends in the state of the entry it leaves; where `ok`, it
follows the graph from the old state, if there is one. -/
structure Walks (s : SessionId) (ok : Prop) (old : Option SessionState) (evs : List Event)
    (new : SessionState) : Prop where
  last : (written s evs ++ old.toList).head? = some new
  graph : ok → (written s evs ++ old.toList).IsChain Follows

variable {ok : Prop}

theorem Walks.stay {evs : List Event} {state : SessionState} (h : written s evs = []) :
    Walks s ok (some state) evs state := by
  constructor <;> simp [h]

/-- One write. -/
theorem Walks.one {evs : List Event} {old new : SessionState} (h : written s evs = [new])
    (hf : ok → Follows new old) : Walks s ok (some old) evs new := by
  constructor
  · simp [h]
  · intro hok
    simpa [h] using hf hok

theorem Resumes.walks {profile : Profile} {reply : Option Gateway.Call} {e : SessionEntry}
    {pc : Drive} {input : Input} {flow : Flow} (h : Resumes cfg s profile reply e pc input flow) :
    Walks s ok (some e.state) flow.events flow.entry.state := by
  have hchecks (c : ConnectivityChecklist) : written s (preflightEvents s profile c) = [] :=
    written_eq_nil (by simp [preflightEvents])
  have hbrowsing : written s (browsingEvents s profile) = [] :=
    written_eq_nil (by unfold browsingEvents; split <;> simp)
  cases h
  case browserProvisioned hcan =>
    exact .one (by simp [Flow.events, Flow.entry, stateEvents, written]) (fun _ => .inr hcan)
  case browserStarted hcan =>
    exact .one (by simp [Flow.events, Flow.entry, stateEvents, written]) (fun _ => .inr hcan)
  case browsing hcan =>
    refine .one ?_ fun _ => .inr hcan
    rw [Flow.events, written_append, hbrowsing]
    simp [Flow.entry, stateEvents, written]
  case preflightPassed =>
    refine .stay ?_
    rw [Flow.events, ← List.singleton_append, written_append, hchecks]
    simp [written]
  case preflightRefused => exact .stay (hchecks _)
  case preflightUnsafe => exact .stay (hchecks _)
  all_goals exact .stay (by simp [Flow.events, written, probeEvents])

theorem settle_walks {old : Option SessionState} {profile : Profile} {flow : Flow}
    (h : Walks s ok old flow.events flow.entry.state) :
    Walks s ok old (settle cfg s profile flow).events (settle cfg s profile flow).entry.state := by
  rcases settle_cases cfg s profile flow with ⟨e, next, evs, rfl, heq⟩ | ⟨e, sum, evs, rfl, heq⟩ |
    ⟨e, err, evs, rfl, -, heq⟩ | ⟨e, err, evs, c, cs, rfl, -, -, heq⟩ <;> rw [heq] <;>
    exact ⟨h.last, h.graph⟩

theorem beginTeardown_walks {old : Option SessionState} {ending : Ending} {e : SessionEntry}
    {evs : List Event} (h : Walks s ok old evs e.state) :
    Walks s ok old (beginTeardown cfg s ending e evs).events
      (beginTeardown cfg s ending e evs).entry.state := by
  obtain ⟨c, cs, -, heq⟩ := beginTeardown_eq cfg s ending e evs
  rw [heq]
  exact ⟨h.last, h.graph⟩

/-- A stop tears down a session that has ended. -/
structure StopsEnded (w : World) : Prop where
  ended : ∀ t s cs e, w.tasks t = some (.teardown s cs .stopped) → w.sessions s = some e →
    e.state.Ended

/-- The last write of a teardown follows the graph, unless it is that of a failed start and the
session is `Destroyed`. -/
theorem follows_final {ending : Ending} {state : SessionState}
    (hstop : ending = .stopped → state.Ended)
    (hfail : ∀ err, ending = .failed err → state ≠ .destroyed) : Follows ending.state state := by
  cases ending with
  | stopped =>
    rcases hstop rfl with rfl | rfl | rfl
    · exact .inr rfl
    · exact .inl rfl
    · exact .inr rfl
  | failed err =>
    have hne := hfail err rfl
    cases state with
    | destroyed => exact absurd rfl hne
    | failed => exact .inl rfl
    | _ => exact .inr rfl

section Runs

variable {l : Label} {seg : Segment}

theorem StopsEnded.runs_ended (h : StopsEnded w) (hr : Runs cfg w t s l seg) {cs : List Cleanup}
    (htask : seg.task = .teardown s cs .stopped) : seg.entry.state.Ended := by
  cases hr with
  | start _ _ _ _ =>
    obtain ⟨e, err, evs, -, -, hending, -⟩ := settle_teardown htask
    cases hending
  | drive _ _ _ =>
    obtain ⟨e, err, evs, -, -, hending, -⟩ := settle_teardown htask
    cases hending
  | failClosed _ _ _ =>
    rw [beginTeardown_task] at htask
    cases htask
  | @teardown c ds ending e input hd hs _ =>
    cases ds with
    | nil => cases htask
    | cons d ds =>
      cases htask
      exact h.ended t s _ e hd hs
  | @stop e e' evs _ _ hcases =>
    rw [beginTeardown_entry]
    exact (stop_entry hcases).1

end Runs

theorem StopsEnded.step {l : Label} (h : StopsEnded w) (ht : w.Tracked)
    (hs : w.step cfg l = some w') : StopsEnded w' := by
  rcases World.step_cases hs with ⟨e, -, rfl⟩ | ⟨op, k, -, -, -, rfl⟩ | ⟨op, g, -, -, -, rfl⟩ |
    ⟨t, task, hm, hset⟩ | ⟨t, s, seg, hr, hc⟩
  · exact ⟨h.ended⟩
  · exact ⟨h.ended⟩
  · exact ⟨h.ended⟩
  · obtain ⟨hsess, -, -, htasks, -, -⟩ := World.setTask_cases hset
    have hsession := hm.session
    refine ⟨fun u k cs e hu hk => ?_⟩
    rw [htasks] at hu
    rw [hsess] at hk
    split_ifs at hu
    · rw [Option.some.inj hu] at hsession
      cases hsession
    · exact h.ended u k cs e hu hk
  · obtain ⟨hsess, htasks, -, -, -⟩ := World.commit_cases hc
    refine ⟨fun u k cs e hu hk => ?_⟩
    rw [htasks] at hu
    rw [hsess] at hk
    split_ifs at hu hk with hut hks hks
    · subst hks
      cases hk
      exact h.runs_ended hr (Option.some.inj hu)
    · exact absurd (hr.task_session (by rw [Option.some.inj hu]; rfl)) hks
    · subst hks
      cases hk
      -- another call tears the session down; it has ended and stays so
      obtain ⟨e', he'⟩ := Option.ne_none_iff_exists'.mp (ht.task u _ k hu rfl)
      exact hr.ended he' (h.ended u k cs e' hu he')
    · exact h.ended u k cs e hu hk

theorem stopsEnded_of_reach (hr : Reach (World.step cfg) World.Initial anyStep w) : StopsEnded w :=
  hr.invariant (fun _ h => ⟨by simp [h.tasks]⟩) fun _ _ _ hr h _ hs =>
    h.step (tracked_of_reach hr) hs

/-- What session code writes follows the graph, unless a failed start finishes its teardown after
its session was `Destroyed`. -/
theorem Runs.walks {l : Label} {seg : Segment} (h : Runs cfg w t s l seg) (hstop : StopsEnded w) :
    Walks s (FailsUndestroyed w l) ((w.sessions s).map SessionEntry.state) seg.events
      seg.entry.state := by
  cases h with
  | start _ hs _ hstart =>
    refine settle_walks ?_
    rw [hs]
    cases hstart <;> constructor <;>
      simp [Flow.events, Flow.entry, stateEvents, written, SessionEntry.requested, Follows,
        SessionState.canTransitionTo, SessionState.allowedNext]
  | drive _ hs hf =>
    rw [hs]
    exact settle_walks (Drive.resume_cases hf).walks
  | @failClosed err e _ _ _ hs _ =>
    rw [hs]
    exact beginTeardown_walks (.stay (written_eq_nil (by simp [failClosedEvents])))
  | @teardown c cs ending e input hd hs _ =>
    rw [hs]
    have hdestroyed := written_destroyedEvents s e c input
    cases cs with
    | cons d ds =>
      refine .stay ?_
      change written s ([_] ++ destroyedEvents s e c input) = _
      rw [written_append, hdestroyed]
      simp [written]
    | nil =>
      refine .one ?_ fun hok => follows_final ?_ ?_
      · change written s ([_, _] ++ destroyedEvents s e c input) = [ending.state]
        rw [written_append, hdestroyed]
        simp [written]
      · rintro rfl
        exact hstop.ended t s _ e hd hs
      · rintro err rfl
        exact hok s c err e hd hs
  | @stop e e' evs _ hs hcases =>
    rw [hs]
    refine beginTeardown_walks ?_
    rcases hcases with ⟨htr, rfl⟩ | ⟨-, rfl, rfl⟩
    · obtain ⟨hcan, rfl⟩ := transition_eq_ok.mp htr
      exact .one (by simp [stateEvents, written]) fun _ => .inr hcan
    · exact .stay (by simp [written])

theorem written_of_about {evs : List Event} {k : SessionId} (h : ∀ ev ∈ evs, ev.About s)
    (hk : k ≠ s) : written k evs = [] := by
  refine written_eq_nil fun state hev => ?_
  rcases h _ hev with ha | ha <;> cases ha
  exact hk rfl

/-- The states written before are those of the entry, or there are none. -/
theorem Recorded.head (h : Recorded w) (ht : w.Tracked) (s : SessionId) :
    (w.sessions s).map SessionEntry.state = (written s w.log).head? := by
  cases hsome : w.sessions s with
  | some e => exact (h s e hsome).symm
  | none =>
    rw [written_eq_nil fun state hev => ht.event _ hev s rfl hsome]
    rfl

theorem Recorded.step {l : Label} (h : Recorded w) (ht : w.Tracked) (hstop : StopsEnded w)
    (hs : w.step cfg l = some w') : Recorded w' := by
  intro k e hk
  rcases World.step_cases hs with ⟨e, -, rfl⟩ | ⟨op, g, -, -, -, rfl⟩ | ⟨op, g, -, -, -, rfl⟩ |
    ⟨t, task, hm, hset⟩ | ⟨t, s, seg, hr, hc⟩
  · exact h k _ hk
  · exact h k _ hk
  · exact h k _ hk
  · obtain ⟨hsess, hlog, -, -, -, -⟩ := World.setTask_cases hset
    rw [hlog]
    exact h k e (hsess k ▸ hk)
  · obtain ⟨hsess, -, hlog, -, -⟩ := World.commit_cases hc
    rw [hlog, written_append]
    rw [hsess] at hk
    split_ifs at hk with hks
    · subst hks
      cases hk
      have hlast := (hr.walks hstop).last
      rw [h.head ht k] at hlast
      cases hnew : written k seg.events with
      | nil =>
        rw [hnew] at hlast
        cases hold : written k w.log <;> simp_all
      | cons state rest => simpa [hnew] using hlast
    · rw [written_of_about hr.about hks]
      exact h k e hk

theorem recorded_of_reach (hr : Reach (World.step cfg) World.Initial anyStep w) : Recorded w :=
  hr.invariant (fun _ h s e hs => by simp [h.sessions] at hs) fun _ _ _ hr h _ hs =>
    h.step (tracked_of_reach hr) (stopsEnded_of_reach hr) hs

theorem FollowsGraph.step {l : Label} (h : FollowsGraph w) (hrec : Recorded w) (ht : w.Tracked)
    (hstop : StopsEnded w) (hok : FailsUndestroyed w l) (hs : w.step cfg l = some w') :
    FollowsGraph w' := by
  intro k
  rcases World.step_cases hs with ⟨e, -, rfl⟩ | ⟨op, g, -, -, -, rfl⟩ | ⟨op, g, -, -, -, rfl⟩ |
    ⟨t, task, hm, hset⟩ | ⟨t, s, seg, hr, hc⟩
  · exact h k
  · exact h k
  · exact h k
  · obtain ⟨-, hlog, -, -, -, -⟩ := World.setTask_cases hset
    rw [hlog]
    exact h k
  · obtain ⟨-, -, hlog, -, -⟩ := World.commit_cases hc
    rw [hlog, written_append]
    by_cases hks : k = s
    · subst hks
      have hgraph := (hr.walks hstop).graph hok
      rw [hrec.head ht k] at hgraph
      have hchain := h k
      cases hold : written k w.log with
      | nil => simpa [hold] using hgraph
      | cons state rest =>
        rw [hold] at hchain hgraph
        rw [List.isChain_append] at hgraph ⊢
        exact ⟨hgraph.1, hchain, hgraph.2.2⟩
    · rw [written_of_about hr.about hks]
      exact h k

/-- A step only adds to what was written. -/
theorem FollowsGraph.of_step {l : Label} (h : FollowsGraph w') (hs : w.step cfg l = some w') :
    FollowsGraph w := by
  intro k
  rcases World.step_cases hs with ⟨e, -, rfl⟩ | ⟨op, g, -, -, -, rfl⟩ | ⟨op, g, -, -, -, rfl⟩ |
    ⟨t, task, hm, hset⟩ | ⟨t, s, seg, hr, hc⟩
  · exact h k
  · exact h k
  · exact h k
  · obtain ⟨-, hlog, -, -, -, -⟩ := World.setTask_cases hset
    exact hlog ▸ h k
  · obtain ⟨-, -, hlog, -, -⟩ := World.commit_cases hc
    have hchain := h k
    rw [hlog, written_append] at hchain
    exact (List.isChain_append.mp hchain).2.1

/-- A failed start that finishes its teardown over a `Destroyed` session breaks the graph. -/
theorem FollowsGraph.failsUndestroyed {l : Label} (h : FollowsGraph w') (hrec : Recorded w)
    (hs : w.step cfg l = some w') : FailsUndestroyed w l := by
  cases l with
  | resume t input =>
    rintro s c err e hd he hstate
    rcases World.step_cases hs with ⟨e, hl, -⟩ | ⟨op, k, hl, -⟩ | ⟨op, g, hl, -⟩ |
      ⟨u, task, hm, hset⟩ | ⟨u, k, seg, hr, hc⟩
    · cases hl
    · cases hl
    · cases hl
    · obtain rfl : t = u := Option.some.inj hm.label
      exact hm.of_teardown hd
    · obtain rfl : t = u := Option.some.inj hr.label
      obtain ⟨d, ds, e', i, rfl, hds, -, rfl⟩ := hr.of_teardown hd
      cases hds
      obtain ⟨-, -, hlog, -, -⟩ := World.commit_cases hc
      have hgraph := h s
      have hlast := hrec s e he
      rw [hlog, written_append] at hgraph
      change List.IsChain Follows (written s ([_, _] ++ destroyedEvents s e' c i) ++ _) at hgraph
      rw [written_append, written_destroyedEvents] at hgraph
      cases hold : written s w.log with
      | nil => rw [hold] at hlast; cases hlast
      | cons state rest =>
        rw [hold] at hlast hgraph
        obtain rfl : state = .destroyed := by rw [← hstate]; exact Option.some.inj hlast
        have hfollows : Follows .failed .destroyed :=
          (List.isChain_cons_cons.mp (by simpa [written, Ending.state] using hgraph)).1
        rcases hfollows with hf | hf <;> cases hf
  | _ => trivial

/-- The last state written to a session is the one its entry has, and every change of it follows
the graph in exactly the runs in which no failed start finishes its teardown after its session
was `Destroyed`. -/
theorem followsGraph_iff (hr : Reach (World.step cfg) World.Initial anyStep w) :
    Recorded w ∧
      (FollowsGraph w ↔ Reach (World.step cfg) World.Initial FailsUndestroyed w) := by
  refine ⟨recorded_of_reach hr, ?_, fun hr => ?_⟩
  · intro h
    induction hr with
    | start hi => exact .start hi
    | next hr _ hs ih =>
      exact (ih (h.of_step hs)).next (h.failsUndestroyed (recorded_of_reach hr) hs) hs
  · exact hr.invariant (fun w h s => by simp [written, h.log]) fun _ _ _ hr h hok hs =>
      h.step (recorded_of_reach hr.any) (tracked_of_reach hr.any)
        (stopsEnded_of_reach hr.any) hok hs

/-- A test of the condition. -/
def failsUndestroyed (w : World) : Label → Bool
  | .resume t _ =>
    match w.tasks t with
    | some (.teardown s [_] (.failed _)) => (w.sessions s).all fun e => e.state ≠ .destroyed
    | _ => true
  | _ => true

theorem failsUndestroyed_sound (w : World) (l : Label) (h : failsUndestroyed w l = true) :
    FailsUndestroyed w l := by
  cases l with
  | resume t input =>
    intro s c err e ht hs
    simpa [failsUndestroyed, ht, hs] using h
  | _ => trivial

theorem stoppedRun_written :
    (exec (fun w l => if failsUndestroyed w l then World.step daemon w l else none) booted
      stoppedRun).map (fun w => written ⟨0⟩ w.log) =
    some [.destroyed, .closing, .browsing, .preflight, .gatewayStarting, .provisioning,
      .requested] := rfl

/-- A session that is started and stopped walks the graph from end to end. -/
theorem followsGraph_stoppedRun : ∃ w, written ⟨0⟩ w.log = [.destroyed, .closing, .browsing,
    .preflight, .gatewayStarting, .provisioning, .requested] ∧ FollowsGraph w := by
  obtain ⟨w, hw, hwritten⟩ := Option.map_eq_some_iff.mp stoppedRun_written
  have hr : Reach (World.step daemon) World.Initial FailsUndestroyed w :=
    (Reach.start booted_initial).execWhere failsUndestroyed_sound hw
  exact ⟨w, hwritten, (followsGraph_iff hr.any).2.mpr hr⟩

/-- A start that fails after its session was stopped takes it from `Destroyed` to `Failed`. -/
theorem lateVm_revived : Reach (World.step daemon) World.Initial anyStep lateVm ∧
    ¬ FollowsGraph lateVm := by
  have hrun : exec (World.step daemon) booted lateVmRun = some lateVm := rfl
  refine ⟨(Reach.start booted_initial).exec hrun, fun h => ?_⟩
  have hgraph := h ⟨0⟩
  rw [show written ⟨0⟩ lateVm.log = [.failed, .destroyed, .closing, .provisioning, .requested]
    from rfl] at hgraph
  rcases (List.isChain_cons_cons.mp hgraph).1 with hf | hf <;> cases hf

end Aegis.Orchestrator
