import Aegis.Orchestrator.Owned

/-! What a teardown cleans up: every VM and every browser of a stopped session, over every run in
which no teardown clears a reference that was recorded behind its back. -/
namespace Aegis.Orchestrator
open Transition

variable {cfg : Wiring} {w w' : World} {t : TaskId} {s : SessionId}

/-- The call has been made, or a teardown is about to make it. -/
def World.Disposed (w : World) (s : SessionId) (c : Cleanup) : Prop :=
  .cleanup s c ∈ w.log ∨
    ∃ t cs ending, w.tasks t = some (.teardown s cs ending) ∧ c ∈ cs

/-- An entry that refers to no browser, and to VMs only that are disposed of. -/
def World.Settled (w : World) (s : SessionId) (e : SessionEntry) : Prop :=
  e.browserHandle = none ∧ ∀ role vm, e.vm role = some vm → w.Disposed s (.destroy role vm)

/-- A teardown about to write its final state finds nothing in the entry that was recorded after
it read it. -/
def ClearsSettled (w : World) : Label → Prop
  | .resume t _ => ∀ s c ending e, w.tasks t = some (.teardown s [c] ending) →
    w.sessions s = some e → w.Settled s e
  | _ => True

/-- The same for the teardowns of one session. -/
def ClearsSettledOf (s : SessionId) (w : World) : Label → Prop
  | .resume t _ => ∀ c ending e, w.tasks t = some (.teardown s [c] ending) →
    w.sessions s = some e → w.Settled s e
  | _ => True

theorem ClearsSettled.of {l : Label} (h : ClearsSettled w l) (s : SessionId) :
    ClearsSettledOf s w l := by
  cases l with
  | resume t input => exact h s
  | _ => trivial

/-- The VM a start is provisioning. -/
def Drive.provisions : Drive → Option VmRole
  | provisionGateway => some .gateway
  | provisionBrowser _ => some .browser
  | _ => none

/-- What was provisioned or launched for a session is referred to by its entry until it is
disposed of, and a session that ended is settled unless its start is still to fail. -/
structure Tidy (s : SessionId) (w : World) : Prop where
  headed : ∀ t c cs ending, w.tasks t = some (.teardown s (c :: cs) ending) →
    .cleanup s c ∈ w.log
  vm : ∀ e role vm, w.sessions s = some e → .provisioned s role vm ∈ w.log →
    e.vm role = some vm ∨ w.Disposed s (.destroy role vm)
  handle : ∀ e h, w.sessions s = some e → .launched s h ∈ w.log →
    e.browserHandle = some h ∨ .cleanup s (.terminate h) ∈ w.log
  stopped : ∀ e, w.sessions s = some e → .stopCalled s ∈ w.log → e.state.Ended
  ended : ∀ e, w.sessions s = some e → e.state.Ended →
    (∃ t profile pc, w.tasks t = some (.drive s profile pc) ∧ pc ≠ .touchLaunch) ∨
    (∃ t err, w.tasks t = some (.failClosed s err)) ∨ w.Settled s e
  provisioning : ∀ t profile pc role, w.tasks t = some (.drive s profile pc) →
    (pc = .provisionGateway ∨ pc.provisions = some role) → ∀ vm, .provisioned s role vm ∉ w.log

/-- A start of the session that is still to provision a VM has none in that role. -/
def Unprovisioned (s : SessionId) (w : World) : Prop :=
  ∀ t profile pc role, w.tasks t = some (.drive s profile pc) →
    (pc = .provisionGateway ∨ pc.provisions = some role) → ∀ vm, .provisioned s role vm ∉ w.log

/-! ### What a part of a start does to the VMs -/

section Resume

variable {profile : Profile} {reply : Option Gateway.Call} {e : SessionEntry} {pc : Drive}
  {input : Input} {flow : Flow}

/-- A part of a start records the VM it was provisioning, or none. -/
theorem Resumes.provisions (h : Resumes cfg s profile reply e pc input flow) :
    (∃ role vm, pc.provisions = some role ∧
      (∀ r, flow.entry.vm r = if r = role then some vm else e.vm r) ∧
      ∀ r v, .provisioned s r v ∈ flow.events ↔ r = role ∧ v = vm) ∨
    (∀ r, flow.entry.vm r = e.vm r) ∧ ∀ r v, .provisioned s r v ∉ flow.events := by
  cases h
  case gatewayProvisioned gw inst =>
    refine .inl ⟨.gateway, gw, rfl, fun r => ?_, fun r v => by simp [Flow.events]⟩
    cases r <;> rfl
  case browserProvisioned gw br inst hcan =>
    refine .inl ⟨.browser, br, rfl, fun r => ?_, fun r v => by simp [Flow.events, stateEvents]⟩
    cases r <;> rfl
  case browserStopped gw br inst text hcan =>
    refine .inl ⟨.browser, br, rfl, fun r => ?_, fun r v => by simp [Flow.events]⟩
    cases r <;> rfl
  case browsing =>
    refine .inr ⟨fun r => by cases r <;> rfl, fun r v => ?_⟩
    simp only [Flow.events, browsingEvents]
    split <;> simp [stateEvents]
  all_goals
    refine .inr ⟨fun r => by cases r <;> rfl, fun r v => ?_⟩
    simp [Flow.events, stateEvents, preflightEvents, probeEvents]

/-- The VMs are provisioned one after the other. -/
theorem Resumes.next_provisions (h : Resumes cfg s profile reply e pc input flow)
    {e' : SessionEntry} {next : Drive} {evs : List Event} (hf : flow = .await e' next evs) :
    next ≠ .provisionGateway ∧
      ∀ role, next.provisions = some role → pc = .provisionGateway ∧ role = .browser := by
  cases h <;> cases hf <;> simp [Drive.provisions]

/-- A start that waits for its last call has just entered `Browsing`. -/
theorem Resumes.next_touchLaunch (h : Resumes cfg s profile reply e pc input flow)
    {e' : SessionEntry} {evs : List Event} (hf : flow = .await e' .touchLaunch evs) :
    e'.state = .browsing := by
  cases h <;> cases hf
  rfl

/-- A start that finishes was waiting for its last call. -/
theorem Resumes.finish (h : Resumes cfg s profile reply e pc input flow)
    {e' : SessionEntry} {sum : SessionSummary} {evs : List Event}
    (hf : flow = .finish e' sum evs) : pc = .touchLaunch ∧ e' = e := by
  cases h <;> cases hf
  exact ⟨rfl, rfl⟩

end Resume

theorem destroy_mem_cleanupCalls {e : SessionEntry} {role : VmRole} {vm : VmId} :
    .destroy role vm ∈ cleanupCalls cfg e ↔ e.vm role = some vm := by
  unfold cleanupCalls
  cases role <;> cases e.browserHandle <;> cases e.mode <;> cases hb : e.browserVm <;>
    cases hg : e.gatewayVm <;> simp [SessionEntry.vm, hb, hg, eq_comm] <;>
    (repeat' split) <;> simp

/-! ### Disposal is kept by every step -/

/-- A task that tears a session down runs its teardown. -/
theorem Runs.of_teardown {l : Label} {seg : Segment} {u : SessionId} {cs : List Cleanup}
    {ending : Ending} (h : Runs cfg w t s l seg) (ht : w.tasks t = some (.teardown u cs ending)) :
    ∃ c ds e input, u = s ∧ cs = c :: ds ∧ w.sessions s = some e ∧
      seg = Orchestrator.teardown s ending e (destroyedEvents s e c input) ds := by
  cases h with
  | start hd _ _ _ => rw [ht] at hd; cases hd
  | drive hd _ _ => rw [ht] at hd; cases hd
  | failClosed hd _ _ => rw [ht] at hd; cases hd
  | @teardown c ds ending' e input hd hs _ =>
    rw [ht] at hd
    cases hd
    exact ⟨c, ds, e, input, rfl, rfl, hs, rfl⟩
  | stop hd _ _ => rw [ht] at hd; cases hd

theorem Moves.of_teardown {l : Label} {task : Task} {u : SessionId} {cs : List Cleanup}
    {ending : Ending}
    (h : Moves w t l task) : w.tasks t ≠ some (.teardown u cs ending) := by
  cases h <;> simp_all

/-- A teardown disposes of everything it is about to call. -/
theorem disposed_teardown {ending : Ending} {e : SessionEntry} {evs : List Event}
    {cs : List Cleanup} {c : Cleanup} (hc : w.commit t s (teardown s ending e evs cs) = some w')
    (hmem : c ∈ cs) : w'.Disposed s c := by
  obtain ⟨-, htasks, -, -, -⟩ := World.commit_cases hc
  cases cs with
  | nil => cases hmem
  | cons d ds => exact .inr ⟨t, d :: ds, ending, by rw [htasks, if_pos rfl]; rfl, hmem⟩

theorem World.Disposed.runs {l : Label} {seg : Segment} {k : SessionId} {c : Cleanup}
    (h : w.Disposed k c) (hw : Tidy k w) (hr : Runs cfg w t s l seg)
    (hc : w.commit t s seg = some w') : w'.Disposed k c := by
  obtain ⟨-, htasks, hlog, -, -⟩ := World.commit_cases hc
  rcases h with hmem | ⟨u, cs, ending, hu, hmem⟩
  · exact .inl (by rw [hlog]; exact List.mem_append_right _ hmem)
  · by_cases hut : u = t
    · subst hut
      obtain ⟨d, ds, e, input, rfl, rfl, -, rfl⟩ := hr.of_teardown hu
      rcases List.mem_cons.mp hmem with rfl | hmem
      · exact .inl (by rw [hlog]; exact List.mem_append_right _ (hw.headed u c ds ending hu))
      · exact disposed_teardown hc hmem
    · exact .inr ⟨u, cs, ending, by rw [htasks, if_neg hut]; exact hu, hmem⟩

theorem World.Disposed.moves {task : Task} {k : SessionId} {c : Cleanup} (h : w.Disposed k c)
    (hm : Moves w t l task) (hset : w.setTask t task = some w') : w'.Disposed k c := by
  obtain ⟨-, hlog, -, htasks, -, -⟩ := World.setTask_cases hset
  rcases h with hmem | ⟨u, cs, ending, hu, hmem⟩
  · exact .inl (by rw [hlog]; exact hmem)
  · refine .inr ⟨u, cs, ending, ?_, hmem⟩
    rw [htasks, if_neg]
    · exact hu
    · rintro rfl
      exact hm.of_teardown hu

/-! ### The invariant is kept by every piece of session code -/

theorem settle_vm (profile : Profile) (flow : Flow) (role : VmRole) :
    (settle cfg s profile flow).entry.vm role = flow.entry.vm role := by
  rcases settle_cases cfg s profile flow with ⟨e, next, evs, rfl, heq⟩ | ⟨e, sum, evs, rfl, heq⟩ |
    ⟨e, err, evs, rfl, -, heq⟩ | ⟨e, err, evs, c, cs, rfl, -, -, heq⟩ <;> rw [heq] <;>
    cases role <;> rfl

/-- A teardown that begins settles its entry. -/
theorem settled_beginTeardown {ending : Ending} {e : SessionEntry} {evs : List Event}
    (hc : w.commit t s (beginTeardown cfg s ending e evs) = some w') :
    w'.Settled s (beginTeardown cfg s ending e evs).entry := by
  refine ⟨by rw [beginTeardown_entry], fun role vm hvm => ?_⟩
  rw [beginTeardown_entry] at hvm
  exact disposed_teardown hc (destroy_mem_cleanupCalls.mpr (by cases role <;> exact hvm))

/-- The code that tears down a session records no VM, no launch and no stop of its own. -/
theorem teardown_events {ending : Ending} {e : SessionEntry} {c : Cleanup} {input : Input}
    {cs : List Cleanup} {ev : Event}
    (hev : ev ∈ (teardown s ending e (destroyedEvents s e c input) cs).events) :
    (∃ d ds, cs = d :: ds ∧ ev = .cleanup s d) ∨ ev = .entered s ending.state ∨
      ∃ r, ev = .audit r := by
  cases cs <;> simp only [teardown, destroyedEvents] at hev <;> split at hev <;>
    simp at hev <;> grind

section Runs

variable {l : Label} {seg : Segment}

/-- The first call of a teardown is made when the task begins to wait for it. -/
theorem Runs.headed {c : Cleanup} {cs : List Cleanup} {ending : Ending}
    (hr : Runs cfg w t s l seg) (htask : seg.task = .teardown s (c :: cs) ending) :
    .cleanup s c ∈ seg.events := by
  have hbegin (ending' : Ending) (e : SessionEntry) (evs : List Event)
      (he : (beginTeardown cfg s ending' e evs).task = .teardown s (c :: cs) ending) :
      .cleanup s c ∈ (beginTeardown cfg s ending' e evs).events := by
    obtain ⟨d, ds, -, heq⟩ := beginTeardown_eq cfg s ending' e evs
    rw [heq] at he ⊢
    cases he
    exact List.mem_cons_self
  cases hr with
  | start _ _ _ _ =>
    obtain ⟨e, err, evs, -, -, -, heq⟩ := settle_teardown htask
    rw [heq] at htask ⊢
    exact hbegin _ _ _ htask
  | drive _ _ _ =>
    obtain ⟨e, err, evs, -, -, -, heq⟩ := settle_teardown htask
    rw [heq] at htask ⊢
    exact hbegin _ _ _ htask
  | failClosed _ _ _ => exact hbegin _ _ _ htask
  | @teardown c' cs' _ _ _ _ _ _ =>
    cases cs' with
    | nil => cases htask
    | cons d ds => cases htask; exact List.mem_cons_self
  | stop _ _ _ => exact hbegin _ _ _ htask

/-- A VM is recorded in its entry, and a teardown clears it only when it is disposed of. -/
theorem Tidy.runs_vm {role : VmRole} {vm : VmId} (h : Tidy s w) (ht : w.Tracked)
    (hok : ClearsSettledOf s w l) (hr : Runs cfg w t s l seg)
    (hc : w.commit t s seg = some w') (hmem : .provisioned s role vm ∈ seg.events ++ w.log) :
    seg.entry.vm role = some vm ∨ w'.Disposed s (.destroy role vm) := by
  have hdisp (c : Cleanup) (hd : w.Disposed s c) : w'.Disposed s c := hd.runs h hr hc
  have hkeep (e : SessionEntry) (hs : w.sessions s = some e) (hvm : seg.entry.vm role = e.vm role)
      (hlog : .provisioned s role vm ∈ w.log) :
      seg.entry.vm role = some vm ∨ w'.Disposed s (.destroy role vm) := by
    rcases h.vm e role vm hs hlog with he | hd
    · exact .inl (hvm.trans he)
    · exact .inr (hdisp _ hd)
  rw [List.mem_append] at hmem
  cases hr with
  | start _ hs _ hstart =>
    rcases hmem with hmem | hmem
    · rw [settle_ofDrive (.provisioned s role vm) rfl] at hmem
      cases hstart <;> simp [Flow.events, stateEvents] at hmem
    · exact absurd hs (ht.event _ hmem s rfl)
  | @drive profile pc e input flow hd hs hf =>
    rcases (Drive.resume_cases hf).provisions with ⟨r, v, hpc, hvm, hev⟩ | ⟨hvm, hev⟩
    · by_cases hrole : role = r
      · -- the VM is the one just provisioned: none of its role was there before
        subst hrole
        rcases hmem with hmem | hmem
        · rw [settle_ofDrive (.provisioned s role vm) rfl, hev] at hmem
          exact .inl (by rw [settle_vm, hvm, if_pos rfl, hmem.2])
        · exact absurd hmem (h.provisioning t profile pc role hd (.inr hpc) vm)
      · have hlog : .provisioned s role vm ∈ w.log := by
          rw [settle_ofDrive (.provisioned s role vm) rfl, hev] at hmem
          exact hmem.resolve_left fun he => hrole he.1
        exact hkeep e hs (by rw [settle_vm, hvm, if_neg hrole]) hlog
    · have hlog : .provisioned s role vm ∈ w.log := by
        rw [settle_ofDrive (.provisioned s role vm) rfl] at hmem
        exact hmem.resolve_left (hev role vm)
      exact hkeep e hs (by rw [settle_vm, hvm]) hlog
  | @failClosed err e reply _ _ hs _ =>
    obtain ⟨c, cs, -, heq⟩ := beginTeardown_eq cfg s (.failed err) e (failClosedEvents s e err)
    refine hkeep e hs (by rw [heq]; cases role <;> rfl) (hmem.resolve_left ?_)
    rw [heq]
    simp [failClosedEvents]
  | @teardown c cs ending e input hd hs hret =>
    have hlog : .provisioned s role vm ∈ w.log := hmem.resolve_left fun hev => by
      rcases teardown_events hev with ⟨d, ds, -, he⟩ | he | ⟨r, he⟩ <;> cases he
    cases cs with
    | cons d ds => exact hkeep e hs rfl hlog
    | nil =>
      rcases h.vm e role vm hs hlog with he | hd'
      · exact .inr (hdisp _ ((hok c ending e hd hs).2 role vm he))
      · exact .inr (hdisp _ hd')
  | @stop e e' evs _ hs hcases =>
    obtain ⟨-, hentry, hevs⟩ := stop_entry hcases
    obtain ⟨c, cs, -, heq⟩ := beginTeardown_eq cfg s .stopped e' evs
    refine hkeep e hs (by rw [heq, hentry]; cases role <;> rfl) (hmem.resolve_left ?_)
    rw [heq]
    intro hev
    rcases List.mem_cons.mp hev with he | he
    · cases he
    · rcases hevs _ he with he | he | ⟨r, he⟩ <;> cases he

/-- A browser is recorded in its entry until it is told to terminate. -/
theorem Tidy.runs_handle {b : BrowserHandle} (h : Tidy s w) (hb : Launching cfg w) (ht : w.Tracked)
    (hok : ClearsSettledOf s w l) (hr : Runs cfg w t s l seg)
    (hmem : .launched s b ∈ seg.events ++ w.log) :
    seg.entry.browserHandle = some b ∨ .cleanup s (.terminate b) ∈ seg.events ++ w.log := by
  rw [List.mem_append] at hmem
  rcases hmem with hmem | hmem
  · obtain ⟨profile, req, bundle, e, -, -, -, rfl⟩ := hr.launched hmem
    exact .inl rfl
  have hbegin (ending : Ending) (e : SessionEntry) (evs : List Event) (hw : e.mode.Wired cfg)
      (he : e.browserHandle = some b ∨ .cleanup s (.terminate b) ∈ w.log) :
      .cleanup s (.terminate b) ∈ (beginTeardown cfg s ending e evs).events ++ w.log := by
    rcases he with he | he
    · exact List.mem_append_left _ (terminate_mem_beginTeardown he hw)
    · exact List.mem_append_right _ he
  cases hr with
  | start _ hs _ _ => exact absurd hs (ht.event _ hmem s rfl)
  | @drive profile pc e input flow hd hs hf =>
    have hres := Drive.resume_cases hf
    have hsame : flow.entry.browserHandle = some b ∨ .cleanup s (.terminate b) ∈ w.log := by
      rcases hres.launching with ⟨_, _, _, rfl, -, -⟩ | ⟨he, -, -⟩
      · exact absurd hmem (hb.awaits t s profile _ hd trivial b)
      · rw [he]; exact h.handle e b hs hmem
    rcases settle_cases cfg s profile flow with ⟨e', next, evs, rfl, heq⟩ |
      ⟨e', sum, evs, rfl, heq⟩ | ⟨e', err, evs, rfl, -, heq⟩ |
      ⟨e', err, evs, c, cs, rfl, herr, -, -⟩
    · rw [heq]; exact hsame.imp_right (List.mem_append_right _)
    · rw [heq]; exact hsame.imp_right (List.mem_append_right _)
    · rw [heq]; exact hsame.imp_right (List.mem_append_right _)
    · have hw : e'.mode.Wired cfg :=
        hres.wired (hb.wired s e hs) (by rintro proxy rfl; exact hb.probing t s profile proxy hd)
      simp only [settle, herr, Bool.false_eq_true, if_false]
      exact .inr (hbegin _ _ _ hw hsame)
  | @failClosed err e _ _ _ hs _ =>
    exact .inr (hbegin _ _ _ (hb.wired s e hs) (h.handle e b hs hmem))
  | @teardown c cs ending e input hd hs _ =>
    cases cs with
    | cons d ds => exact (h.handle e b hs hmem).imp_right (List.mem_append_right _)
    | nil =>
      rcases h.handle e b hs hmem with he | he
      · rw [(hok c ending e hd hs).1] at he
        cases he
      · exact .inr (List.mem_append_right _ he)
  | @stop e e' evs _ hs hcases =>
    obtain ⟨-, hentry, -⟩ := stop_entry hcases
    refine .inr (hbegin _ _ _ ?_ ?_)
    · rw [hentry]; exact hb.wired s e hs
    · rw [hentry]; exact h.handle e b hs hmem

/-- A session that was stopped has ended. -/
theorem Tidy.runs_stopped (h : Tidy s w) (ht : w.Tracked) (hr : Runs cfg w t s l seg)
    (hmem : .stopCalled s ∈ seg.events ++ w.log) : seg.entry.state.Ended := by
  have hclose (e : SessionEntry) (hs : w.sessions s = some e)
      (hlog : .stopCalled s ∈ w.log) : e.state.Ended := h.stopped e hs hlog
  rw [List.mem_append] at hmem
  cases hr with
  | @start p profile host lease key flow _ _ hs _ hstart =>
    have hlog : .stopCalled s ∉ w.log := fun hmem => ht.event _ hmem s rfl hs
    refine absurd (hmem.resolve_right hlog) ?_
    rcases settle_cases cfg s profile flow with ⟨e', next, evs, rfl, heq⟩ |
      ⟨e', sum, evs, rfl, heq⟩ | ⟨e', err, evs, rfl, -, heq⟩ |
      ⟨e', err, evs, c, cs, rfl, -, -, heq⟩ <;>
      rw [heq] <;> cases hstart <;> simp [stateEvents]
  | @drive profile pc e input flow hd hs hf =>
    have hres := Drive.resume_cases hf
    rw [(settle_entry profile flow).1]
    by_contra hend
    refine hres.not_ended hend (hclose e hs (hmem.resolve_left ?_))
    rcases settle_cases cfg s profile flow with ⟨e', next, evs, rfl, heq⟩ |
      ⟨e', sum, evs, rfl, heq⟩ | ⟨e', err, evs, rfl, -, heq⟩ |
      ⟨e', err, evs, c, cs, rfl, -, -, heq⟩ <;>
      rw [heq] <;> cases hres <;> simp [stateEvents, preflightEvents, probeEvents]
    unfold browsingEvents
    split <;> simp
  | @failClosed err e _ _ _ hs _ =>
    obtain ⟨c, cs, -, heq⟩ := beginTeardown_eq cfg s (.failed err) e (failClosedEvents s e err)
    rw [heq] at hmem ⊢
    exact hclose e hs (hmem.resolve_left (by simp [failClosedEvents]))
  | @teardown c cs ending e input _ hs _ =>
    cases cs with
    | cons d ds =>
      refine hclose e hs (hmem.resolve_left fun hev => ?_)
      rcases teardown_events hev with ⟨_, _, -, he⟩ | he | ⟨r, he⟩ <;> cases he
    | nil =>
      cases ending <;> simp [teardown, SessionEntry.cleared, Ending.state, SessionState.Ended]
  | @stop e e' evs _ hs hcases =>
    obtain ⟨c, cs, -, heq⟩ := beginTeardown_eq cfg s .stopped e' evs
    rw [heq]
    exact (stop_entry hcases).1

theorem World.Settled.runs {k : SessionId} {e : SessionEntry} (h : w.Settled k e) (hw : Tidy k w)
    (hr : Runs cfg w t s l seg) (hc : w.commit t s seg = some w') : w'.Settled k e :=
  ⟨h.1, fun role vm hvm => (h.2 role vm hvm).runs hw hr hc⟩

/-- A session that ended is settled, or its start is still to fail. -/
theorem Tidy.runs_ended (h : Tidy s w) (ht : w.Tracked) (hr : Runs cfg w t s l seg)
    (hc : w.commit t s seg = some w') (hend : seg.entry.state.Ended) :
    (∃ u profile pc, w'.tasks u = some (.drive s profile pc) ∧ pc ≠ .touchLaunch) ∨
    (∃ u err, w'.tasks u = some (.failClosed s err)) ∨ w'.Settled s seg.entry := by
  obtain ⟨-, htasks, -, -, -⟩ := World.commit_cases hc
  have hmine : w'.tasks t = some seg.task := by rw [htasks, if_pos rfl]
  cases hr with
  | @start p profile host lease key flow _ _ _ _ hstart =>
    rw [(settle_entry profile flow).1] at hend
    cases hstart <;> simp [Flow.entry, SessionEntry.requested, SessionState.Ended] at hend
  | @drive profile pc e input flow hd hs hf =>
    have hres := Drive.resume_cases hf
    have hstate : e.state.Ended := by
      rw [(settle_entry profile flow).1] at hend
      by_contra hno
      cases hres <;> first
        | exact hno hend
        | simp [Flow.entry, SessionState.Ended] at hend
    have hr' := Runs.drive hd hs hf
    rcases settle_cases cfg s profile flow with ⟨e', next, evs, rfl, heq⟩ |
      ⟨e', sum, evs, rfl, heq⟩ | ⟨e', err, evs, rfl, -, heq⟩ |
      ⟨e', err, evs, c, cs, rfl, herr, -, -⟩
    · refine .inl ⟨t, profile, next, by rw [hmine, heq], ?_⟩
      rintro rfl
      have hb := hres.next_touchLaunch rfl
      rw [heq] at hend
      simp [hb, SessionState.Ended] at hend
    · obtain ⟨rfl, rfl⟩ := hres.finish rfl
      -- the start itself is past the calls that could still fail
      rcases h.ended e' hs hstate with ⟨u, q, pc', hu, hpc⟩ | ⟨u, err, hu⟩ | hsettled
      · obtain rfl := ht.starter u t _ _ s hu hd rfl rfl
        rw [hd] at hu
        cases hu
        exact absurd rfl hpc
      · obtain rfl := ht.starter u t _ _ s hu hd rfl rfl
        rw [hd] at hu
        cases hu
      · rw [heq]
        exact .inr (.inr (hsettled.runs h hr' hc))
    · exact .inr (.inl ⟨t, err, by rw [hmine, heq]⟩)
    · simp only [settle, herr, Bool.false_eq_true, if_false] at hc ⊢
      exact .inr (.inr (settled_beginTeardown hc))
  | failClosed _ _ _ => exact .inr (.inr (settled_beginTeardown hc))
  | @teardown c cs ending e input hd hs hret =>
    have hr' : Runs cfg w t s (.resume t input) _ := .teardown hd hs hret
    cases cs with
    | nil => exact .inr (.inr ⟨rfl, fun role vm hvm => by cases role <;> cases hvm⟩)
    | cons d ds =>
      have hother (u : TaskId) (a : Task) (hu : w.tasks u = some a)
          (ha : ∀ cs ending, a ≠ .teardown s cs ending) : w'.tasks u = some a := by
        rw [htasks, if_neg]
        · exact hu
        · rintro rfl
          rw [hd] at hu
          cases hu
          exact ha _ _ rfl
      rcases h.ended e hs hend with ⟨u, q, pc, hu, hpc⟩ | ⟨u, err, hu⟩ | hsettled
      · exact .inl ⟨u, q, pc, hother u _ hu (by simp), hpc⟩
      · exact .inr (.inl ⟨u, err, hother u _ hu (by simp)⟩)
      · exact .inr (.inr (hsettled.runs h hr' hc))
  | stop _ _ _ => exact .inr (.inr (settled_beginTeardown hc))

/-- A start that is still to provision a VM has none. -/
theorem Unprovisioned.runs_task {profile : Profile} {pc : Drive} {role : VmRole}
    (h : Unprovisioned s w) (ht : w.Tracked) (hr : Runs cfg w t s l seg)
    (htask : seg.task = .drive s profile pc)
    (hpc : pc = .provisionGateway ∨ pc.provisions = some role)
    (vm : VmId) : .provisioned s role vm ∉ seg.events ++ w.log := by
  rw [List.mem_append, not_or]
  rcases hr.cases with ⟨p, q, host, lease, key, flow, hs, -, hstart, rfl⟩ |
    ⟨q, pc', e, input, flow, hd, hs, hres, rfl⟩ | ⟨e, -, hclose⟩
  · refine ⟨?_, fun hmem => ht.event _ hmem s rfl hs⟩
    rw [settle_ofDrive (.provisioned s role vm) rfl]
    cases hstart <;> simp [Flow.events, stateEvents]
  · rw [settle_ofDrive (.provisioned s role vm) rfl]
    obtain ⟨-, rfl, e', evs, rfl, -⟩ := settle_drive htask
    obtain ⟨hne, hnext⟩ := hres.next_provisions rfl
    obtain ⟨rfl, rfl⟩ := hnext role (hpc.resolve_left hne)
    refine ⟨?_, h t profile _ _ hd (.inl rfl) vm⟩
    rcases hres.provisions with ⟨r, v, hr, -, hev⟩ | ⟨-, hev⟩
    · rw [hev]
      rintro ⟨rfl, -⟩
      cases hr
    · exact hev _ vm
  · exact absurd htask (hclose.task _ _)

theorem Unprovisioned.runs {k : SessionId} (h : Unprovisioned k w) (ht : w.Tracked)
    (hr : Runs cfg w t s l seg) (hc : w.commit t s seg = some w') : Unprovisioned k w' := by
  obtain ⟨-, htasks, hlog, -, -⟩ := World.commit_cases hc
  intro u profile pc role hu hpc vm
  rw [htasks] at hu
  rw [hlog]
  split_ifs at hu with hut
  · have hk : k = s := hr.task_session (by rw [Option.some.inj hu]; rfl)
    subst hk
    exact h.runs_task ht hr (Option.some.inj hu) hpc vm
  · have hno := h u profile pc role hu hpc vm
    rw [List.mem_append, not_or]
    refine ⟨fun hev => ?_, hno⟩
    -- only the start of the session provisions for it
    obtain rfl : k = s := by rcases hr.about _ hev with ha | ha <;> cases ha; rfl
    obtain ⟨q, pc', e, input, flow, -, hd, -⟩ := hr.of_drive (.provisioned k role vm) rfl hev
    exact hut (ht.starter u t _ _ k hu hd rfl rfl)

end Runs

theorem Unprovisioned.moves {l : Label} {task : Task} (h : Unprovisioned s w)
    (hm : Moves w t l task) (hset : w.setTask t task = some w') : Unprovisioned s w' := by
  obtain ⟨-, hlog, -, -, -, -⟩ := World.setTask_cases hset
  intro u profile pc role hu hpc vm
  rw [hlog]
  exact h u profile pc role (hm.drive hset hu) hpc vm

/-- Session code works on one session. -/
theorem Tidy.runs {l : Label} {seg : Segment} {k : SessionId} (h : Tidy k w)
    (hb : Launching cfg w) (ht : w.Tracked) (hok : ClearsSettledOf k w l)
    (hr : Runs cfg w t s l seg) (hc : w.commit t s seg = some w') : Tidy k w' := by
  obtain ⟨hsess, htasks, hlog, -, -⟩ := World.commit_cases hc
  have hold (ev : Event) (he : ev.session = some k) (hk : k ≠ s)
      (hmem : ev ∈ seg.events ++ w.log) : ev ∈ w.log := by
    refine (List.mem_append.mp hmem).resolve_left fun hev => ?_
    rcases hr.about ev hev with ha | ha <;> rw [he] at ha <;> cases ha
    exact hk rfl
  constructor
  case headed =>
    intro u c cs ending hu
    rw [htasks] at hu
    rw [hlog, List.mem_append]
    split_ifs at hu with hut
    · have hk : k = s := hr.task_session (by rw [Option.some.inj hu]; rfl)
      subst hk
      exact .inl (hr.headed (Option.some.inj hu))
    · exact .inr (h.headed u c cs ending hu)
  case vm =>
    intro e role vm hk hmem
    rw [hsess] at hk
    rw [hlog] at hmem
    split_ifs at hk with hks
    · subst hks
      cases hk
      exact h.runs_vm ht hok hr hc hmem
    · exact (h.vm e role vm hk (hold _ rfl hks hmem)).imp_right fun hd => hd.runs h hr hc
  case handle =>
    intro e b hk hmem
    rw [hsess] at hk
    rw [hlog] at hmem ⊢
    split_ifs at hk with hks
    · subst hks
      cases hk
      exact h.runs_handle hb ht hok hr hmem
    · exact (h.handle e b hk (hold _ rfl hks hmem)).imp_right (List.mem_append_right _)
  case stopped =>
    intro e hk hmem
    rw [hsess] at hk
    rw [hlog] at hmem
    split_ifs at hk with hks
    · subst hks
      cases hk
      exact h.runs_stopped ht hr hmem
    · exact h.stopped e hk (hold _ rfl hks hmem)
  case ended =>
    intro e hk hend
    rw [hsess] at hk
    split_ifs at hk with hks
    · subst hks
      cases hk
      exact h.runs_ended ht hr hc hend
    · have hother (u : TaskId) (a : Task) (hu : w.tasks u = some a) (ha : a.session = some k) :
          w'.tasks u = some a := by
        rw [htasks, if_neg]
        · exact hu
        · rintro rfl
          rcases hr.task_before with hn | ⟨b, hb, hses⟩
          · rw [hu] at hn; cases hn
          · rw [hu] at hb
            cases hb
            rcases hses with hses | hses <;> rw [ha] at hses <;> cases hses
            exact hks rfl
      rcases h.ended e hk hend with ⟨u, q, pc, hu, hpc⟩ | ⟨u, err, hu⟩ | hsettled
      · exact .inl ⟨u, q, pc, hother u _ hu rfl, hpc⟩
      · exact .inr (.inl ⟨u, err, hother u _ hu rfl⟩)
      · exact .inr (.inr (hsettled.runs h hr hc))
  case provisioning => exact Unprovisioned.runs h.provisioning ht hr hc

theorem Tidy.step {l : Label} (h : Tidy s w) (hb : Launching cfg w) (ht : w.Tracked)
    (hok : ClearsSettledOf s w l) (hs : w.step cfg l = some w') : Tidy s w' := by
  rcases World.step_cases hs with ⟨e, -, rfl⟩ | ⟨op, k, -, -, -, rfl⟩ | ⟨op, g, -, -, -, rfl⟩ |
    ⟨t, task, hm, hset⟩ | ⟨t, k, seg, hr, hc⟩
  · exact ⟨h.headed, h.vm, h.handle, h.stopped, h.ended, h.provisioning⟩
  · exact ⟨h.headed, h.vm, h.handle, h.stopped, h.ended, h.provisioning⟩
  · exact ⟨h.headed, h.vm, h.handle, h.stopped, h.ended, h.provisioning⟩
  · obtain ⟨hsess, hlog, -, htasks, -, -⟩ := World.setTask_cases hset
    have hsession := hm.session
    have hbefore := fun a (ha : w.tasks t = some a) => hm.task_before ha
    have hother (u : TaskId) (a : Task) (hu : w.tasks u = some a)
        (ha : a.session = some s) : w'.tasks u = some a := by
      rw [htasks, if_neg]
      · exact hu
      · rintro rfl
        rw [hbefore a hu] at ha
        cases ha
    constructor
    case headed => grind [h.headed, Task.session]
    case vm =>
      intro e role vm hk hmem
      rw [hsess] at hk
      rw [hlog] at hmem
      exact (h.vm e role vm hk hmem).imp_right fun hd => hd.moves hm hset
    case handle => grind [h.handle]
    case stopped => grind [h.stopped]
    case ended =>
      intro e hk hend
      rw [hsess] at hk
      rcases h.ended e hk hend with ⟨u, q, pc, hu, hpc⟩ | ⟨u, err, hu⟩ | ⟨hhandle, hvm⟩
      · exact .inl ⟨u, q, pc, hother u _ hu rfl, hpc⟩
      · exact .inr (.inl ⟨u, err, hother u _ hu rfl⟩)
      · exact .inr (.inr ⟨hhandle, fun role vm he => (hvm role vm he).moves hm hset⟩)
    case provisioning => exact Unprovisioned.moves h.provisioning hm hset
  · exact h.runs hb ht hok hr hc

theorem Unprovisioned.step {l : Label} (h : Unprovisioned s w) (ht : w.Tracked)
    (hs : w.step cfg l = some w') : Unprovisioned s w' := by
  rcases World.step_cases hs with ⟨e, -, rfl⟩ | ⟨op, k, -, -, -, rfl⟩ | ⟨op, g, -, -, -, rfl⟩ |
    ⟨t, task, hm, hset⟩ | ⟨t, k, seg, hr, hc⟩
  · exact h
  · exact h
  · exact h
  · exact h.moves hm hset
  · exact h.runs ht hr hc

theorem tidy_initial (h : w.Initial) : Tidy s w := by
  constructor <;> simp [h.tasks, h.sessions, h.log]

theorem tidy_of_reach (hr : Reach (World.step cfg) World.Initial (ClearsSettledOf s) w) :
    Tidy s w :=
  hr.invariant (fun _ h => tidy_initial h) fun _ _ _ hr h hok hs =>
    h.step (launching_of_reach hr.any) (tracked_of_reach hr.any) hok hs

/-! ### No leak -/

/-- Once every call that works on a stopped session has returned, each of its VMs was destroyed
and each of its browsers terminated. -/
def NoLeak (s : SessionId) (w : World) : Prop :=
  (∀ t a, w.tasks t = some a → a.session ≠ some s) → .stopCalled s ∈ w.log →
    (∀ role vm, .provisioned s role vm ∈ w.log → .cleanup s (.destroy role vm) ∈ w.log) ∧
    ∀ h, .launched s h ∈ w.log → .cleanup s (.terminate h) ∈ w.log

/-- A session that ended, and that no call works on any more, leaks nothing. -/
theorem Tidy.disposed {e : SessionEntry} (h : Tidy s w) (he : w.sessions s = some e)
    (hend : e.state.Ended) (hreturned : ∀ t a, w.tasks t = some a → a.session ≠ some s) :
    (∀ role vm, .provisioned s role vm ∈ w.log → .cleanup s (.destroy role vm) ∈ w.log) ∧
    ∀ h, .launched s h ∈ w.log → .cleanup s (.terminate h) ∈ w.log := by
  have hmade (c : Cleanup) (hc : w.Disposed s c) : .cleanup s c ∈ w.log := by
    rcases hc with hmem | ⟨t, cs, ending, ht, -⟩
    · exact hmem
    · exact absurd rfl (hreturned t _ ht)
  -- every call has returned, so the entry is settled
  have hsettled : w.Settled s e := by
    rcases h.ended e he hend with ⟨t, q, pc, ht, -⟩ | ⟨t, err, ht⟩ | hsettled
    · exact absurd rfl (hreturned t _ ht)
    · exact absurd rfl (hreturned t _ ht)
    · exact hsettled
  constructor
  · intro role vm hvm
    rcases h.vm e role vm he hvm with hentry | hdisp
    · exact hmade _ (hsettled.2 role vm hentry)
    · exact hmade _ hdisp
  · intro b hb
    rcases h.handle e b he hb with hentry | hterm
    · rw [hsettled.1] at hentry
      cases hentry
    · exact hterm

/-- As long as a teardown clears a settled entry only, a stopped session leaks nothing. -/
theorem noLeak_of_reach (hr : Reach (World.step cfg) World.Initial ClearsSettled w) :
    NoLeak s w := by
  intro hreturned hstop
  have h : Tidy s w := tidy_of_reach (hr.mono fun _ _ hok => hok.of s)
  obtain ⟨e, he⟩ := Option.ne_none_iff_exists'.mp
    ((tracked_of_reach hr.any).event _ hstop s rfl)
  exact h.disposed he (h.stopped e he hstop) hreturned

/-- A test that a call has been made. -/
def called (log : List Event) (s : SessionId) (c : Cleanup) : Bool :=
  log.any fun ev => match ev with | .cleanup u d => u = s ∧ d = c | _ => false

theorem called_iff {log : List Event} {c : Cleanup} :
    called log s c = true ↔ .cleanup s c ∈ log := by
  unfold called
  rw [List.any_eq_true]
  constructor
  · rintro ⟨ev, hev, hmatch⟩
    split at hmatch
    next u d =>
      obtain ⟨rfl, rfl⟩ := of_decide_eq_true hmatch
      exact hev
    · cases hmatch
  · exact fun h => ⟨_, h, by simp⟩

/-- A test of the condition, for teardowns that are alone with their session. -/
def clearsSettled (w : World) : Label → Bool
  | .resume t _ =>
    match w.tasks t with
    | some (.teardown s [_] _) => (w.sessions s).all fun e => e.browserHandle.isNone &&
        (e.gatewayVm.all fun vm => called w.log s (.destroy .gateway vm)) &&
        e.browserVm.all fun vm => called w.log s (.destroy .browser vm)
    | _ => true
  | _ => true

theorem clearsSettled_sound (w : World) (l : Label) (h : clearsSettled w l = true) :
    ClearsSettled w l := by
  cases l with
  | resume t input =>
    intro s c ending e ht hs
    simp only [clearsSettled, ht, hs, Option.all_some, Bool.and_eq_true,
      Option.isNone_iff_eq_none] at h
    obtain ⟨⟨hhandle, hgw⟩, hbr⟩ := h
    refine ⟨hhandle, fun role vm hvm => .inl (called_iff.mp ?_)⟩
    cases role with
    | gateway => rw [show e.gatewayVm = some vm from hvm] at hgw; exact hgw
    | browser => rw [show e.browserVm = some vm from hvm] at hbr; exact hbr
  | _ => trivial

/-- A complete start, stopped by request 1 once it browses. -/
def stoppedRun : List Label :=
  browsingRun ++ [.resume 0 .returned, .stopSession 1 ⟨0⟩] ++
    List.replicate 5 (.resume 1 (.destroyed (.ok true))) ++
    [.lock (.read 1 none), .lock (.compare 1), .lock (.remove 1 none), .resume 1 .returned]

/-- The events that claim a resource, give it up or stop the session. -/
def Event.OfResource : Event → Bool
  | .provisioned _ _ _ | .launched _ _ | .stopCalled _ => true
  | .cleanup _ (.destroy _ _) | .cleanup _ (.terminate _) => true
  | _ => false

theorem stoppedRun_resources :
    (exec (fun w l => if clearsSettled w l then World.step daemon w l else none) booted
      stoppedRun).map (fun w => w.log.filter Event.OfResource) =
    some [.cleanup ⟨0⟩ (.destroy .gateway ⟨10⟩), .cleanup ⟨0⟩ (.destroy .browser ⟨11⟩),
      .cleanup ⟨0⟩ (.terminate ⟨⟨0⟩, .chromium, "pid"⟩), .stopCalled ⟨0⟩,
      .launched ⟨0⟩ ⟨⟨0⟩, .chromium, "pid"⟩, .provisioned ⟨0⟩ .browser ⟨11⟩,
      .provisioned ⟨0⟩ .gateway ⟨10⟩] := rfl

/-- A session stopped while it browses leaks nothing. -/
theorem noLeak_stoppedRun : ∃ w : World, .provisioned ⟨0⟩ .gateway ⟨10⟩ ∈ w.log ∧
    NoLeak ⟨0⟩ w := by
  obtain ⟨w, hw, hlog⟩ := Option.map_eq_some_iff.mp stoppedRun_resources
  have hmem : Event.provisioned ⟨0⟩ .gateway ⟨10⟩ ∈ w.log.filter Event.OfResource := by
    rw [hlog]
    simp
  exact ⟨w, (List.mem_filter.mp hmem).1,
    noLeak_of_reach ((Reach.start booted_initial).execWhere clearsSettled_sound hw)⟩

/-- Session 0 is stopped while it waits for its gateway VM; the VM arrives before the stop
returns. -/
def lateVmRun : List Label :=
  leaseRun 0 ⟨0⟩ (Store.LockSystem.repeated 'a') ++
    [.resume 0 (.registered ⟨0⟩ (.ok 0) ⟨0⟩), .stopSession 1 ⟨0⟩,
      .resume 0 (.provisioned (.ok ⟨10⟩) ⟨1⟩), .lock (.read 1 none), .lock (.compare 1),
      .lock (.remove 1 none), .resume 1 .returned,
      .resume 0 (.provisioned (.error (.system "out of memory")) ⟨2⟩), .lock (.read 0 none),
      .resume 0 .returned]

/-- The world after that run. -/
def lateVm : World := (exec (World.step daemon) booted lateVmRun).getD booted

theorem lateVm_resources : lateVm.log.filter Event.OfResource =
    [.provisioned ⟨0⟩ .gateway ⟨10⟩, .stopCalled ⟨0⟩] := rfl

/-- The gateway VM is never destroyed. -/
theorem lateVm_leaks : Reach (World.step daemon) World.Initial anyStep lateVm ∧
    ¬ NoLeak ⟨0⟩ lateVm := by
  have hrun : exec (World.step daemon) booted lateVmRun = some lateVm := rfl
  refine ⟨(Reach.start booted_initial).exec hrun, fun h => ?_⟩
  have hmem (ev : Event) (hev : ev.OfResource = true) : ev ∈ lateVm.log ↔
      ev ∈ [Event.provisioned ⟨0⟩ .gateway ⟨10⟩, .stopCalled ⟨0⟩] := by
    rw [← lateVm_resources, List.mem_filter]
    simp [hev]
  have hsession : ∀ t, (lateVm.tasks t).bind Task.session = none := by
    rintro (_ | _ | t) <;> rfl
  have hreturned : ∀ t a, lateVm.tasks t = some a → a.session ≠ some ⟨0⟩ := by
    intro t a ha he
    have := hsession t
    rw [ha, Option.bind_some, he] at this
    cases this
  obtain ⟨hvms, -⟩ := h hreturned ((hmem _ rfl).mpr (by simp))
  have := (hmem _ rfl).mp (hvms .gateway ⟨10⟩ ((hmem _ rfl).mpr (by simp)))
  simp at this

end Aegis.Orchestrator
