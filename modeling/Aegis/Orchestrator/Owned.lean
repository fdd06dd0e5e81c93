import Aegis.Orchestrator.Launch

/-! What a teardown releases: the browser, the VMs and the directory that its own session
launched, provisioned or was given. -/
namespace Aegis.Orchestrator
open Transition

variable {cfg : Wiring} {w w' : World} {t : TaskId} {s : SessionId}

def SessionEntry.vm (e : SessionEntry) : VmRole → Option VmId
  | .gateway => e.gatewayVm
  | .browser => e.browserVm

/-- The session is registered with a profile whose host directory this is. -/
def HostDir (cfg : Wiring) (s : SessionId) (log : List Event) (dir : String) (eph : Bool) : Prop :=
  ∃ profile, .registered s profile ∈ log ∧ dir = cfg.hostUserDataDir profile ∧
    eph = profile.spec.kind.isEphemeral

/-- The call releases what the session was recorded to have. -/
def Cleanup.Of (cfg : Wiring) (s : SessionId) (log : List Event) : Cleanup → Prop
  | .terminate h => .launched s h ∈ log
  | .removeDir dir => HostDir cfg s log dir true
  | .shutdown vm => ∃ role, .provisioned s role vm ∈ log
  | .destroy role vm => .provisioned s role vm ∈ log
  | .release _ => True

/-- An entry refers to what its session was recorded to have. -/
structure SessionEntry.Owned (cfg : Wiring) (s : SessionId) (log : List Event) (e : SessionEntry) :
    Prop where
  vm : ∀ role vm, e.vm role = some vm → .provisioned s role vm ∈ log
  handle : ∀ h, e.browserHandle = some h → .launched s h ∈ log
  dir : ∀ dir eph engine, e.mode = .hostProcess dir eph engine → HostDir cfg s log dir eph

/-- The entries, and the teardowns in progress, refer to what their sessions have. -/
structure Owning (cfg : Wiring) (w : World) : Prop where
  entry : ∀ s e, w.sessions s = some e → e.Owned cfg s w.log
  driven : ∀ t s profile pc, w.tasks t = some (.drive s profile pc) → .registered s profile ∈ w.log
  calls : ∀ t s cs ending c, w.tasks t = some (.teardown s cs ending) → c ∈ cs → c.Of cfg s w.log

/-! ### A record that grows -/

section Mono

variable {log log' : List Event}

theorem HostDir.mono {dir : String} {eph : Bool} (h : HostDir cfg s log dir eph)
    (hsub : log ⊆ log') : HostDir cfg s log' dir eph := by
  obtain ⟨profile, hreg, hdir⟩ := h
  exact ⟨profile, hsub hreg, hdir⟩

theorem Cleanup.Of.mono {c : Cleanup} (h : c.Of cfg s log) (hsub : log ⊆ log') :
    c.Of cfg s log' := by
  cases c with
  | terminate b => exact hsub h
  | removeDir dir => exact HostDir.mono h hsub
  | shutdown vm => exact h.imp fun role hr => hsub hr
  | destroy role vm => exact hsub h
  | release l => trivial

theorem SessionEntry.Owned.mono {e : SessionEntry} (h : e.Owned cfg s log) (hsub : log ⊆ log') :
    e.Owned cfg s log' where
  vm role vm hvm := hsub (h.vm role vm hvm)
  handle b hb := hsub (h.handle b hb)
  dir dir eph engine hm := (h.dir dir eph engine hm).mono hsub

end Mono

/-- What a teardown of an entry calls. -/
theorem SessionEntry.Owned.calls {e : SessionEntry} {log : List Event} {c : Cleanup}
    (h : e.Owned cfg s log) (hc : c ∈ cleanupCalls cfg e) : c.Of cfg s log := by
  simp only [cleanupCalls, List.mem_append, or_assoc] at hc
  rcases hc with hc | hc | hc | hc | hc
  · split at hc
    next b hb _ =>
      rw [List.mem_singleton.mp hc]
      exact h.handle b hb
    next b _ _ engine hb _ =>
      split at hc
      · rw [List.mem_singleton.mp hc]
        exact h.handle b hb
      · cases hc
    · cases hc
  · split at hc
    next dir engine hm =>
      rw [List.mem_singleton.mp hc]
      exact h.dir dir true engine hm
    · cases hc
  · split at hc
    next vm hvm =>
      rcases List.mem_pair.mp hc with rfl | rfl
      · exact ⟨.browser, h.vm .browser vm hvm⟩
      · exact h.vm .browser vm hvm
    · cases hc
  · split at hc
    next vm hvm =>
      rcases List.mem_pair.mp hc with rfl | rfl
      · exact ⟨.gateway, h.vm .gateway vm hvm⟩
      · exact h.vm .gateway vm hvm
    · cases hc
  · rw [List.mem_singleton.mp hc]
    trivial

/-! ### Session code -/

/-- What session code leaves refers to what the session has. -/
structure Segment.Owned (cfg : Wiring) (s : SessionId) (log : List Event) (seg : Segment) :
    Prop where
  entry : seg.entry.Owned cfg s log
  driven : ∀ profile pc, seg.task = .drive s profile pc → .registered s profile ∈ log
  calls : ∀ cs ending c, seg.task = .teardown s cs ending → c ∈ cs → c.Of cfg s log

section Segment

variable {log : List Event}

theorem owned_beginTeardown {ending : Ending} {e : SessionEntry} {evs : List Event}
    (h : e.Owned cfg s log) : (beginTeardown cfg s ending e evs).Owned cfg s log := by
  obtain ⟨c, cs, hc, heq⟩ := beginTeardown_eq cfg s ending e evs
  rw [heq]
  constructor
  case entry => exact ⟨h.vm, by simp, h.dir⟩
  case driven => simp
  case calls =>
    rintro _ _ d ⟨⟩ hd
    rw [← hc] at hd
    exact h.calls hd

theorem owned_settle {profile : Profile} {flow : Flow} (h : flow.entry.Owned cfg s log)
    (hreg : .registered s profile ∈ log) : (settle cfg s profile flow).Owned cfg s log := by
  cases flow with
  | await e next evs =>
    refine ⟨h, ?_, by simp [settle]⟩
    rintro _ _ ⟨⟩
    exact hreg
  | finish e sum evs => exact ⟨h, by simp [settle], by simp [settle]⟩
  | raise e err evs =>
    simp only [settle]
    split_ifs
    · exact ⟨h, by simp, by simp⟩
    · exact owned_beginTeardown h

theorem settle_events (cfg : Wiring) (s : SessionId) (profile : Profile) (flow : Flow) :
    flow.events ⊆ (settle cfg s profile flow).events := by
  rcases settle_cases cfg s profile flow with ⟨e, next, evs, rfl, heq⟩ | ⟨e, sum, evs, rfl, heq⟩ |
    ⟨e, err, evs, rfl, -, heq⟩ | ⟨e, err, evs, c, cs, rfl, -, -, heq⟩ <;> rw [heq] <;>
    simp [Flow.events]

/-- A part of a start refers to what it recorded. -/
theorem Resumes.owned {profile : Profile} {reply : Option Gateway.Call} {e : SessionEntry}
    {pc : Drive} {input : Input} {flow : Flow} (h : Resumes cfg s profile reply e pc input flow)
    (he : e.Owned cfg s log) (hreg : .registered s profile ∈ log) :
    flow.entry.Owned cfg s (flow.events ++ log) := by
  have hgrow : e.Owned cfg s (flow.events ++ log) := he.mono (List.subset_append_right ..)
  have hhost : HostDir cfg s (flow.events ++ log) (cfg.hostUserDataDir profile)
      profile.spec.kind.isEphemeral :=
    ⟨profile, List.mem_append_right _ hreg, rfl, rfl⟩
  cases h
  case gatewayProvisioned gw inst =>
    refine ⟨fun role vm hvm => ?_, hgrow.handle, hgrow.dir⟩
    cases role with
    | gateway =>
      cases hvm
      simp [Flow.events]
    | browser => exact hgrow.vm .browser vm hvm
  case browserProvisioned gw br inst hcan =>
    refine ⟨fun role vm hvm => ?_, hgrow.handle, hgrow.dir⟩
    cases role with
    | gateway => exact hgrow.vm .gateway vm hvm
    | browser =>
      cases hvm
      simp [Flow.events]
  case browserStopped gw br inst text hcan =>
    refine ⟨fun role vm hvm => ?_, hgrow.handle, hgrow.dir⟩
    cases role with
    | gateway => exact hgrow.vm .gateway vm hvm
    | browser =>
      cases hvm
      simp [Flow.events]
  case launched req bundle b =>
    refine ⟨fun role vm hvm => hgrow.vm role vm (by cases role <;> exact hvm), ?_, hgrow.dir⟩
    rintro _ ⟨⟩
    simp [Flow.events]
  case proxyReached =>
    refine ⟨fun role vm hvm => hgrow.vm role vm (by cases role <;> exact hvm), hgrow.handle, ?_⟩
    rintro _ _ _ ⟨⟩
    exact hhost
  case proxyUnsafe =>
    refine ⟨fun role vm hvm => hgrow.vm role vm (by cases role <;> exact hvm), hgrow.handle, ?_⟩
    rintro _ _ _ ⟨⟩
    exact hhost
  all_goals
    exact ⟨fun role vm hvm => hgrow.vm role vm (by cases role <;> exact hvm), hgrow.handle,
      hgrow.dir⟩

end Segment

theorem SessionEntry.Owned.cleared {e : SessionEntry} {log : List Event}
    (h : e.Owned cfg s log) (state : SessionState) : (e.cleared state).Owned cfg s log where
  vm role vm hvm := by cases role <;> cases hvm
  handle b hb := by cases hb
  dir := h.dir

theorem owned_requested (p : ProfileId) (lease : Store.ProfileLease) (key : SecretKey)
    (log : List Event) : (SessionEntry.requested p lease key).Owned cfg s log where
  vm role vm hvm := by cases role <;> cases hvm
  handle b hb := by cases hb
  dir dir eph engine hm := by cases hm

theorem Owning.segment {l : Label} {seg : Segment} (h : Owning cfg w)
    (hr : Runs cfg w t s l seg) : seg.Owned cfg s (seg.events ++ w.log) := by
  have hgrow {evs : List Event} {e : SessionEntry} (hs : w.sessions s = some e) :
      e.Owned cfg s (evs ++ w.log) := (h.entry s e hs).mono (List.subset_append_right ..)
  cases hr with
  | @start p profile host lease key flow _ _ hs _ hstart =>
    have hsub := settle_events cfg s profile flow
    refine owned_settle ?_ ?_
    · have hreq : (SessionEntry.requested p lease key).Owned cfg s
        ((settle cfg s profile flow).events ++ w.log) := owned_requested p lease key _
      cases hstart <;> exact ⟨hreq.vm, hreq.handle, hreq.dir⟩
    · refine List.mem_append_left _ (hsub ?_)
      cases hstart <;> simp [Flow.events]
  | @drive profile pc e input flow hd hs hf =>
    have hreg := h.driven t s profile pc hd
    refine owned_settle ?_ (List.mem_append_right _ hreg)
    exact ((Drive.resume_cases hf).owned (h.entry s e hs) hreg).mono
      (List.append_subset.mpr
        ⟨List.subset_append_of_subset_left _ (settle_events cfg s profile flow),
          List.subset_append_right ..⟩)
  | failClosed _ hs _ => exact owned_beginTeardown (hgrow hs)
  | @teardown c cs ending e input hd hs _ =>
    cases cs with
    | nil => exact ⟨(hgrow hs).cleared _, by simp [teardown], by simp [teardown]⟩
    | cons d ds =>
      refine ⟨hgrow hs, by simp [teardown], ?_⟩
      rintro _ _ c' ⟨⟩ hc'
      exact (h.calls t s _ ending c' hd (List.mem_cons_of_mem _ hc')).mono
        (List.subset_append_right ..)
  | @stop e e' evs _ hs hcases =>
    obtain ⟨-, hentry, -⟩ := stop_entry hcases
    refine owned_beginTeardown ?_
    rw [hentry]
    exact ⟨fun role vm hvm => (hgrow hs).vm role vm (by cases role <;> exact hvm),
      (hgrow hs).handle, (hgrow hs).dir⟩

theorem Owning.step {l : Label} (h : Owning cfg w) (hs : w.step cfg l = some w') :
    Owning cfg w' := by
  rcases World.step_cases hs with ⟨e, -, rfl⟩ | ⟨op, k, -, -, -, rfl⟩ | ⟨op, g, -, -, -, rfl⟩ |
    ⟨t, task, hm, hset⟩ | ⟨t, k, seg, hr, hc⟩
  · exact ⟨h.entry, h.driven, h.calls⟩
  · exact ⟨h.entry, h.driven, h.calls⟩
  · exact ⟨h.entry, h.driven, h.calls⟩
  · obtain ⟨hsess, hlog, -, htasks, -, -⟩ := World.setTask_cases hset
    have hold (u : TaskId) (a : Task) (u' : SessionId) (hu : w'.tasks u = some a)
        (ha : a.session = some u') : w.tasks u = some a := by
      rw [htasks] at hu
      split_ifs at hu
      · rw [← Option.some.inj hu, hm.session] at ha
        cases ha
      · exact hu
    constructor
    case entry => exact fun u e he => hlog ▸ h.entry u e (hsess u ▸ he)
    case driven => exact fun u u' q pc hu => hlog ▸ h.driven u u' q pc (hold u _ u' hu rfl)
    case calls =>
      exact fun u u' cs ending c hu hc => hlog ▸ h.calls u u' cs ending c (hold u _ u' hu rfl) hc
  · obtain ⟨hsess, htasks, hlog, -, -⟩ := World.commit_cases hc
    have hseg := h.segment hr
    rw [← hlog] at hseg
    have hsub : w.log ⊆ w'.log := hlog ▸ List.subset_append_right ..
    have hmine (a : Task) (u : SessionId) (hu : some seg.task = some a)
        (ha : a.session = some u) : u = k :=
      hr.task_session (by rw [Option.some.inj hu]; exact ha)
    constructor
    case entry =>
      intro u e he
      rw [hsess] at he
      split_ifs at he with huk
      · subst huk
        cases he
        exact hseg.entry
      · exact (h.entry u e he).mono hsub
    case driven =>
      intro u u' q pc hu
      rw [htasks] at hu
      split_ifs at hu
      · obtain rfl := hmine _ u' hu rfl
        exact hseg.driven q pc (Option.some.inj hu)
      · exact hsub (h.driven u u' q pc hu)
    case calls =>
      intro u u' cs ending c hu hcs
      rw [htasks] at hu
      split_ifs at hu
      · obtain rfl := hmine _ u' hu rfl
        exact hseg.calls cs ending c (Option.some.inj hu) hcs
      · exact (h.calls u u' cs ending c hu hcs).mono hsub

theorem owning_of_reach (hr : Reach (World.step cfg) World.Initial anyStep w) : Owning cfg w :=
  hr.invariant (fun _ h => by constructor <;> simp [h.tasks, h.sessions])
    fun _ _ _ _ h _ hs => h.step hs

end Aegis.Orchestrator
