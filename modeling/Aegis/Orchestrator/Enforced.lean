import Aegis.Orchestrator.Request

/-! The enforcement policy that each session was started under, what it says of the session's
isolation, and when the two agree. -/
namespace Aegis.Orchestrator
open Store Transition

variable {cfg : Wiring} {w w' : World} {t : TaskId}

/-- The isolation part of a status snapshot. -/
structure Status where
  isolationLevel : IsolationLevel
  enforcement : Enforcement
  hostBrowserAvailable : Bool

def World.status (cfg : Wiring) (w : World) : Status :=
  ⟨w.enforcement.isolationLevel, w.enforcement, cfg.hostBrowser⟩

/-- The daemon with a record of the policies: the one each start read, and the one each session
was started under. -/
structure Policed where
  world : World
  read : TaskId → Option Enforcement
  under : SessionId → Option Enforcement

namespace Policed

/-- `start_session` reads the policy once it has the profile. -/
def recordRead (m : Policed) : Label → TaskId → Option Enforcement
  | .resume t (.profile (.ok _)) => Function.update m.read t (some m.world.enforcement)
  | _ => m.read

/-- A session that is registered was started under the policy its start has read. -/
def recordUnder (m : Policed) (w : World) : Label → SessionId → Option Enforcement
  | .resume t (.registered s _ _) =>
    if (m.world.sessions s).isNone ∧ (w.sessions s).isSome then
      Function.update m.under s (m.read t)
    else m.under
  | _ => m.under

def step (cfg : Wiring) (m : Policed) (l : Label) : Option Policed :=
  (m.world.step cfg l).map fun w => ⟨w, m.recordRead l, m.recordUnder w l⟩

structure Initial (m : Policed) : Prop where
  world : m.world.Initial
  read : ∀ t, m.read t = none
  under : ∀ s, m.under s = none

/-- No start of a host-process profile reads a policy that requires VM isolation and allows the
host browser all the same. -/
def Consistent (m : Policed) (l : Label) : Prop :=
  ∀ t profile, l = .resume t (.profile (.ok profile)) → profile.spec.isolation = .hostProcess →
    ¬ (m.world.enforcement.requireVmIsolation = true ∧ m.world.enforcement.allowHostBrowser = true)

/-- A start, and then its session, has a policy that fits the isolation of its profile. -/
structure Fits (m : Policed) : Prop where
  start : ∀ t p profile host, m.world.tasks t = some (.acquireLock p profile host) →
    ∃ e, m.read t = some e ∧
      (profile.spec.isolation = .hostProcess → e.requireVmIsolation = false)
  session : ∀ s profile, .registered s profile ∈ m.world.log →
    ∃ e, m.under s = some e ∧
      (profile.spec.isolation = .hostProcess → e.requireVmIsolation = false)

variable {m m' : Policed} {l : Label}

theorem world_of_reach {ok : Policed → Label → Prop} (hr : Reach (step cfg) Initial ok m) :
    Reach (World.step cfg) World.Initial anyStep m.world := by
  refine hr.project Policed.world (fun m h => h.world) fun m l m' _ _ hs => ?_
  obtain ⟨w, hw, rfl⟩ := Option.map_eq_some_iff.mp hs
  exact .inr ⟨l, trivial, hw⟩

theorem hostMode_allows {enforcement : Enforcement} {profile : Profile} {host : Bool}
    (h : World.hostMode cfg enforcement profile = .ok host)
    (hi : profile.spec.isolation = .hostProcess) : enforcement.allowHostBrowser = true := by
  unfold World.hostMode at h
  rw [hi] at h
  by_cases ha : enforcement.allowHostBrowser = true
  · exact ha
  · simp only [ha, Bool.not_false, if_true] at h
    cases h

/-- A host-process profile starts only where the policy read then requires no VM. -/
theorem Consistent.reads {p q : ProfileId} {profile : Profile} {host : Bool}
    (hok : m.Consistent l) (hs : m.world.step cfg l = some w)
    (ht : m.world.tasks t = some (.getProfile p))
    (ht' : w.tasks t = some (.acquireLock q profile host)) :
    m.recordRead l t = some m.world.enforcement ∧ (profile.spec.isolation = .hostProcess →
      m.world.enforcement.requireVmIsolation = false) := by
  obtain ⟨rfl, -, hm⟩ := World.step_fetched hs ht ht'
  refine ⟨Function.update_self .., fun hi => ?_⟩
  have hno := hok t profile rfl hi
  rw [hostMode_allows hm hi] at hno
  simpa using hno

theorem recordRead_of_task (hl : l.task ≠ some t) : m.recordRead l t = m.read t := by
  unfold recordRead
  split
  next u profile =>
    rw [Function.update_of_ne]
    rintro rfl
    exact hl rfl
  · rfl

/-- A start that has its lease registers the session it was told to. -/
theorem step_registers {input : Input} {p : ProfileId} {profile : Profile} {host : Bool}
    (hs : w.step cfg (.resume t input) = some w')
    (ht : w.tasks t = some (.acquireLock p profile host)) : ∃ s key inst,
      input = .registered s key inst ∧ ∀ k, k ≠ s → w'.sessions k = w.sessions k := by
  cases input with
  | registered s key inst =>
    refine ⟨s, key, inst, rfl, fun k hk => ?_⟩
    simp only [World.step, World.resume, ht] at hs
    split at hs
    next lease hl =>
      unfold World.leased at hs
      cases key with
      | error e => exact (World.setTask_cases hs).1 k
      | ok key =>
        dsimp only at hs
        split_ifs at hs
        · rw [(World.commit_cases hs).1 k, if_neg hk]
        · rw [(World.commit_cases hs).1 k, if_neg hk]
    next e hl => exact (World.setTask_cases hs).1 k
    · cases hs
  | _ =>
    simp only [World.step, World.resume, ht] at hs
    cases hs

/-- Recording a policy leaves the sessions alone that exist. -/
theorem recordUnder_of_session {s : SessionId} (hs : m.world.sessions s ≠ none) :
    m.recordUnder w l s = m.under s := by
  unfold recordUnder
  split
  next u k key inst =>
    split_ifs with hk
    · rw [Function.update_of_ne]
      rintro rfl
      exact hs (Option.isNone_iff_eq_none.mp hk.1)
    · rfl
  · rfl

theorem Fits.step (h : m.Fits) (htracked : m.world.Tracked) (hok : m.Consistent l)
    (hs : m.step cfg l = some m') : m'.Fits := by
  obtain ⟨w, hw, rfl⟩ := Option.map_eq_some_iff.mp hs
  constructor
  case start =>
    intro u p profile host hu
    have hsame (hl : l.task ≠ some u) : ∃ e, m.recordRead l u = some e ∧
        (profile.spec.isolation = .hostProcess → e.requireVmIsolation = false) := by
      obtain ⟨e, he, hfits⟩ := h.start u p profile host (by rwa [← World.step_tasks hw hl])
      exact ⟨e, (recordRead_of_task hl).trans he, hfits⟩
    rcases World.step_cases hw with ⟨e, rfl, -⟩ | ⟨op, k, rfl, -⟩ | ⟨op, g, rfl, -⟩ |
      ⟨t, task, hm, hset⟩ | ⟨t, s, seg, hr, hc⟩
    · exact hsame nofun
    · exact hsame nofun
    · exact hsame nofun
    · obtain ⟨-, -, -, htasks, -, -⟩ := World.setTask_cases hset
      by_cases hut : u = t
      · subst hut
        have hu' := hu
        rw [htasks, if_pos rfl, Option.some.injEq] at hu'
        subst hu'
        cases hm with
        | fetched ht hhost => exact ⟨_, hok.reads hw ht hu⟩
      · exact hsame fun hl => hut (Option.some.inj (hl.symm.trans hm.label))
    · by_cases hut : u = t
      · subst hut
        obtain ⟨-, htasks, -, -, -⟩ := World.commit_cases hc
        rw [htasks, if_pos rfl, Option.some.injEq] at hu
        rcases hr.task_kind with hk | ⟨r, hk⟩
        · rw [hu] at hk
          cases hk
        · rw [hu] at hk
          cases hk
      · exact hsame fun hl => hut (Option.some.inj (hl.symm.trans hr.label))
  case session =>
    intro s profile hp
    rcases World.step_log hw hp rfl with hold | ⟨t, seg, hr, hc, hev⟩
    · obtain ⟨e, he, hfits⟩ := h.session s profile hold
      exact ⟨e, (recordUnder_of_session (htracked.event _ hold s rfl)).trans he, hfits⟩
    · -- the session is registered now, by the start that has read the policy
      obtain ⟨hnone, p, host, hacq⟩ := hr.registers hev
      obtain ⟨e, he, hfits⟩ := h.start t p profile host hacq
      refine ⟨e, ?_, hfits⟩
      obtain ⟨input, rfl⟩ : ∃ input, l = .resume t input := by
        cases hr with
        | stop ht _ _ =>
          rw [hacq] at ht
          cases ht
        | _ => exact ⟨_, rfl⟩
      obtain ⟨k, key, inst, rfl, hothers⟩ := step_registers hw hacq
      have hsome : (w.sessions s).isSome = true := by
        rw [(World.commit_cases hc).1 s, if_pos rfl]
        rfl
      obtain rfl : s = k := by
        by_contra hk
        rw [hothers s hk, hnone] at hsome
        cases hsome
      have hcond : (m.world.sessions s).isNone = true ∧ (w.sessions s).isSome = true :=
        ⟨by rw [hnone]; rfl, hsome⟩
      simp only [recordUnder, if_pos hcond, Function.update_self]
      exact he

theorem fits_of_reach (hr : Reach (step cfg) Initial Consistent m) : m.Fits := by
  induction hr with
  | start hi => constructor <;> simp [hi.world.tasks, hi.world.log]
  | next hr hok hs h => exact h.step (tracked_of_reach (world_of_reach hr)) hok hs

/-- The policies and the modes agree: a session on the host was started under a policy that
requires no VM, and where the status reports full VM isolation, the sessions started under that
policy are full-VM sessions. -/
structure Agrees (cfg : Wiring) (m : Policed) : Prop where
  host : ∀ s e dir eph engine, m.world.sessions s = some e →
    e.mode = .hostProcess dir eph engine →
    ∃ policy, m.under s = some policy ∧ policy.requireVmIsolation = false
  status : ∀ s e, (m.world.status cfg).isolationLevel = .fullVm →
    m.world.sessions s = some e → m.under s = some (m.world.status cfg).enforcement →
    e.mode = .fullVm ∧ ∀ profile, .registered s profile ∈ m.world.log →
      profile.spec.isolation = .fullVm

/-- In every run in which no start of a host-process profile reads a policy that requires VM
isolation and allows the host browser, the policies and the modes agree. -/
theorem statusAgrees_of_reach (hr : Reach (step cfg) Initial Consistent m) : m.Agrees cfg := by
  have h := fits_of_reach hr
  have hfaithful := faithful_of_reach (world_of_reach hr)
  have hhost (s : SessionId) (e : SessionEntry) (dir : String) (eph : Bool)
      (engine : BrowserBackendId) (he : m.world.sessions s = some e)
      (hm : e.mode = .hostProcess dir eph engine) :
      ∃ policy, m.under s = some policy ∧ policy.requireVmIsolation = false := by
    obtain ⟨profile, hp, hi⟩ := hfaithful.mode s e dir eph engine he hm
    obtain ⟨policy, hpolicy, hfits⟩ := h.session s profile hp
    exact ⟨policy, hpolicy, hfits hi⟩
  refine ⟨hhost, fun s e hlevel he hunder => ?_⟩
  have hrequires : m.world.enforcement.requireVmIsolation = true :=
    Enforcement.requireVmIsolation_of_fullVm hlevel
  constructor
  · cases hm : e.mode with
    | fullVm => rfl
    | hostProcess dir eph engine =>
      obtain ⟨policy, hpolicy, hno⟩ := hhost s e dir eph engine he hm
      rw [hunder] at hpolicy
      cases hpolicy
      cases hno.symm.trans hrequires
  · intro profile hp
    obtain ⟨policy, hpolicy, hfits⟩ := h.session s profile hp
    rw [hunder] at hpolicy
    cases hpolicy
    cases hi : profile.spec.isolation with
    | fullVm => rfl
    | hostProcess => cases (hfits hi).symm.trans hrequires

/-- The daemon before its first request. -/
def booted : Policed := ⟨Orchestrator.booted, fun _ => none, fun _ => none⟩

theorem booted_initial : booted.Initial :=
  ⟨Orchestrator.booted_initial, fun _ => rfl, fun _ => rfl⟩

/-- A session browses on the host under the policy that was set. -/
def hostSession (e : Enforcement) : List Label :=
  .setEnforcement e :: hostRun 0 ⟨0⟩ (LockSystem.repeated 'a')

/-- The side condition, as a test of the policy. -/
def consistent (m : Policed) (_ : Label) : Bool :=
  !(m.world.enforcement.requireVmIsolation && m.world.enforcement.allowHostBrowser)

theorem consistent_of_test (m : Policed) (l : Label) (h : m.consistent l = true) :
    m.Consistent l := by
  rintro t profile - - ⟨hrequires, hallows⟩
  simp [consistent, hrequires, hallows] at h

/-- Under the reduced posture a session browses on the host, and the policies agree. -/
theorem agrees_hostBrowser : ∃ (m : Policed) (e : SessionEntry),
    m.world.sessions ⟨0⟩ = some e ∧ e.mode ≠ .fullVm ∧ m.under ⟨0⟩ = some .hostBrowser ∧
      m.Agrees daemon := by
  have hrun : ∃ m, exec (fun m l => if consistent m l then step daemon m l else none) booted
      (hostSession .hostBrowser) = some m ∧ (∃ e, m.world.sessions ⟨0⟩ = some e ∧
        e.mode = .hostProcess hostDir true .chromium) ∧ m.under ⟨0⟩ = some .hostBrowser :=
    ⟨_, rfl, ⟨_, rfl, rfl⟩, rfl⟩
  obtain ⟨m, hm, ⟨e, he, hmode⟩, hunder⟩ := hrun
  have h₀ : Reach (step daemon) Initial Consistent booted := .start booted_initial
  have hr := h₀.execWhere consistent_of_test hm
  exact ⟨m, e, he, by simp [hmode], hunder, statusAgrees_of_reach hr⟩

/-- A policy that requires VM isolation and allows the host browser: the status reports full VM
isolation, and a session browses on the host. -/
theorem hostSession_not_agrees : ∃ m : Policed, Reach (step daemon) Initial anyStep m ∧
    (m.world.status daemon).isolationLevel = .fullVm ∧
      m.under ⟨0⟩ = some (m.world.status daemon).enforcement ∧
      (∃ e, m.world.sessions ⟨0⟩ = some e ∧ e.mode ≠ .fullVm) ∧ ¬ m.Agrees daemon := by
  have hrun : ∃ m, exec (step daemon) booted (hostSession ⟨true, true, true⟩) = some m ∧
      (∃ e, m.world.sessions ⟨0⟩ = some e ∧ e.mode = .hostProcess hostDir true .chromium) ∧
      m.under ⟨0⟩ = some ⟨true, true, true⟩ ∧ m.world.enforcement = ⟨true, true, true⟩ :=
    ⟨_, rfl, ⟨_, rfl, rfl⟩, rfl, rfl⟩
  obtain ⟨m, hm, ⟨e, he, hmode⟩, hunder, henf⟩ := hrun
  have hlevel : (m.world.status daemon).isolationLevel = .fullVm := by
    rw [World.status, henf]
    rfl
  have hsame : m.under ⟨0⟩ = some (m.world.status daemon).enforcement := by
    rw [hunder, World.status, henf]
  have hr : Reach (step daemon) Initial anyStep booted := .start booted_initial
  refine ⟨m, hr.exec hm, hlevel, hsame, ⟨e, he, by simp [hmode]⟩, fun h => ?_⟩
  have := (h.status ⟨0⟩ e hlevel he hsame).1
  rw [hmode] at this
  cases this

end Policed

end Aegis.Orchestrator
