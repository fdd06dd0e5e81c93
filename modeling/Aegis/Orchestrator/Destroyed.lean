import Aegis.Orchestrator.Alone
import Aegis.Vm.Controller

/-! The daemon with its VM controller: what the controller reported on the VMs of a session that
is said to be destroyed. -/
namespace Aegis.Orchestrator
open Transition

variable {cfg : Wiring} {w w' : World} {t : TaskId} {s : SessionId}

/-- The request a session made last. -/
def lastRequest (s : SessionId) (log : List Event) : Option VmProvisionRequest :=
  log.findSome? fun ev => match ev with
    | .provisionCalled u req => if u = s then some req else none
    | _ => none

/-- What the controller returned for a VM that a teardown had it destroy. -/
structure DestroyCall where
  session : SessionId
  role : VmRole
  vm : VmId
  result : Result Vm.DestroyReport

/-- The daemon and its VM controller. -/
structure Host where
  world : World
  vms : VmId → Option Vm.Entry
  destroyed : List DestroyCall

inductive HostLabel where
  | daemon (l : Label)
  | provisioned (t : TaskId) (o : Vm.ProvisionOutcomes) (inst : InstanceId)
  | destroyed (t : TaskId) (o : Vm.DestroyOutcomes)

/-- The task waits for the controller to provision or to destroy a VM. -/
def Task.AwaitsVm : Task → Bool
  | .drive _ _ pc => pc.provisions.isSome
  | .teardown _ (.destroy _ _ :: _) _ => true
  | _ => false

/-- The step lets a task go on that waits for the controller. -/
def Label.OfVm (w : World) : Label → Bool
  | .resume t _ => (w.tasks t).any Task.AwaitsVm
  | _ => false

namespace Host

/-- One step: where a task waits for the controller, its call returns what the controller makes
of the outcomes. -/
def step (cfg : Wiring) (h : Host) : HostLabel → Option Host
  | .daemon l =>
    if l.OfVm h.world then none else (h.world.step cfg l).map fun w => { h with world := w }
  | .provisioned t o inst =>
    match h.world.tasks t with
    | some (.drive s _ pc) =>
      match pc.provisions, lastRequest s h.world.log with
      | some _, some req =>
        let r := Vm.provision req o
        (h.world.step cfg (.resume t (.provisioned (r.map Prod.fst) inst))).map fun w =>
          { h with
            world := w
            vms := match r with
              | .ok (vm, entry) => Function.update h.vms vm (some entry)
              | .error _ => h.vms }
      | _, _ => none
    | _ => none
  | .destroyed t o =>
    match h.world.tasks t with
    | some (.teardown s (.destroy role vm :: _) _) =>
      let r := Vm.destroy (h.vms vm) vm o
      (h.world.step cfg (.resume t (.destroyed (r.map Vm.DestroyReport.overlayShredded)))).map
        fun w => { h with world := w, destroyed := ⟨s, role, vm, r⟩ :: h.destroyed }
    | _ => none

/-- The daemon as it starts, with no VM. -/
structure Initial (h : Host) : Prop where
  world : h.world.Initial
  vms : ∀ vm, h.vms vm = none
  destroyed : h.destroyed = []

end Host

/-! ### What a step of the daemon records -/

/-- Every request is one the orchestrator builds, and the session's start makes it. -/
theorem Runs.provisionCalled {l : Label} {seg : Segment} {req : VmProvisionRequest}
    (h : Runs cfg w t s l seg) (hmem : .provisionCalled s req ∈ seg.events) :
    (∃ role inst, req = cfg.provisionRequest role inst) ∧
      (w.sessions s = none ∨ ∃ profile pc, w.tasks t = some (.drive s profile pc)) := by
  cases h with
  | start _ hs _ hstart =>
    have hev := (mem_settle hmem).resolve_right (by simp)
    refine ⟨?_, .inl hs⟩
    cases hstart with
    | @fullVm inst => exact ⟨.gateway, inst, by simpa [Flow.events, stateEvents] using hev⟩
    | hostRefused => simp [Flow.events, stateEvents] at hev
    | hostProbe _ _ => simp [Flow.events, stateEvents] at hev
  | @drive profile pc _ _ flow ht _ hf =>
    have hev := (mem_settle hmem).resolve_right (by simp)
    have hres := Drive.resume_cases hf
    clear hf
    refine ⟨?_, .inr ⟨profile, pc, ht⟩⟩
    cases hres
    case gatewayProvisioned gw inst => exact ⟨.browser, inst, by simpa [Flow.events] using hev⟩
    case browsing =>
      cases hi : profile.spec.isolation <;>
        simp [Flow.events, browsingEvents, hi, stateEvents] at hev
    all_goals simp [Flow.events, stateEvents, preflightEvents, probeEvents] at hev
  | failClosed _ _ _ =>
    have hev := (mem_beginTeardown hmem).resolve_right (by simp)
    simp [failClosedEvents] at hev
  | teardown _ _ _ =>
    rcases teardown_events hmem with ⟨_, _, -, he⟩ | he | ⟨_, he⟩ <;> cases he
  | stop _ _ hcases =>
    obtain ⟨-, -, hevs⟩ := stop_entry hcases
    rcases hevs _ ((mem_beginTeardown hmem).resolve_right (by simp)) with he | he | ⟨_, he⟩ <;>
      cases he

/-- A start that waits for a VM has just asked for it. -/
theorem Runs.asks {l : Label} {seg : Segment} {profile : Profile} {pc : Drive} {role : VmRole}
    (h : Runs cfg w t s l seg) (htask : seg.task = .drive s profile pc)
    (hpc : pc.provisions = some role) :
    ∃ inst evs, seg.events = .provisionCalled s (cfg.provisionRequest role inst) :: evs := by
  rcases h.cases with ⟨p, q, host, lease, key, flow, -, -, hstart, rfl⟩ |
    ⟨q, pc', e, input, flow, -, -, hres, rfl⟩ | ⟨e, -, hclose⟩
  · obtain ⟨-, rfl, e, evs, rfl, heq⟩ := settle_drive htask
    rw [heq]
    cases hstart with
    | fullVm => cases hpc; exact ⟨_, _, rfl⟩
    | hostProbe _ _ => cases hpc
  · obtain ⟨-, rfl, e', evs, rfl, heq⟩ := settle_drive htask
    rw [heq]
    obtain ⟨rfl, rfl⟩ := (hres.next_provisions rfl).2 role hpc
    cases hres with
    | gatewayProvisioned => exact ⟨_, _, rfl⟩
  · exact absurd htask (hclose.task _ _)

/-- A VM that is recorded was returned to the start that waited for it. -/
theorem Runs.provisioned {l : Label} {seg : Segment} {role : VmRole} {vm : VmId}
    (h : Runs cfg w t s l seg) (hmem : .provisioned s role vm ∈ seg.events) :
    ∃ profile pc inst, l = .resume t (.provisioned (.ok vm) inst) ∧
      w.tasks t = some (.drive s profile pc) ∧ pc.provisions = some role := by
  obtain ⟨profile, pc, e, input, flow, rfl, ht, -, hres, -, hev⟩ :=
    h.of_drive (.provisioned s role vm) rfl hmem
  cases hres
  case gatewayProvisioned gw inst =>
    obtain ⟨rfl, rfl⟩ : role = .gateway ∧ vm = gw := by simpa [Flow.events] using hev
    exact ⟨profile, _, inst, rfl, ht, rfl⟩
  case browserProvisioned gw br inst _ =>
    obtain ⟨rfl, rfl⟩ : role = .browser ∧ vm = br := by simpa [Flow.events, stateEvents] using hev
    exact ⟨profile, _, inst, rfl, ht, rfl⟩
  case browserStopped gw br inst _ _ =>
    obtain ⟨rfl, rfl⟩ : role = .browser ∧ vm = br := by simpa [Flow.events] using hev
    exact ⟨profile, _, inst, rfl, ht, rfl⟩
  case browsing =>
    cases hi : profile.spec.isolation <;>
      simp [Flow.events, browsingEvents, hi, stateEvents] at hev
  all_goals simp [Flow.events, stateEvents, preflightEvents, probeEvents] at hev

/-- A call of a teardown is recorded when the task begins to wait for it. -/
theorem Runs.cleanup {l : Label} {seg : Segment} {c : Cleanup} (h : Runs cfg w t s l seg)
    (hmem : .cleanup s c ∈ seg.events) : ∃ cs ending, seg.task = .teardown s (c :: cs) ending := by
  have hbegin (ending : Ending) (e : SessionEntry) (evs : List Event) (hno : .cleanup s c ∉ evs)
      (hev : .cleanup s c ∈ (beginTeardown cfg s ending e evs).events) :
      ∃ cs end', (beginTeardown cfg s ending e evs).task = .teardown s (c :: cs) end' := by
    obtain ⟨d, ds, -, heq⟩ := beginTeardown_eq cfg s ending e evs
    rw [heq] at hev ⊢
    obtain rfl : c = d := by simpa [hno] using hev
    exact ⟨ds, ending, rfl⟩
  have hsettle (profile : Profile) (flow : Flow) (hno : .cleanup s c ∉ flow.events)
      (hev : .cleanup s c ∈ (settle cfg s profile flow).events) :
      ∃ cs ending, (settle cfg s profile flow).task = .teardown s (c :: cs) ending := by
    rcases settle_cases cfg s profile flow with ⟨e, next, evs, rfl, heq⟩ |
      ⟨e, sum, evs, rfl, heq⟩ | ⟨e, err, evs, rfl, -, heq⟩ |
      ⟨e, err, evs, d, ds, rfl, -, -, heq⟩ <;>
      rw [heq] at hev ⊢
    · exact absurd hev hno
    · exact absurd hev hno
    · exact absurd (List.mem_of_ne_of_mem (by simp) hev) hno
    · rcases List.mem_cons.mp hev with he | he
      · cases he
        exact ⟨ds, _, rfl⟩
      · exact absurd he hno
  cases h with
  | start _ _ _ hstart =>
    exact hsettle _ _ (by cases hstart <;> simp [Flow.events, stateEvents]) hmem
  | @drive profile _ _ _ flow _ _ hf =>
    refine hsettle _ _ (fun hev => ?_) hmem
    have hres := Drive.resume_cases hf
    clear hf
    cases hres
    case browsing =>
      cases hi : profile.spec.isolation <;>
        simp [Flow.events, browsingEvents, hi, stateEvents] at hev
    all_goals simp [Flow.events, stateEvents, preflightEvents, probeEvents] at hev
  | failClosed _ _ _ => exact hbegin _ _ _ (by simp [failClosedEvents]) hmem
  | @teardown _ cs ending _ _ _ _ _ =>
    rcases teardown_events hmem with ⟨d, ds, rfl, he⟩ | he | ⟨_, he⟩
    · cases he
      exact ⟨ds, ending, rfl⟩
    · cases he
    · cases he
  | stop _ _ hcases =>
    refine hbegin _ _ _ (fun he => ?_) hmem
    obtain ⟨-, -, hevs⟩ := stop_entry hcases
    rcases hevs _ he with he | he | ⟨_, he⟩ <;> cases he

theorem step_provisioned {l : Label} {role : VmRole} {vm : VmId} (h : w.step cfg l = some w')
    (hmem : .provisioned s role vm ∈ w'.log) :
    .provisioned s role vm ∈ w.log ∨
      ∃ t profile pc inst, l = .resume t (.provisioned (.ok vm) inst) ∧
        w.tasks t = some (.drive s profile pc) ∧ pc.provisions = some role :=
  (World.step_log h hmem rfl).imp_right fun ⟨t, _, hr, _, hev⟩ => ⟨t, hr.provisioned hev⟩

theorem step_cleanup {l : Label} {c : Cleanup} (h : w.step cfg l = some w')
    (hmem : .cleanup s c ∈ w'.log) :
    .cleanup s c ∈ w.log ∨ ∃ t cs ending, w'.tasks t = some (.teardown s (c :: cs) ending) := by
  refine (World.step_log h hmem rfl).imp_right ?_
  rintro ⟨t, seg, hr, hc, hev⟩
  obtain ⟨cs, ending, htask⟩ := hr.cleanup hev
  obtain ⟨-, htasks, -, -, -⟩ := World.commit_cases hc
  exact ⟨t, cs, ending, by rw [htasks, if_pos rfl, htask]⟩

/-! ### The controller knows the VMs -/

namespace Host

variable {h h' : Host} {l : HostLabel}

/-- What a step does: the daemon goes on by itself, or with what the controller returned. -/
theorem step_cases (hs : h.step cfg l = some h') :
    (∃ k, l = .daemon k ∧ k.OfVm h.world = false ∧ h.world.step cfg k = some h'.world ∧
      h'.vms = h.vms ∧ h'.destroyed = h.destroyed) ∨
    (∃ t o inst s profile pc req r, l = .provisioned t o inst ∧
      h.world.tasks t = some (.drive s profile pc) ∧ lastRequest s h.world.log = some req ∧
      r = Vm.provision req o ∧
      h.world.step cfg (.resume t (.provisioned (r.map Prod.fst) inst)) = some h'.world ∧
      (∀ vm e, r = .ok (vm, e) → h'.vms = Function.update h.vms vm (some e)) ∧
      (∀ err, r = .error err → h'.vms = h.vms) ∧ h'.destroyed = h.destroyed) ∨
    (∃ t o s role vm cs ending input, l = .destroyed t o ∧
      h.world.tasks t = some (.teardown s (.destroy role vm :: cs) ending) ∧
      h.world.step cfg (.resume t (.destroyed input)) = some h'.world ∧ h'.vms = h.vms ∧
      h'.destroyed = ⟨s, role, vm, Vm.destroy (h.vms vm) vm o⟩ :: h.destroyed) := by
  cases l with
  | daemon k =>
    simp only [step] at hs
    split_ifs at hs with hk
    obtain ⟨w, hw, rfl⟩ := Option.map_eq_some_iff.mp hs
    exact .inl ⟨k, rfl, by simpa using hk, hw, rfl, rfl⟩
  | provisioned t o inst =>
    simp only [step] at hs
    split at hs
    next s profile pc ht =>
      split at hs
      next role req hrole hreq =>
        obtain ⟨w, hw, rfl⟩ := Option.map_eq_some_iff.mp hs
        refine .inr (.inl ⟨t, o, inst, s, profile, pc, req, _, rfl, ht, hreq, rfl, hw, ?_, ?_, rfl⟩)
        · rintro vm e hr
          simp [hr]
        · rintro err hr
          simp [hr]
      · cases hs
    · cases hs
  | destroyed t o =>
    simp only [step] at hs
    split at hs
    next s role vm cs ending ht =>
      obtain ⟨w, hw, rfl⟩ := Option.map_eq_some_iff.mp hs
      exact .inr (.inr ⟨t, o, s, role, vm, cs, ending, _, rfl, ht, hw, rfl, rfl⟩)
    · cases hs

/-- A step of the whole steps the daemon; requests are the daemon's own. -/
theorem step_world (hs : h.step cfg l = some h') :
    ∃ k, h.world.step cfg k = some h'.world ∧ (l = .daemon k ∨ ∃ t input, k = .resume t input) := by
  rcases step_cases hs with ⟨k, rfl, -, hw, -⟩ | ⟨t, o, inst, s, q, pc, req, r, -, -, -, -, hw, -⟩ |
    ⟨t, o, s, role, vm, cs, ending, input, -, -, hw, -⟩
  · exact ⟨k, hw, .inl rfl⟩
  · exact ⟨_, hw, .inr ⟨t, _, rfl⟩⟩
  · exact ⟨_, hw, .inr ⟨t, _, rfl⟩⟩

theorem world_of_reach (hr : Reach (Host.step cfg) Host.Initial anyStep h) :
    Reach (World.step cfg) World.Initial anyStep h.world :=
  hr.project Host.world (fun _ hi => hi.world) fun _ _ _ _ _ hs =>
    let ⟨k, hk, _⟩ := step_world hs
    .inr ⟨k, trivial, hk⟩

/-- The controller tracks every VM that was provisioned, with an overlay to destroy, and it has
the request of every start that waits for it. -/
structure Kept (cfg : Wiring) (h : Host) : Prop where
  requested : ∀ s req, .provisionCalled s req ∈ h.world.log →
    ∃ role inst, req = cfg.provisionRequest role inst
  vms : ∀ vm e, h.vms vm = some e → e.Disposable
  tracked : ∀ s role vm, .provisioned s role vm ∈ h.world.log → ∃ e, h.vms vm = some e
  asked : ∀ t s profile pc role, h.world.tasks t = some (.drive s profile pc) →
    pc.provisions = some role → ∃ req, lastRequest s h.world.log = some req

end Host

/-- The VM of every request the orchestrator builds has an overlay to destroy. -/
theorem disposable_provisionRequest (role : VmRole) (inst : InstanceId) :
    (Vm.Entry.ofRequest (cfg.provisionRequest role inst)).Disposable where
  overlay := Text.joinPath_ne_empty _ (by simp)
  destroyed := rfl

theorem lastRequest_mem {log : List Event} {req : VmProvisionRequest}
    (h : lastRequest s log = some req) : .provisionCalled s req ∈ log := by
  obtain ⟨ev, hmem, hev⟩ := List.exists_of_findSome?_eq_some h
  split at hev
  next u r =>
    split_ifs at hev with hu
    cases hev
    exact hu ▸ hmem
  · cases hev

theorem exists_lastRequest {log : List Event} {req : VmProvisionRequest}
    (h : .provisionCalled s req ∈ log) : ∃ r, lastRequest s log = some r := by
  refine Option.isSome_iff_exists.mp (List.findSome?_isSome_iff.mpr ⟨_, h, ?_⟩)
  simp

namespace Host

variable {h h' : Host} {l : HostLabel}

theorem Kept.step (hk : h.Kept cfg) (hs : h.step cfg l = some h') : h'.Kept cfg := by
  obtain ⟨k, hw, -⟩ := step_world hs
  constructor
  case requested =>
    intro s req hmem
    rcases World.step_log hw hmem rfl with hold | ⟨t, seg, hr, -, hev⟩
    · exact hk.requested s req hold
    · exact (hr.provisionCalled hev).1
  case vms =>
    intro vm e hvm
    rcases step_cases hs with ⟨_, -, -, -, hvms, -⟩ |
      ⟨t, o, inst, s, q, pc, req, r, -, -, hreq, hr, -, hok, herr, -⟩ |
      ⟨_, _, _, _, _, _, _, _, -, -, -, hvms, -⟩
    · exact hk.vms vm e (hvms ▸ hvm)
    · cases r with
      | error err => exact hk.vms vm e (herr err rfl ▸ hvm)
      | ok v =>
        obtain ⟨id, e'⟩ := v
        rw [hok id e' rfl, Function.update_apply] at hvm
        split_ifs at hvm
        · obtain ⟨role, inst, rfl⟩ := hk.requested s req (lastRequest_mem hreq)
          obtain rfl := Vm.provision_eq_ok hr.symm
          cases hvm
          exact disposable_provisionRequest role inst
        · exact hk.vms vm e hvm
    · exact hk.vms vm e (hvms ▸ hvm)
  case tracked =>
    intro s role vm hmem
    have hold (hvms : ∀ v, h.vms v ≠ none → h'.vms v ≠ none)
        (hlog : .provisioned s role vm ∈ h.world.log) : ∃ e, h'.vms vm = some e := by
      obtain ⟨e, he⟩ := hk.tracked s role vm hlog
      exact Option.ne_none_iff_exists'.mp (hvms vm (by simp [he]))
    rcases step_cases hs with ⟨k, rfl, hno, hw, hvms, -⟩ |
      ⟨t, o, inst, u, q, pc, req, r, -, -, -, -, hw, hok, herr, -⟩ |
      ⟨t, o, u, _, _, cs, ending, i, -, -, hw, hvms, -⟩
    · rcases step_provisioned hw hmem with hlog | ⟨t, profile, pc, inst, rfl, ht, hpc⟩
      · exact hold (fun v hv => hvms ▸ hv) hlog
      · simp [Label.OfVm, ht, Task.AwaitsVm, hpc] at hno
    · cases r with
      | error err =>
        rcases step_provisioned hw hmem with hlog | ⟨t', profile, pc, inst', he, -, -⟩
        · exact hold (fun v hv => herr err rfl ▸ hv) hlog
        · cases he
      | ok v =>
        obtain ⟨id, e⟩ := v
        rcases step_provisioned hw hmem with hlog | ⟨t', profile, pc, inst', he, -, -⟩
        · refine hold (fun v hv => ?_) hlog
          rw [hok id e rfl, Function.update_apply]
          split_ifs
          · simp
          · exact hv
        · cases he
          exact ⟨e, by rw [hok id e rfl, Function.update_self]⟩
    · rcases step_provisioned hw hmem with hlog | ⟨t', profile, pc, inst', he, -, -⟩
      · exact hold (fun v hv => hvms ▸ hv) hlog
      · cases he
  case asked =>
    intro t s profile pc role ht hpc
    have hold (hw' : h.world.tasks t = some (.drive s profile pc))
        (hlog : h.world.log ⊆ h'.world.log) : ∃ req, lastRequest s h'.world.log = some req := by
      obtain ⟨req, hreq⟩ := hk.asked t s profile pc role hw' hpc
      exact exists_lastRequest (hlog (lastRequest_mem hreq))
    rcases World.step_cases hw with ⟨e, -, he⟩ | ⟨op, k, -, -, -, he⟩ | ⟨op, g, -, -, -, he⟩ |
      ⟨u, task, hm, hset⟩ | ⟨u, k, seg, hr, hc⟩
    · rw [he] at ht ⊢
      exact hk.asked t s profile pc role ht hpc
    · rw [he] at ht ⊢
      exact hk.asked t s profile pc role ht hpc
    · rw [he] at ht ⊢
      exact hk.asked t s profile pc role ht hpc
    · obtain ⟨-, hlog, -, -, -, -⟩ := World.setTask_cases hset
      exact hold (hm.drive hset ht) (by rw [hlog]; exact List.Subset.refl _)
    · obtain ⟨-, htasks, hlog, -, -⟩ := World.commit_cases hc
      rw [htasks] at ht
      split_ifs at ht
      · have hks : s = k := hr.task_session (by rw [Option.some.inj ht]; rfl)
        subst hks
        obtain ⟨inst, evs, hreq⟩ := hr.asks (Option.some.inj ht) hpc
        exact exists_lastRequest (by rw [hlog, hreq]; exact List.mem_cons_self)
      · exact hold ht (by rw [hlog]; exact List.subset_append_right ..)

theorem kept_of_reach (hr : Reach (Host.step cfg) Host.Initial anyStep h) : h.Kept cfg :=
  hr.invariant
    (fun _ hi => by constructor <;> simp [hi.world.log, hi.world.tasks, hi.vms])
    fun _ _ _ _ hk _ hs => hk.step hs

/-- The report on the VM, once a teardown of the session had it destroyed, was clean. -/
def CleanlyDestroyed (h : Host) (s : SessionId) (role : VmRole) (vm : VmId) : Prop :=
  ∃ r, ⟨s, role, vm, .ok r⟩ ∈ h.destroyed ∧ r.isClean = true

end Host

/-! ### Destroyed means cleanly destroyed -/

/-- A request arrives only when every call before it has returned. -/
def Sequential (w : World) : Label → Prop
  | .startSession _ _ | .stopSession _ _ => ∀ t a, w.tasks t = some a → ∃ r, a = .done r
  | _ => True

theorem Sequential.stopsAlone {l : Label} (h : Sequential w l) : StopsAlone s w l := by
  cases l with
  | stopSession t u =>
    rintro rfl t' a ha hses
    obtain ⟨r, rfl⟩ := h t' a ha
    cases hses
  | _ => trivial

def Host.Sequential (h : Host) : HostLabel → Prop
  | .daemon l => Orchestrator.Sequential h.world l
  | _ => True

/-- Where a VM of the session is destroyed, its domain is undefined and its overlay is gone. -/
def DestroysCleanly (s : SessionId) (h : Host) : HostLabel → Prop
  | .destroyed t o => (∃ role vm cs ending,
      h.world.tasks t = some (.teardown s (.destroy role vm :: cs) ending)) → o.Clean
  | _ => True

/-- Once no call works on a session that is reported `Destroyed`, every VM provisioned for it was
destroyed with a clean report. -/
def DestroyedClean (s : SessionId) (h : Host) : Prop :=
  (∀ t a, h.world.tasks t = some a → a.session ≠ some s) →
    ∀ e, h.world.sessions s = some e → e.state = .destroyed →
      ∀ role vm, .provisioned s role vm ∈ h.world.log → h.CleanlyDestroyed s role vm

section Host

variable {h h' : Host} {l : HostLabel}

/-- A VM that a teardown had destroyed is being destroyed, or was cleanly destroyed. -/
def Answered (s : SessionId) (h : Host) : Prop :=
  ∀ role vm, .cleanup s (.destroy role vm) ∈ h.world.log →
    (∃ t cs ending, h.world.tasks t = some (.teardown s (.destroy role vm :: cs) ending)) ∨
      h.CleanlyDestroyed s role vm

theorem Answered.step (ha : Answered s h) (hk : h.Kept cfg) (hown : Owning cfg h.world)
    (hok : DestroysCleanly s h l) (hs : h.step cfg l = some h') : Answered s h' := by
  intro role vm hmem
  obtain ⟨k, hw, -⟩ := Host.step_world hs
  rcases step_cleanup hw hmem with hold | ⟨t, cs, ending, ht⟩
  swap
  · exact .inl ⟨t, cs, ending, ht⟩
  have hkeep (hd : h.destroyed ⊆ h'.destroyed) (hc : h.CleanlyDestroyed s role vm) :
      h'.CleanlyDestroyed s role vm := by
    obtain ⟨r, hr, hclean⟩ := hc
    exact ⟨r, hd hr, hclean⟩
  rcases Host.step_cases hs with ⟨k, rfl, hno, hw, -, hd⟩ |
    ⟨t', o, inst, u, q, pc, req, r, -, ht', -, -, hw, -, -, hd⟩ |
    ⟨t', o, u, role', vm', cs', ending', i, rfl, ht', hw, -, hd⟩
  · refine (ha role vm hold).imp ?_ (hkeep (by rw [hd]; exact List.Subset.refl _))
    rintro ⟨t, cs, ending, ht⟩
    rcases World.step_waits hw ht with hwait | ⟨input, rfl⟩
    · exact ⟨t, cs, ending, hwait⟩
    · simp [Label.OfVm, ht, Task.AwaitsVm] at hno
  · refine (ha role vm hold).imp ?_ (hkeep (by rw [hd]; exact List.Subset.refl _))
    rintro ⟨t, cs, ending, ht⟩
    rcases World.step_waits hw ht with hwait | ⟨input, he⟩
    · exact ⟨t, cs, ending, hwait⟩
    · cases he
      rw [ht] at ht'
      cases ht'
  · rcases ha role vm hold with ⟨t, cs, ending, ht⟩ | hc
    · rcases World.step_waits hw ht with hwait | ⟨input, he⟩
      · exact .inl ⟨t, cs, ending, hwait⟩
      · -- the destruction of this VM has returned
        cases he
        rw [ht] at ht'
        cases ht'
        obtain ⟨e, he⟩ := hk.tracked s role vm
          (hown.calls _ s _ _ _ ht List.mem_cons_self)
        obtain ⟨r, hr, hclean⟩ :=
          (Vm.destroy_isClean (hk.vms vm e he) vm o).mpr (hok ⟨role, vm, _, _, ht⟩)
        refine .inr ⟨r, ?_, hclean⟩
        rw [hd, he, hr]
        exact List.mem_cons_self
    · exact .inr (hkeep (by rw [hd]; exact List.subset_cons_self ..) hc)

/-- In a sequential run, as long as every destruction of a VM of the session leaves its domain
undefined and its overlay gone, a session reported `Destroyed` was cleanly destroyed. -/
theorem destroyedClean_of_reach (hr : Reach (Host.step cfg) Host.Initial
    (fun h l => h.Sequential l ∧ DestroysCleanly s h l) h) : DestroyedClean s h := by
  have halone : Reach (World.step cfg) World.Initial (StopsAlone s) h.world :=
    hr.project Host.world (fun _ hi => hi.world) fun h l h' _ hok hs => by
      obtain ⟨k, hk, rfl | ⟨t, input, rfl⟩⟩ := Host.step_world hs
      · exact .inr ⟨k, hok.1.stopsAlone, hk⟩
      · exact .inr ⟨.resume t input, trivial, hk⟩
  have hanswered : Answered s h := by
    refine hr.invariant (fun h hi => ?_) fun h l h' hr ha hok hs => ?_
    · intro role vm hmem
      rw [hi.world.log] at hmem
      cases hmem
    · exact ha.step (Host.kept_of_reach hr.any)
        (owning_of_reach (Host.world_of_reach hr.any)) hok.2 hs
  intro hreturned e he hstate role vm hvm
  have hdisposed := (alone_of_reach halone).2.disposed he (.inr (.inl hstate)) hreturned
  rcases hanswered role vm (hdisposed.1 role vm hvm) with ⟨t, cs, ending, ht⟩ | hc
  · exact absurd rfl (hreturned t _ ht)
  · exact hc

end Host

/-! ### A run that destroys, and one that says so -/

/-- The outcomes of a provisioning that succeeds. -/
def created (vm : VmId) : Vm.ProvisionOutcomes :=
  ⟨.ok ⟨some 0, "", ""⟩, .ok (), .ok ⟨some 0, "", ""⟩, vm⟩

/-- The outcomes of a destruction whose `virsh undefine` exits with `code`; `shred` succeeds. -/
def undefined (code : ℤ) : Vm.DestroyOutcomes :=
  ⟨.ok ⟨some 0, "", ""⟩, .ok ⟨some code, "", ""⟩, true, .ok ⟨some 0, "", ""⟩, false, .ok (), false⟩

/-- Session 0 starts and browses. -/
def hostStart : List HostLabel :=
  (leaseRun 0 ⟨0⟩ (Store.LockSystem.repeated 'a') ++
      [Label.resume 0 (.registered ⟨0⟩ (.ok 0) ⟨0⟩)]).map .daemon ++
    [.provisioned 0 (created ⟨10⟩) ⟨1⟩, .provisioned 0 (created ⟨11⟩) ⟨2⟩] ++
    (gatewayRun 0 ++ launchRun 0 ⟨⟨0⟩, .chromium, "pid"⟩ ++
      [Label.resume 0 (.running (.ok true)), Label.resume 0 .returned]).map .daemon

/-- Its teardown, once request 1 stopped it: each VM is destroyed with the given outcomes. -/
def hostTeardown (browser gateway : Vm.DestroyOutcomes) : List HostLabel :=
  [.daemon (.resume 1 .returned), .daemon (.resume 1 .returned), .destroyed 1 browser,
    .daemon (.resume 1 .returned), .destroyed 1 gateway, .daemon (.lock (.read 1 none)),
    .daemon (.lock (.compare 1)), .daemon (.lock (.remove 1 none)), .daemon (.resume 1 .returned)]

def bootedHost : Host := ⟨booted, fun _ => none, []⟩

theorem bootedHost_initial : bootedHost.Initial := ⟨booted_initial, fun _ => rfl, rfl⟩

/-- The daemon and its controller when session 0 browses. -/
def browsingHost : Host := (exec (Host.step daemon) bootedHost hostStart).getD bootedHost

/-- A request of the daemon. -/
def HostLabel.isRequest : HostLabel → Bool
  | .daemon (.startSession _ _) | .daemon (.stopSession _ _) => true
  | _ => false

/-- A destruction, if it is one, that is clean. -/
def HostLabel.isClean : HostLabel → Bool
  | .destroyed _ o => o.Clean
  | _ => true

theorem sequential_of_isRequest {h : Host} {l : HostLabel} (hl : l.isRequest = false) :
    h.Sequential l := by
  cases l with
  | daemon l =>
    cases l with
    | startSession t p => cases hl
    | stopSession t u => cases hl
    | _ => trivial
  | _ => trivial

theorem destroysCleanly_of_isClean {h : Host} {l : HostLabel} (hl : l.isClean = true) :
    DestroysCleanly s h l := by
  cases l with
  | destroyed t o => exact fun _ => of_decide_eq_true hl
  | _ => trivial

/-- A run without requests, of clean destructions. -/
theorem reach_of_quiet {h h' : Host} {ls : List HostLabel}
    (hr : Reach (Host.step cfg) Host.Initial
      (fun h l => h.Sequential l ∧ DestroysCleanly s h l) h)
    (hrun : exec (fun h l => if !l.isRequest && l.isClean then Host.step cfg h l else none) h ls =
      some h') :
    Reach (Host.step cfg) Host.Initial (fun h l => h.Sequential l ∧ DestroysCleanly s h l) h' := by
  refine hr.execWhere (fun h l htest => ?_) hrun
  obtain ⟨hquiet, hclean⟩ := (Bool.and_eq_true _ _).mp htest
  exact ⟨sequential_of_isRequest (by simpa using hquiet), destroysCleanly_of_isClean hclean⟩

/-- The host once the stop of session 0 has begun its teardown. -/
def stoppedHost : Host :=
  (browsingHost.step daemon (.daemon (.stopSession 1 ⟨0⟩))).getD browsingHost

/-- Session 0 is stopped while nothing else is in progress. -/
theorem stoppedHost_reached : Reach (Host.step daemon) Host.Initial
    (fun h l => h.Sequential l ∧ DestroysCleanly s h l) stoppedHost := by
  have hfirst : ∃ h₁, bootedHost.step daemon (.daemon (.startSession 0 ⟨0⟩)) = some h₁ ∧
      exec (fun h l => if !l.isRequest && l.isClean then Host.step daemon h l else none) h₁
        hostStart.tail = some browsingHost := ⟨_, rfl, rfl⟩
  obtain ⟨h₁, hstart, hrun⟩ := hfirst
  have hbooted : bootedHost.Sequential (.daemon (.startSession 0 ⟨0⟩)) := fun t a ha => by cases ha
  have hbrowsing : browsingHost.Sequential (.daemon (.stopSession 1 ⟨0⟩)) := by
    have hdone : browsingHost.world.tasks 0 = some (.done (.ok
      ⟨⟨0⟩, ⟨0⟩, .browsing, .active, none⟩)) := rfl
    rintro (_ | t) a ha
    · rw [hdone] at ha
      exact ⟨_, (Option.some.inj ha).symm⟩
    · cases ha
  have h₀ : Reach (Host.step daemon) Host.Initial
    (fun h l => h.Sequential l ∧ DestroysCleanly s h l) bootedHost := .start bootedHost_initial
  exact (reach_of_quiet (h₀.next ⟨hbooted, trivial⟩ hstart) hrun).next
    (l := .daemon (.stopSession 1 ⟨0⟩)) ⟨hbrowsing, trivial⟩ rfl

/-- The host once the stop has returned. -/
def returnedHost (browser gateway : Vm.DestroyOutcomes) : Host :=
  (exec (Host.step daemon) stoppedHost (hostTeardown browser gateway)).getD stoppedHost

/-- The session is reported `Destroyed`, and no call works on it. -/
theorem returnedHost_destroyed (code : ℤ) (hcode : code = 0 ∨ code = 1) :
    (∀ t a, (returnedHost (undefined 0) (undefined code)).world.tasks t = some a →
      a.session ≠ some ⟨0⟩) ∧
    (∃ e, (returnedHost (undefined 0) (undefined code)).world.sessions ⟨0⟩ = some e ∧
      e.state = .destroyed) ∧
    .provisioned ⟨0⟩ .gateway ⟨10⟩ ∈ (returnedHost (undefined 0) (undefined code)).world.log := by
  refine ⟨fun t a ha => ?_, ?_, ?_⟩
  · have hsession : ((returnedHost (undefined 0) (undefined code)).world.tasks t).bind
        Task.session = none := by
      rcases hcode with rfl | rfl <;> rcases t with _ | _ | t <;> rfl
    rw [ha, Option.bind_some] at hsession
    rw [hsession]
    exact nofun
  · have hstate : ((returnedHost (undefined 0) (undefined code)).world.sessions ⟨0⟩).map
        SessionEntry.state = some .destroyed := by rcases hcode with rfl | rfl <;> rfl
    exact Option.map_eq_some_iff.mp hstate
  · have hlog : (returnedHost (undefined 0) (undefined code)).world.log.filter Event.OfResource =
        [.cleanup ⟨0⟩ (.destroy .gateway ⟨10⟩), .cleanup ⟨0⟩ (.destroy .browser ⟨11⟩),
          .cleanup ⟨0⟩ (.terminate ⟨⟨0⟩, .chromium, "pid"⟩), .stopCalled ⟨0⟩,
          .launched ⟨0⟩ ⟨⟨0⟩, .chromium, "pid"⟩, .provisioned ⟨0⟩ .browser ⟨11⟩,
          .provisioned ⟨0⟩ .gateway ⟨10⟩] := by rcases hcode with rfl | rfl <;> rfl
    refine (List.mem_filter (p := Event.OfResource).mp ?_).1
    rw [hlog]
    simp

/-- A session whose VMs are both undefined is cleanly destroyed. -/
theorem destroyedClean_returnedHost : ∃ h : Host, .provisioned ⟨0⟩ .gateway ⟨10⟩ ∈ h.world.log ∧
    h.CleanlyDestroyed ⟨0⟩ .gateway ⟨10⟩ := by
  have hrun : exec (fun h l => if !l.isRequest && l.isClean then Host.step daemon h l else none)
    stoppedHost (hostTeardown (undefined 0) (undefined 0)) =
      some (returnedHost (undefined 0) (undefined 0)) := rfl
  obtain ⟨hreturned, ⟨e, he, hstate⟩, hvm⟩ := returnedHost_destroyed 0 (.inl rfl)
  exact ⟨_, hvm, destroyedClean_of_reach (reach_of_quiet stoppedHost_reached hrun) hreturned e he
    hstate .gateway ⟨10⟩ hvm⟩

/-- `virsh undefine` fails for the gateway VM, and the session is reported `Destroyed` all the
same. -/
theorem returnedHost_unclean :
    Reach (Host.step daemon) Host.Initial Host.Sequential
      (returnedHost (undefined 0) (undefined 1)) ∧
      ¬ DestroyedClean ⟨0⟩ (returnedHost (undefined 0) (undefined 1)) := by
  have hrun : exec (fun h l => if !l.isRequest then Host.step daemon h l else none)
    stoppedHost (hostTeardown (undefined 0) (undefined 1)) =
      some (returnedHost (undefined 0) (undefined 1)) := rfl
  have hstopped : Reach (Host.step daemon) Host.Initial Host.Sequential stoppedHost :=
    (stoppedHost_reached (s := ⟨0⟩)).mono fun _ _ hok => hok.1
  refine ⟨hstopped.execWhere (fun h l hl => sequential_of_isRequest (by simpa using hl)) hrun, ?_⟩
  obtain ⟨hreturned, ⟨e, he, hstate⟩, hvm⟩ := returnedHost_destroyed 1 (.inr rfl)
  intro hclean
  obtain ⟨r, hr, hok⟩ := hclean hreturned e he hstate .gateway ⟨10⟩ hvm
  have hdestroyed : (returnedHost (undefined 0) (undefined 1)).destroyed =
    [⟨⟨0⟩, .gateway, ⟨10⟩, .ok ⟨⟨10⟩, true, false⟩⟩,
      ⟨⟨0⟩, .browser, ⟨11⟩, .ok ⟨⟨11⟩, true, true⟩⟩] := by with_unfolding_all rfl
  rw [hdestroyed] at hr
  simp only [List.mem_cons, DestroyCall.mk.injEq, List.not_mem_nil, or_false] at hr
  rcases hr with ⟨-, -, -, he⟩ | ⟨-, hrole, -⟩
  · cases he
    cases hok
  · cases hrole

end Aegis.Orchestrator
