import Aegis.Orchestrator.Destroyed
import Aegis.Vm.Domain

/-! The domains the controller defined, and which of them are on one network. -/
namespace Aegis.Orchestrator
open Transition

variable {cfg : Wiring} {w w' : World} {t : TaskId} {s : SessionId}

/-- A domain the controller defined for a session, with the XML it was defined by. -/
structure Domain where
  session : SessionId
  role : VmRole
  vm : VmId
  xml : String

/-- The daemon and its controller, with every domain that was defined. -/
structure Fleet where
  host : Host
  domains : List Domain

/-- A step, with the MAC addresses that are drawn if it defines a domain. -/
structure FleetLabel where
  host : HostLabel
  mac : String
  upstreamMac : String

namespace Fleet

/-- The domain a step defines. -/
def created (f : Fleet) (l : FleetLabel) : Option Domain :=
  match l.host with
  | .provisioned t o _ =>
    match f.host.world.tasks t with
    | some (.drive s _ _) =>
      match lastRequest s f.host.world.log with
      | some req =>
        match Vm.provision req o with
        | .ok (vm, _) => some ⟨s, req.role, vm, Vm.renderDomainXmlWith req l.mac l.upstreamMac⟩
        | .error _ => none
      | none => none
    | _ => none
  | _ => none

def step (cfg : Wiring) (f : Fleet) (l : FleetLabel) : Option Fleet :=
  (f.host.step cfg l.host).map fun h => ⟨h, (f.created l).toList ++ f.domains⟩

structure Initial (f : Fleet) : Prop where
  host : f.host.Initial
  domains : f.domains = []

/-- The domain was not reported undefined by a destruction of its VM. -/
def Live (f : Fleet) (d : Domain) : Prop :=
  ∀ r, ⟨d.session, d.role, d.vm, .ok r⟩ ∈ f.host.destroyed → r.domainUndefined = false

/-- On a network other than the upstream one there are at most the two VMs of one session: any
two live domains on it are of the same session, in different roles. -/
def Isolated (f : Fleet) : Prop :=
  f.domains.Pairwise fun d d' => f.Live d → f.Live d' → ∀ network, network ≠ Vm.upstreamNetwork →
    Vm.HasNic d.xml network → Vm.HasNic d'.xml network → d.session = d'.session ∧ d.role ≠ d'.role

/-- A domain is defined only while every live domain is of its own session. -/
def Separate (f : Fleet) (l : FleetLabel) : Prop :=
  ∀ d, f.created l = some d → ∀ d' ∈ f.domains, f.Live d' → d'.session = d.session

end Fleet

/-! ### The request a start waits for -/

/-- A start that waits for a VM asked for it last. -/
def Asked (cfg : Wiring) (w : World) : Prop :=
  ∀ t s profile pc role, w.tasks t = some (.drive s profile pc) → pc.provisions = some role →
    ∃ inst, lastRequest s w.log = some (cfg.provisionRequest role inst)

theorem lastRequest_cons (req : VmProvisionRequest) (log : List Event) :
    lastRequest s (.provisionCalled s req :: log) = some req := by
  simp [lastRequest]

theorem lastRequest_append {evs : List Event} (h : ∀ req, .provisionCalled s req ∉ evs)
    (log : List Event) : lastRequest s (evs ++ log) = lastRequest s log := by
  unfold lastRequest
  rw [List.findSome?_append, List.findSome?_eq_none_iff.mpr, Option.none_or]
  intro ev hev
  split
  next u req =>
    rw [if_neg]
    rintro rfl
    exact h req hev
  · rfl

theorem Asked.step {l : Label} (h : Asked cfg w) (ht : w.Tracked) (hs : w.step cfg l = some w') :
    Asked cfg w' := by
  intro u k profile pc role hu hpc
  rcases World.step_cases hs with ⟨e, -, rfl⟩ | ⟨op, g, -, -, -, rfl⟩ | ⟨op, g, -, -, -, rfl⟩ |
    ⟨t, task, hm, hset⟩ | ⟨t, s, seg, hr, hc⟩
  · exact h u k profile pc role hu hpc
  · exact h u k profile pc role hu hpc
  · exact h u k profile pc role hu hpc
  · obtain ⟨-, hlog, -, -, -, -⟩ := World.setTask_cases hset
    rw [hlog]
    exact h u k profile pc role (hm.drive hset hu) hpc
  · obtain ⟨-, htasks, hlog, -, -⟩ := World.commit_cases hc
    rw [htasks] at hu
    rw [hlog]
    split_ifs at hu with hut
    · have hk : k = s := hr.task_session (by rw [Option.some.inj hu]; rfl)
      subst hk
      obtain ⟨inst, evs, hevs⟩ := hr.asks (Option.some.inj hu) hpc
      rw [hevs, List.cons_append]
      exact ⟨inst, lastRequest_cons _ _⟩
    · obtain ⟨inst, hask⟩ := h u k profile pc role hu hpc
      refine ⟨inst, ?_⟩
      rw [lastRequest_append, hask]
      intro req hev
      -- another request of the session would be made by this start
      obtain rfl : k = s := by rcases hr.about _ hev with ha | ha <;> cases ha; rfl
      rcases (hr.provisionCalled hev).2 with hnone | ⟨q, pc', hd⟩
      · exact ht.task u _ k hu rfl hnone
      · exact hut (ht.starter u t _ _ k hu hd rfl rfl)

theorem asked_of_reach (hr : Reach (World.step cfg) World.Initial anyStep w) : Asked cfg w := by
  refine hr.invariant (fun w hw => ?_) fun w l w' hr h _ hs => h.step (tracked_of_reach hr) hs
  intro t s profile pc role ht
  rw [hw.tasks] at ht
  cases ht

theorem unprovisioned_of_reach (hr : Reach (World.step cfg) World.Initial anyStep w) :
    Unprovisioned s w := by
  refine hr.invariant (fun w hw => ?_) fun w l w' hr h _ hs => h.step (tracked_of_reach hr) hs
  intro t profile pc role ht
  rw [hw.tasks] at ht
  cases ht

/-- A VM that is returned to the start that waits for it is recorded. -/
theorem World.step_records {profile : Profile} {pc : Drive} {role : VmRole} {vm : VmId}
    {inst : InstanceId} (h : w.step cfg (.resume t (.provisioned (.ok vm) inst)) = some w')
    (ht : w.tasks t = some (.drive s profile pc)) (hpc : pc.provisions = some role) :
    .provisioned s role vm ∈ w'.log := by
  rcases World.step_cases h with ⟨e, he, -⟩ | ⟨op, g, he, -⟩ | ⟨op, g, he, -⟩ |
    ⟨u, task, hm, -⟩ | ⟨u, k, seg, hr, hc⟩
  · cases he
  · cases he
  · cases he
  · cases hm.label
    cases hm.task_before ht
  · obtain ⟨-, -, hlog, -, -⟩ := World.commit_cases hc
    cases hr.label
    cases hr with
    | start hd _ _ _ => rw [hd] at ht; cases ht
    | @drive profile pc e _ flow hd hs hf =>
      rw [hd] at ht
      cases ht
      rw [hlog, List.mem_append, settle_ofDrive (.provisioned s role vm) rfl]
      left
      cases Drive.resume_cases hf with
      | gatewayProvisioned => cases hpc; simp [Flow.events]
      | browserProvisioned => cases hpc; simp [Flow.events, stateEvents]
      | browserStopped => cases hpc; simp [Flow.events]
      | callError _ he => cases he
    | failClosed hd _ _ => rw [hd] at ht; cases ht
    | teardown hd _ _ => rw [hd] at ht; cases ht

/-! ### What a step does to the domains -/

namespace Host

variable {h h' : Host} {l : HostLabel}

/-- What was destroyed stays so. -/
theorem step_destroyed_mono (hs : h.step cfg l = some h') : h.destroyed ⊆ h'.destroyed := by
  rcases step_cases hs with ⟨k, -, -, -, -, hd⟩ |
    ⟨_, _, _, _, _, _, _, _, -, -, -, -, -, -, -, hd⟩ |
    ⟨_, _, _, _, _, _, _, _, -, -, -, -, hd⟩ <;> rw [hd]
  · exact List.Subset.refl _
  · exact List.Subset.refl _
  · exact List.subset_cons_self ..

/-- The VMs a teardown has destroyed were provisioned for its session. -/
theorem destroyed_provisioned (hr : Reach (Host.step cfg) Host.Initial anyStep h) :
    ∀ c ∈ h.destroyed, .provisioned c.session c.role c.vm ∈ h.world.log := by
  refine hr.invariant (P := fun h => ∀ c ∈ h.destroyed,
    .provisioned c.session c.role c.vm ∈ h.world.log) (fun h hi => ?_) fun h l h' hr ih _ hs => ?_
  · rw [hi.destroyed]
    exact fun c hc => absurd hc List.not_mem_nil
  · obtain ⟨k, hw, -⟩ := step_world hs
    have hlog := World.step_log_mono hw
    intro c hc
    rcases step_cases hs with ⟨k, -, -, -, -, hd⟩ |
      ⟨_, _, _, _, _, _, _, _, -, -, -, -, -, -, -, hd⟩ |
      ⟨t, o, s, role, vm, cs, ending, i, -, ht, -, -, hd⟩ <;> rw [hd] at hc
    · exact hlog (ih c hc)
    · exact hlog (ih c hc)
    · rcases List.mem_cons.mp hc with rfl | hold
      · exact hlog ((owning_of_reach (world_of_reach hr)).calls t s _ ending _ ht
          List.mem_cons_self)
      · exact hlog (ih c hold)

/-- The controller provisions for a start that waits for a VM. -/
theorem step_provisions {o : Vm.ProvisionOutcomes} {inst : InstanceId} {profile : Profile}
    {pc : Drive} (hs : h.step cfg (.provisioned t o inst) = some h')
    (ht : h.world.tasks t = some (.drive s profile pc)) : ∃ role, pc.provisions = some role := by
  simp only [step, ht] at hs
  split at hs
  next role _ hrole _ => exact ⟨role, hrole⟩
  · cases hs

end Host

namespace Fleet

variable {f f' : Fleet} {l : FleetLabel} {d d' : Domain}

theorem step_cases (hs : f.step cfg l = some f') : f.host.step cfg l.host = some f'.host ∧
    f'.domains = (f.created l).toList ++ f.domains := by
  obtain ⟨h, hh, rfl⟩ := Option.map_eq_some_iff.mp hs
  exact ⟨hh, rfl⟩

theorem host_of_reach {ok : Fleet → FleetLabel → Prop} (hr : Reach (step cfg) Initial ok f) :
    Reach (Host.step cfg) Host.Initial anyStep f.host :=
  hr.any.project host (fun _ hi => hi.host) fun _ l _ _ _ hs =>
    .inr ⟨l.host, trivial, (step_cases hs).1⟩

/-- A domain is defined for a start that waits for its VM, from the request it made last. -/
theorem created_cases (h : f.created l = some d) : ∃ t o inst profile pc req e,
    l.host = .provisioned t o inst ∧ f.host.world.tasks t = some (.drive d.session profile pc) ∧
    lastRequest d.session f.host.world.log = some req ∧ Vm.provision req o = .ok (d.vm, e) ∧
    d.role = req.role ∧ d.xml = Vm.renderDomainXmlWith req l.mac l.upstreamMac := by
  unfold created at h
  split at h
  next t o inst hl =>
    split at h
    next s profile pc ht =>
      split at h
      next req hreq =>
        split at h
        next vm e hok =>
          cases h
          exact ⟨t, o, inst, profile, pc, req, e, hl, ht, hreq, hok, rfl, rfl⟩
        · cases h
      · cases h
    · cases h
  · cases h

/-- What holds of the domain a step defines: its start waits for a VM in its role, and the VM is
recorded by the step. -/
theorem created_spec (hr : Reach (Host.step cfg) Host.Initial anyStep f.host)
    (hs : f.host.step cfg l.host = some f'.host) (h : f.created l = some d) :
    (∀ vm, .provisioned d.session d.role vm ∉ f.host.world.log) ∧
      .provisioned d.session d.role d.vm ∈ f'.host.world.log ∧
      ∃ inst, d.xml =
        Vm.renderDomainXmlWith (cfg.provisionRequest d.role inst) l.mac l.upstreamMac := by
  have hworld := Host.world_of_reach hr
  obtain ⟨t, o, inst, profile, pc, req, e, hl, ht, hreq, hok, hrole, hxml⟩ := created_cases h
  rw [hl] at hs
  rcases Host.step_cases hs with ⟨k, he, -⟩ |
    ⟨t', o', inst', s, q, pc', req', r, he, ht', hreq', hr', hw, -⟩ |
    ⟨_, _, _, _, _, _, _, _, he, -⟩
  · cases he
  · cases he
    rw [ht] at ht'
    cases ht'
    rw [hreq] at hreq'
    cases hreq'
    obtain ⟨role, hprov⟩ := Host.step_provisions hs ht
    obtain ⟨i, hask⟩ := asked_of_reach hworld t d.session profile pc role ht hprov
    rw [hreq] at hask
    cases hask
    obtain rfl : d.role = role := hrole
    rw [hr', hok] at hw
    exact ⟨unprovisioned_of_reach hworld t profile pc _ ht (.inr hprov),
      World.step_records hw ht hprov, i, hxml⟩
  · cases he

/-- The domains are recorded, at most one for a session and a role, and defined by the XML of the
request the orchestrator builds. -/
structure Recorded (cfg : Wiring) (f : Fleet) : Prop where
  once : f.domains.Pairwise fun d d' => d.session = d'.session → d.role ≠ d'.role
  provisioned : ∀ d ∈ f.domains, .provisioned d.session d.role d.vm ∈ f.host.world.log
  xml : ∀ d ∈ f.domains, ∃ inst mac upstreamMac,
    d.xml = Vm.renderDomainXmlWith (cfg.provisionRequest d.role inst) mac upstreamMac

theorem Recorded.step (h : f.Recorded cfg) (hr : Reach (Host.step cfg) Host.Initial anyStep f.host)
    (hs : f.step cfg l = some f') : f'.Recorded cfg := by
  obtain ⟨hhost, hdomains⟩ := step_cases hs
  obtain ⟨k, hw, -⟩ := Host.step_world hhost
  have hlog := World.step_log_mono hw
  cases hc : f.created l with
  | none =>
    rw [hc] at hdomains
    constructor <;> rw [hdomains]
    case once => exact h.once
    case provisioned => exact fun d hd => hlog (h.provisioned d hd)
    case xml => exact h.xml
  | some d =>
    obtain ⟨hfresh, hrecorded, inst, hxml⟩ := created_spec hr hhost hc
    rw [hc] at hdomains
    constructor <;> rw [hdomains]
    case once =>
      refine List.pairwise_cons.mpr ⟨fun d' hd' hsession hrole => ?_, h.once⟩
      refine hfresh d'.vm ?_
      rw [hsession, hrole]
      exact h.provisioned d' hd'
    case provisioned =>
      intro d' hd'
      rcases List.mem_cons.mp hd' with rfl | hold
      · exact hrecorded
      · exact hlog (h.provisioned d' hold)
    case xml =>
      intro d' hd'
      rcases List.mem_cons.mp hd' with rfl | hold
      · exact ⟨inst, _, _, hxml⟩
      · exact h.xml d' hold

theorem recorded_of_reach (hr : Reach (step cfg) Initial anyStep f) : f.Recorded cfg := by
  refine hr.invariant (fun f hi => ?_) fun f l f' hr h _ hs => h.step (host_of_reach hr) hs
  constructor <;> simp [hi.domains]

/-- A domain that is live after a step was live before it. -/
theorem Live.before (h : f'.Live d) (hs : f.step cfg l = some f') : f.Live d := fun r hr =>
  h r (Host.step_destroyed_mono (step_cases hs).1 hr)

/-- In a run that defines a domain only while every live one is of its session, a network other
than the upstream one is never shared by two sessions. -/
theorem isolated_of_reach (hr : Reach (step cfg) Initial Separate f) : f.Isolated := by
  have hone : ∀ d ∈ f.domains, ∀ d' ∈ f.domains, f.Live d → f.Live d' →
      d.session = d'.session := by
    refine hr.invariant (P := fun f => ∀ d ∈ f.domains, ∀ d' ∈ f.domains, f.Live d → f.Live d' →
      d.session = d'.session) (fun f hi => ?_) fun f l f' hr ih hok hs => ?_
    · rw [hi.domains]
      exact fun d hd => absurd hd List.not_mem_nil
    · obtain ⟨-, hdomains⟩ := step_cases hs
      intro d hd d' hd' hlive hlive'
      rw [hdomains, List.mem_append, Option.mem_toList] at hd hd'
      rcases hd with hnew | hold <;> rcases hd' with hnew' | hold'
      · rw [hnew] at hnew'
        cases hnew'
        rfl
      · exact (hok d hnew d' hold' (hlive'.before hs)).symm
      · exact hok d' hnew' d hold (hlive.before hs)
      · exact ih d hold d' hold' (hlive.before hs) (hlive'.before hs)
  refine (recorded_of_reach hr.any).once.imp_of_mem ?_
  intro d d' hd hd' honce hlive hlive' network _ _ _
  have hsession := hone d hd d' hd' hlive hlive'
  exact ⟨hsession, honce hsession⟩

/-- The network of every session is the same, and it is not the upstream one. -/
theorem isolatedNetwork_ne (cfg : Wiring) (role : VmRole) (inst : InstanceId) :
    (cfg.provisionRequest role inst).isolatedNetwork ≠ Vm.upstreamNetwork := by
  intro h
  have hsuffix : "-net".toList <:+ Vm.upstreamNetwork.toList := by
    rw [← h]
    exact ⟨cfg.config.networkPrefix.toList, by simp [Wiring.provisionRequest]⟩
  exact absurd hsuffix (by decide)

theorem Recorded.hasNic (h : f.Recorded cfg) (hd : d ∈ f.domains) :
    Vm.HasNic d.xml (cfg.config.networkPrefix ++ "-net") := by
  obtain ⟨inst, mac, upstreamMac, hxml⟩ := h.xml d hd
  rw [hxml, Vm.hasNic_renderDomainXmlWith]
  unfold Vm.networks
  split
  · exact List.mem_singleton.mpr rfl
  · exact List.mem_cons_of_mem _ (List.mem_singleton.mpr rfl)

/-- A step that keeps the networks apart meets the condition. -/
theorem separate_of_isolated (hr : Reach (step cfg) Initial anyStep f)
    (hs : f.step cfg l = some f') (hi : f'.Isolated) : f.Separate l := by
  intro d hc d' hd' hlive'
  obtain ⟨hhost, hdomains⟩ := step_cases hs
  obtain ⟨hfresh, -, inst, -⟩ := created_spec (host_of_reach hr) hhost hc
  have hsame : f'.host.destroyed = f.host.destroyed := by
    obtain ⟨t, o, i, -, -, -, -, hl, -⟩ := created_cases hc
    rw [hl] at hhost
    rcases Host.step_cases hhost with ⟨k, he, -⟩ |
      ⟨_, _, _, _, _, _, _, _, -, -, -, -, -, -, -, hd⟩ | ⟨_, _, _, _, _, _, _, _, he, -⟩
    · cases he
    · exact hd
    · cases he
  have hlive : f'.Live d := by
    intro r hr'
    rw [hsame] at hr'
    exact absurd (Host.destroyed_provisioned (host_of_reach hr) _ hr') (hfresh d.vm)
  have hrecorded := recorded_of_reach (hr.next trivial hs)
  unfold Isolated at hi
  rw [hdomains, hc] at hi
  have hpair := (List.pairwise_cons.mp hi).1 d' hd' hlive (fun r hr' => hlive' r (hsame ▸ hr'))
    _ (isolatedNetwork_ne cfg d.role inst)
    (hrecorded.hasNic (by rw [hdomains, hc]; exact List.mem_cons_self))
    (hrecorded.hasNic (by rw [hdomains, hc]; exact List.mem_cons_of_mem _ hd'))
  exact hpair.1.symm

/-! ### One session, and two at once -/

def booted : Fleet := ⟨bootedHost, []⟩

theorem booted_initial : booted.Initial := ⟨bootedHost_initial, rfl⟩

/-- Request `t` starts session `s`, and the VMs of the session are provisioned. -/
def provisionedRun (t : TaskId) (s : SessionId) (p : ProfileId) (token : Store.LockToken)
    (gw br : VmId) : List FleetLabel :=
  ((leaseRun t p token ++ [Label.resume t (.registered s (.ok 0) ⟨0⟩)]).map HostLabel.daemon ++
    [HostLabel.provisioned t (Orchestrator.created gw) ⟨1⟩,
      HostLabel.provisioned t (Orchestrator.created br) ⟨2⟩]).map
    fun l => ⟨l, "52:54:00:00:00:01", "52:54:00:00:00:02"⟩

/-- Every domain is of the session the step defines one for. -/
def alone (f : Fleet) (l : FleetLabel) : Bool :=
  match f.created l with
  | some d => f.domains.all (·.session = d.session)
  | none => true

theorem separate_of_alone (h : f.alone l = true) : f.Separate l := by
  intro d hc d' hd' _
  unfold alone at h
  rw [hc] at h
  exact of_decide_eq_true (List.all_eq_true.mp h d' hd')

/-- The VMs of the first session. -/
def firstFleet : Fleet := (exec (step daemon) booted
  (provisionedRun 0 ⟨0⟩ ⟨0⟩ (Store.LockSystem.repeated 'a') ⟨10⟩ ⟨11⟩)).getD booted

/-- The VMs of one session share its network. -/
theorem isolated_firstFleet : (∃ d ∈ firstFleet.domains, ∃ d' ∈ firstFleet.domains,
    d.role = .browser ∧ d'.role = .gateway ∧ firstFleet.Live d ∧ firstFleet.Live d') ∧
    firstFleet.Isolated := by
  have hrun : exec (fun f l => if f.alone l then step daemon f l else none) booted
      (provisionedRun 0 ⟨0⟩ ⟨0⟩ (Store.LockSystem.repeated 'a') ⟨10⟩ ⟨11⟩) = some firstFleet := rfl
  have hlive (d : Domain) : firstFleet.Live d := fun r hr => by cases hr
  refine ⟨⟨_, List.mem_cons_self, _, List.mem_cons_of_mem _ List.mem_cons_self, rfl, rfl,
    hlive _, hlive _⟩, ?_⟩
  exact isolated_of_reach ((Reach.start booted_initial).execWhere
    (fun _ _ h => separate_of_alone h) hrun)

/-- The gateway of a second session is on the network of the first one. -/
def bothFleet : Fleet := (exec (step daemon) firstFleet
  (provisionedRun 1 ⟨1⟩ ⟨1⟩ (Store.LockSystem.repeated 'b') ⟨12⟩ ⟨13⟩)).getD booted

theorem bothFleet_not_isolated :
    Reach (step daemon) Initial anyStep bothFleet ∧ ¬ bothFleet.Isolated := by
  have hrun : exec (step daemon) booted
      (provisionedRun 0 ⟨0⟩ ⟨0⟩ (Store.LockSystem.repeated 'a') ⟨10⟩ ⟨11⟩ ++
        provisionedRun 1 ⟨1⟩ ⟨1⟩ (Store.LockSystem.repeated 'b') ⟨12⟩ ⟨13⟩) = some bothFleet := rfl
  have hreach : Reach (step daemon) Initial anyStep bothFleet :=
    (Reach.start booted_initial).exec hrun
  refine ⟨hreach, fun hi => ?_⟩
  have hrecorded := recorded_of_reach hreach
  have hlive (d : Domain) : bothFleet.Live d := fun r hr => by cases hr
  obtain ⟨d, e, hsession, hdomains⟩ : ∃ d e, d.session = ⟨1⟩ ∧
    bothFleet.domains = d :: e :: firstFleet.domains := ⟨_, _, rfl, rfl⟩
  obtain ⟨d', hd', hsession'⟩ : ∃ d' ∈ firstFleet.domains, d'.session = ⟨0⟩ :=
    ⟨_, List.mem_cons_self, rfl⟩
  unfold Isolated at hi
  rw [hdomains] at hi
  have hmem : d' ∈ e :: firstFleet.domains := List.mem_cons_of_mem _ hd'
  have hpair := (List.pairwise_cons.mp hi).1 d' hmem (hlive d) (hlive d') _
    (isolatedNetwork_ne daemon .gateway ⟨0⟩)
    (hrecorded.hasNic (by rw [hdomains]; exact List.mem_cons_self))
    (hrecorded.hasNic (by rw [hdomains]; exact List.mem_cons_of_mem _ hmem))
  rw [hsession, hsession'] at hpair
  exact absurd hpair.1 (by decide)

end Fleet

end Aegis.Orchestrator
