import Aegis.Orchestrator.KillSwitch

/-! The gateway policy of a session under the starts of others: the ruleset a browsing session
relies on, over every run in which no other call replaces it. -/
namespace Aegis.Orchestrator
open Transition Gateway

variable {cfg : Wiring} {w w' : World} {t : TaskId} {s : SessionId}

/-- The policy a session applies. -/
def Profile.policy (profile : Profile) : FirewallPolicy :=
  .failClosed (gatewayConfig profile.spec.network)

/-- The table rendered from a session's own configuration and policy. -/
def ownTable (profile : Profile) : Nft.Table :=
  aegisTable (Profile.policy profile) (gatewayConfig profile.spec.network)

/-- The start has stored its configuration and has not read it back. -/
def Drive.Stored (call : Option Call) : Drive → Prop
  | configure _ _ => call = some (.done (.unit (.ok ())))
  | applyFirewall _ _ => ∃ policy, call = some (.applyRead policy)
  | _ => False

/-- The ruleset of the start has been loaded. -/
def Drive.InForce (call : Option Call) : Drive → Prop
  | applyFirewall _ _ =>
    (∃ policy, call = some (.applyRecord policy)) ∨ call = some (.done (.unit (.ok ())))
  | startGateway _ | startBrowser | runPreflight | launch _ _ | isRunning _ | touchLaunch => True
  | _ => False

namespace World

/-- A start that has not been stopped waits at `pc`. -/
def Driving (w : World) (t : TaskId) (s : SessionId) (profile : Profile) (pc : Drive) : Prop :=
  w.tasks t = some (.drive s profile pc) ∧ ∃ e, w.sessions s = some e ∧ ¬ e.state.Ended

/-- A session relies on the configuration it has stored. -/
def Stored (w : World) (s : SessionId) (profile : Profile) : Prop :=
  ∃ t pc, w.Driving t s profile pc ∧ pc.Stored (w.gateway.calls t)

/-- A full-VM session relies on the ruleset it has loaded: its start goes on, or it is
browsing. -/
def InForce (w : World) (s : SessionId) (profile : Profile) : Prop :=
  profile.spec.isolation = .fullVm ∧
    ((∃ e, w.sessions s = some e ∧ e.state = .browsing ∧ .registered s profile ∈ w.log) ∨
      ∃ t pc, w.Driving t s profile pc ∧ pc.InForce (w.gateway.calls t))

end World

/-- Some VM of the session is still to be destroyed. -/
def DestroyPending (cs : List Cleanup) : Prop := ∃ role vm, .destroy role vm ∈ cs

/-- No call stores a configuration or loads a ruleset another session relies on differently, and
none arms the kill switch again before the VMs of a session that is cut off are destroyed. -/
def PoliciesUndisturbed (w : World) (l : Label) : Prop :=
  ArmsUncut DestroyPending (fun _ _ => True) w l ∧
  (∀ t c cfg, l = .gateway (.access t) → w.gateway.calls t = some c → c.stores = some cfg →
    ∀ s profile, w.Stored s profile → cfg = gatewayConfig profile.spec.network) ∧
  ∀ t out c policy cfg, l = .gateway (.run t out) → w.gateway.calls t = some c →
    c.loads = some (policy, cfg) → Succeeded out → ∀ s profile, w.InForce s profile →
      policy = Profile.policy profile ∧ cfg = gatewayConfig profile.spec.network

/-- A gateway call that is failing. -/
def Failing (call : Option Call) : Prop :=
  ∃ e, call = some (.cutLoad (.unit (.error e))) ∨ call = some (.cutRecord (.unit (.error e))) ∨
    call = some (.done (.unit (.error e)))

/-- How far the gateway call of a start can have come. -/
def Drive.CallOf (profile : Profile) (call : Option Call) : Drive → Prop
  | configure _ _ => call = some (.configureBackend (gatewayConfig profile.spec.network)) ∨
    call = some (.configureStore (gatewayConfig profile.spec.network)) ∨ Failing call ∨
    call = some (.done (.unit (.ok ())))
  | applyFirewall _ _ => call = some (.applyRead (Profile.policy profile)) ∨
    (∃ cfg, call = some (.applyLoad (Profile.policy profile) cfg)) ∨
    call = some (.applyRecord (Profile.policy profile)) ∨ Failing call ∨
    call = some (.done (.unit (.ok ())))
  | _ => True

/-- Each session relies on its own configuration and its own ruleset. -/
structure Kept (w : World) : Prop where
  call : ∀ t s profile pc, w.tasks t = some (.drive s profile pc) →
    pc.CallOf profile (w.gateway.calls t)
  stored : ∀ s profile, w.Stored s profile →
    w.gateway.state.config = some (gatewayConfig profile.spec.network)
  loading : ∀ t s profile gw br policy cfg, w.Driving t s profile (.applyFirewall gw br) →
    w.gateway.calls t = some (.applyLoad policy cfg) → cfg = gatewayConfig profile.spec.network
  inForce : ∀ s profile, w.InForce s profile →
    loaded w.gateway.tables = some (ownTable profile) ∨
      loaded w.gateway.tables = some killswitchTable

/-! ### Steps of the gateway -/

/-- A failing call goes on failing. -/
theorem Failing.run {c c' : Call} {out : Result CommandOutput} {tables tables' : List Nft.Table}
    (h : Failing (some c)) (hr : c.run tables out = some (tables', c')) : Failing (some c') := by
  obtain ⟨e, he | he | he⟩ := h <;> cases he <;> cases hr
  exact ⟨e, .inr (.inl rfl)⟩

theorem Failing.access {c c' : Call} {st st' : State} (h : Failing (some c))
    (hr : c.access st = some (st', c')) : Failing (some c') := by
  obtain ⟨e, he | he | he⟩ := h <;> cases he <;> cases hr
  exact ⟨e, .inr (.inr rfl)⟩

/-- A command of the own call of a start: it never stores, and puts the ruleset in force by
loading it. -/
theorem Drive.CallOf.run {profile : Profile} {pc : Drive} {c c' : Call}
    {out : Result CommandOutput} {tables tables' : List Nft.Table}
    (h : pc.CallOf profile (some c)) (hr : c.run tables out = some (tables', c')) :
    pc.CallOf profile (some c') ∧ ¬ pc.Stored (some c') ∧
      ∀ gw br, pc = .applyFirewall gw br → (∀ policy cfg, c' ≠ .applyLoad policy cfg) ∧
        (pc.InForce (some c') → ∃ cfg, c = .applyLoad (Profile.policy profile) cfg ∧
          loaded tables' = some (aegisTable (Profile.policy profile) cfg)) := by
  cases pc
  case configure gw br =>
    refine ⟨?_, ?_, by simp⟩
    · rcases h with he | he | hfail | he
      · cases he
        simp only [Call.run] at hr
        split at hr <;> cases hr
        · exact .inr (.inr (.inl ⟨_, .inl rfl⟩))
        · exact .inr (.inl rfl)
      · cases he; cases hr
      · exact .inr (.inr (.inl (hfail.run hr)))
      · cases he; cases hr
    · intro hs
      have hs : some c' = some (.done (.unit (.ok ()))) := hs
      cases hs
      rcases h with he | he | ⟨e, he | he | he⟩ | he <;> cases he
      · simp only [Call.run] at hr
        split at hr <;> cases hr
      all_goals cases hr
  case applyFirewall gw br =>
    rcases h with he | ⟨cfg, he⟩ | he | hfail | he
    · cases he; cases hr
    · cases he
      rcases Call.run_applyLoad hr with ⟨rfl, hl, -⟩ | ⟨⟨e, rfl⟩, -⟩
      · exact ⟨.inr (.inr (.inl rfl)), by simp [Drive.Stored],
          fun _ _ _ => ⟨by simp, fun _ => ⟨cfg, rfl, hl⟩⟩⟩
      · exact ⟨.inr (.inr (.inr (.inl ⟨e, .inl rfl⟩))), by simp [Drive.Stored],
          fun _ _ _ => ⟨by simp, by simp [Drive.InForce]⟩⟩
    · cases he; cases hr
    · obtain ⟨e, he | he | he⟩ := hfail.run hr <;> cases he <;>
        exact ⟨.inr (.inr (.inr (.inl (hfail.run hr)))), by simp [Drive.Stored],
          fun _ _ _ => ⟨by simp, by simp [Drive.InForce]⟩⟩
    · cases he; cases hr
  all_goals exact ⟨trivial, id, by simp⟩

/-- An access of the own call of a start: it stores its own configuration, reads it back, and
records what is in force. -/
theorem Drive.CallOf.access {profile : Profile} {pc : Drive} {c c' : Call} {st st' : State}
    (h : pc.CallOf profile (some c)) (hr : c.access st = some (st', c')) :
    pc.CallOf profile (some c') ∧
      (pc.Stored (some c') → st'.config = some (gatewayConfig profile.spec.network)) ∧
      ∀ gw br, pc = .applyFirewall gw br →
        (∀ policy cfg, c' = .applyLoad policy cfg → pc.Stored (some c) ∧ st.config = some cfg) ∧
        (pc.InForce (some c') → pc.InForce (some c)) := by
  cases pc
  case configure gw br =>
    rcases h with he | he | hfail | he
    · cases he; cases hr
    · cases he
      cases hr
      exact ⟨.inr (.inr (.inr rfl)), fun _ => rfl, by simp⟩
    · obtain ⟨e, he | he | he⟩ := hfail.access hr <;> cases he <;>
        exact ⟨.inr (.inr (.inl (hfail.access hr))), by simp [Drive.Stored], by simp⟩
    · cases he; cases hr
  case applyFirewall gw br =>
    rcases h with he | ⟨cfg, he⟩ | he | hfail | he
    · cases he
      simp only [Call.access] at hr
      split at hr
      · cases hr
        exact ⟨.inr (.inr (.inr (.inl ⟨_, .inr (.inr rfl)⟩))), by simp [Drive.Stored],
          fun _ _ _ => ⟨by simp, by simp [Drive.InForce]⟩⟩
      · split at hr
        · cases hr
          exact ⟨.inr (.inr (.inr (.inl ⟨_, .inr (.inr rfl)⟩))), by simp [Drive.Stored],
            fun _ _ _ => ⟨by simp, by simp [Drive.InForce]⟩⟩
        next cfg hcfg =>
          cases hr
          refine ⟨.inr (.inl ⟨cfg, rfl⟩), by simp [Drive.Stored],
            fun _ _ _ => ⟨?_, by simp [Drive.InForce]⟩⟩
          rintro policy cfg' ⟨⟩
          exact ⟨⟨_, rfl⟩, hcfg⟩
    · cases he; cases hr
    · cases he
      cases hr
      exact ⟨.inr (.inr (.inr (.inr rfl))), by simp [Drive.Stored],
        fun _ _ _ => ⟨by simp, fun _ => .inl ⟨_, rfl⟩⟩⟩
    · obtain ⟨e, he | he | he⟩ := hfail.access hr <;> cases he <;>
        exact ⟨.inr (.inr (.inr (.inl (hfail.access hr)))), by simp [Drive.Stored],
          fun _ _ _ => ⟨by simp, by simp [Drive.InForce]⟩⟩
    · cases he; cases hr
  all_goals exact ⟨trivial, False.elim, by simp⟩

/-- The session whose call has just advanced relied on its ruleset before, unless it has just
been loaded. -/
theorem Kept.commandStep {g : System} {t : TaskId} {c c' : Call} {out : Result CommandOutput}
    (h : Kept w) (hok : PoliciesUndisturbed w (.gateway (.run t out)))
    (hc : w.gateway.calls t = some c) (hr : c.run w.gateway.tables out = some (g.tables, c'))
    (hstate : g.state = w.gateway.state)
    (hcalls : ∀ u, g.calls u = if u = t then some c' else w.gateway.calls u) :
    Kept { w with gateway := g } := by
  have hown (s : SessionId) (profile : Profile) (pc : Drive)
      (ht : w.tasks t = some (.drive s profile pc)) := (hc ▸ h.call t s profile pc ht).run hr
  constructor
  case call =>
    intro u s profile pc hu
    show pc.CallOf profile (g.calls u)
    rw [hcalls]
    split_ifs with hut
    · subst hut
      exact (hown s profile pc hu).1
    · exact h.call u s profile pc hu
  case stored =>
    rintro s profile ⟨u, pc, hdriving, hs⟩
    have hs : pc.Stored (g.calls u) := hs
    show g.state.config = _
    rw [hstate]
    rw [hcalls] at hs
    split_ifs at hs with hut
    · subst hut
      exact absurd hs (hown s profile pc hdriving.1).2.1
    · exact h.stored s profile ⟨u, pc, hdriving, hs⟩
  case loading =>
    intro u s profile gw br policy cfg' hdriving hload
    have hload : g.calls u = some (.applyLoad policy cfg') := hload
    rw [hcalls] at hload
    split_ifs at hload with hut
    · subst hut
      exact absurd (Option.some.inj hload)
        (((hown s profile _ hdriving.1).2.2 gw br rfl).1 policy cfg')
    · exact h.loading u s profile gw br policy cfg' hdriving hload
  case inForce =>
    intro s profile hforce
    show loaded g.tables = _ ∨ loaded g.tables = _
    -- what the command loaded is the session's own, or the kill switch
    have hold (hforce : w.InForce s profile) : loaded g.tables = some (ownTable profile) ∨
        loaded g.tables = some killswitchTable := by
      rcases Call.run_loaded hr with he | he | ⟨policy, cfg', hloads, ho, he⟩
      · rw [he]; exact h.inForce s profile hforce
      · exact .inr he
      · obtain ⟨rfl, rfl⟩ := hok.2.2 t out c policy cfg' rfl hc hloads ho s profile hforce
        exact .inl he
    obtain ⟨hfull, hbrowsing | ⟨u, pc, hdriving, hpc⟩⟩ := hforce
    · exact hold ⟨hfull, .inl hbrowsing⟩
    · have hpc : pc.InForce (g.calls u) := hpc
      rw [hcalls] at hpc
      split_ifs at hpc with hut
      · subst hut
        cases pc with
        | applyFirewall gw br =>
          obtain ⟨cfg', rfl, hl⟩ := ((hown s profile _ hdriving.1).2.2 gw br rfl).2 hpc
          obtain rfl := h.loading u s profile gw br _ cfg' hdriving hc
          exact .inl hl
        | _ => first
          | exact hpc.elim
          | exact hold ⟨hfull, .inr ⟨u, _, hdriving, trivial⟩⟩
      · exact hold ⟨hfull, .inr ⟨u, pc, hdriving, hpc⟩⟩

/-- The configuration a start has stored is read back by its own call, and what is in force stays
loaded. -/
theorem Kept.accessStep {g : System} {t : TaskId} {c c' : Call} (h : Kept w)
    (hok : PoliciesUndisturbed w (.gateway (.access t))) (hc : w.gateway.calls t = some c)
    (hr : c.access w.gateway.state = some (g.state, c'))
    (htables : g.tables = w.gateway.tables)
    (hcalls : ∀ u, g.calls u = if u = t then some c' else w.gateway.calls u) :
    Kept { w with gateway := g } := by
  have hown (s : SessionId) (profile : Profile) (pc : Drive)
      (ht : w.tasks t = some (.drive s profile pc)) := (hc ▸ h.call t s profile pc ht).access hr
  constructor
  case call =>
    intro u s profile pc hu
    show pc.CallOf profile (g.calls u)
    rw [hcalls]
    split_ifs with hut
    · subst hut
      exact (hown s profile pc hu).1
    · exact h.call u s profile pc hu
  case stored =>
    rintro s profile ⟨u, pc, hdriving, hs⟩
    have hs : pc.Stored (g.calls u) := hs
    show g.state.config = _
    rw [hcalls] at hs
    split_ifs at hs with hut
    · subst hut
      exact (hown s profile pc hdriving.1).2.1 hs
    · have hstored : w.Stored s profile := ⟨u, pc, hdriving, hs⟩
      cases hst : c.stores with
      | none => rw [Call.access_config hr hst]; exact h.stored s profile hstored
      | some cfg' =>
        -- what another call stores is the same configuration
        obtain rfl := hok.2.1 t c cfg' rfl hc hst s profile hstored
        cases c <;> cases hst
        simp only [Call.access, Option.some.injEq, Prod.mk.injEq] at hr
        rw [← hr.1]
  case loading =>
    intro u s profile gw br policy cfg' hdriving hload
    have hload : g.calls u = some (.applyLoad policy cfg') := hload
    rw [hcalls] at hload
    split_ifs at hload with hut
    · subst hut
      obtain ⟨hstored, hcfg⟩ := ((hown s profile _ hdriving.1).2.2 gw br rfl).1 policy cfg'
        (Option.some.inj hload)
      have := h.stored s profile ⟨u, _, hdriving, by rw [hc]; exact hstored⟩
      rw [hcfg] at this
      exact Option.some.inj this
    · exact h.loading u s profile gw br policy cfg' hdriving hload
  case inForce =>
    intro s profile hforce
    show loaded g.tables = _ ∨ loaded g.tables = _
    rw [htables]
    refine h.inForce s profile ⟨hforce.1, ?_⟩
    obtain ⟨-, hbrowsing | ⟨u, pc, hdriving, hpc⟩⟩ := hforce
    · exact .inl hbrowsing
    · have hpc : pc.InForce (g.calls u) := hpc
      refine .inr ⟨u, pc, hdriving, ?_⟩
      rw [hcalls] at hpc
      split_ifs at hpc with hut
      · subst hut
        rw [hc]
        cases pc with
        | applyFirewall gw br => exact ((hown s profile _ hdriving.1).2.2 gw br rfl).2 hpc
        | _ => exact hpc
      · exact hpc

/-! ### Steps of the sessions -/

section Resume

variable {profile : Profile} {reply call : Option Call} {e : SessionEntry} {pc : Drive}
  {input : Input} {flow : Flow}

/-- A start goes on with its ruleset in force where it had it before, or where the host proxy
answered. -/
theorem Resumes.inForce (h : Resumes cfg s profile reply e pc input flow) {e' : SessionEntry}
    {next : Drive} {evs : List Event} (hf : flow = .await e' next evs)
    (happly : ∀ gw br, next ≠ .applyFirewall gw br) (hn : next.InForce call) :
    pc.InForce reply ∨ ∃ proxy, pc = .proxyReachable proxy := by
  cases h <;> cases hf
  case configured => exact absurd rfl (happly _ _)
  case firewallApplied hreply => exact .inl (.inr hreply)
  case proxyReached => exact .inr ⟨_, rfl⟩
  all_goals first
    | exact .inl trivial
    | exact hn.elim

/-- A start waits for its firewall after its configuration was stored. -/
theorem Resumes.stored (h : Resumes cfg s profile reply e pc input flow) {e' : SessionEntry}
    {gw br : VmId} {evs : List Event} (hf : flow = .await e' (.applyFirewall gw br) evs) :
    pc = .configure gw br ∧ reply = some (.done (.unit (.ok ()))) := by
  cases h <;> cases hf
  exact ⟨rfl, by assumption⟩

/-- A part of a start leaves its session browsing where it found it so, or enters `Browsing`. -/
theorem Resumes.browses (h : Resumes cfg s profile reply e pc input flow)
    (hb : flow.entry.state = .browsing) :
      e.state = .browsing ∨ ∃ handle, pc = .isRunning handle := by
  cases h
  case browsing => exact .inr ⟨_, rfl⟩
  all_goals first
    | exact .inl hb
    | cases hb

theorem Resumes.not_registered (h : Resumes cfg s profile reply e pc input flow) (q : Profile) :
    .registered s q ∉ flow.events := by
  cases h <;> simp [Flow.events, stateEvents, preflightEvents, probeEvents]
  case browsing => unfold browsingEvents; cases profile.spec.isolation <;> simp

end Resume

theorem settle_registered {profile q : Profile} {flow : Flow} :
    .registered s q ∈ (settle cfg s profile flow).events ↔ .registered s q ∈ flow.events := by
  rcases settle_cases cfg s profile flow with ⟨e, next, evs, rfl, heq⟩ | ⟨e, sum, evs, rfl, heq⟩ |
    ⟨e, err, evs, rfl, -, heq⟩ | ⟨e, err, evs, c, cs, rfl, -, -, heq⟩ <;> rw [heq] <;>
    simp [Flow.events]

/-- Session code registers only a new session. -/
theorem Runs.registered {l : Label} {seg : Segment} {q : Profile} (h : Runs cfg w t s l seg)
    (hmem : .registered s q ∈ seg.events) : w.sessions s = none := by
  rcases h.cases with ⟨p, profile, host, lease, key, flow, hs, -, -, -⟩ |
    ⟨profile, pc, e, input, flow, -, -, hres, rfl⟩ | ⟨e, -, hclose⟩
  · exact hs
  · exact absurd (settle_registered.mp hmem) (hres.not_registered q)
  · exact absurd rfl (hclose.events _ hmem)

section Runs

variable {l : Label} {seg : Segment}

/-- The starts of other tasks were under way before. -/
theorem World.Driving.of_commit {u : TaskId} {k : SessionId} {profile : Profile} {pc : Drive}
    (ht : w.Tracked) (hr : Runs cfg w t s l seg) (hc : w.commit t s seg = some w') (hut : u ≠ t)
    (h : w'.Driving u k profile pc) : w.Driving u k profile pc := by
  obtain ⟨hsess, htasks, -, -, -⟩ := World.commit_cases hc
  obtain ⟨hu, e, he, hend⟩ := h
  rw [htasks, if_neg hut] at hu
  refine ⟨hu, ?_⟩
  rw [hsess] at he
  split_ifs at he with hk
  · subst hk
    cases he
    cases hs : w.sessions k with
    | none => exact absurd hs (ht.task u _ k hu rfl)
    | some e => exact ⟨e, rfl, fun hended => hend (hr.ended hs hended)⟩
  · exact ⟨e, he, hend⟩

/-- A start that goes on began with this code, or was under way before. -/
theorem World.Driving.of_runs {k : SessionId} {profile : Profile} {next : Drive}
    (hr : Runs cfg w t s l seg) (hc : w.commit t s seg = some w')
    (h : w'.Driving t k profile next) :
    k = s ∧ (next = .provisionGateway ∨ (∃ proxy, next = .proxyReachable proxy) ∨
      ∃ pc e input evs, w.Driving t s profile pc ∧ w.sessions s = some e ∧
        Resumes cfg s profile (w.gateway.calls t) e pc input (.await seg.entry next evs)) := by
  obtain ⟨hsess, htasks, -, -, -⟩ := World.commit_cases hc
  obtain ⟨hu, e', he, hend⟩ := h
  rw [htasks, if_pos rfl] at hu
  have htask := Option.some.inj hu
  obtain rfl : k = s := hr.task_session (by rw [htask]; rfl)
  rw [hsess, if_pos rfl] at he
  cases he
  refine ⟨rfl, ?_⟩
  rcases hr.cases with ⟨p, q, host, lease, key, flow, -, -, hstart, rfl⟩ |
    ⟨q, pc, e, input, flow, hd, hs, hres, rfl⟩ | ⟨e, -, hclose⟩
  · obtain ⟨-, rfl, e, evs, rfl, -⟩ := settle_drive htask
    cases hstart
    · exact .inl rfl
    · exact .inr (.inl ⟨_, rfl⟩)
  · obtain ⟨-, rfl, e', evs, rfl, -⟩ := settle_drive htask
    exact .inr (.inr ⟨pc, e, input, evs, ⟨hd, e, hs, hres.not_ended hend⟩, hs, hres⟩)
  · exact absurd htask (hclose.task _ _)

/-- A session that browses was browsing, or its start has just entered `Browsing`. -/
theorem World.InForce.of_browsing {k : SessionId} {profile : Profile} {e' : SessionEntry}
    (hgated : Gated cfg w) (hr : Runs cfg w t s l seg)
    (hc : w.commit t s seg = some w') (hfull : profile.spec.isolation = .fullVm)
    (he : w'.sessions k = some e') (hb : e'.state = .browsing)
    (hreg : .registered k profile ∈ w'.log) : w.InForce k profile := by
  obtain ⟨hsess, -, hlog, -, -⟩ := World.commit_cases hc
  have hreg' (hk : w.sessions k ≠ none) : .registered k profile ∈ w.log := by
    rw [hlog, List.mem_append] at hreg
    rcases hreg with hreg | hreg
    · obtain rfl : k = s := by rcases hr.about _ hreg with ha | ha <;> cases ha; rfl
      exact absurd (hr.registered hreg) hk
    · exact hreg
  refine ⟨hfull, ?_⟩
  rw [hsess] at he
  split_ifs at he with hk
  · subst hk
    cases he
    rcases hr.cases with ⟨p, q, host, lease, key, flow, -, -, hstart, rfl⟩ |
      ⟨q, pc, e, input, flow, hd, hs, hres, rfl⟩ | ⟨e, hs, hclose⟩
    · rw [(settle_entry q flow).1] at hb
      cases hstart <;> cases hb
    · rw [(settle_entry q flow).1] at hb
      have hmem := hreg' (by simp [hs])
      rcases hres.browses hb with hb | ⟨handle, rfl⟩
      · exact .inl ⟨e, hs, hb, hmem⟩
      · obtain rfl := ((hgated.drive t k q _ e hd hs).1 profile).mp hmem
        refine .inr ⟨t, _, ⟨hd, e, hs, hres.not_ended ?_⟩, trivial⟩
        rw [hb]
        decide
    · exact .inl ⟨e, hs, hclose.state hb, hreg' (by simp [hs])⟩
  · exact .inl ⟨e', he, hb, hreg' (by simp [he])⟩

/-- The call of a task that waits for the request, if `call` was its call before. -/
def Request.callAfter (call : Option Gateway.Call) : Request → Option Gateway.Call
  | .gateway req => some req.call
  | _ => call

theorem Kept.runs (h : Kept w) (ht : w.Tracked) (hgated : Gated cfg w)
    (hr : Runs cfg w t s l seg) (hc : w.commit t s seg = some w') : Kept w' := by
  obtain ⟨-, htasks, -, -, -⟩ := World.commit_cases hc
  obtain ⟨hstate, htables, hcalls⟩ := World.commit_gateway hc
  -- a start that goes on has made the call its task waits for
  have hcall (k : SessionId) (profile : Profile) (pc : Drive)
      (hu : w'.tasks t = some (.drive k profile pc)) :
      w'.gateway.calls t = (Task.drive k profile pc).request.callAfter (w.gateway.calls t) := by
    rw [htasks, if_pos rfl] at hu
    have hmine := hcalls t
    rw [if_pos rfl, Option.some.inj hu] at hmine
    cases pc <;> exact hmine
  constructor
  case call =>
    intro u k profile pc hu
    by_cases hut : u = t
    · subst hut
      rw [hcall k profile pc hu]
      cases pc <;> first
        | exact .inl rfl
        | trivial
    · rw [htasks, if_neg hut] at hu
      rw [hcalls, if_neg hut]
      exact h.call u k profile pc hu
  case stored =>
    rintro k profile ⟨u, pc, hdriving, hs⟩
    rw [hstate]
    by_cases hut : u = t
    · subst hut
      rw [hcall k profile pc hdriving.1] at hs
      cases pc with
      | configure gw br => cases hs
      | applyFirewall gw br =>
        obtain ⟨rfl, hnext | ⟨_, hnext⟩ | ⟨pc, e, input, evs, hbefore, -, hres⟩⟩ :=
          hdriving.of_runs hr hc
        · cases hnext
        · cases hnext
        · obtain ⟨rfl, hreply⟩ := hres.stored rfl
          exact h.stored k profile ⟨u, _, hbefore, hreply⟩
      | _ => exact hs.elim
    · rw [hcalls, if_neg hut] at hs
      exact h.stored k profile ⟨u, pc, hdriving.of_commit ht hr hc hut, hs⟩
  case loading =>
    intro u k profile gw br policy cfg' hdriving hload
    by_cases hut : u = t
    · subst hut
      rw [hcall k profile _ hdriving.1] at hload
      cases hload
    · rw [hcalls, if_neg hut] at hload
      exact h.loading u k profile gw br policy cfg' (hdriving.of_commit ht hr hc hut) hload
  case inForce =>
    intro k profile hforce
    rw [htables]
    refine h.inForce k profile ?_
    obtain ⟨hfull, ⟨e', he, hb, hreg⟩ | ⟨u, pc, hdriving, hpc⟩⟩ := hforce
    · exact .of_browsing hgated hr hc hfull he hb hreg
    refine ⟨hfull, .inr ?_⟩
    by_cases hut : u = t
    · subst hut
      rw [hcall k profile pc hdriving.1] at hpc
      obtain ⟨rfl, rfl | ⟨_, rfl⟩ | ⟨before, e, input, evs, hbefore, hs, hres⟩⟩ :=
        hdriving.of_runs hr hc
      · exact hpc.elim
      · exact hpc.elim
      · have happly (gw br : VmId) : pc ≠ .applyFirewall gw br := by
          rintro rfl
          rcases hpc with ⟨policy, he⟩ | he <;> cases he
        rcases hres.inForce rfl happly hpc with hin | ⟨proxy, rfl⟩
        · exact ⟨u, before, hbefore, hin⟩
        · have := (hgated.drive u k profile _ e hbefore.1 hs).2.1.1
          rw [hfull] at this
          cases this
    · rw [hcalls, if_neg hut] at hpc
      exact ⟨u, pc, hdriving.of_commit ht hr hc hut, hpc⟩

end Runs

theorem Kept.step {l : Label} (h : Kept w) (ht : w.Tracked) (hgated : Gated cfg w)
    (hok : PoliciesUndisturbed w l) (hs : w.step cfg l = some w') : Kept w' := by
  rcases World.step_cases hs with ⟨e, -, rfl⟩ | ⟨op, k, -, -, -, rfl⟩ |
    ⟨op, g, rfl, hint, hg, rfl⟩ | ⟨t, task, hm, hset⟩ | ⟨t, s, seg, hr, hc⟩
  · exact ⟨h.call, h.stored, h.loading, h.inForce⟩
  · exact ⟨h.call, h.stored, h.loading, h.inForce⟩
  · rcases System.step_cases hg with ⟨u, req, rfl, -⟩ |
      ⟨u, out, c, c', rfl, hc, hr, hstate, hcalls⟩ |
      ⟨u, c, c', rfl, hc, hr, htables, hcalls⟩
    · cases hint
    · exact h.commandStep hok hc hr hstate hcalls
    · exact h.accessStep hok hc hr htables hcalls
  · obtain ⟨hsess, hlog, -, -, -, -⟩ := World.setTask_cases hset
    have hgw := hm.gateway hset
    have hdriving {u : TaskId} {s : SessionId} {profile : Profile} {pc : Drive}
        (hd : w'.Driving u s profile pc) : w.Driving u s profile pc :=
      ⟨hm.drive hset hd.1, by rw [← hsess]; exact hd.2⟩
    constructor
    case call => exact fun u s profile pc hu => hgw ▸ h.call u s profile pc (hm.drive hset hu)
    case stored =>
      rintro s profile ⟨u, pc, hd, hst⟩
      rw [hgw] at hst ⊢
      exact h.stored s profile ⟨u, pc, hdriving hd, hst⟩
    case loading =>
      intro u s profile gw br policy cfg' hd hload
      rw [hgw] at hload
      exact h.loading u s profile gw br policy cfg' (hdriving hd) hload
    case inForce =>
      rintro s profile ⟨hfull, hforce⟩
      rw [hgw]
      refine h.inForce s profile ⟨hfull, ?_⟩
      rcases hforce with ⟨e, he, hb, hreg⟩ | ⟨u, pc, hd, hpc⟩
      · exact .inl ⟨e, by rw [← hsess, he], hb, hlog ▸ hreg⟩
      · exact .inr ⟨u, pc, hdriving hd, hgw ▸ hpc⟩
  · exact h.runs ht hgated hr hc

theorem kept_initial (h : w.Initial) : Kept w where
  call t s profile pc ht := by simp [h.tasks] at ht
  stored s profile hs := by
    obtain ⟨t, pc, hd, -⟩ := hs
    simp [World.Driving, h.tasks] at hd
  loading t s profile gw br policy cfg' hd := by simp [World.Driving, h.tasks] at hd
  inForce s profile hf := by
    obtain ⟨-, ⟨e, he, -⟩ | ⟨t, pc, hd, -⟩⟩ := hf
    · simp [h.sessions] at he
    · simp [World.Driving, h.tasks] at hd

theorem kept_of_reach (hr : Reach (World.step cfg) World.Initial PoliciesUndisturbed w) : Kept w :=
  hr.invariant (fun _ h => kept_initial h) fun _ _ _ hr h hok hs =>
    h.step (tracked_of_reach hr.any) (gated_of_reach hr.any) hok hs

/-- A browsing full-VM session runs under its own ruleset or the kill switch, and the kill switch
stays engaged while a session that failed closed has VMs to destroy. -/
def PoliciesKept (w : World) : Prop :=
  (∀ s e profile, w.sessions s = some e → e.state = .browsing → .registered s profile ∈ w.log →
    profile.spec.isolation = .fullVm →
      loaded w.gateway.tables = some (ownTable profile) ∨
        loaded w.gateway.tables = some killswitchTable) ∧
  ∀ s, w.Cut s DestroyPending → w.gateway.state.killswitch = .engaged

/-- Sessions keep their policies as long as no call disturbs them. -/
theorem policiesKept_of_reach
    (hr : Reach (World.step cfg) World.Initial PoliciesUndisturbed w) : PoliciesKept w := by
  refine ⟨fun s e profile he hb hreg hfull => ?_, fun s => ?_⟩
  · exact (kept_of_reach hr).inForce s profile ⟨hfull, .inl ⟨e, he, hb, hreg⟩⟩
  · have hengaged : Engaged DestroyPending (fun _ _ => True) w := by
      refine engaged_of_reach ?_ ?_ (fun _ _ (h : PoliciesUndisturbed _ _) => h.1) hr
      · rintro c cs ⟨role, vm, hmem⟩
        exact ⟨role, vm, List.mem_cons_of_mem _ hmem⟩
      · exact fun _ _ _ _ _ _ _ _ => .inl trivial
    exact hengaged s trivial

/-! ### A start on its own, and one under another -/

def Event.entersBrowsing : Event → Bool
  | .entered _ .browsing => true
  | _ => false

/-- The start of task 0 waits for its gateway call, and no session has browsed. -/
def startWaits (w : World) (t : TaskId) : Bool :=
  t = 0 && !w.log.any Event.entersBrowsing &&
    match w.tasks 0 with
    | some (.drive _ _ (.configure _ _)) | some (.drive _ _ (.applyFirewall _ _)) => true
    | _ => false

theorem startWaits_cases (h : startWaits w t = true) :
    t = 0 ∧ (∀ s, .entered s .browsing ∉ w.log) ∧ ∃ s profile pc, (∃ gw br,
      pc = .configure gw br ∨ pc = .applyFirewall gw br) ∧
      w.tasks 0 = some (.drive s profile pc) := by
  simp only [startWaits, Bool.and_eq_true, decide_eq_true_eq] at h
  obtain ⟨⟨rfl, hlog⟩, htask⟩ := h
  refine ⟨rfl, fun s hmem => ?_, ?_⟩
  · simp only [Bool.not_eq_true', List.any_eq_false] at hlog
    exact hlog _ hmem rfl
  · split at htask
    next s profile gw br ht => exact ⟨s, profile, _, ⟨gw, br, .inl rfl⟩, ht⟩
    next s profile gw br ht => exact ⟨s, profile, _, ⟨gw, br, .inr rfl⟩, ht⟩
    next => cases htask

/-- Only task 0 runs, and its gateway calls advance while its start waits for them. -/
def soleStart (w : World) : Label → Bool
  | .gateway (.run t _) | .gateway (.access t) => startWaits w t
  | l => l.task.all (· = 0)

theorem soleStart_tasks {u : TaskId} {a : Task}
    (hr : Reach (World.step cfg) World.Initial (fun w l => soleStart w l = true) w)
    (hu : w.tasks u = some a) : u = 0 := by
  by_contra hne
  have hnone : w.tasks u = none := by
    refine hr.invariant (P := fun w => w.tasks u = none) (fun w h => h.tasks u) ?_
    intro w l w' _ h hok hs
    rw [World.step_tasks hs, h]
    intro hl
    cases l <;> simp_all [soleStart, Label.task]
  rw [hnone] at hu
  cases hu

/-- A start on its own disturbs no policy. -/
theorem soleStart_sound {l : Label}
    (hr : Reach (World.step cfg) World.Initial (fun w l => soleStart w l = true) w)
    (h : soleStart w l = true) : PoliciesUndisturbed w l := by
  refine ⟨?_, ?_, ?_⟩
  · cases l with
    | gateway op =>
      cases op with
      | access t =>
        obtain ⟨rfl, -, s, profile, pc, -, ht⟩ := startWaits_cases h
        rintro c - - k - (⟨u, err, r, hu, -⟩ | ⟨u, cs, err, hu, -⟩) <;>
        · obtain rfl := soleStart_tasks hr hu
          rw [ht] at hu
          cases hu
      | _ => trivial
    | _ => trivial
  · rintro t c cfg' rfl hc hst k profile ⟨u, pc, ⟨hu, -⟩, hs⟩
    obtain ⟨rfl, -⟩ := startWaits_cases h
    obtain rfl := soleStart_tasks hr hu
    rw [hc] at hs
    cases pc with
    | configure gw br => cases hs; cases hst
    | applyFirewall gw br => obtain ⟨policy, hs⟩ := hs; cases hs; cases hst
    | _ => exact hs.elim
  · rintro t out c policy cfg' rfl hc hl - k profile ⟨-, ⟨e, he, hb, -⟩ | ⟨u, pc, ⟨hu, -⟩, hs⟩⟩
    · obtain ⟨-, hno, -⟩ := startWaits_cases h
      exact absurd ((gated_of_reach hr.any).browsing k e he hb).2 (hno k)
    · obtain ⟨rfl, -, s, q, pc', ⟨gw, br, hpc⟩, ht⟩ := startWaits_cases h
      obtain rfl := soleStart_tasks hr hu
      rw [ht] at hu
      cases hu
      rw [hc] at hs
      rcases hpc with rfl | rfl
      · exact hs.elim
      · rcases hs with ⟨policy', hs⟩ | hs <;> cases hs <;> cases hl

theorem soleStart_browsing :
    (exec (fun w l => if soleStart w l then World.step daemon w l else none) booted
      browsingRun).map (fun w => ((w.sessions ⟨0⟩).map SessionEntry.state, w.log.getLast?)) =
    some (some .browsing, some (.registered ⟨0⟩ (torProfile ⟨0⟩))) := rfl

/-- A session that browses alone keeps its policy. -/
theorem policiesKept_browsingRun : ∃ (w : World) (e : SessionEntry), w.sessions ⟨0⟩ = some e ∧
    e.state = .browsing ∧ .registered ⟨0⟩ (torProfile ⟨0⟩) ∈ w.log ∧ PoliciesKept w := by
  obtain ⟨w, hw, hlast⟩ := Option.map_eq_some_iff.mp soleStart_browsing
  obtain ⟨hstate, hreg⟩ := Prod.mk.inj hlast
  obtain ⟨e, he, hb⟩ := Option.map_eq_some_iff.mp hstate
  have hreach : Reach (World.step daemon) World.Initial (fun w l => soleStart w l = true) w :=
    (Reach.start booted_initial).execWhere (fun _ _ h => h) hw
  exact ⟨w, e, he, hb, List.mem_of_getLast? hreg,
    policiesKept_of_reach (hreach.strengthen fun _ _ => soleStart_sound)⟩

/-- A profile behind a proxy. -/
def proxyProfile (p : ProfileId) : Profile where
  id := p
  spec := { (torProfile p).spec with
    network := .fromMode (.proxy ⟨.socks5, "proxy.example", 1080, none, true⟩) }

/-- While session 0 browses over Tor, session 1 applies the firewall of its proxy profile. -/
def replacedRun : List Label :=
  browsingRun ++
    [.startSession 1 ⟨1⟩, .resume 1 (.profile (.ok (proxyProfile ⟨1⟩))),
      .lock (.stat 1 true (Store.LockSystem.repeated 'b')), .lock (.create 1 none),
      .lock (.write 1 none)] ++
    provisionRun 1 ⟨1⟩ ⟨12⟩ ⟨13⟩ ++
    [.gateway (.run 1 succeeded), .gateway (.access 1), .resume 1 .returned,
      .gateway (.access 1), .gateway (.run 1 succeeded)]

theorem replacedRun_loaded : (exec (World.step daemon) booted replacedRun).map
    (fun w => ((w.sessions ⟨0⟩).map SessionEntry.state, w.log.getLast?, loaded w.gateway.tables)) =
    some (some .browsing, some (.registered ⟨0⟩ (torProfile ⟨0⟩)),
      some (ownTable (proxyProfile ⟨1⟩))) := rfl

theorem ownTable_proxy_ne : ownTable (proxyProfile ⟨1⟩) ≠ ownTable (torProfile ⟨0⟩) ∧
    ownTable (proxyProfile ⟨1⟩) ≠ killswitchTable := by
  -- the redirections of a Tor policy are missing
  constructor <;> intro h <;>
    exact absurd (congrArg (fun t : Nft.Table => t.chains.map (·.rules.length)) h) (by decide)

/-- The browsing session is left with the ruleset of the other. -/
theorem replacedRun_policy_lost : ∃ w,
    Reach (World.step daemon) World.Initial anyStep w ∧ ¬ PoliciesKept w := by
  obtain ⟨w, hw, hlast⟩ := Option.map_eq_some_iff.mp replacedRun_loaded
  simp only [Prod.mk.injEq] at hlast
  obtain ⟨hstate, hreg, hloaded⟩ := hlast
  obtain ⟨e, he, hb⟩ := Option.map_eq_some_iff.mp hstate
  refine ⟨w, (Reach.start booted_initial).exec hw, fun h => ?_⟩
  rcases h.1 ⟨0⟩ e _ he hb (List.mem_of_getLast? hreg) rfl with hl | hl
  · rw [hloaded] at hl
    exact ownTable_proxy_ne.1 (Option.some.inj hl)
  · rw [hloaded] at hl
    exact ownTable_proxy_ne.2 (Option.some.inj hl)

end Aegis.Orchestrator
