import Aegis.Gateway.Calls

/-! One call of the controller from its request to its reply, with no other call in between. -/
namespace Aegis.Gateway
open Nft

/-- The controller between two calls: its state, and the tables of the host. -/
structure Controller where
  state : State
  tables : List Table

/-- The external commands a call can run. -/
inductive External where
  | backend
  | probe
  | load (script : List Command)

/-- The command the next step of a call runs. -/
def Call.external : Call → Option External
  | configureBackend _ => some .backend
  | statusProbe _ | healthProbe _ _ _ => some .probe
  | applyLoad policy cfg | releaseLoad policy cfg => some (.load (renderNftables policy cfg))
  | engageLoad | cutLoad _ => some (.load renderKillswitch)
  | _ => none

/-- A call runs to its reply; `ran` lists its commands, oldest first, with their outcomes. -/
inductive Completes : Controller → Call → List (External × Result CommandOutput) → Controller →
    Reply → Prop where
  | done {c : Controller} {r : Reply} : Completes c (.done r) [] c r
  | run {c c' : Controller} {call next : Call} {ext : External} {out : Result CommandOutput}
      {tables : List Table} {ran : List (External × Result CommandOutput)} {r : Reply} :
      call.external = some ext → call.run c.tables out = some (tables, next) →
      Completes { c with tables := tables } next ran c' r →
      Completes c call ((ext, out) :: ran) c' r
  | access {c c' : Controller} {call next : Call} {state : State}
      {ran : List (External × Result CommandOutput)} {r : Reply} :
      call.access c.state = some (state, next) →
      Completes { c with state := state } next ran c' r → Completes c call ran c' r

/-- A request is served. -/
def Performs (c : Controller) (req : Request) (ran : List (External × Result CommandOutput))
    (c' : Controller) (r : Reply) : Prop :=
  Completes c req.call ran c' r

variable {c c' : Controller} {ran : List (External × Result CommandOutput)} {r : Reply}

/-- The controller cut off: the state `fail_closed` records, over what its load left. -/
def Controller.cut (c : Controller) (out : Result CommandOutput) : Controller where
  state := { c.state with killswitch := .engaged, firewallApplied := false }
  tables := (loadRuleset c.tables renderKillswitch out).2

/-! ### From each point of a call to its reply -/

theorem completes_done {reply : Reply} (h : Completes c (.done reply) ran c' r) :
    ran = [] ∧ c' = c ∧ r = reply := by
  cases h with
  | done => exact ⟨rfl, rfl, rfl⟩
  | run hext => cases hext
  | access hacc => cases hacc

/-- `fail_closed` cuts off, whatever its load returns. -/
theorem completes_cutLoad {reply : Reply} (h : Completes c (.cutLoad reply) ran c' r) :
    ∃ out, ran = [(.load renderKillswitch, out)] ∧ c' = c.cut out ∧ r = reply := by
  cases h with
  | access hacc => cases hacc
  | @run _ _ _ _ _ out _ _ _ hext hrun h =>
    cases hext
    cases hrun
    cases h with
    | run hext => cases hext
    | access hacc h =>
      cases hacc
      obtain ⟨rfl, rfl, rfl⟩ := completes_done h
      exact ⟨out, rfl, rfl, rfl⟩

/-- A call that runs a command and is done or cut off by what the command returned. -/
theorem completes_run {call : Call} {ext : External} (h : Completes c call ran c' r)
    (hext : call.external = some ext) : ∃ out rest tables next, ran = (ext, out) :: rest ∧
      call.run c.tables out = some (tables, next) ∧
      Completes { c with tables := tables } next rest c' r := by
  cases h with
  | done => cases hext
  | @run _ _ _ next _ out tables rest _ hext' hrun h =>
    rw [hext] at hext'
    cases hext'
    exact ⟨out, rest, tables, next, rfl, hrun, h⟩
  | access hacc =>
    cases call <;> cases hext <;> cases hacc

theorem completes_access {call : Call} (h : Completes c call ran c' r) (hext : call.external = none)
    (hdone : ∀ reply, call ≠ .done reply) : ∃ state next,
      call.access c.state = some (state, next) ∧
      Completes { c with state := state } next ran c' r := by
  cases h with
  | done => exact absurd rfl (hdone _)
  | run hext' => rw [hext] at hext'; cases hext'
  | access hacc h => exact ⟨_, _, hacc, h⟩

/-- Why a request is refused before any command runs: the configuration or the policy is
missing, or its policy is not valid. -/
def Refused (st : State) : Request → Prop
  | .applyFirewall policy => policy.validate ≠ none ∨ st.config = none
  | .tunnelStatus => st.config = none
  | .releaseKillswitch => st.config = none ∨ st.firewall = none
  | _ => False

/-- The reply of a request that fails. -/
def Request.failed (e : Error) : Request → Reply
  | tunnelStatus => .tunnel (.error e)
  | killswitchState => .killswitch (.error e)
  | health => .health (.error e)
  | _ => .unit (.error e)

/-- What a request can come to. -/
inductive Performed (c : Controller) : Request → List (External × Result CommandOutput) →
    Controller → Reply → Prop where
  | refused {e : Error} (req : Request) : Refused c.state req →
      Performed c req [] c (req.failed e)
  | configureFails {cfg : GatewayConfig} {out cut : Result CommandOutput} {e : Error} :
      Performed c (.configure cfg) [(.backend, out), (.load renderKillswitch, cut)] (c.cut cut)
        (.unit (.error e))
  | configured {cfg : GatewayConfig} {out : Result CommandOutput} :
      Performed c (.configure cfg) [(.backend, out)]
        { c with state := { c.state with config := some cfg } } (.unit (.ok ()))
  | loadFails {req : Request} {policy : FirewallPolicy} {cfg : GatewayConfig}
      {out cut : Result CommandOutput} {e : Error} :
      req = .applyFirewall policy ∨ req = .releaseKillswitch → c.state.config = some cfg →
      (loadRuleset c.tables (renderNftables policy cfg) out).1 ≠ .ok () →
      Performed c req [(.load (renderNftables policy cfg), out), (.load renderKillswitch, cut)]
        (c.cut cut) (.unit (.error e))
  | applied {policy : FirewallPolicy} {cfg : GatewayConfig} {out : Result CommandOutput} :
      policy.validate = none → c.state.config = some cfg →
      (loadRuleset c.tables (renderNftables policy cfg) out).1 = .ok () →
      Performed c (.applyFirewall policy) [(.load (renderNftables policy cfg), out)]
        { state := { c.state with
            firewall := some policy, firewallApplied := true, killswitch := .armed }
          tables := (loadRuleset c.tables (renderNftables policy cfg) out).2 } (.unit (.ok ()))
  | probed {cfg : GatewayConfig} {out : Result CommandOutput} {status : TunnelStatus} :
      c.state.config = some cfg → probeStatus cfg.mode out = .ok status → status.state ≠ .failed →
      Performed c .tunnelStatus [(.probe, out)] c (.tunnel (.ok status))
  | tunnelLost {cfg : GatewayConfig} {out cut : Result CommandOutput} {r : Result TunnelStatus} :
      c.state.config = some cfg → probeStatus cfg.mode out = r →
      (∀ status, r = .ok status → status.state = .failed) →
      Performed c .tunnelStatus [(.probe, out), (.load renderKillswitch, cut)] (c.cut cut)
        (.tunnel r)
  | engaged {cut : Result CommandOutput} :
      Performed c .engageKillswitch [(.load renderKillswitch, cut)] (c.cut cut)
        (.unit (loadRuleset c.tables renderKillswitch cut).1)
  | releaseInvalid {cut : Result CommandOutput} {e : Error} :
      Performed c .releaseKillswitch [(.load renderKillswitch, cut)] (c.cut cut) (.unit (.error e))
  | released {policy : FirewallPolicy} {cfg : GatewayConfig} {out : Result CommandOutput} :
      policy.validate = none → c.state.config = some cfg → c.state.firewall = some policy →
      (loadRuleset c.tables (renderNftables policy cfg) out).1 = .ok () →
      Performed c .releaseKillswitch [(.load (renderNftables policy cfg), out)]
        { state := { c.state with killswitch := .armed, firewallApplied := true }
          tables := (loadRuleset c.tables (renderNftables policy cfg) out).2 } (.unit (.ok ()))
  | killswitchRead : Performed c .killswitchState [] c (.killswitch (.ok c.state.killswitch))
  | unconfigured {tunnel : TunnelStatus} : c.state.config = none → tunnel.state = .down →
      Performed c .health [] c
        (healthOf false c.state.firewallApplied c.state.killswitch tunnel)
  | healthProbed {out : Result CommandOutput} {tunnel : TunnelStatus} :
      Performed c .health [(.probe, out)] c
        (healthOf true c.state.firewallApplied c.state.killswitch tunnel)

/-- A load that fails changes no table. -/
theorem loadRuleset_error {tables tables' : List Table} {script : List Command}
    {out : Result CommandOutput} {e : Error}
    (h : loadRuleset tables script out = (.error e, tables')) : tables' = tables := by
  cases out with
  | error _ => cases h; rfl
  | ok o =>
    simp only [loadRuleset] at h
    split_ifs at h <;> cases h
    rfl

theorem completes_configure {cfg : GatewayConfig}
    (h : Completes c (.configureBackend cfg) ran c' r) :
    Performed c (.configure cfg) ran c' r := by
  obtain ⟨out, rest, tables, next, rfl, hrun, h⟩ := completes_run h rfl
  simp only [Call.run] at hrun
  split at hrun <;> cases hrun
  · obtain ⟨cut, rfl, rfl, rfl⟩ := completes_cutLoad h
    exact .configureFails
  · obtain ⟨state, next, hacc, h⟩ := completes_access h rfl (by rintro _ ⟨⟩)
    cases hacc
    obtain ⟨rfl, rfl, rfl⟩ := completes_done h
    exact .configured

theorem completes_apply {policy : FirewallPolicy} (h : Completes c (.applyRead policy) ran c' r) :
    Performed c (.applyFirewall policy) ran c' r := by
  obtain ⟨state, next, hacc, h⟩ := completes_access h rfl (by rintro _ ⟨⟩)
  simp only [Call.access] at hacc
  split at hacc
  next reason hv =>
    cases hacc
    obtain ⟨rfl, rfl, rfl⟩ := completes_done h
    exact .refused (.applyFirewall policy) (.inl (by simp [hv]))
  next hv =>
    split at hacc
    next hcfg =>
      cases hacc
      obtain ⟨rfl, rfl, rfl⟩ := completes_done h
      exact .refused (.applyFirewall policy) (.inr hcfg)
    next cfg hcfg =>
      cases hacc
      obtain ⟨out, rest, tables, next, rfl, hrun, h⟩ := completes_run h rfl
      simp only [Call.run] at hrun
      split at hrun
      next e tables' hload =>
        cases hrun
        obtain rfl := loadRuleset_error hload
        obtain ⟨cut, rfl, rfl, rfl⟩ := completes_cutLoad h
        exact .loadFails (.inl rfl) hcfg (by rw [hload]; simp)
      next tables' hload =>
        cases hrun
        obtain ⟨state, next, hacc, h⟩ := completes_access h rfl (by rintro _ ⟨⟩)
        cases hacc
        obtain ⟨rfl, rfl, rfl⟩ := completes_done h
        have hok : (loadRuleset c.tables (renderNftables policy cfg) out).1 = .ok () := by
          rw [hload]
        have hp := Performed.applied hv hcfg hok
        rwa [hload] at hp

theorem completes_status (h : Completes c .statusRead ran c' r) :
    Performed c .tunnelStatus ran c' r := by
  obtain ⟨state, next, hacc, h⟩ := completes_access h rfl nofun
  simp only [Call.access] at hacc
  split at hacc
  next hcfg =>
    cases hacc
    obtain ⟨rfl, rfl, rfl⟩ := completes_done h
    exact .refused .tunnelStatus hcfg
  next cfg hcfg =>
    cases hacc
    obtain ⟨out, rest, tables, next, rfl, hrun, h⟩ := completes_run h rfl
    simp only [Call.run] at hrun
    split at hrun
    next e hprobe =>
      cases hrun
      obtain ⟨cut, rfl, rfl, rfl⟩ := completes_cutLoad h
      exact .tunnelLost hcfg hprobe (by simp)
    next status hprobe =>
      split_ifs at hrun with hfailed <;> cases hrun
      · obtain ⟨cut, rfl, rfl, rfl⟩ := completes_cutLoad h
        exact .tunnelLost hcfg hprobe (by simp [hfailed])
      · obtain ⟨rfl, rfl, rfl⟩ := completes_done h
        exact .probed hcfg hprobe hfailed

theorem completes_engage (h : Completes c .engageLoad ran c' r) :
    Performed c .engageKillswitch ran c' r := by
  obtain ⟨out, rest, tables, next, rfl, hrun, h⟩ := completes_run h rfl
  cases hrun
  obtain ⟨state, next, hacc, h⟩ := completes_access h rfl nofun
  cases hacc
  obtain ⟨rfl, rfl, rfl⟩ := completes_done h
  exact .engaged

theorem completes_release (h : Completes c .releaseRead ran c' r) :
    Performed c .releaseKillswitch ran c' r := by
  obtain ⟨state, next, hacc, h⟩ := completes_access h rfl (by rintro _ ⟨⟩)
  simp only [Call.access] at hacc
  split at hacc
  next hcfg =>
    cases hacc
    obtain ⟨rfl, rfl, rfl⟩ := completes_done h
    exact .refused .releaseKillswitch (.inl hcfg)
  next hfw =>
    cases hacc
    obtain ⟨rfl, rfl, rfl⟩ := completes_done h
    exact .refused .releaseKillswitch (.inr hfw)
  next cfg policy hcfg hfw =>
    split at hacc
    next reason hv =>
      cases hacc
      obtain ⟨cut, rfl, rfl, rfl⟩ := completes_cutLoad h
      exact .releaseInvalid
    next hv =>
      cases hacc
      obtain ⟨out, rest, tables, next, rfl, hrun, h⟩ := completes_run h rfl
      simp only [Call.run] at hrun
      split at hrun
      next e tables' hload =>
        cases hrun
        obtain rfl := loadRuleset_error hload
        obtain ⟨cut, rfl, rfl, rfl⟩ := completes_cutLoad h
        exact .loadFails (.inr rfl) hcfg (by rw [hload]; simp)
      next tables' hload =>
        cases hrun
        obtain ⟨state, next, hacc, h⟩ := completes_access h rfl (by rintro _ ⟨⟩)
        cases hacc
        obtain ⟨rfl, rfl, rfl⟩ := completes_done h
        have hok : (loadRuleset c.tables (renderNftables policy cfg) out).1 = .ok () := by
          rw [hload]
        have hp := Performed.released hv hcfg hfw hok
        rwa [hload] at hp

theorem completes_health (h : Completes c .healthRead ran c' r) :
    Performed c .health ran c' r := by
  obtain ⟨state, next, hacc, h⟩ := completes_access h rfl (by rintro _ ⟨⟩)
  simp only [Call.access] at hacc
  split_ifs at hacc with hcfg <;> cases hacc
  · obtain ⟨cfg, hcfg⟩ := Option.isSome_iff_exists.mp hcfg
    obtain ⟨state, next, hacc, h⟩ := completes_access h rfl (by rintro _ ⟨⟩)
    simp only [Call.access, hcfg] at hacc
    cases hacc
    obtain ⟨out, rest, tables, next, rfl, hrun, h⟩ := completes_run h rfl
    simp only [Call.run] at hrun
    split at hrun <;> cases hrun
    all_goals
      obtain ⟨rfl, rfl, rfl⟩ := completes_done h
      exact .healthProbed
  · obtain ⟨rfl, rfl, rfl⟩ := completes_done h
    exact .unconfigured (by simpa using hcfg) rfl

/-- What serving a request comes to. -/
theorem performs_cases {req : Request} (h : Performs c req ran c' r) :
    Performed c req ran c' r := by
  unfold Performs at h
  cases req with
  | configure cfg => exact completes_configure h
  | applyFirewall policy => exact completes_apply h
  | tunnelStatus => exact completes_status h
  | engageKillswitch => exact completes_engage h
  | releaseKillswitch => exact completes_release h
  | killswitchState =>
    obtain ⟨state, next, hacc, h⟩ := completes_access h rfl nofun
    cases hacc
    obtain ⟨rfl, rfl, rfl⟩ := completes_done h
    exact .killswitchRead
  | health => exact completes_health h

/-! ### Every request is served -/

/-- The steps a call has at most before it. -/
def Call.rank : Call → ℕ
  | done _ => 0
  | configureStore _ | applyRecord _ | engageRecord _ | releaseRecord | cutRecord _
  | killswitchRead | healthProbe _ _ _ => 1
  | engageLoad | cutLoad _ | healthReadMode _ _ => 2
  | configureBackend _ | applyLoad _ _ | statusProbe _ | releaseLoad _ _ | healthRead => 3
  | applyRead _ | statusRead | releaseRead => 4

/-- A call that is not done can take its next step, whatever its command returns. -/
theorem Call.advances (call : Call) : (∃ reply, call = .done reply) ∨
    (∃ ext, call.external = some ext ∧ ∀ tables out, ∃ tables' next,
      call.run tables out = some (tables', next) ∧ next.rank < call.rank) ∨
    ∀ state, ∃ state' next, call.access state = some (state', next) ∧ next.rank < call.rank := by
  cases call
  case done reply => exact .inl ⟨reply, rfl⟩
  case configureBackend | applyLoad | statusProbe | releaseLoad | engageLoad | cutLoad |
      healthProbe =>
    refine .inr (.inl ⟨_, rfl, fun tables out => ?_⟩)
    simp only [Call.run]
    repeat' split
    all_goals exact ⟨_, _, rfl, by simp [rank]⟩
  all_goals
    refine .inr (.inr fun state => ?_)
    simp only [Call.access]
    repeat' split
    all_goals exact ⟨_, _, rfl, by simp [rank]⟩

theorem completes_total {n : ℕ} (call : Call) (hn : call.rank ≤ n) (c : Controller)
    (outs : ℕ → Result CommandOutput) : ∃ ran c' r, Completes c call ran c' r ∧
      ran.map Prod.snd = (List.range ran.length).map outs := by
  induction n generalizing call c outs with
  | zero =>
    rcases call.advances with ⟨reply, rfl⟩ | ⟨ext, -, hrun⟩ | hacc
    · exact ⟨[], c, reply, .done, rfl⟩
    · obtain ⟨tables, next, -, hlt⟩ := hrun c.tables (outs 0)
      omega
    · obtain ⟨state, next, -, hlt⟩ := hacc c.state
      omega
  | succ n ih =>
    rcases call.advances with ⟨reply, rfl⟩ | ⟨ext, hext, hrun⟩ | hacc
    · exact ⟨[], c, reply, .done, rfl⟩
    · obtain ⟨tables, next, hrun, hlt⟩ := hrun c.tables (outs 0)
      obtain ⟨ran, c', r, h, hran⟩ := ih next (by omega) { c with tables := tables }
        fun k => outs (k + 1)
      refine ⟨(ext, outs 0) :: ran, c', r, .run hext hrun h, ?_⟩
      rw [List.map_cons, hran, List.length_cons, List.range_succ_eq_map]
      simp [Function.comp_def]
    · obtain ⟨state, next, hacc, hlt⟩ := hacc c.state
      obtain ⟨ran, c', r, h, hran⟩ := ih next (by omega) { c with state := state } outs
      exact ⟨ran, c', r, .access hacc h, hran⟩

/-- Every request is served, whatever its commands return. -/
theorem performs_total (c : Controller) (req : Request) (outs : ℕ → Result CommandOutput) :
    ∃ ran c' r, Performs c req ran c' r ∧ ran.map Prod.snd = (List.range ran.length).map outs :=
  completes_total _ le_rfl c outs

/-- Serving a request is a run of the concurrent controller in which no other call moves. -/
theorem completes_exec {call : Call} (h : Completes c call ran c' r) {g : System} {t : TaskId}
    (hstate : g.state = c.state) (htables : g.tables = c.tables) (hcall : g.calls t = some call) :
    ∃ ops g', Transition.exec System.step g ops = some g' ∧ g'.state = c'.state ∧
      g'.tables = c'.tables ∧ g'.calls t = some (.done r) ∧ ∀ u ≠ t, g'.calls u = g.calls u := by
  induction h generalizing g with
  | done => exact ⟨[], g, rfl, hstate, htables, hcall, fun _ _ => rfl⟩
  | @run c c' call next ext out tables ran r hext hrun h ih =>
    obtain ⟨ops, g', hexec, hs, ht, hd, hu⟩ :=
      ih (g := { g.setCall t next with tables := tables }) hstate rfl (by simp)
    refine ⟨.run t out :: ops, g', ?_, hs, ht, hd, fun u hut => ?_⟩
    · have hstep : g.step (.run t out) = some { g.setCall t next with tables := tables } := by
        simp [System.step, hcall, htables, hrun]
      simpa [Transition.exec, hstep] using hexec
    · rw [hu u hut]
      simp [hut]
  | @access c c' call next state ran r hacc h ih =>
    obtain ⟨ops, g', hexec, hs, ht, hd, hu⟩ :=
      ih (g := { g.setCall t next with state := state }) rfl htables (by simp)
    refine ⟨.access t :: ops, g', ?_, hs, ht, hd, fun u hut => ?_⟩
    · have hstep : g.step (.access t) = some { g.setCall t next with state := state } := by
        simp [System.step, hcall, hstate, hacc]
      simpa [Transition.exec, hstep] using hexec
    · rw [hu u hut]
      simp [hut]

/-! ### Failing closed -/

/-- The error a reply reports. -/
def Reply.error : Reply → Option Error
  | unit (.error e) | tunnel (.error e) | killswitch (.error e) | health (.error e) => some e
  | _ => none

/-- The script of the last load that was tried. -/
def lastLoad (ran : List (External × Result CommandOutput)) : Option (List Command) :=
  (ran.filterMap fun step => match step.1 with
    | .load script => some script
    | _ => none).getLast?

/-- The kill switch is recorded as engaged and was the last ruleset to be loaded. -/
structure CutOff (ran : List (External × Result CommandOutput)) (c' : Controller) : Prop where
  engaged : c'.state.killswitch = .engaged
  notApplied : c'.state.firewallApplied = false
  lastLoad : lastLoad ran = some renderKillswitch

/-- The controller fails closed: a failing operation was refused before any command ran and
changed nothing, or has cut off; a failed tunnel is cut off; and a diagnosis changes nothing. -/
theorem performs_failsClosed {req : Request} (h : Performs c req ran c' r) :
    (∀ e, r.error = some e → ran = [] ∧ Refused c.state req ∧ c' = c ∨ CutOff ran c') ∧
    (∀ status, r = .tunnel (.ok status) → status.state = .failed → CutOff ran c') ∧
    (req = .health → c' = c) := by
  have hcut (out : Result CommandOutput) (rest : List (External × Result CommandOutput))
      (hlast : lastLoad rest = some renderKillswitch) : CutOff rest (c.cut out) :=
    ⟨rfl, rfl, hlast⟩
  cases performs_cases h with
  | refused _ hrefused =>
    refine ⟨fun e _ => .inl ⟨rfl, hrefused, rfl⟩, ?_, fun _ => rfl⟩
    intro status hr
    cases req <;> cases hr
  | configureFails => exact ⟨fun _ _ => .inr (hcut _ _ rfl), nofun, nofun⟩
  | configured => exact ⟨nofun, nofun, nofun⟩
  | loadFails hreq =>
    refine ⟨fun _ _ => .inr (hcut _ _ rfl), nofun, ?_⟩
    rcases hreq with rfl | rfl <;> exact nofun
  | applied => exact ⟨nofun, nofun, nofun⟩
  | probed _ _ hstate =>
    refine ⟨nofun, ?_, nofun⟩
    rintro status ⟨⟩ hfailed
    exact absurd hfailed hstate
  | tunnelLost => exact ⟨fun _ _ => .inr (hcut _ _ rfl), fun _ _ _ => hcut _ _ rfl, nofun⟩
  | engaged => exact ⟨fun _ _ => .inr (hcut _ _ rfl), nofun, nofun⟩
  | releaseInvalid => exact ⟨fun _ _ => .inr (hcut _ _ rfl), nofun, nofun⟩
  | released => exact ⟨nofun, nofun, nofun⟩
  | killswitchRead => exact ⟨nofun, nofun, nofun⟩
  | unconfigured => exact ⟨nofun, nofun, fun _ => rfl⟩
  | healthProbed => exact ⟨nofun, nofun, fun _ => rfl⟩

/-- A command that ran and exited with the given code. -/
def exited (code : ℤ) : Result CommandOutput := .ok ⟨some code, "", ""⟩

/-- A Tor gateway as the orchestrator configures it. -/
def torGateway : GatewayConfig :=
  ⟨.tor .default, .tor, .block, "10.152.152.0/24", "10.152.152.1"⟩

/-- A ruleset that does not load is cut off. -/
theorem performs_failsClosed_apply : ∃ ran c' e, Performs
    ⟨{ State.default with config := some torGateway }, []⟩
    (.applyFirewall (.failClosed torGateway)) ran c' (.unit (.error e)) ∧ CutOff ran c' := by
  have h : Performs ⟨{ State.default with config := some torGateway }, []⟩
      (.applyFirewall (.failClosed torGateway)) [(_, exited 1), (_, exited 0)] _
      (.unit (.error _)) :=
    .access rfl (.run rfl rfl (.run rfl rfl (.access rfl .done)))
  rcases (performs_failsClosed h).1 _ rfl with ⟨hno, -⟩ | hcut
  · cases hno
  · exact ⟨_, _, _, h, hcut⟩

end Aegis.Gateway
