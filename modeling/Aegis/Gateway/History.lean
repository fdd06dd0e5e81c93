import Aegis.Gateway.Operations

/-! Sequential runs of one controller, with their history: when the ruleset in force belongs to
the stored configuration, and when the loss of the tunnel engages the kill switch. -/
namespace Aegis.Gateway
open Nft

/-- One served request. -/
structure Entry where
  before : Controller
  request : Request
  ran : List (External × Result CommandOutput)
  after : Controller
  reply : Reply

/-- A sequential run of a fresh controller, newest entry first, in which every entry meets `ok`
against the entries before it. -/
inductive Serves (ok : List Entry → Entry → Prop) : List Entry → Controller → Prop where
  | start {tables : List Table} : Serves ok [] ⟨.default, tables⟩
  | next {es : List Entry} {c c' : Controller} {req : Request}
      {ran : List (External × Result CommandOutput)} {r : Reply} :
      Serves ok es c → Performs c req ran c' r → ok es ⟨c, req, ran, c', r⟩ →
      Serves ok (⟨c, req, ran, c', r⟩ :: es) c'

variable {ok : List Entry → Entry → Prop} {es : List Entry} {e : Entry} {c : Controller}

/-- Every entry of a run was served where the earlier ones ended. -/
theorem Serves.split {later : List Entry} (h : Serves ok (later ++ e :: es) c) :
    Serves ok es e.before ∧ Performs e.before e.request e.ran e.after e.reply ∧ ok es e := by
  induction later generalizing c with
  | nil => cases h with | next h hp hok => exact ⟨h, hp, hok⟩
  | cons d later ih => cases h with | next h _ _ => exact ih h

/-! ### The policy and the configuration -/

/-- The policy an entry has applied, with the configuration it was applied under. -/
def Entry.applied (e : Entry) : Option (FirewallPolicy × GatewayConfig) :=
  match e.request, e.reply, e.before.state.config with
  | .applyFirewall policy, .unit (.ok ()), some cfg => some (policy, cfg)
  | _, _, _ => none

/-- The script of a load that succeeded. -/
def loadedScript : External × Result CommandOutput → Option (List Command)
  | (.load script, .ok out) => if out.success then some script else none
  | _ => none

/-- The ruleset an entry loaded last. -/
def Entry.loaded (e : Entry) : Option (List Command) := e.ran.reverse.findSome? loadedScript

/-- The policy applied last, with its configuration. -/
def lastApplied (es : List Entry) : Option (FirewallPolicy × GatewayConfig) :=
  es.findSome? Entry.applied

/-- The ruleset loaded last. -/
def lastLoaded (es : List Entry) : Option (List Command) := es.findSome? Entry.loaded

/-- An entry that promises its caller a gateway in order. -/
def Entry.Promises (e : Entry) : Prop :=
  (∃ h, e.reply = .health (.ok h) ∧ h.isReady = true) ∨
    e.request = .releaseKillswitch ∧ e.reply = .unit (.ok ())

/-- The ruleset loaded last was rendered from the stored configuration and a policy applied under
that configuration. -/
def Matched (es : List Entry) (c : Controller) : Prop :=
  ∃ policy cfg, c.state.config = some cfg ∧ lastLoaded es = some (renderNftables policy cfg) ∧
    ∃ d ∈ es, d.applied = some (policy, cfg)

/-- Policy and configuration match wherever an entry promises it. -/
def PolicyMatched (es : List Entry) : Prop :=
  ∀ later e earlier, es = later ++ e :: earlier → e.Promises → Matched (e :: earlier) e.after

/-- A diagnosis or a release finds the configuration stored under which the firewall was applied
last. -/
def Reapplied (es : List Entry) (e : Entry) : Prop :=
  e.request = .health ∨ e.request = .releaseKillswitch → ∀ policy cfg,
    lastApplied es = some (policy, cfg) → e.before.state.config = some cfg

/-- The stored policy is the one applied last, and where traffic may pass its ruleset is the one
loaded last. -/
structure InStep (es : List Entry) (c : Controller) : Prop where
  firewall : c.state.firewall = (lastApplied es).map Prod.fst
  loaded : c.state.killswitch = .armed → c.state.firewallApplied = true →
    ∃ policy cfg, lastApplied es = some (policy, cfg) ∧
      lastLoaded es = some (renderNftables policy cfg)

theorem loadedScript_of_ok {tables : List Table} {script : List Command}
    {out : Result CommandOutput} (h : (loadRuleset tables script out).1 = .ok ()) :
    loadedScript (.load script, out) = some script := by
  cases out with
  | error err => cases h
  | ok o =>
    simp only [loadRuleset] at h
    split_ifs at h with ho
    simp [loadedScript, ho]

theorem lastApplied_cons (e : Entry) (es : List Entry) :
    lastApplied (e :: es) = e.applied.or (lastApplied es) := by
  cases h : e.applied <;> simp [lastApplied, h]

theorem lastLoaded_cons (e : Entry) (es : List Entry) :
    lastLoaded (e :: es) = e.loaded.or (lastLoaded es) := by
  cases h : e.loaded <;> simp [lastLoaded, h]

/-- An entry that applies nothing keeps the policy in step, and the ruleset where it loads none
or leaves no traffic to pass. -/
theorem InStep.keep {c c' : Controller} {e : Entry} (h : InStep es c) (happly : e.applied = none)
    (hfirewall : c'.state.firewall = c.state.firewall)
    (hload : c'.state.killswitch = .armed → c'.state.firewallApplied = true →
      c.state.killswitch = .armed ∧ c.state.firewallApplied = true ∧ e.loaded = none) :
    InStep (e :: es) c' where
  firewall := by rw [hfirewall, h.firewall, lastApplied_cons, happly, Option.none_or]
  loaded ha hf := by
    obtain ⟨ha, hf, hnone⟩ := hload ha hf
    obtain ⟨policy, cfg, hlast, hloaded⟩ := h.loaded ha hf
    refine ⟨policy, cfg, ?_, ?_⟩
    · rw [lastApplied_cons, happly, Option.none_or, hlast]
    · rw [lastLoaded_cons, hnone, Option.none_or, hloaded]

/-- Each request keeps the policy and the ruleset in step. -/
theorem InStep.next {c c' : Controller} {req : Request}
    {ran : List (External × Result CommandOutput)} {r : Reply} (h : InStep es c)
    (hp : Performs c req ran c' r) (hok : Reapplied es ⟨c, req, ran, c', r⟩) :
    InStep (⟨c, req, ran, c', r⟩ :: es) c' := by
  cases performs_cases hp with
  | refused _ _ => exact h.keep (by cases req <;> rfl) rfl fun ha hf => ⟨ha, hf, rfl⟩
  | configureFails => exact h.keep rfl rfl nofun
  | configured => exact h.keep rfl rfl fun ha hf => ⟨ha, hf, rfl⟩
  | loadFails hreq =>
    refine h.keep ?_ rfl nofun
    rcases hreq with rfl | rfl <;> rfl
  | @applied policy cfg out _ hcfg hload =>
    have happly (c' : Controller) : Entry.applied ⟨c, .applyFirewall policy,
        [(.load (renderNftables policy cfg), out)], c', .unit (.ok ())⟩ = some (policy, cfg) := by
      simp [Entry.applied, hcfg]
    refine ⟨?_, fun _ _ => ⟨policy, cfg, ?_, ?_⟩⟩
    · rw [lastApplied_cons, happly]
      rfl
    · rw [lastApplied_cons, happly]
      rfl
    · rw [lastLoaded_cons]
      simp [Entry.loaded, loadedScript_of_ok hload]
  | probed => exact h.keep rfl rfl fun ha hf => ⟨ha, hf, by simp [Entry.loaded, loadedScript]⟩
  | tunnelLost => exact h.keep rfl rfl nofun
  | engaged => exact h.keep rfl rfl nofun
  | releaseInvalid => exact h.keep rfl rfl nofun
  | @released policy cfg out _ hcfg hfirewall hload =>
    -- the stored policy was applied under the stored configuration
    have hlast : lastApplied es = some (policy, cfg) := by
      have hfst := h.firewall
      rw [hfirewall] at hfst
      obtain ⟨⟨policy', cfg'⟩, hl, rfl⟩ := Option.map_eq_some_iff.mp hfst.symm
      have hsame := hok (.inr rfl) _ _ hl
      rw [show (Entry.before _).state.config = some cfg from hcfg] at hsame
      cases hsame
      exact hl
    refine ⟨?_, fun _ _ => ⟨policy, cfg, ?_, ?_⟩⟩
    · rw [lastApplied_cons]
      exact h.firewall
    · rw [lastApplied_cons]
      exact hlast
    · rw [lastLoaded_cons]
      simp [Entry.loaded, loadedScript_of_ok hload]
  | killswitchRead => exact h.keep rfl rfl fun ha hf => ⟨ha, hf, rfl⟩
  | unconfigured => exact h.keep rfl rfl fun ha hf => ⟨ha, hf, rfl⟩
  | healthProbed => exact h.keep rfl rfl fun ha hf => ⟨ha, hf, by simp [Entry.loaded, loadedScript]⟩

theorem inStep_of_serves (h : Serves Reapplied es c) : InStep es c := by
  induction h with
  | start => exact ⟨rfl, nofun⟩
  | next _ hp hok ih => exact ih.next hp hok

/-- What an entry promises holds where the entry finds the configuration stored under which the
policy was applied. -/
theorem matched_of_promises {c c' : Controller} {req : Request}
    {ran : List (External × Result CommandOutput)} {r : Reply} (h : InStep es c)
    (hp : Performs c req ran c' r) (hok : Reapplied es ⟨c, req, ran, c', r⟩)
    (hpromise : Entry.Promises ⟨c, req, ran, c', r⟩) :
    Matched (⟨c, req, ran, c', r⟩ :: es) c' := by
  rcases hpromise with ⟨health, hr, hready⟩ | ⟨hreq, hr⟩
  · cases performs_cases hp with
    | refused _ _ => cases req <;> cases hr
    | unconfigured => cases hr; simp [GatewayHealth.isReady] at hready
    | @healthProbed out tunnel =>
      cases hr
      simp only [GatewayHealth.isReady, Bool.true_and, Bool.and_eq_true] at hready
      obtain ⟨⟨⟨-, hfw⟩, -⟩, hks⟩ := hready
      have hks : c.state.killswitch = .armed := by
        cases hks' : c.state.killswitch with
        | armed => rfl
        | engaged => rw [hks'] at hks; cases hks
      obtain ⟨policy, cfg, hlast, hloaded⟩ := h.loaded hks hfw
      obtain ⟨d, hd, happly⟩ := List.exists_of_findSome?_eq_some hlast
      refine ⟨policy, cfg, hok (.inl rfl) policy cfg hlast, ?_, d, List.mem_cons_of_mem _ hd,
        happly⟩
      rw [lastLoaded_cons, hloaded]
      simp [Entry.loaded, loadedScript]
    | _ => cases hr
  · have hin := h.next hp hok
    cases performs_cases hp with
    | released _ hcfg _ _ =>
      obtain ⟨policy, cfg, hlast, hloaded⟩ := hin.loaded rfl rfl
      rw [lastApplied_cons] at hlast
      obtain ⟨d, hd, happly⟩ := List.exists_of_findSome?_eq_some hlast
      exact ⟨policy, cfg, hok (.inr rfl) policy cfg hlast, hloaded, d,
        List.mem_cons_of_mem _ hd, happly⟩
    | refused _ _ => cases req <;> cases hr
    | loadFails => cases hr
    | releaseInvalid => cases hr
    | _ => cases hreq

/-- Policy and configuration stay matched in every sequential run that diagnoses and releases
under the configuration of the policy applied last. -/
theorem policyMatched_of_serves (h : Serves Reapplied es c) : PolicyMatched es := by
  rintro later e earlier rfl hpromise
  obtain ⟨hbefore, hp, hok⟩ := h.split
  exact matched_of_promises (inStep_of_serves hbefore) hp hok hpromise

/-! ### The loss of the tunnel -/

/-- An entry that found the tunnel in a state. -/
def Entry.Found (e : Entry) (status : TunnelStatus) : Prop :=
  e.request = .tunnelStatus ∧ e.reply = .tunnel (.ok status)

/-- The tunnel has been up under the configuration that is stored now. -/
def WasUp (es : List Entry) (c : Controller) : Prop :=
  ∃ d ∈ es, (∃ status, d.Found status ∧ status.state = .up) ∧
    d.before.state.config = c.state.config

/-- An entry that finds the tunnel lost. -/
def Entry.Lost (es : List Entry) (e : Entry) : Prop :=
  (∃ status, e.Found status ∧ status.state ≠ .up) ∧ WasUp es e.before

/-- An entry after which traffic may pass again. -/
def Entry.Rearms (e : Entry) : Prop :=
  ((∃ policy, e.request = .applyFirewall policy) ∨ e.request = .releaseKillswitch) ∧
    e.reply = .unit (.ok ())

/-- A lost tunnel engages the kill switch until traffic is let through again. -/
def LossEngages (es : List Entry) (c : Controller) : Prop :=
  ∀ later e earlier, es = later ++ e :: earlier → e.Lost earlier → (∀ d ∈ later, ¬ d.Rearms) →
    c.state.killswitch = .engaged

/-- A Tor probe that exits with 0 after the tunnel has been up reports that it is complete, unless
the kill switch is engaged already. -/
def LossReported (es : List Entry) (e : Entry) : Prop :=
  e.request = .tunnelStatus → WasUp es e.before → e.before.state.killswitch ≠ .engaged →
    ∀ tor dns ipv6 cidr addr out, e.before.state.config = some ⟨.tor tor, dns, ipv6, cidr, addr⟩ →
      (External.probe, .ok out) ∈ e.ran → out.success = true → bootstrapPercent out.stdout = 100

/-- A probe finds the tunnel up or failed, unless it is a Tor probe that exits with 0 and reports
less than 100 percent. -/
theorem probeStatus_cases {mode : NetworkMode} {out : Result CommandOutput}
    {status : TunnelStatus} (h : probeStatus mode out = .ok status) :
    status.state = .up ∨ status.state = .failed ∨
      ∃ tor o, mode = .tor tor ∧ out = .ok o ∧ o.success = true ∧
        bootstrapPercent o.stdout ≠ 100 := by
  cases out with
  | error e => cases h
  | ok o =>
    cases mode with
    | tor tor =>
      simp only [probeStatus] at h
      split_ifs at h with ho <;> cases h
      · exact .inr (.inl rfl)
      · by_cases hpct : bootstrapPercent o.stdout = 100
        · exact .inl (by simp [parseTorBootstrap, hpct])
        · exact .inr (.inr ⟨tor, o, rfl, rfl, by simpa using ho, hpct⟩)
    | vpn _ | proxy _ =>
      simp only [probeStatus] at h
      split_ifs at h <;> cases h
      · exact .inl rfl
      · exact .inr (.inl rfl)

/-- A lost tunnel leaves the kill switch engaged where the loss is reported. -/
theorem engaged_of_lost {c c' : Controller} {req : Request}
    {ran : List (External × Result CommandOutput)} {r : Reply} (hp : Performs c req ran c' r)
    (hok : LossReported es ⟨c, req, ran, c', r⟩) (hlost : Entry.Lost es ⟨c, req, ran, c', r⟩) :
    c'.state.killswitch = .engaged := by
  obtain ⟨⟨status, ⟨hreq, hr⟩, hstate⟩, hup⟩ := hlost
  cases performs_cases hp with
  | refused _ _ => cases req <;> cases hr
  | @probed cfg out _ hcfg hprobe hfailed =>
    cases hr
    by_contra hks
    rcases probeStatus_cases hprobe with hs | hs | ⟨tor, o, hmode, rfl, ho, hpct⟩
    · exact hstate hs
    · exact hfailed hs
    · obtain ⟨mode, dns, ipv6, cidr, addr⟩ := cfg
      have hmode : mode = .tor tor := hmode
      subst hmode
      exact hpct (hok rfl hup hks tor dns ipv6 cidr addr o hcfg List.mem_cons_self ho)
  | tunnelLost => rfl
  | loadFails => cases hr
  | _ => cases hreq

/-- The kill switch stays engaged until traffic is let through again. -/
theorem engaged_of_performs {c c' : Controller} {req : Request}
    {ran : List (External × Result CommandOutput)} {r : Reply} (hp : Performs c req ran c' r)
    (hks : c.state.killswitch = .engaged) (hno : ¬ Entry.Rearms ⟨c, req, ran, c', r⟩) :
    c'.state.killswitch = .engaged := by
  cases performs_cases hp with
  | applied => exact absurd ⟨.inl ⟨_, rfl⟩, rfl⟩ hno
  | released => exact absurd ⟨.inr rfl, rfl⟩ hno
  | configureFails | loadFails | tunnelLost | engaged | releaseInvalid => rfl
  | refused | configured | probed | killswitchRead | unconfigured | healthProbed => exact hks

/-- In every sequential run in which a lost Tor tunnel is reported, it engages the kill switch. -/
theorem lossEngages_of_serves (h : Serves LossReported es c) : LossEngages es c := by
  intro later e earlier hes hlost hno
  induction later generalizing es c with
  | nil =>
    subst hes
    cases h with
    | next _ hp hok => exact engaged_of_lost hp hok hlost
  | cons d later ih =>
    subst hes
    cases h with
    | next h hp _ =>
      exact engaged_of_performs hp (ih h rfl fun x hx => hno x (List.mem_cons_of_mem _ hx))
        (hno _ List.mem_cons_self)

/-! ### Runs of a Tor gateway -/

/-- A probe that reports a bootstrap percentage. -/
def reported (stdout : String) : Result CommandOutput := .ok ⟨some 0, stdout, ""⟩

theorem performs_configure {c : Controller} (cfg : GatewayConfig) :
    Performs c (.configure cfg) [(.backend, exited 0)]
      { c with state := { c.state with config := some cfg } } (.unit (.ok ())) :=
  .run rfl rfl (.access rfl .done)

/-- The controller with the Tor gateway configured and its firewall applied. -/
def torApplied : Controller where
  state := ⟨some torGateway, some (.failClosed torGateway), true, .armed⟩
  tables := (loadRuleset [] (renderNftables (.failClosed torGateway) torGateway) (exited 0)).2

theorem performs_apply : Performs ⟨{ State.default with config := some torGateway }, []⟩
    (.applyFirewall (.failClosed torGateway))
    [(.load (renderNftables (.failClosed torGateway) torGateway), exited 0)] torApplied
    (.unit (.ok ())) :=
  .access rfl (.run rfl rfl (.access rfl .done))

/-- How it came to be so. -/
def torHistory : List Entry :=
  [⟨⟨{ State.default with config := some torGateway }, []⟩, .applyFirewall (.failClosed torGateway),
      [(.load (renderNftables (.failClosed torGateway) torGateway), exited 0)], torApplied,
      .unit (.ok ())⟩,
    ⟨⟨.default, []⟩, .configure torGateway, [(.backend, exited 0)],
      ⟨{ State.default with config := some torGateway }, []⟩, .unit (.ok ())⟩]

theorem serves_torHistory (hok : ∀ es, ∀ e ∈ torHistory, ok es e) :
    Serves ok torHistory torApplied :=
  .next (.next .start (performs_configure torGateway)
    (hok _ _ (List.mem_cons_of_mem _ List.mem_cons_self))) performs_apply
    (hok _ _ List.mem_cons_self)

theorem request_torHistory : ∀ e ∈ torHistory,
    e.request ≠ .tunnelStatus ∧ e.request ≠ .health ∧ e.request ≠ .releaseKillswitch := by
  simp [torHistory]

theorem performs_health {out : Result CommandOutput} {status : TunnelStatus}
    (h : probeStatus torGateway.mode out = .ok status) : Performs torApplied .health
      [(.probe, out)] torApplied (healthOf true true .armed status) := by
  refine .access rfl (.access rfl (.run rfl ?_ .done))
  simp only [Call.run]
  rw [h]
  rfl

/-- A Tor gateway with a complete tunnel is found ready, by its own ruleset. -/
theorem policyMatched_torHealth : ∃ e : Entry, e.Promises ∧ PolicyMatched (e :: torHistory) := by
  refine ⟨⟨torApplied, .health, [(.probe, reported "100")], torApplied, _⟩, .inl ⟨_, rfl, rfl⟩,
    policyMatched_of_serves (.next (serves_torHistory ?_) (performs_health rfl) ?_)⟩
  · intro es e he hreq
    obtain ⟨-, hno, hno'⟩ := request_torHistory e he
    rcases hreq with hreq | hreq
    · exact absurd hreq hno
    · exact absurd hreq hno'
  · rintro - policy cfg hlast
    cases hlast
    rfl

/-- A VPN gateway. -/
def vpnGateway : GatewayConfig :=
  ⟨.vpn ⟨.wireGuard, "vpn.example:51820", ⟨"vpn"⟩, []⟩, .tor, .block, "10.152.152.0/24",
    "10.152.152.1"⟩

/-- The Tor gateway configured again, for a VPN. -/
def reconfigured : Controller :=
  { torApplied with state := { torApplied.state with config := some vpnGateway } }

def reconfiguredHistory : List Entry :=
  ⟨reconfigured, .health, [(.probe, exited 0)], reconfigured, healthOf true true .armed .up⟩ ::
    ⟨torApplied, .configure vpnGateway, [(.backend, exited 0)], reconfigured, .unit (.ok ())⟩ ::
      torHistory

theorem reconfiguredHistory_applied : reconfiguredHistory.filterMap Entry.applied =
    [(.failClosed torGateway, torGateway)] := rfl

/-- The gateway is found ready for the VPN with the ruleset of the Tor policy. -/
theorem reconfigured_not_matched : Serves (fun _ _ => True) reconfiguredHistory reconfigured ∧
    ¬ PolicyMatched reconfiguredHistory := by
  refine ⟨.next (.next (serves_torHistory fun _ _ _ => trivial) (performs_configure vpnGateway)
    trivial) (.access rfl (.access rfl (.run rfl rfl .done))) trivial, fun h => ?_⟩
  obtain ⟨policy, cfg, hcfg, -, d, hd, happly⟩ := h [] _ _ rfl (.inl ⟨_, rfl, rfl⟩)
  cases hcfg
  have hmem : (policy, vpnGateway) ∈ reconfiguredHistory.filterMap Entry.applied :=
    List.mem_filterMap.mpr ⟨d, hd, happly⟩
  rw [reconfiguredHistory_applied, List.mem_singleton] at hmem
  have hne : vpnGateway ≠ torGateway := by decide
  exact hne (congrArg Prod.snd hmem)

/-- `tunnel_status` of the Tor gateway, with a probe that does not find it failed. -/
theorem performs_status {out : Result CommandOutput} {status : TunnelStatus}
    (h : probeStatus torGateway.mode out = .ok status) (hs : status.state ≠ .failed) :
    Performs torApplied .tunnelStatus [(.probe, out)] torApplied (.tunnel (.ok status)) := by
  refine .access rfl (.run rfl ?_ .done)
  simp only [Call.run]
  rw [h]
  simp only [if_neg hs]
  rfl

/-- The Tor gateway once its tunnel was found complete. -/
def upHistory : List Entry :=
  ⟨torApplied, .tunnelStatus, [(.probe, reported "100")], torApplied,
    .tunnel (.ok (parseTorBootstrap "100"))⟩ :: torHistory

theorem serves_upHistory (hok : ∀ es, ∀ e ∈ torHistory, ok es e)
    (hup : ok torHistory ⟨torApplied, .tunnelStatus, [(.probe, reported "100")], torApplied,
      .tunnel (.ok (parseTorBootstrap "100"))⟩) : Serves ok upHistory torApplied :=
  .next (serves_torHistory hok) (performs_status rfl (by decide)) hup

theorem wasUp_upHistory : WasUp upHistory torApplied :=
  ⟨_, List.mem_cons_self, ⟨_, ⟨rfl, rfl⟩, by decide⟩, rfl⟩

/-- A probe that fails after the tunnel was up engages the kill switch. -/
theorem lossEngages_failed : ∃ es c, (∃ e ∈ es, e.Lost upHistory) ∧ LossEngages es c := by
  refine ⟨⟨torApplied, .tunnelStatus, [(.probe, exited 1), (.load renderKillswitch, exited 0)],
    torApplied.cut (exited 0), .tunnel (.ok ⟨.failed, none, some "tor bootstrap probe failed"⟩)⟩ ::
      upHistory, torApplied.cut (exited 0), ⟨_, List.mem_cons_self,
      ⟨_, ⟨rfl, rfl⟩, by decide⟩, wasUp_upHistory⟩, lossEngages_of_serves (.next
        (serves_upHistory ?_ ?_) (.access rfl (.run rfl rfl (.run rfl rfl (.access rfl .done))))
          ?_)⟩
  · exact fun _ e he hreq => absurd hreq (request_torHistory e he).1
  · rintro - - - tor dns ipv6 cidr addr out - hmem -
    obtain rfl : out = ⟨some 0, "100", ""⟩ := by
      simpa [reported] using hmem
    decide
  · rintro - - - tor dns ipv6 cidr addr out - hmem hout
    obtain rfl : out = ⟨some 1, "", ""⟩ := by
      simpa [exited] using hmem
    cases hout

/-- The Tor gateway once its tunnel was found down after that. -/
def downHistory : List Entry :=
  ⟨torApplied, .tunnelStatus, [(.probe, reported "")], torApplied,
    .tunnel (.ok (parseTorBootstrap ""))⟩ :: upHistory

/-- A Tor probe that reports nothing after the tunnel was up leaves the kill switch armed. -/
theorem down_not_engaged : Serves (fun _ _ => True) downHistory torApplied ∧
    ¬ LossEngages downHistory torApplied := by
  refine ⟨.next (serves_upHistory (fun _ _ _ => trivial) trivial)
    (performs_status rfl (by decide)) trivial, fun h => ?_⟩
  have hengaged := h [] _ _ rfl ⟨⟨_, ⟨rfl, rfl⟩, by decide⟩, wasUp_upHistory⟩ (by simp)
  cases hengaged

end Aegis.Gateway
