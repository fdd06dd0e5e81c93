import Aegis.Gateway.Operations

/-! The recorded state against the loaded ruleset, over every interleaving of the calls of one
controller. A call that has loaded a ruleset records it in a later step. -/
namespace Aegis.Gateway
open Nft Transition

variable {g g' : System} {t : TaskId}

/-- The kill-switch state a call that has loaded its ruleset is about to record. -/
def Call.recording : Call → Option KillSwitchState
  | applyRecord _ | releaseRecord => some .armed
  | engageRecord _ | cutRecord _ => some .engaged
  | _ => none

/-- Calls whose next command loads the kill switch. -/
def Call.loadsKillswitch : Call → Bool
  | engageLoad | cutLoad _ => true
  | _ => false

/-- The kill-switch state whose ruleset is in force. -/
def State.recorded (st : State) : Option KillSwitchState :=
  match st.killswitch with
  | .engaged => some .engaged
  | .armed => if st.firewallApplied then some .armed else none

/-- The ruleset in force is one of a kill-switch state: the kill switch, or one rendered from a
policy that passed validation. -/
def RulesetOf (tables : List Table) : KillSwitchState → Prop
  | .engaged => loaded tables = some killswitchTable
  | .armed => ∃ policy cfg, policy.validate = none ∧ loaded tables = some (aegisTable policy cfg)

namespace System

/-- No call is in flight. -/
def Quiescent (g : System) : Prop := ∀ t c, g.calls t = some c → ∃ r, c = .done r

/-- What is recorded, when no call is in flight, is in force. -/
def Agrees (g : System) : Prop :=
  g.Quiescent → ∀ k, g.state.recorded = some k → RulesetOf g.tables k

/-- Another call has loaded what is in force and is still to record it. -/
def PendingOther (g : System) (t : TaskId) : Prop :=
  ∃ u ≠ t, ∃ c k, g.calls u = some c ∧ c.recording = some k ∧ RulesetOf g.tables k

/-- The ruleset of the kill switch loads whenever it is pushed. -/
def KillswitchLoads (g : System) : Op → Prop
  | .run t out => ∀ c, g.calls t = some c → c.loadsKillswitch = true → Succeeded out
  | _ => True

/-- A call records while the ruleset in force is of the kind it loaded, or while another call
that has loaded what is in force is still to record. -/
def RecordsInForce (g : System) : Op → Prop
  | .access t => ∀ c k, g.calls t = some c → c.recording = some k →
      RulesetOf g.tables k ∨ g.PendingOther t
  | _ => True

/-- The controller as it is built, on a host with any tables. -/
def Built (g : System) : Prop := ∃ tables, g = System.initial tables

end System

/-! ### What a step records and loads -/

/-- A load of the kill switch that succeeds puts it in force and is still to be recorded. -/
theorem Call.run_loadsKillswitch {c c' : Call} {tables tables' : List Table}
    {out : Result CommandOutput} (h : c.run tables out = some (tables', c'))
    (hc : c.loadsKillswitch = true) (hout : Succeeded out) :
    loaded tables' = some killswitchTable ∧ c'.recording = some .engaged := by
  obtain ⟨o, rfl, ho⟩ := hout
  have hload : loaded (loadRuleset tables renderKillswitch (.ok o)).2 = some killswitchTable := by
    refine loaded_load tables rfl ?_
    simp only [loadRuleset, ho, if_true, load_renderKillswitch]
    rfl
  cases c <;> cases hc <;> cases h <;> exact ⟨hload, rfl⟩

/-- Any other command leaves the ruleset in force, or loads the one its call is to record. -/
theorem Call.run_others {c c' : Call} {tables tables' : List Table} {out : Result CommandOutput}
    (h : c.run tables out = some (tables', c')) (hc : c.loadsKillswitch = false) :
    tables' = tables ∧ c'.recording = none ∨ ∃ policy cfg, c.loads = some (policy, cfg) ∧
      loaded tables' = some (aegisTable policy cfg) ∧ c'.recording = some .armed := by
  have hcase (policy : FirewallPolicy) (cfg : GatewayConfig) :=
    loaded_renderNftables tables policy cfg out
  cases c
  case applyLoad policy cfg =>
    rcases Call.run_applyLoad h with ⟨rfl, hl, -⟩ | ⟨⟨e, rfl⟩, rfl⟩
    · exact .inr ⟨policy, cfg, rfl, hl, rfl⟩
    · exact .inl ⟨rfl, rfl⟩
  case releaseLoad policy cfg =>
    simp only [Call.run] at h
    rcases hr : loadRuleset tables (renderNftables policy cfg) out with ⟨r, rest⟩
    have hl := hcase policy cfg
    simp only [hr] at h hl
    rcases hl with ⟨rfl, hl, -⟩ | ⟨⟨e, rfl⟩, rfl⟩ <;> cases h
    · exact .inr ⟨policy, cfg, rfl, hl, rfl⟩
    · exact .inl ⟨rfl, rfl⟩
  case engageLoad => cases hc
  case cutLoad => cases hc
  all_goals
    refine .inl ?_
    simp only [Call.run] at h
    repeat' split at h
    all_goals cases h
    all_goals exact ⟨rfl, rfl⟩

/-- No command is run by a call that is to record. -/
theorem Call.run_recording {c : Call} {k : KillSwitchState} (hc : c.recording = some k)
    (tables : List Table) (out : Result CommandOutput) : c.run tables out = none := by
  cases c <;> cases hc <;> rfl

/-- An access records what its call has loaded, or leaves what is recorded; no call comes to be
recording by an access. -/
theorem Call.access_recorded {c c' : Call} {st st' : State} (h : c.access st = some (st', c')) :
    c'.recording = none ∧ match c.recording with
      | some k => st'.recorded = some k
      | none => st'.recorded = st.recorded := by
  cases c
  case applyRecord => cases h; exact ⟨rfl, rfl⟩
  case releaseRecord => cases h; exact ⟨rfl, rfl⟩
  case engageRecord => cases h; exact ⟨rfl, rfl⟩
  case cutRecord => cases h; exact ⟨rfl, rfl⟩
  all_goals
    simp only [Call.access] at h
    repeat' split at h
    all_goals cases h
    all_goals exact ⟨rfl, rfl⟩

/-- A policy is validated before its ruleset is rendered. -/
theorem Call.access_loads {c c' : Call} {st st' : State} {policy : FirewallPolicy}
    {cfg : GatewayConfig} (h : c.access st = some (st', c'))
    (hl : c'.loads = some (policy, cfg)) : policy.validate = none := by
  cases c
  case applyRead p =>
    simp only [Call.access] at h
    repeat' split at h
    all_goals cases h
    all_goals cases hl
    assumption
  case releaseRead =>
    simp only [Call.access] at h
    repeat' split at h
    all_goals cases h
    all_goals cases hl
    assumption
  all_goals
    simp only [Call.access] at h
    repeat' split at h
    all_goals cases h
    all_goals cases hl

theorem Call.run_loads {c c' : Call} {tables tables' : List Table} {out : Result CommandOutput}
    (h : c.run tables out = some (tables', c')) : c'.loads = none := by
  cases c <;> simp only [Call.run] at h <;> repeat' split at h
  all_goals cases h
  all_goals rfl

namespace System

/-- What a call is about to load was rendered from a policy that passed validation. -/
def Validated (g : System) : Prop :=
  ∀ t c policy cfg, g.calls t = some c → c.loads = some (policy, cfg) → policy.validate = none

theorem Validated.step {op : Op} (h : g.Validated) (hs : g.step op = some g') :
    g'.Validated := by
  intro u d policy cfg hd hl
  rcases step_cases hs with ⟨t, req, -, -, -, -, hcalls⟩ | ⟨t, out, c, c', -, -, hr, -, hcalls⟩ |
    ⟨t, c, c', -, -, hr, -, hcalls⟩
  · rw [hcalls] at hd
    split_ifs at hd with hut
    · cases hd
      cases req <;> cases hl
    · exact h u d policy cfg hd hl
  · rw [hcalls] at hd
    split_ifs at hd with hut
    · cases hd
      rw [Call.run_loads hr] at hl
      cases hl
    · exact h u d policy cfg hd hl
  · rw [hcalls] at hd
    split_ifs at hd with hut
    · cases hd
      exact Call.access_loads hr hl
    · exact h u d policy cfg hd hl

/-- The ruleset in force is of the recorded kind, or a call that loaded what is in force is still
to record. -/
def Accounted (g : System) : Prop :=
  ∀ k, g.state.recorded = some k → RulesetOf g.tables k ∨
    ∃ u c k', g.calls u = some c ∧ c.recording = some k' ∧ RulesetOf g.tables k'

theorem Accounted.runStep {c c' : Call} {out : Result CommandOutput} (h : g.Accounted)
    (hv : g.Validated) (hok : g.KillswitchLoads (.run t out)) (hc : g.calls t = some c)
    (hr : c.run g.tables out = some (g'.tables, c')) (hstate : g'.state = g.state)
    (hcalls : ∀ u, g'.calls u = if u = t then some c' else g.calls u) : g'.Accounted := by
  have hmine : g'.calls t = some c' := by rw [hcalls, if_pos rfl]
  intro k hk
  rw [hstate] at hk
  cases hks : c.loadsKillswitch with
  | true =>
    obtain ⟨hl, hrec⟩ := Call.run_loadsKillswitch hr hks (hok c hc hks)
    exact .inr ⟨t, c', .engaged, hmine, hrec, hl⟩
  | false =>
    rcases Call.run_others hr hks with ⟨htables, hrec⟩ | ⟨policy, cfg, hloads, hl, hrec⟩
    · rw [htables]
      rcases h k hk with hin | ⟨u, d, k', hd, hd', hin⟩
      · exact .inl hin
      · -- the call that just ran had nothing to record
        have hut : u ≠ t := by
          rintro rfl
          rw [hc] at hd
          cases hd
          rw [Call.run_recording hd'] at hr
          cases hr
        exact .inr ⟨u, d, k', by rw [hcalls, if_neg hut, hd], hd', hin⟩
    · exact .inr ⟨t, c', .armed, hmine, hrec, policy, cfg, hv t c policy cfg hc hloads, hl⟩

theorem Accounted.accessStep {c c' : Call} (h : g.Accounted)
    (hok : g.RecordsInForce (.access t)) (hc : g.calls t = some c)
    (hr : c.access g.state = some (g'.state, c')) (htables : g'.tables = g.tables)
    (hcalls : ∀ u, g'.calls u = if u = t then some c' else g.calls u) : g'.Accounted := by
  have hothers (hp : g.PendingOther t) : ∃ u d k', g'.calls u = some d ∧
      d.recording = some k' ∧ RulesetOf g'.tables k' := by
    obtain ⟨u, hut, d, k', hd, hd', hin⟩ := hp
    exact ⟨u, d, k', by rw [hcalls, if_neg hut, hd], hd', by rw [htables]; exact hin⟩
  intro k hk
  have hrec := (Call.access_recorded hr).2
  cases hcr : c.recording with
  | some k₀ =>
    rw [hcr] at hrec
    have hrec : g'.state.recorded = some k₀ := hrec
    rw [hk] at hrec
    cases hrec
    rw [htables]
    rcases hok c k hc hcr with hin | hp
    · exact .inl hin
    · rw [← htables]
      exact .inr (hothers hp)
  | none =>
    rw [hcr] at hrec
    have hrec : g'.state.recorded = g.state.recorded := hrec
    rw [hrec] at hk
    rcases h k hk with hin | ⟨u, d, k', hd, hd', hin⟩
    · exact .inl (by rw [htables]; exact hin)
    · refine .inr (hothers ⟨u, ?_, d, k', hd, hd', hin⟩)
      rintro rfl
      rw [hc] at hd
      cases hd
      rw [hcr] at hd'
      cases hd'

theorem Accounted.step {op : Op} (h : g.Accounted) (hv : g.Validated)
    (hload : g.KillswitchLoads op) (hok : g.RecordsInForce op) (hs : g.step op = some g') :
    g'.Accounted := by
  rcases step_cases hs with ⟨t, req, rfl, hidle, hstate, htables, hcalls⟩ |
    ⟨t, out, c, c', rfl, hc, hr, hstate, hcalls⟩ | ⟨t, c, c', rfl, hc, hr, htables, hcalls⟩
  · intro k hk
    rw [hstate] at hk
    rw [htables]
    rcases h k hk with hin | ⟨u, d, k', hd, hd', hin⟩
    · exact .inl hin
    · -- a call in flight is not idle
      have hut : u ≠ t := by
        rintro rfl
        simp only [idle, hd] at hidle
        cases d <;> cases hd' <;> cases hidle
      exact .inr ⟨u, d, k', by rw [hcalls, if_neg hut, hd], hd', hin⟩
  · exact h.runStep hv hload hc hr hstate hcalls
  · exact h.accessStep hok hc hr htables hcalls

theorem validated_of_reach {ok : System → Op → Prop} (hr : Reach step Built ok g) :
    g.Validated :=
  hr.invariant (fun _ ⟨_, hg⟩ t c _ _ hc => by rw [hg] at hc; cases hc)
    fun _ _ _ _ h _ hs => h.step hs

theorem accounted_of_reach
    (hr : Reach step Built (fun g op => g.KillswitchLoads op ∧ g.RecordsInForce op) g) :
    g.Accounted :=
  hr.invariant (fun _ ⟨_, hg⟩ k hk => by rw [hg] at hk; cases hk)
    fun _ _ _ hr h hok hs => h.step (validated_of_reach hr) hok.1 hok.2 hs

/-- What is recorded is in force whenever no call is in flight, as long as no call records over
a ruleset of the other kind that is recorded already. -/
theorem agrees_of_reach
    (hr : Reach step Built (fun g op => g.KillswitchLoads op ∧ g.RecordsInForce op) g) :
    g.Agrees := by
  intro hquiet k hk
  rcases accounted_of_reach hr k hk with hin | ⟨u, c, k', hc, hrec, -⟩
  · exact hin
  · obtain ⟨r, rfl⟩ := hquiet u c hc
    cases hrec

/-- A fresh controller whose kill switch is engaged by one caller. -/
def engagedAlone : System :=
  (exec step (.initial []) [.begin 0 .engageKillswitch, .run 0 (exited 0), .access 0]).getD
    (.initial [])

/-- Engaging the kill switch alone leaves it recorded and in force. -/
theorem agrees_engagedAlone : engagedAlone.state.recorded = some .engaged ∧
    engagedAlone.Agrees := by
  refine ⟨rfl, agrees_of_reach ?_⟩
  refine Reach.next (l := .access 0) (Reach.next (l := .run 0 (exited 0)) (Reach.next
    (l := .begin 0 .engageKillswitch) (.start ⟨[], rfl⟩) ?_ rfl) ?_ rfl) ?_ rfl
  · exact ⟨trivial, trivial⟩
  · exact ⟨fun _ _ _ => ⟨_, rfl, rfl⟩, trivial⟩
  · refine ⟨trivial, fun c k hc hrec => .inl ?_⟩
    cases hc
    cases hrec
    rfl

/-- A test that the kill switch loads. -/
def killswitchLoads (g : System) : Op → Bool
  | .run t out => (g.calls t).all fun c => !c.loadsKillswitch ||
      match out with
      | .ok o => o.success
      | .error _ => false
  | _ => true

theorem killswitchLoads_sound (g : System) (op : Op) (h : g.killswitchLoads op = true) :
    g.KillswitchLoads op := by
  cases op with
  | run t out =>
    intro c hc hks
    simp only [killswitchLoads, hc, Option.all_some, hks, Bool.not_true, Bool.false_or] at h
    cases out with
    | ok o => exact ⟨o, rfl, h⟩
    | error e => cases h
  | _ => trivial

/-- Caller 1 engages the kill switch between the load and the record of caller 0's
`apply_firewall`. -/
def overtakenLoad : List Op :=
  [.begin 0 (.configure torGateway), .run 0 (exited 0), .access 0,
    .begin 0 (.applyFirewall (.failClosed torGateway)), .access 0, .run 0 (exited 0),
    .begin 1 .engageKillswitch, .run 1 (exited 0), .access 1, .access 0]

/-- The controller after that. -/
def rearmed : System := (exec step (.initial []) overtakenLoad).getD (.initial [])

theorem rearmed_quiescent : rearmed.Quiescent := by
  intro t c hc
  match t with
  | 0 => cases hc; exact ⟨_, rfl⟩
  | 1 => cases hc; exact ⟨_, rfl⟩
  | t + 2 => cases hc

theorem killswitchTable_ne (policy : FirewallPolicy) (cfg : GatewayConfig) :
    killswitchTable ≠ aegisTable policy cfg :=
  fun h => absurd (congrArg (fun t : Table => t.chains.length) h)
    (by simp [killswitchTable, aegisTable])

/-- The kill switch is in force, and recorded is that traffic may pass. -/
theorem rearmed_disagrees : Reach step Built KillswitchLoads rearmed ∧ ¬ rearmed.Agrees := by
  have hrun : exec (fun g op => if killswitchLoads g op then step g op else none) (.initial [])
    overtakenLoad = some rearmed := rfl
  have hbuilt : Reach step Built KillswitchLoads (.initial []) := .start ⟨[], rfl⟩
  refine ⟨hbuilt.execWhere killswitchLoads_sound hrun, fun h => ?_⟩
  obtain ⟨policy, cfg, -, hl⟩ := h rearmed_quiescent .armed rfl
  exact killswitchTable_ne policy cfg (Option.some.inj hl)

end System

end Aegis.Gateway
