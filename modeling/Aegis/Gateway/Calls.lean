import Aegis.Gateway.Controller

/-! What one step of a call does to the kill switch, the stored configuration and the loaded
ruleset. -/
namespace Aegis.Gateway
open Nft

/-- The Aegis table in force. -/
def loaded (tables : List Table) : Option Table := tables.find? (·.is .inet tableName)

theorem loaded_load (tables : List Table) {rest : List Table} {t : Table}
    (ht : t.is .inet tableName = true)
    (h : rest = tables.filter (fun u => !u.is .inet tableName) ++ [t]) :
    loaded rest = some t := by
  have hnone : (tables.filter fun u => !u.is .inet tableName).find? (·.is .inet tableName) =
      none := by
    simp
  simp [loaded, h, List.find?_append, hnone, ht]

/-- A command ran and reported success. -/
def Succeeded (out : Result CommandOutput) : Prop := ∃ o, out = .ok o ∧ o.success = true

/-- A successful load puts its table in force; a failed one changes nothing. -/
theorem loaded_renderNftables (tables : List Table) (policy : FirewallPolicy) (cfg : GatewayConfig)
    (out : Result CommandOutput) :
    let r := loadRuleset tables (renderNftables policy cfg) out
    r.1 = .ok () ∧ loaded r.2 = some (aegisTable policy cfg) ∧ Succeeded out ∨
      (∃ e, r.1 = .error e) ∧ r.2 = tables := by
  cases out with
  | error e => exact .inr ⟨⟨e, rfl⟩, rfl⟩
  | ok o =>
    simp only [loadRuleset]
    split_ifs with ho
    · refine .inl ⟨rfl, loaded_load tables rfl ?_, o, rfl, ho⟩
      rw [load_renderNftables]
      rfl
    · exact .inr ⟨⟨_, rfl⟩, rfl⟩

theorem loaded_renderKillswitch (tables : List Table) (out : Result CommandOutput) :
    loaded (loadRuleset tables renderKillswitch out).2 = some killswitchTable ∨
      (loadRuleset tables renderKillswitch out).2 = tables := by
  cases out with
  | error e => exact .inr rfl
  | ok o =>
    simp only [loadRuleset]
    split_ifs
    · refine .inl (loaded_load tables rfl ?_)
      rw [load_renderKillswitch]
      rfl
    · exact .inr rfl

/-- Calls whose next access arms the kill switch again. -/
def Call.rearms : Call → Bool
  | applyRecord _ | releaseRecord => true
  | _ => false

/-- The policy and the configuration a call is about to load. -/
def Call.loads : Call → Option (FirewallPolicy × GatewayConfig)
  | applyLoad policy cfg | releaseLoad policy cfg => some (policy, cfg)
  | _ => none

/-- The configuration a call is about to store. -/
def Call.stores : Call → Option GatewayConfig
  | configureStore cfg => some cfg
  | _ => none

/-- An access re-arms the kill switch only where it says so. -/
theorem Call.access_killswitch {c c' : Call} {st st' : State} (h : c.access st = some (st', c'))
    (hc : c.rearms = false) : st'.killswitch = st.killswitch ∨ st'.killswitch = .engaged := by
  cases c <;> simp only [Call.access] at h <;> (repeat' split at h) <;>
    simp_all [Call.rearms] <;> grind

/-- An access changes the configuration only where it says so. -/
theorem Call.access_config {c c' : Call} {st st' : State} (h : c.access st = some (st', c'))
    (hc : c.stores = none) : st'.config = st.config := by
  cases c <;> simp only [Call.access] at h <;> (repeat' split at h) <;>
    simp_all [Call.stores] <;> grind

theorem Call.run_applyLoad {policy : FirewallPolicy} {cfg : GatewayConfig} {c' : Call}
    {tables tables' : List Table} {out : Result CommandOutput}
    (h : (Call.applyLoad policy cfg).run tables out = some (tables', c')) :
    c' = applyRecord policy ∧ loaded tables' = some (aegisTable policy cfg) ∧ Succeeded out ∨
      (∃ e, c' = cutLoad (.unit (.error e))) ∧ tables' = tables := by
  simp only [Call.run] at h
  rcases hr : loadRuleset tables (renderNftables policy cfg) out with ⟨r, rest⟩
  have hl := loaded_renderNftables tables policy cfg out
  simp only [hr] at h hl
  rcases hl with ⟨rfl, hl⟩ | ⟨⟨e, rfl⟩, rfl⟩
  · cases h
    exact .inl ⟨rfl, hl⟩
  · cases h
    exact .inr ⟨⟨e, rfl⟩, rfl⟩

theorem Call.run_engageLoad {c' : Call} {tables tables' : List Table} {out : Result CommandOutput}
    (h : Call.engageLoad.run tables out = some (tables', c')) : ∃ r, c' = engageRecord r := by
  cases h
  exact ⟨_, rfl⟩

/-- Recording the engagement engages, whatever the load returned. -/
theorem Call.access_engageRecord {r : Result Unit} {c' : Call} {st st' : State}
    (h : (Call.engageRecord r).access st = some (st', c')) :
    c' = done (.unit r) ∧ st'.killswitch = .engaged := by
  cases h
  exact ⟨rfl, rfl⟩

/-- A command changes the loaded ruleset only where it says so, or to the kill switch. -/
theorem Call.run_loaded {c c' : Call} {tables tables' : List Table} {out : Result CommandOutput}
    (h : c.run tables out = some (tables', c')) :
    loaded tables' = loaded tables ∨ loaded tables' = some killswitchTable ∨
      ∃ policy cfg, c.loads = some (policy, cfg) ∧ Succeeded out ∧
        loaded tables' = some (aegisTable policy cfg) := by
  cases c
  case applyLoad policy cfg =>
    rcases Call.run_applyLoad h with ⟨-, hl, ho⟩ | ⟨-, rfl⟩
    · exact .inr (.inr ⟨policy, cfg, rfl, ho, hl⟩)
    · exact .inl rfl
  case releaseLoad policy cfg =>
    simp only [Call.run] at h
    rcases hr : loadRuleset tables (renderNftables policy cfg) out with ⟨r, rest⟩
    have hl := loaded_renderNftables tables policy cfg out
    simp only [hr] at h hl
    rcases hl with ⟨rfl, hl, ho⟩ | ⟨⟨e, rfl⟩, rfl⟩ <;> cases h
    · exact .inr (.inr ⟨policy, cfg, rfl, ho, hl⟩)
    · exact .inl rfl
  case engageLoad =>
    cases h
    rcases loaded_renderKillswitch tables out with hl | hl
    · exact .inr (.inl hl)
    · exact .inl (congrArg loaded hl)
  case cutLoad reply =>
    cases h
    rcases loaded_renderKillswitch tables out with hl | hl
    · exact .inr (.inl hl)
    · exact .inl (congrArg loaded hl)
  all_goals
    simp only [Call.run] at h
    (repeat' split at h) <;> simp_all

namespace System

variable {g g' : System} {t : TaskId}

/-- A step begins a call, runs its command, or lets it access the state. -/
theorem step_cases {op : Op} (h : g.step op = some g') :
    (∃ t req, op = .begin t req ∧ g.idle t = true ∧ g'.state = g.state ∧ g'.tables = g.tables ∧
      ∀ u, g'.calls u = if u = t then some req.call else g.calls u) ∨
    (∃ t out c c', op = .run t out ∧ g.calls t = some c ∧
      c.run g.tables out = some (g'.tables, c') ∧ g'.state = g.state ∧
      ∀ u, g'.calls u = if u = t then some c' else g.calls u) ∨
    (∃ t c c', op = .access t ∧ g.calls t = some c ∧ c.access g.state = some (g'.state, c') ∧
      g'.tables = g.tables ∧ ∀ u, g'.calls u = if u = t then some c' else g.calls u) := by
  cases op with
  | «begin» t req =>
    simp only [step] at h
    split_ifs at h with hidle
    cases h
    exact .inl ⟨t, req, rfl, hidle, rfl, rfl, fun u => by simp⟩
  | run t out =>
    simp only [step] at h
    split at h
    · cases h
    next c hc =>
      obtain ⟨⟨tables, c'⟩, hr, rfl⟩ := Option.map_eq_some_iff.mp h
      exact .inr (.inl ⟨t, out, c, c', rfl, hc, hr, rfl, fun u => by simp⟩)
  | access t =>
    simp only [step] at h
    split at h
    · cases h
    next c hc =>
      obtain ⟨⟨st, c'⟩, hr, rfl⟩ := Option.map_eq_some_iff.mp h
      exact .inr (.inr ⟨t, c, c', rfl, hc, hr, rfl, fun u => by simp⟩)

end System

end Aegis.Gateway
