import Aegis.Daemon.Handler

/-! What the diagnostics show as fine: only what was reported while they were made, or a check the
stored checklist has as passed. -/
namespace Aegis.DaemonHandler
open Ipc Audit
open Program (Ensures Exchange ensures_bind ensures_pure)

variable {Time : Type}

/-! ### The items of each part -/

/-- The keys of the items that report something. -/
def runtimeKeys : List String :=
  CheckId.all.map itemKey ++ ["site_public_ip", "firewall", "kill_switch", "browser_process"]

/-- The keys of the items that settings account for. -/
def settingKeys : List String :=
  ["isolation", "browser_engine", "cohort_profile", "protection_level", "profile_persistence",
    "render_mode", "devices", "site_user_agent", "site_timezone", "site_language", "site_cpu",
    "site_webgl", "site_webgpu", "site_canvas", "site_media_devices", "site_viewport",
    "storage_encryption"]

theorem all_keys_nodup : (settingKeys ++ runtimeKeys).Nodup := by decide

theorem configured_keys (profile : Ipc.Profile Time) :
    (configuredProfileItems profile).map DiagnosticItem.key = settingKeys := rfl

theorem configured_unknown (profile : Ipc.Profile Time) :
    ∀ i ∈ configuredProfileItems profile, i.level = .unknown := by
  unfold configuredProfileItems
  intro i hi
  rcases List.mem_append.mp hi with h | h
  · obtain ⟨c, -, rfl⟩ := List.mem_map.mp h
    rfl
  · rcases List.mem_pair.mp h with rfl | rfl <;> rfl

theorem configured_evidence (profile : Ipc.Profile Time) :
    ∀ i ∈ configuredProfileItems profile, i.evidence = .configured ∨ i.evidence = .unknown := by
  unfold configuredProfileItems
  intro i hi
  rcases List.mem_append.mp hi with h | h
  · obtain ⟨c, -, rfl⟩ := List.mem_map.mp h
    exact .inl rfl
  · rcases List.mem_pair.mp h with rfl | rfl <;> exact .inr rfl

theorem checklist_keys (c : ConnectivityChecklist) :
    (checklistItems c).map DiagnosticItem.key =
      CheckId.all.map itemKey ++ ["site_public_ip"] := by
  have hkeys : DiagnosticItem.key ∘ checkItem c = itemKey := funext (checkItem_key c)
  rw [checklistItems, List.map_append, List.map_map, List.map_singleton, sitePublicIp_key, hkeys]

theorem checkItem_level (c : ConnectivityChecklist) (k : CheckId) :
    (checkItem c k).level = .ok ↔ c.passed k = true := by
  unfold checkItem ConnectivityChecklist.passed
  cases c.report k with
  | none => simp [DiagnosticItem.new, DiagnosticItem.withEvidence]
  | some r =>
    cases hout : r.outcome <;>
      simp [DiagnosticItem.new, DiagnosticItem.withEvidence, outcomeHealth, CheckOutcome.isPass,
        hout]

/-- The evidence of an item goes with its level. -/
def Measured (i : DiagnosticItem) : Prop :=
  i.evidence ≠ .configured ∧ (i.evidence = .verified → i.level = .ok)

theorem measured_of_evidence {i : DiagnosticItem}
    (h : i.evidence = .measured ∨ i.evidence = .unknown) : Measured i := by
  rcases h with h | h <;> simp [Measured, h]

theorem checklistItems_measured (c : ConnectivityChecklist) :
    ∀ i ∈ checklistItems c, Measured i := by
  intro i hi
  rcases List.mem_append.mp hi with h | h
  · obtain ⟨k, -, rfl⟩ := List.mem_map.mp h
    unfold checkItem
    cases c.report k with
    | none => exact measured_of_evidence (.inr rfl)
    | some r =>
      cases hout : r.outcome <;>
        simp [Measured, DiagnosticItem.new, DiagnosticItem.withEvidence, outcomeHealth, hout]
  · rw [List.mem_singleton.mp h]
    unfold sitePublicIp
    cases c.observedIp with
    | none => exact measured_of_evidence (.inr rfl)
    | some obs => exact measured_of_evidence (.inl rfl)

theorem gatewayItems_keys (r : Result GatewayHealth) :
    (gatewayItems r).map DiagnosticItem.key <:+ ["firewall", "kill_switch"] := by
  rcases r with _ | ⟨_, _, _, _ | _⟩
  · exact ⟨["firewall"], rfl⟩
  all_goals exact ⟨[], rfl⟩

theorem gatewayItems_measured (r : Result GatewayHealth) : ∀ i ∈ gatewayItems r, Measured i := by
  rcases r with e | health
  · intro i hi
    rw [List.mem_singleton.mp hi]
    exact measured_of_evidence (.inr rfl)
  · intro i hi
    rcases List.mem_pair.mp hi with rfl | rfl
    · cases health.firewallApplied with
      | true => exact ⟨by decide, fun _ => rfl⟩
      | false => exact measured_of_evidence (.inl rfl)
    · exact measured_of_evidence (.inl rfl)

theorem browserItem_measured (r : Result (Option Bool)) : Measured (browserItem r) := by
  rcases r with e | _ | _ | _
  · exact measured_of_evidence (.inr rfl)
  · exact measured_of_evidence (.inr rfl)
  · exact measured_of_evidence (.inl rfl)
  · exact measured_of_evidence (.inl rfl)

/-! ### What is reported -/

/-- What the item of this key would have to be shown as fine for: a check the checklist has as
passed, or an answer given while the diagnostics were made. -/
def Reported (id : SessionId) (t : List (Exchange (Ask.Reply Time))) (c : ConnectivityChecklist)
    (key : String) : Prop :=
  (∃ k, key = itemKey k ∧ c.passed k = true) ∨
  (key = "site_public_ip" ∧
    ∃ obs, c.observedIp = some obs ∧ obs.viaTunnel = true ∧ obs.differsFromHost = true) ∨
  (key = "firewall" ∧ ∃ h, ⟨.gatewayHealth, .ok h⟩ ∈ t ∧ h.firewallApplied = true) ∨
  (key = "kill_switch" ∧ ∃ h, ⟨.gatewayHealth, .ok h⟩ ∈ t ∧ h.killswitch = .armed) ∨
  (key = "browser_process" ∧ ⟨.browserLiveness id, .ok (some true)⟩ ∈ t)

/-- The diagnostics of a session say nothing better than what was reported. -/
structure Evidenced (id : SessionId) (t : List (Exchange (Ask.Reply Time)))
    (protection : ProtectionStatus) (c : ConnectivityChecklist) (items : List DiagnosticItem) :
    Prop where
  session : ∃ sessions, ⟨.listSessions, sessions⟩ ∈ t ∧
    ∃ s ∈ sessions, s.id = id ∧ s.protection = protection
  checklist : ∃ stored, ⟨.sessionChecklist id, stored⟩ ∈ t ∧ c = stored.getD unknownChecklist
  keys : (items.map DiagnosticItem.key).Nodup
  ok_iff : ∀ i ∈ items, i.level = .ok ↔ Reported id t c i.key
  configured : ∀ i ∈ items, i.evidence = .configured → i.level = .unknown
  verified : ∀ i ∈ items, i.evidence = .verified → i.level = .ok

variable {id : SessionId} {t : List (Exchange (Ask.Reply Time))} {c : ConnectivityChecklist}

theorem itemKey_injective : Function.Injective itemKey := by
  intro k k' h
  cases k <;> cases k' <;> first | rfl | exact absurd h (by decide)

theorem itemKey_runtime (k : CheckId) : itemKey k ∉
    ["site_public_ip", "firewall", "kill_switch", "browser_process"] := by
  cases k <;> decide

theorem reported_check (k : CheckId) : Reported id t c (itemKey k) ↔ c.passed k = true := by
  have hk := itemKey_runtime k
  simp only [List.mem_cons, List.not_mem_nil, or_false, not_or] at hk
  simp [Reported, hk, itemKey_injective.eq_iff]

theorem not_reported_setting {key : String} (h : key ∈ settingKeys) : ¬ Reported id t c key := by
  have hapart : ∀ key ∈ settingKeys, key ∉ runtimeKeys := by decide
  have hkey := hapart key h
  rintro (⟨k, rfl, -⟩ | ⟨rfl, -⟩ | ⟨rfl, -⟩ | ⟨rfl, -⟩ | ⟨rfl, -⟩)
  · cases k <;> exact hkey (by decide)
  all_goals exact hkey (by decide)

theorem reported_address : Reported id t c "site_public_ip" ↔
    ∃ obs, c.observedIp = some obs ∧ obs.viaTunnel = true ∧ obs.differsFromHost = true := by
  have hk : ∀ k, "site_public_ip" ≠ itemKey k := fun k => (itemKey_ne k).symm
  simp [Reported, hk]

theorem reported_firewall : Reported id t c "firewall" ↔
    ∃ h, ⟨.gatewayHealth, .ok h⟩ ∈ t ∧ h.firewallApplied = true := by
  have hk : ∀ k, "firewall" ≠ itemKey k := by rintro (_ | _ | _ | _ | _ | _) <;> decide
  simp [Reported, hk]

theorem reported_killSwitch : Reported id t c "kill_switch" ↔
    ∃ h, ⟨.gatewayHealth, .ok h⟩ ∈ t ∧ h.killswitch = .armed := by
  have hk : ∀ k, "kill_switch" ≠ itemKey k := by rintro (_ | _ | _ | _ | _ | _) <;> decide
  simp [Reported, hk]

theorem reported_browser : Reported id t c "browser_process" ↔
    ⟨.browserLiveness id, .ok (some true)⟩ ∈ t := by
  have hk : ∀ k, "browser_process" ≠ itemKey k := by rintro (_ | _ | _ | _ | _ | _) <;> decide
  simp [Reported, hk]

/-! ### The reply -/

theorem configured_ok_iff {profile : Ipc.Profile Time} {i : DiagnosticItem}
    (hi : i ∈ configuredProfileItems profile) : i.level = .ok ↔ Reported id t c i.key := by
  have hkey : i.key ∈ settingKeys := by
    rw [← configured_keys profile]
    exact List.mem_map_of_mem hi
  rw [configured_unknown profile i hi]
  exact ⟨nofun, fun h => absurd h (not_reported_setting hkey)⟩

theorem checklist_ok_iff {i : DiagnosticItem} (hi : i ∈ checklistItems c) :
    i.level = .ok ↔ Reported id t c i.key := by
  rcases List.mem_append.mp hi with h | h
  · obtain ⟨k, -, rfl⟩ := List.mem_map.mp h
    rw [checkItem_key, reported_check, checkItem_level]
  · rw [List.mem_singleton.mp h, sitePublicIp_key, reported_address, sitePublicIp_level]

theorem gateway_ok_iff {r : Result GatewayHealth}
    (ht : ∀ r' : Result GatewayHealth, ⟨.gatewayHealth, r'⟩ ∈ t ↔ r' = r) {i : DiagnosticItem}
    (hi : i ∈ gatewayItems r) : i.level = .ok ↔ Reported id t c i.key := by
  rcases r with e | health
  · rw [List.mem_singleton.mp hi]
    show HealthLevel.unknown = .ok ↔ Reported id t c "kill_switch"
    rw [reported_killSwitch]
    simp [ht]
  · rcases List.mem_pair.mp hi with rfl | rfl
    · show (if health.firewallApplied then HealthLevel.ok else .down) = .ok ↔
        Reported id t c "firewall"
      rw [reported_firewall]
      simp [ht]
    · cases hk : health.killswitch with
      | armed =>
        show HealthLevel.ok = .ok ↔ Reported id t c "kill_switch"
        rw [reported_killSwitch]
        simp [ht, hk]
      | engaged =>
        show HealthLevel.degraded = .ok ↔ Reported id t c "kill_switch"
        rw [reported_killSwitch]
        simp [ht, hk]

theorem noGateway_ok_iff (ht : ∀ r : Result GatewayHealth, ⟨.gatewayHealth, r⟩ ∉ t) :
    noGatewayItem.level = .ok ↔ Reported id t c noGatewayItem.key := by
  show HealthLevel.unknown = .ok ↔ Reported id t c "kill_switch"
  rw [reported_killSwitch]
  simp [ht]

theorem browser_ok_iff {r : Result (Option Bool)}
    (ht : ∀ r' : Result (Option Bool), ⟨.browserLiveness id, r'⟩ ∈ t ↔ r' = r) :
    (browserItem r).level = .ok ↔ Reported id t c (browserItem r).key := by
  have hkey : (browserItem r).key = "browser_process" := by rcases r with _ | _ | _ | _ <;> rfl
  rw [hkey, reported_browser, ht]
  rcases r with _ | _ | _ | _ <;>
    simp [browserItem, DiagnosticItem.new, DiagnosticItem.withEvidence]

/-- The items of the four parts, where each part says what was reported. -/
theorem evidenced_of_parts {profile : Ipc.Profile Time} {gateway : List DiagnosticItem}
    {alive : Result (Option Bool)} {protection : ProtectionStatus}
    (hsession : ∃ sessions, ⟨.listSessions, sessions⟩ ∈ t ∧
      ∃ s ∈ sessions, s.id = id ∧ s.protection = protection)
    (hchecklist : ∃ stored, ⟨.sessionChecklist id, stored⟩ ∈ t ∧ c = stored.getD unknownChecklist)
    (hgateway : ∀ i ∈ gateway, Measured i ∧ (i.level = .ok ↔ Reported id t c i.key))
    (hkeys : gateway.map DiagnosticItem.key <:+ ["firewall", "kill_switch"])
    (halive : ∀ r : Result (Option Bool), ⟨.browserLiveness id, r⟩ ∈ t ↔ r = alive) :
    Evidenced id t protection c
      (configuredProfileItems profile ++ checklistItems c ++ gateway ++ [browserItem alive]) := by
  have hparts : ∀ i ∈ configuredProfileItems profile ++ checklistItems c ++ gateway ++
      [browserItem alive], i ∈ configuredProfileItems profile ∨
        Measured i ∧ (i.level = .ok ↔ Reported id t c i.key) := by
    intro i hi
    rcases List.mem_append.mp hi with hi | hi
    · rcases List.mem_append.mp hi with hi | hi
      · rcases List.mem_append.mp hi with hi | hi
        · exact .inl hi
        · exact .inr ⟨checklistItems_measured c i hi, checklist_ok_iff hi⟩
      · exact .inr (hgateway i hi)
    · rw [List.mem_singleton.mp hi]
      exact .inr ⟨browserItem_measured alive, browser_ok_iff halive⟩
  have hbrowser : (browserItem alive).key = "browser_process" := by
    rcases alive with _ | _ | _ | _ <;> rfl
  refine ⟨hsession, hchecklist, ?_, ?_, ?_, ?_⟩
  · simp only [List.map_append, configured_keys, checklist_keys, List.map_singleton, hbrowser]
    have hall : settingKeys ++ runtimeKeys = settingKeys ++ (CheckId.all.map itemKey ++
        ["site_public_ip"]) ++ ["firewall", "kill_switch"] ++ ["browser_process"] := by
      simp [runtimeKeys]
    have hnodup := all_keys_nodup
    rw [hall] at hnodup
    exact hnodup.sublist (((List.Sublist.refl _).append hkeys.sublist).append (.refl _))
  · intro i hi
    rcases hparts i hi with h | h
    · exact configured_ok_iff h
    · exact h.2
  · intro i hi he
    rcases hparts i hi with h | h
    · exact configured_unknown profile i h
    · exact absurd he h.1.1
  · intro i hi he
    rcases hparts i hi with h | h
    · rcases configured_evidence profile i h with hc | hc <;> rw [hc] at he <;> cases he
    · exact h.1.2 he

theorem diagnostics_evidenced (id : SessionId) {summary : SessionSummary}
    {sessions : List SessionSummary} (hid : summary.id = id) (hmem : summary ∈ sessions) :
    Ensures (fun _ _ => True) (diagnostics id summary : Asking Time _).run fun t r =>
      ∀ protection c items, r = .ok (.diagnostics protection c items) →
        Evidenced id (⟨.listSessions, sessions⟩ :: t) protection c items := by
  rintro (e | profile) -
  · exact nofun
  · rintro stored -
    cases hiso : profile.spec.isolation with
    | fullVm =>
      rintro health - alive - protection c items heq
      obtain ⟨rfl, rfl, rfl⟩ := Response.diagnostics.inj (Except.ok.inj heq)
      refine evidenced_of_parts ⟨sessions, by simp, summary, hmem, hid, rfl⟩ ⟨stored, by simp, rfl⟩
        (fun i hi => ⟨gatewayItems_measured health i hi, gateway_ok_iff (by simp) hi⟩)
        (gatewayItems_keys health) (by simp)
    | hostProcess =>
      rintro alive - protection c items heq
      obtain ⟨rfl, rfl, rfl⟩ := Response.diagnostics.inj (Except.ok.inj heq)
      refine evidenced_of_parts ⟨sessions, by simp, summary, hmem, hid, rfl⟩ ⟨stored, by simp, rfl⟩
        ?_ ⟨["firewall"], rfl⟩ (by simp)
      intro i hi
      rw [List.mem_singleton.mp hi]
      exact ⟨measured_of_evidence (.inr rfl), noGateway_ok_iff (by simp)⟩

/-- The diagnostics of every session, whatever the orchestrator, the gateway and the browser backend
answer. -/
theorem handle_evidenced (id : SessionId) :
    Ensures (fun _ _ => True) (handle (.getDiagnostics id) : Program (Ask.Reply Time) _)
      fun t resp => ∀ protection c items, resp = .diagnostics protection c items →
        Evidenced id t protection c items := by
  have hdispatch : Ensures (fun _ _ => True) (dispatch (.getDiagnostics id) : Asking Time _).run
      fun t r => ∀ protection c items, r = .ok (.diagnostics protection c items) →
        Evidenced id t protection c items := by
    rintro sessions -
    dsimp only [Program.bind, Function.comp, ExceptT.bindCont]
    cases hfind : sessions.find? fun s => s.id = id with
    | none => exact nofun
    | some summary =>
      exact diagnostics_evidenced id (by simpa using List.find?_some hfind)
        (List.mem_of_find?_eq_some hfind)
  unfold handle
  rw [ensures_bind]
  apply hdispatch.mono
  rintro t (e | resp) h
  · exact nofun
  · rw [ensures_pure, List.append_nil]
    rintro protection c items rfl
    exact h protection c items rfl

end Aegis.DaemonHandler
