import Aegis.Audit.Diagnostics
import Aegis.Core.Vm
import Aegis.Lib.Contract
import Aegis.Update.Replay

/-! The handler of the daemon: what it asks of the orchestrator for each request, and the reply it
makes of the answers. -/
namespace Aegis

/-! ### The self-check -/

/-- What has drifted of the compiled-in defaults. -/
def selfCheck : List String :=
  (if IsolationPolicy.hardened.validate = none then []
    else ["default IsolationPolicy is not fully hardened"]) ++
  (if FingerprintPolicy.balanced.validate = none then []
    else ["balanced fingerprint policy is invalid"]) ++
  (if FingerprintPolicy.strict.validate = none then []
    else ["strict fingerprint policy is invalid"]) ++
  (Feature.all.filter fun f => f.isHardBlocked ∧
    PermissionPolicy.secureDefault.effective "https://example" f ≠ .block).map fun _ =>
      "hard-blocked device class is not blocked by default"

theorem selfCheck_eq_nil : selfCheck = [] := by decide

def CheckReport.pass (id : CheckId) (detail : String) : CheckReport := ⟨id, .pass, detail⟩

def CheckReport.skipped (id : CheckId) (detail : String) : CheckReport := ⟨id, .skipped, detail⟩

namespace DaemonHandler
open Ipc Audit
open Program (Ensures Exchange ensures_bind ensures_pure)

/-! ### The diagnostics items -/

/-- The checklist of a session whose preflight has not completed. -/
def unknownChecklist : ConnectivityChecklist :=
  .new (CheckId.all.map fun id =>
    .skipped id "runtime preflight has not reported this check")

def configuredItem (i : ConfiguredItem) : DiagnosticItem :=
  (DiagnosticItem.new i.key .unknown i.detail).withEvidence .configured

/-- The items of the settings, and the two a setting does not account for. -/
def configuredProfileItems {Time : Type} (profile : Ipc.Profile Time) : List DiagnosticItem :=
  let spec := profile.spec.toCore
  let storageDetail := match spec.kind with
    | .ephemeral => "disposable overlay selected; backing medium and teardown are not live-attested"
    | .persistent => "persistent profile selected; no live LUKS2 volume attestation received"
  (Aegis.configuredProfileItems ⟨profile.id, spec⟩ spec.preview).map configuredItem ++
    [(DiagnosticItem.new "site_viewport" .unknown
        "not reported by a Browser VM runtime probe").withEvidence .unknown,
      (DiagnosticItem.new "storage_encryption" .unknown storageDetail).withEvidence .unknown]

/-- The items of the gateway where the profile runs in a VM. -/
def gatewayItems : Result GatewayHealth → List DiagnosticItem
  | .ok health =>
    [(DiagnosticItem.new "firewall" (if health.firewallApplied then .ok else .down)
        (if health.firewallApplied then "gateway reports a loaded firewall"
          else "gateway reports that the firewall is not loaded")).withEvidence
        (if health.firewallApplied then .verified else .measured),
      (match health.killswitch with
        | .armed => DiagnosticItem.new "kill_switch" .ok "armed; tunnel-only traffic allowed"
        | .engaged =>
          DiagnosticItem.new "kill_switch" .degraded "engaged; browser traffic is cut").withEvidence
        .measured]
  | .error _ =>
    [(DiagnosticItem.new "kill_switch" .unknown
      "gateway runtime health is unavailable").withEvidence .unknown]

/-- The item of the gateway where the browser runs on the host. -/
def noGatewayItem : DiagnosticItem :=
  (DiagnosticItem.new "kill_switch" .unknown
    "no Gateway VM kill switch in reduced host-process mode").withEvidence .unknown

def browserItem : Result (Option Bool) → DiagnosticItem
  | .ok (some true) =>
    (DiagnosticItem.new "browser_process" .ok "browser process is alive").withEvidence .measured
  | .ok (some false) =>
    (DiagnosticItem.new "browser_process" .down
      "browser process is not running").withEvidence .measured
  | .ok none =>
    (DiagnosticItem.new "browser_process" .unknown
      "browser process has not been started").withEvidence .unknown
  | .error _ =>
    (DiagnosticItem.new "browser_process" .unknown
      "browser liveness probe failed").withEvidence .unknown

/-! ### The requests -/

/-- What the handler asks of the orchestrator and of the capabilities behind it. -/
inductive Ask where
  | listProfiles
  | createProfile (spec : Ipc.ProfileSpec)
  | updateProfile (id : ProfileId) (patch : Ipc.ProfilePatch)
  | deleteProfile (id : ProfileId)
  | getProfile (id : ProfileId)
  | startSession (profile : ProfileId)
  | stopSession (id : SessionId)
  | listSessions
  | sessionChecklist (id : SessionId)
  | gatewayHealth
  | browserLiveness (id : SessionId)
  | status
  | getEnforcement
  | setEnforcement (enforcement : Enforcement)
  | checkForUpdate (info : VersionInfo)
  | verify (manifest : UpdateManifest) (info : VersionInfo)
  | apply (verified : VerifiedArtifact)

@[reducible] def Ask.Reply (Time : Type) : Ask → Type
  | .listProfiles => Result (List (Ipc.Profile Time))
  | .createProfile _ | .updateProfile _ _ | .getProfile _ => Result (Ipc.Profile Time)
  | .deleteProfile _ => Result Unit
  | .startSession _ | .stopSession _ => Result SessionSummary
  | .listSessions => List SessionSummary
  | .sessionChecklist _ => Option ConnectivityChecklist
  | .gatewayHealth => Result GatewayHealth
  | .browserLiveness _ => Result (Option Bool)
  | .status => StatusDto
  | .getEnforcement => Enforcement
  | .setEnforcement _ => Result Enforcement
  | .checkForUpdate _ => Result (Option UpdateManifest)
  | .verify _ _ => Result VerifiedArtifact
  | .apply _ => Result ApplyOutcome

variable {Time : Type}

abbrev Asking (Time α : Type) := ExceptT Error (Program (Ask.Reply Time)) α

/-- An answer, an error of it included. -/
def ask (a : Ask) : Asking Time (a.Reply Time) := ExceptT.lift (Program.command a)

/-- What an answer gives; an error of it ends the request. -/
def need {α : Type} (r : Result α) : Asking Time α := ExceptT.mk (pure r)

def killSwitchItems : IsolationLevel → Asking Time (List DiagnosticItem)
  | .fullVm => return gatewayItems (← ask .gatewayHealth)
  | .hostProcess => return [noGatewayItem]

/-- The diagnostics of a session that is listed. -/
def diagnostics (id : SessionId) (summary : SessionSummary) : Asking Time (Response Time) := do
  let profile ← need (← ask (.getProfile summary.profile))
  let checklist := (← ask (.sessionChecklist id)).getD unknownChecklist
  let gateway ← killSwitchItems profile.spec.isolation
  let browser ← ask (.browserLiveness id)
  return .diagnostics summary.protection checklist
    (configuredProfileItems profile ++ checklistItems checklist ++ gateway ++ [browserItem browser])

def dispatch : Request → Asking Time (Response Time)
  | .listProfiles => do
    let profiles ← need (← ask .listProfiles)
    return .profiles profiles
  | .createProfile spec => do
    let profile ← need (← ask (.createProfile spec))
    return .profile profile
  | .updateProfile id patch => do
    let profile ← need (← ask (.updateProfile id patch))
    return .profile profile
  | .deleteProfile id => do
    need (← ask (.deleteProfile id))
    return .ok
  | .startSession request => do
    let summary ← need (← ask (.startSession request.profile))
    return .session summary
  | .stopSession id => do
    let summary ← need (← ask (.stopSession id))
    return .session summary
  | .listSessions => return .sessions (← ask .listSessions)
  | .getDiagnostics id => do
    let sessions ← ask .listSessions
    match sessions.find? fun s => s.id = id with
    | none => throw (.notFound ("session " ++ id.uuid.display))
    | some summary => diagnostics id summary
  | .doctor =>
    return .doctor (.new (CheckId.all.map fun c =>
      if selfCheck.isEmpty then .pass c "self-check ok"
      else .skipped c "self-check found a drifted invariant"))
  | .getStatus => return .status (← ask .status)
  | .getEnforcement => return .enforcement (← ask .getEnforcement)
  | .setEnforcement enforcement => do
    let applied ← need (← ask (.setEnforcement enforcement))
    return .enforcement applied
  | .checkUpdate info => do
    let manifest ← need (← ask (.checkForUpdate info))
    return .updateAvailable manifest
  | .applyUpdate manifest => do
    let verified ← need (← ask (.verify manifest handlerInfo))
    let outcome ← need (← ask (.apply verified))
    return .updateApplied outcome

/-- Every failure is a reply of its own. -/
def handle (req : Request) : Program (Ask.Reply Time) (Response Time) := do
  match ← (dispatch req).run with
  | .ok resp => return resp
  | .error e => return .ofError e

/-! ### What a reply tells -/

/-- The kind of reply a request is answered with. -/
def replyKind : Request.Op → Response.Kind
  | .listProfiles => .profiles
  | .createProfile | .updateProfile => .profile
  | .deleteProfile => .ok
  | .startSession | .stopSession => .session
  | .listSessions => .sessions
  | .getDiagnostics => .diagnostics
  | .doctor => .doctor
  | .checkUpdate => .updateAvailable
  | .applyUpdate => .updateApplied
  | .getStatus => .status
  | .getEnforcement | .setEnforcement => .enforcement

def Failed {α : Type} (r : Result α) : Prop := ∃ e, r = .error e

/-- An answer on which a request is given up. The two probes of the diagnostics never give one: what
they do not tell is shown as unknown. -/
def GivesUp (req : Request) : Exchange (Ask.Reply Time) → Prop
  | ⟨.listProfiles, r⟩ | ⟨.createProfile _, r⟩ | ⟨.updateProfile _ _, r⟩ | ⟨.deleteProfile _, r⟩
  | ⟨.getProfile _, r⟩ | ⟨.startSession _, r⟩ | ⟨.stopSession _, r⟩ | ⟨.setEnforcement _, r⟩
  | ⟨.checkForUpdate _, r⟩ | ⟨.verify _ _, r⟩ | ⟨.apply _, r⟩ => Failed r
  | ⟨.listSessions, sessions⟩ => ∃ id, req = .getDiagnostics id ∧ ∀ s ∈ sessions, s.id ≠ id
  | ⟨.sessionChecklist _, _⟩ | ⟨.gatewayHealth, _⟩ | ⟨.browserLiveness _, _⟩ | ⟨.status, _⟩
  | ⟨.getEnforcement, _⟩ => False

/-- The reply is of the kind the request calls for, or an error, and this exactly where an answer
gave the request up. -/
structure Answered (req : Request) (t : List (Exchange (Ask.Reply Time)))
    (resp : Response Time) : Prop where
  kind : resp.kind = replyKind req.op ∨ resp.kind = .error
  error_iff : resp.kind = .error ↔ ∃ x ∈ t, GivesUp req x

/-- What a request comes to before errors are made replies. -/
def Settled (req : Request) (t : List (Exchange (Ask.Reply Time))) :
    Result (Response Time) → Prop
  | .ok resp => resp.kind = replyKind req.op ∧ ∀ x ∈ t, ¬ GivesUp req x
  | .error _ => ∃ x ∈ t, GivesUp req x

theorem diagnostics_settled (id : SessionId) (summary : SessionSummary) :
    Ensures (fun _ _ => True) (diagnostics id summary : Asking Time _).run
      (Settled (.getDiagnostics id)) := by
  rintro (e | profile) -
  · refine ⟨_, .head _, ?_⟩
    exact ⟨e, rfl⟩
  · rintro checklist -
    cases hiso : profile.spec.isolation with
    | fullVm =>
      rintro health - alive -
      exact ⟨rfl, by simp [GivesUp, Failed]⟩
    | hostProcess =>
      rintro alive -
      exact ⟨rfl, by simp [GivesUp, Failed]⟩

theorem dispatch_settled (req : Request) :
    Ensures (fun _ _ => True) (dispatch req : Asking Time _).run (Settled req) := by
  cases req with
  | listProfiles | createProfile | updateProfile | deleteProfile | startSession | stopSession
  | checkUpdate | setEnforcement =>
    rintro (e | a) -
    · refine ⟨_, .head _, ?_⟩
      exact ⟨e, rfl⟩
    · exact ⟨rfl, by simp [GivesUp, Failed]⟩
  | applyUpdate manifest =>
    rintro (e | v) -
    · refine ⟨_, .head _, ?_⟩
      exact ⟨e, rfl⟩
    · rintro (e | outcome) -
      · refine ⟨_, .tail _ (.head _), ?_⟩
        exact ⟨e, rfl⟩
      · exact ⟨rfl, by simp [GivesUp, Failed]⟩
  | listSessions | getStatus | getEnforcement =>
    rintro a -
    exact ⟨rfl, by simp [GivesUp]⟩
  | doctor => exact ⟨rfl, by simp⟩
  | getDiagnostics id =>
    rintro sessions -
    dsimp only [Program.bind, Function.comp, ExceptT.bindCont]
    cases hfind : sessions.find? fun s => s.id = id with
    | none =>
      have hnone := List.find?_eq_none.mp hfind
      refine ⟨_, .head _, ?_⟩
      exact ⟨id, rfl, fun s hs => by simpa using hnone s hs⟩
    | some summary =>
      have hid : summary.id = id := by simpa using List.find?_some hfind
      have hmem : summary ∈ sessions := List.mem_of_find?_eq_some hfind
      apply (diagnostics_settled id summary).mono
      rintro t (e | resp) h
      · obtain ⟨x, hx, hg⟩ := h
        exact ⟨x, .tail _ hx, hg⟩
      · refine ⟨h.1, ?_⟩
        rintro x (_ | _)
        · rintro ⟨other, heq, hnot⟩
          obtain rfl := Request.getDiagnostics.inj heq
          exact hnot summary hmem hid
        · exact h.2 x ‹_›

theorem handle_answered (req : Request) :
    Ensures (fun _ _ => True) (handle req : Program (Ask.Reply Time) _) (Answered req) := by
  unfold handle
  rw [ensures_bind]
  apply (dispatch_settled req).mono
  rintro t (e | resp) h
  · rw [ensures_pure, List.append_nil]
    exact ⟨.inr rfl, fun _ => h, fun _ => rfl⟩
  · rw [ensures_pure, List.append_nil]
    refine ⟨.inl h.1, fun he => ?_, fun ⟨x, hx, hg⟩ => absurd hg (h.2 x hx)⟩
    rw [h.1] at he
    cases hop : req.op <;> rw [hop] at he <;> cases he

end DaemonHandler
end Aegis
