import Aegis.Cli.Status

/-! The exit status of a command whose requests the daemon's handler answers over a link that may
break at any message. -/
namespace Aegis.Cli
open Ipc
open DaemonHandler (Ask Answered GivesUp Failed replyKind handle handle_answered)
open Program (Ensures Exchange Carried ensures_bind ensures_pure)

variable {Time : Type}

/-- No connection, or a message that is lost. -/
def Broken : Exchange (Line.Reply Time) → Prop
  | ⟨.connect, connected⟩ => connected = false
  | ⟨.send, lost⟩ | ⟨.receive, lost⟩ => lost ≠ none
  | ⟨.ask _, _⟩ => False

/-- The profile to show is not among the daemon's. -/
def Unlisted (command : Command) (x : Exchange (Line.Reply Time)) : Prop :=
  ∃ id profiles, command = .profileShow id ∧ x = ⟨.ask .listProfiles, .ok profiles⟩ ∧
    ∀ p ∈ profiles, parseProfileId id ≠ .ok p.id

/-- An answer that gives a request of the command up, or an update that is rolled back. -/
def Failing (command : Command) : Exchange (Line.Reply Time) → Prop
  | ⟨.ask a, r⟩ =>
    (∃ req, Sends command req ∧ GivesUp req ⟨a, r⟩) ∨
      ∃ v, (⟨a, r⟩ : Exchange (Ask.Reply Time)) = ⟨.apply v, .ok .rolledBack⟩
  | _ => False

/-! ### The handler -/

/-- What a request may lead to being asked. -/
def Asks : Request → Ask → Prop
  | .listProfiles, a => a = .listProfiles
  | .createProfile spec, a => a = .createProfile spec
  | .updateProfile id patch, a => a = .updateProfile id patch
  | .deleteProfile id, a => a = .deleteProfile id
  | .startSession request, a => a = .startSession request.profile
  | .stopSession id, a => a = .stopSession id
  | .listSessions, a => a = .listSessions
  | .getDiagnostics id, a =>
    a = .listSessions ∨ (∃ profile, a = .getProfile profile) ∨ a = .sessionChecklist id ∨
      a = .gatewayHealth ∨ a = .browserLiveness id
  | .doctor, _ => False
  | .getStatus, a => a = .status
  | .getEnforcement, a => a = .getEnforcement
  | .setEnforcement e, a => a = .setEnforcement e
  | .checkUpdate info, a => a = .checkForUpdate info
  | .applyUpdate m, a => a = .verify m handlerInfo ∨ ∃ v, a = .apply v

/-- Everything asked is within the request. -/
def Within (req : Request) (asked : List (Exchange (Ask.Reply Time))) : Prop :=
  ∀ x ∈ asked, Asks req x.1

theorem within_nil (req : Request) : Within req ([] : List (Exchange (Ask.Reply Time))) := by
  simp [Within]

theorem Within.cons {req : Request} {a : Ask} {r : a.Reply Time}
    {asked : List (Exchange (Ask.Reply Time))} (h : Within req asked) (ha : Asks req a) :
    Within req (⟨a, r⟩ :: asked) :=
  List.forall_mem_cons.mpr ⟨ha, h⟩

theorem diagnostics_within (id : SessionId) (summary : SessionSummary) :
    Ensures (fun _ _ => True)
      (DaemonHandler.diagnostics id summary : DaemonHandler.Asking Time _).run
      fun t _ => Within (.getDiagnostics id) t := by
  have hprofile : Asks (.getDiagnostics id) (.getProfile summary.profile) := .inr (.inl ⟨_, rfl⟩)
  have hchecks : Asks (.getDiagnostics id) (.sessionChecklist id) := .inr (.inr (.inl rfl))
  have halive : Asks (.getDiagnostics id) (.browserLiveness id) :=
    .inr (.inr (.inr (.inr rfl)))
  have hnone : Within (.getDiagnostics id) ([] : List (Exchange (Ask.Reply Time))) := within_nil _
  rintro (e | profile) -
  · exact hnone.cons hprofile
  · rintro checklist -
    cases hiso : profile.spec.isolation with
    | fullVm =>
      rintro health - alive -
      exact (((hnone.cons halive).cons (.inr (.inr (.inr (.inl rfl))))).cons hchecks).cons hprofile
    | hostProcess =>
      rintro alive -
      exact ((hnone.cons halive).cons hchecks).cons hprofile

theorem handle_within (req : Request) :
    Ensures (fun _ _ => True) (handle req : Program (Ask.Reply Time) _)
      fun t _ => Within req t := by
  have hnone : Within req ([] : List (Exchange (Ask.Reply Time))) := within_nil req
  cases req with
  | listProfiles | createProfile | updateProfile | deleteProfile | startSession | stopSession
  | checkUpdate | setEnforcement =>
    rintro (e | a) - <;> exact hnone.cons rfl
  | applyUpdate manifest =>
    rintro (e | v) -
    · exact hnone.cons (.inl rfl)
    · rintro (e | outcome) - <;> exact (hnone.cons (.inr ⟨v, rfl⟩)).cons (.inl rfl)
  | getDiagnostics id =>
    have hdispatch : Ensures (fun _ _ => True)
        (DaemonHandler.dispatch (.getDiagnostics id) : DaemonHandler.Asking Time _).run
        fun t _ => Within (.getDiagnostics id) t := by
      rintro sessions -
      dsimp only [Program.bind, Function.comp, ExceptT.bindCont]
      cases sessions.find? fun s => s.id = id with
      | none => exact hnone.cons (.inl rfl)
      | some summary => exact (diagnostics_within id summary).mono fun t _ h => h.cons (.inl rfl)
    unfold handle
    rw [ensures_bind]
    apply hdispatch.mono
    rintro t (e | resp) h
    · rwa [ensures_pure, List.append_nil]
    · rwa [ensures_pure, List.append_nil]
  | listSessions | getStatus | getEnforcement =>
    rintro a -
    exact hnone.cons rfl
  | doctor => exact hnone

/-- A reply that lists the profiles or reports an update says what was answered. -/
structure Reports (asked : List (Exchange (Ask.Reply Time))) (resp : Response Time) : Prop where
  profiles_iff : ∀ profiles, resp = .profiles profiles ↔ ⟨.listProfiles, .ok profiles⟩ ∈ asked
  applied_iff : ∀ outcome,
    resp = .updateApplied outcome ↔ ∃ v, ⟨.apply v, .ok outcome⟩ ∈ asked
  doctor : ∀ c, resp = .doctor c → c.allPassed = true

theorem reports_error {asked : List (Exchange (Ask.Reply Time))} (e : Error)
    (hlist : ∀ profiles, ⟨.listProfiles, .ok profiles⟩ ∉ asked)
    (happly : ∀ v outcome, ⟨.apply v, .ok outcome⟩ ∉ asked) : Reports asked (.ofError e) where
  profiles_iff profiles := by simp [Response.ofError, hlist]
  applied_iff outcome := by simp [Response.ofError, happly]
  doctor c h := by cases h

/-- A request that neither lists the profiles nor applies an update. -/
theorem reports_other {req : Request} {asked : List (Exchange (Ask.Reply Time))}
    {resp : Response Time} (hkind : resp.kind = replyKind req.op ∨ resp.kind = .error)
    (hwithin : Within req asked) (hlist : ¬ Asks req .listProfiles)
    (happly : ∀ v, ¬ Asks req (.apply v))
    (hop : ∀ k ∈ [Response.Kind.profiles, .updateApplied, .doctor], replyKind req.op ≠ k) :
    Reports asked resp := by
  have hne (k : Response.Kind) (hk : k ∈ [Response.Kind.profiles, .updateApplied, .doctor]) :
      resp.kind ≠ k := by
    rcases hkind with h | h
    · rw [h]
      exact hop k hk
    · rw [h]
      rintro rfl
      simp at hk
  refine ⟨fun profiles => ?_, fun outcome => ?_, ?_⟩
  · refine iff_of_false ?_ fun h => hlist (hwithin _ h)
    rintro rfl
    exact hne .profiles (by simp) rfl
  · refine iff_of_false ?_ fun ⟨v, h⟩ => happly v (hwithin _ h)
    rintro rfl
    exact hne .updateApplied (by simp) rfl
  · rintro c rfl
    exact absurd rfl (hne .doctor (by simp))

theorem doctor_passed : (ConnectivityChecklist.new (CheckId.all.map fun c =>
    if selfCheck.isEmpty then CheckReport.pass c "self-check ok"
    else .skipped c "self-check found a drifted invariant")).allPassed = true := by
  rw [selfCheck_eq_nil]
  decide

theorem handle_reports (req : Request) :
    Ensures (fun _ _ => True) (handle req : Program (Ask.Reply Time) _) Reports := by
  have hreply : Ensures (fun _ _ => True) (handle req : Program (Ask.Reply Time) _) _ :=
    (handle_answered req).and (handle_within req)
  cases req with
  | listProfiles =>
    rintro (e | profiles) -
    · exact reports_error e (by simp) (by simp)
    · exact ⟨by simp [eq_comm], by simp, by simp⟩
  | applyUpdate manifest =>
    rintro (e | v) -
    · exact reports_error e (by simp) (by simp)
    · rintro (e | outcome) -
      · exact reports_error e (by simp) (by simp)
      · exact ⟨by simp, by simp [eq_comm], by simp⟩
  | doctor =>
    refine ⟨by simp, by simp, ?_⟩
    rintro c heq
    obtain rfl := Response.doctor.inj heq
    exact doctor_passed
  | _ =>
    apply hreply.mono
    rintro asked resp ⟨hanswered, hwithin⟩
    exact reports_other hanswered.kind hwithin (by simp [Asks]) (by simp [Asks])
      (by simp [replyKind, Request.op])

/-! ### An exchange over the link -/

/-- An exchange with the handler, as one of the link. -/
def asking (x : Exchange (Ask.Reply Time)) : Exchange (Line.Reply Time) := ⟨.ask x.1, x.2⟩

/-- The messages and the questions of one request. -/
inductive Exchanged (req : Request) :
    Except String (Response Time) → List (Exchange (Line.Reply Time)) → Prop where
  | unsent (e : String) : Exchanged req (.error e) [⟨.send, some e⟩]
  | lost (e : String) (asked : List (Exchange (Ask.Reply Time))) :
    Exchanged req (.error e) (⟨.send, none⟩ :: (asked.map asking ++ [⟨.receive, some e⟩]))
  | answered {resp : Response Time} {asked : List (Exchange (Ask.Reply Time))}
    (hanswered : Answered req asked resp) (hwithin : Within req asked)
    (hreports : Reports asked resp) :
    Exchanged req (.ok resp) (⟨.send, none⟩ :: (asked.map asking ++ [⟨.receive, none⟩]))

def Made : (s : Step) → s.Reply Time → List (Exchange (Line.Reply Time)) → Prop
  | .connect, connected, t => t = [⟨.connect, connected⟩]
  | .call req, reply, t => Exchanged req reply t

theorem asks_through (req : Request) :
    Ensures (fun _ _ => True)
      ((handle req).through fun a => Program.command (Line.ask a) :
        Program (Line.Reply Time) (Response Time))
      fun t resp => ∃ asked, t = asked.map asking ∧
        Answered req asked resp ∧ Within req asked ∧ Reports asked resp := by
  have hreply : Ensures (fun _ _ => True) (handle req : Program (Ask.Reply Time) _) _ :=
    (handle_answered req).and ((handle_within req).and (handle_reports req))
  have hmade (a : Ask) : Ensures (fun _ _ => True)
      (Program.command (Line.ask a) : Program (Line.Reply Time) _)
      fun t r => True ∧ t = [asking ⟨a, r⟩] := fun r _ => ⟨trivial, rfl⟩
  apply (hreply.through hmade).mono
  rintro t resp ⟨asked, h, hcarried⟩
  exact ⟨asked, hcarried.eq_map, h⟩

theorem serve_made (s : Step) :
    Ensures (fun _ _ => True) (serve s : Program (Line.Reply Time) _)
      fun t r => Relied s r ∧ Made s r t := by
  cases s with
  | connect => exact fun connected _ => ⟨trivial, rfl⟩
  | call req =>
    rintro (_ | e) -
    · dsimp only [Program.bind]
      rw [ensures_bind]
      apply (asks_through req).mono
      rintro t resp ⟨asked, rfl, hanswered, hwithin, hreports⟩
      rintro (_ | e) -
      · refine ⟨?_, .answered hanswered hwithin hreports⟩
        rintro resp' heq
        obtain rfl := Except.ok.inj heq
        exact ⟨hanswered.kind, hreports.doctor⟩
      · exact ⟨by simp [Relied], .lost e asked⟩
    · exact ⟨by simp [Relied], .unsent e⟩

section Exchange

variable {command : Command} {req : Request} {resp : Response Time}
  {asked : List (Exchange (Ask.Reply Time))}

/-- A command that asks for diagnostics sends nothing else. -/
theorem sends_diagnostics {id : SessionId} (h : Sends command req)
    (hdiagnostics : Sends command (.getDiagnostics id)) : req = .getDiagnostics id := by
  cases command with
  | updateApply | configEnforcement => rcases hdiagnostics with h | ⟨_, h⟩ <;> cases h
  | _ => exact Except.ok.inj (h.symm.trans hdiagnostics)

theorem givesUp_of_sends {req' : Request} {x : Exchange (Ask.Reply Time)}
    (hsends : Sends command req) (hsends' : Sends command req') (h : GivesUp req' x) :
    GivesUp req x := by
  obtain ⟨a, r⟩ := x
  cases a with
  | listSessions =>
    obtain ⟨id, rfl, hnot⟩ := h
    exact ⟨id, sends_diagnostics hsends hsends', hnot⟩
  | _ => exact h

theorem mem_asked {a : Ask} {r : a.Reply Time} {lost : Option String}
    (h : (⟨.ask a, r⟩ : Exchange (Line.Reply Time)) ∈
      ⟨.send, none⟩ :: (asked.map asking ++ [⟨.receive, lost⟩])) : ⟨a, r⟩ ∈ asked := by
  rcases List.mem_append.mp (List.mem_of_ne_of_mem (by simp) h) with h | h
  · obtain ⟨x, hx, heq⟩ := List.mem_map.mp h
    cases heq
    exact hx
  · simp at h

theorem exists_chunk {q : Exchange (Line.Reply Time) → Prop} (hsend : ¬ q ⟨.send, none⟩)
    (hreceive : ¬ q ⟨.receive, none⟩) :
    (∃ y ∈ (⟨.send, none⟩ :: (asked.map asking ++ [⟨.receive, none⟩]) :
      List (Exchange (Line.Reply Time))), q y) ↔ ∃ x ∈ asked, q (asking x) := by
  simp [hsend, hreceive]

/-- An exchange stops the command for the client exactly where the link breaks or the handler lists
the profiles without the one to show. -/
theorem Exchanged.stops_iff {reply : Except String (Response Time)}
    {t : List (Exchange (Line.Reply Time))} (h : Exchanged req reply t) :
    (Lost ⟨.call req, reply⟩ ∨ Missing command ⟨.call req, reply⟩) ↔
      ∃ y ∈ t, Broken y ∨ Unlisted command y := by
  cases h with
  | unsent e => exact iff_of_true (.inl ⟨e, rfl⟩) ⟨_, .head _, .inl (by simp [Broken])⟩
  | lost e asked =>
    refine iff_of_true (.inl ⟨e, rfl⟩) ⟨⟨.receive, some e⟩, by simp, .inl (by simp [Broken])⟩
  | @answered resp asked hanswered hwithin hreports =>
    rw [exists_chunk (by simp [Broken, Unlisted]) (by simp [Broken, Unlisted])]
    constructor
    · rintro (⟨e, he⟩ | ⟨id, profiles, hcommand, hx, hnot⟩)
      · cases he
      · cases hx
        exact ⟨_, (hreports.profiles_iff profiles).mp rfl, .inr ⟨id, profiles, hcommand, rfl, hnot⟩⟩
    · rintro ⟨⟨a, r⟩, hmem, h | ⟨id, profiles, hcommand, hx, hnot⟩⟩
      · exact h.elim
      · cases hx
        have hasks := hwithin _ hmem
        obtain rfl := (hreports.profiles_iff profiles).mpr hmem
        cases req <;> simp [Asks] at hasks
        exact .inr ⟨id, profiles, hcommand, rfl, hnot⟩

/-- An exchange that went through is denied exactly where an answer gave the command up or an update
was rolled back. -/
theorem denied_iff (hsends : Sends command req) (hanswered : Answered req asked resp)
    (hreports : Reports asked resp) :
    Denied ⟨.call req, .ok resp⟩ ↔ ∃ x ∈ asked, Failing command (asking x) := by
  constructor
  · rintro ⟨resp', heq, h⟩
    obtain rfl := Except.ok.inj heq
    rcases h with h | rfl
    · obtain ⟨x, hx, hgives⟩ := hanswered.error_iff.mp h
      exact ⟨x, hx, .inl ⟨req, hsends, hgives⟩⟩
    · obtain ⟨v, hx⟩ := (hreports.applied_iff _).mp rfl
      exact ⟨_, hx, .inr ⟨v, rfl⟩⟩
  · rintro ⟨⟨a, r⟩, hx, ⟨req', hsends', hgives⟩ | ⟨v, hv⟩⟩
    · have herror := hanswered.error_iff.mpr ⟨_, hx, givesUp_of_sends hsends hsends' hgives⟩
      exact ⟨resp, rfl, .inl herror⟩
    · cases hv
      exact ⟨resp, rfl, .inr ((hreports.applied_iff _).mpr ⟨v, hx⟩)⟩

end Exchange

/-! ### The end of the process -/

/-- The status of the process tells what became of the command: an argument that was refused, a link
that broke or a profile that is not there; else an answer that gave the command up or an update that
was rolled back; else neither. -/
structure Exits (command : Command) (t : List (Exchange (Line.Reply Time))) (e : Ended) :
    Prop where
  client_iff : e.status = exitClientError ↔
    Invalid command ∨ ∃ x ∈ t, Broken x ∨ Unlisted command x
  daemon_iff : e.status = exitDaemonError ↔
    e.status ≠ exitClientError ∧ ∃ x ∈ t, Failing command x
  status : e.status ∈ [0, exitDaemonError, exitClientError]
  stdout : e.status = exitClientError → e.stdout = ""
  unsent : Invalid command → t = []

def ended : Result Output → Ended
  | .ok output => output.emit
  | .error err => clientError err

theorem emit_status (o : Output) : o.emit.status ≠ exitClientError := by
  unfold Output.emit
  cases o.dispatch <;> simp [exitClientError, exitDaemonError]

theorem refused_iff {command : Command} {outer : List (Exchange (Step.Reply Time))}
    {t : List (Exchange (Line.Reply Time))} (h : Carried Made outer t) :
    Refused command outer ↔ Invalid command ∨ ∃ x ∈ t, Broken x ∨ Unlisted command x := by
  apply or_congr_right
  apply h.exists_iff
  rintro (_ | req) r chunk - hmade
  · obtain rfl : chunk = [⟨.connect, r⟩] := hmade
    simp [Lost, Missing, Broken, Unlisted]
  · exact Exchanged.stops_iff hmade

theorem failing_iff {command : Command} {outer : List (Exchange (Step.Reply Time))}
    {t : List (Exchange (Line.Reply Time))} (h : Carried Made outer t)
    (hsends : ∀ req reply, ⟨.call req, reply⟩ ∈ outer → Sends command req)
    (hlost : ∀ x ∈ outer, ¬ Lost x) :
    (∃ x ∈ outer, Denied x) ↔ ∃ x ∈ t, Failing command x := by
  apply h.exists_iff
  rintro (_ | req) r chunk hmem hmade
  · obtain rfl : chunk = [⟨.connect, r⟩] := hmade
    simp [Denied, Failing]
  · cases hmade with
    | answered hanswered hwithin hreports =>
      rw [exists_chunk (by simp [Failing]) (by simp [Failing])]
      exact denied_iff (hsends req _ hmem) hanswered hreports
    | unsent e | lost e => exact absurd ⟨e, rfl⟩ (hlost _ hmem)

section Main

variable [Chrono Time] (pr : Printers Time) (now : Time)

theorem dispatch_invalid {args : Args} (h : Invalid args.command) :
    ∃ e, (dispatch pr now args).run = pure (.error e) := by
  obtain ⟨e, he⟩ : ∃ e, buildRequest args.command = .error e := by
    revert h
    cases args.command with
    | updateApply => exact False.elim
    | _ => exact id
  refine ⟨e, ?_⟩
  unfold dispatch
  split
  · next hcommand =>
    rw [hcommand] at h
    exact h.elim
  · next flags hcommand =>
    rw [hcommand] at he
    cases he
  · unfold dispatchRequest
    rw [he]
    rfl

theorem main_comes (args : Args) :
    Ensures Relied (main pr now args) fun t e => ∃ r, Comes args.command t r ∧ e = ended r := by
  unfold main
  rw [ensures_bind]
  apply (dispatch_comes pr now args).mono
  rintro t (err | output) h
  · rw [ensures_pure, List.append_nil]
    exact ⟨_, h, rfl⟩
  · rw [ensures_pure, List.append_nil]
    exact ⟨_, h, rfl⟩

/-- The exit status of every command, over every answer of the orchestrator and every loss of the
link. -/
theorem main_exits (args : Args) :
    Ensures (fun _ _ => True) ((main pr now args).through serve : Program (Line.Reply Time) Ended)
      (Exits args.command) := by
  by_cases hinvalid : Invalid args.command
  · obtain ⟨e, he⟩ := dispatch_invalid pr now hinvalid
    have hmain : main pr now args = pure (clientError e) := by
      unfold main
      rw [he]
      rfl
    rw [hmain]
    exact ⟨by simp [clientError, hinvalid], by simp [clientError, exitClientError, exitDaemonError],
      by simp [clientError], fun _ => rfl, fun _ => rfl⟩
  · apply ((main_comes pr now args).through serve_made).mono
    rintro t e ⟨outer, ⟨r, ⟨hsends, hverdict⟩, rfl⟩, hcarried⟩
    have hclient : Refused args.command outer ↔ _ := refused_iff hcarried
    have hdaemon (h : ¬ Refused args.command outer) :=
      failing_iff hcarried hsends fun x hx hlost => h (.inr ⟨x, hx, .inl hlost⟩)
    cases hverdict with
    | refused hr he =>
      exact ⟨by simpa [ended, clientError] using hclient.mp hr,
        by simp [ended, clientError, exitClientError, exitDaemonError],
        by simp [ended, clientError], fun _ => rfl, fun h => absurd h hinvalid⟩
    | @denied o hr hd ho =>
      have hstatus : (ended (.ok o)).status = exitDaemonError := by simp [ended, Output.emit, ho]
      have hne := emit_status o
      exact ⟨iff_of_false hne fun h => hr (hclient.mpr h),
        iff_of_true hstatus ⟨hne, (hdaemon hr).mp hd⟩, by simp [hstatus],
        fun h => absurd h hne, fun h => absurd h hinvalid⟩
    | @done o hr hd ho =>
      have hstatus : (ended (.ok o)).status = 0 := by simp [ended, Output.emit, ho]
      have hne := emit_status o
      have hnone : ¬ ∃ x ∈ t, Failing args.command x := by
        rw [← hdaemon hr]
        rintro ⟨x, hx, h⟩
        exact hd x hx h
      exact ⟨iff_of_false hne fun h => hr (hclient.mpr h),
        iff_of_false (by simp [hstatus, exitDaemonError]) fun h => hnone h.2, by simp [hstatus],
        fun h => absurd h hne, fun h => absurd h hinvalid⟩

end Main

end Aegis.Cli
