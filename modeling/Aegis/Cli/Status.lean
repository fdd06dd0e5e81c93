import Aegis.Cli.Run

/-! The exit status of the command line tells what became of the command. -/
namespace Aegis.Cli
open Ipc Json
open Orchestrator (EnforcementArgs)
open DaemonHandler (Ask GivesUp replyKind)
open Program (Ensures Exchange)

variable {Time : Type}

/-! ### What a command comes to -/

/-- An argument is refused before anything is sent. -/
def Invalid : Command → Prop
  | .updateApply => False
  | c => ∃ e, buildRequest c = .error e

/-- The requests a command sends. -/
def Sends : Command → Request → Prop
  | .updateApply, req => req = .checkUpdate currentVersionInfo ∨ ∃ m, req = .applyUpdate m
  | .configEnforcement _, req => req = .getEnforcement ∨ ∃ e, req = .setEnforcement e
  | c, req => buildRequest c = .ok req

/-- A reply is of the kind that its request calls for or an error, and a self-test passed. -/
structure Conforms (req : Request) (resp : Response Time) : Prop where
  kind : resp.kind = replyKind req.op ∨ resp.kind = .error
  doctor : ∀ c, resp = .doctor c → c.allPassed = true

/-- What is relied on of the daemon. -/
def Relied : (s : Step) → s.Reply Time → Prop
  | .connect, _ => True
  | .call req, reply => ∀ resp, reply = .ok resp → Conforms req resp

/-- No connection, or an exchange that broke off. -/
def Lost : Exchange (Step.Reply Time) → Prop
  | ⟨.connect, connected⟩ => connected = false
  | ⟨.call _, reply⟩ => ∃ e, reply = .error e

/-- A reply that is an error, or says that an update was rolled back. -/
def Denied : Exchange (Step.Reply Time) → Prop
  | ⟨.connect, _⟩ => False
  | ⟨.call _, reply⟩ =>
    ∃ resp, reply = .ok resp ∧ (resp.kind = .error ∨ resp = .updateApplied .rolledBack)

/-- The profile to show is not among the profiles of the reply. -/
def Missing (command : Command) (x : Exchange (Step.Reply Time)) : Prop :=
  ∃ id profiles, command = .profileShow id ∧
    x = ⟨.call .listProfiles, .ok (.profiles profiles)⟩ ∧
      ∀ p ∈ profiles, parseProfileId id ≠ .ok p.id

/-- What stops a command on the client's side. -/
def Refused (command : Command) (t : List (Exchange (Step.Reply Time))) : Prop :=
  Invalid command ∨ ∃ x ∈ t, Lost x ∨ Missing command x

/-- The end of a command: an error of the client exactly where it was refused, and else an error of
the daemon exactly where a reply denied it. -/
inductive Verdict (command : Command) (t : List (Exchange (Step.Reply Time))) :
    Result Output → Prop where
  | refused {e : Error} (h : Refused command t) (he : e.failureClass ≠ .internal) :
    Verdict command t (.error e)
  | denied {o : Output} (h : ¬ Refused command t) (hd : ∃ x ∈ t, Denied x)
    (ho : o.dispatch = .daemonError) : Verdict command t (.ok o)
  | done {o : Output} (h : ¬ Refused command t) (hd : ∀ x ∈ t, ¬ Denied x)
    (ho : o.dispatch = .ok) : Verdict command t (.ok o)

/-! ### The requests -/

/-- A request made of a parsed argument. -/
theorem request_of_parsed {α : Type} {r : Result α} {f : α → Request} {req : Request}
    (h : (do return f (← r)) = Except.ok req) : ∃ a, r = .ok a ∧ f a = req := by
  cases r with
  | error e => cases h
  | ok a => exact ⟨a, rfl, Except.ok.inj h⟩

/-- Only the policy, where a flag is given, and the update take more than one request. -/
def OneRequest : Command → Prop
  | .updateApply => False
  | .configEnforcement flags => flags.isEmpty = true
  | _ => True

theorem parseProfileId_error {s : String} {e : Error} (h : parseProfileId s = .error e) :
    e.failureClass = .configuration := by
  unfold parseProfileId at h
  split at h <;> cases h
  rfl

theorem parseSessionId_error {s : String} {e : Error} (h : parseSessionId s = .error e) :
    e.failureClass = .configuration := by
  unfold parseSessionId at h
  split at h <;> cases h
  rfl

theorem buildSpec_error {args : ProfileCreateArgs} {e : Error} (h : buildSpec args = .error e) :
    e.failureClass = .configuration := by
  unfold buildSpec at h
  split at h
  · cases h
    rfl
  · cases hmode : networkMode args with
    | ok mode =>
      rw [hmode] at h
      cases h
    | error e' =>
      rw [hmode] at h
      obtain rfl := Except.error.inj h
      unfold networkMode at hmode
      split at hmode
      · cases hmode
      · cases hmode
      · split at hmode <;> cases hmode
        rfl

/-- An argument that is refused is refused as configuration. -/
theorem buildRequest_error {command : Command} {e : Error} (h : buildRequest command = .error e)
    (hone : OneRequest command) : e.failureClass = .configuration := by
  cases command with
  | updateApply => exact hone.elim
  | profileCreate args =>
    cases hspec : buildSpec args with
    | ok spec =>
      rw [buildRequest, hspec] at h
      cases h
    | error e' =>
      rw [buildRequest, hspec] at h
      obtain rfl := Except.error.inj h
      exact buildSpec_error hspec
  | profileRm id | sessionStart id =>
    cases hid : parseProfileId id with
    | ok a =>
      rw [buildRequest, hid] at h
      cases h
    | error e' =>
      rw [buildRequest, hid] at h
      obtain rfl := Except.error.inj h
      exact parseProfileId_error hid
  | sessionStop id | diagnostics id =>
    cases hid : parseSessionId id with
    | ok a =>
      rw [buildRequest, hid] at h
      cases h
    | error e' =>
      rw [buildRequest, hid] at h
      obtain rfl := Except.error.inj h
      exact parseSessionId_error hid
  | profileList | profileShow | sessionList | status | configEnforcement | doctor | updateCheck =>
    cases h

theorem sends_of_buildRequest {command : Command} {req : Request}
    (h : buildRequest command = .ok req) : Sends command req := by
  cases command with
  | updateApply => cases h
  | configEnforcement flags => exact .inl (Except.ok.inj h).symm
  | _ => exact h

theorem not_invalid {command : Command} {req : Request} (h : buildRequest command = .ok req) :
    ¬ Invalid command := by
  cases command with
  | updateApply => exact id
  | _ =>
    rintro ⟨e, he⟩
    cases h.symm.trans he

/-- A single request is never the one that applies an update. -/
theorem ne_applyUpdate {command : Command} {req : Request} (h : buildRequest command = .ok req) :
    replyKind req.op ≠ .updateApplied := by
  cases command with
  | profileCreate | profileRm | sessionStart | sessionStop | diagnostics =>
    obtain ⟨a, -, rfl⟩ := request_of_parsed h
    nofun
  | updateApply => cases h
  | _ =>
    cases h
    nofun

/-! ### The replies -/

theorem formatError_error {resp : Response Time} (json : Bool) (h : resp.kind = .error) :
    ∃ o, formatError json resp = .ok o ∧ o.dispatch = .daemonError := by
  cases resp with
  | error message cls => exact ⟨_, rfl, by cases json <;> rfl⟩
  | _ => cases h

theorem not_missing {command : Command} (h : ∀ id, command ≠ .profileShow id)
    (x : Exchange (Step.Reply Time)) : ¬ Missing command x := by
  rintro ⟨id, _, hc, -⟩
  exact h id hc

/-- An error is not a listing. -/
theorem not_missing_of_error {command : Command} {req : Request} {resp : Response Time}
    (h : resp.kind = .error) : ¬ Missing command ⟨.call req, .ok resp⟩ := by
  rintro ⟨id, profiles, -, hx, -⟩
  cases hx
  cases h

/-! ### The run of a command -/

/-- Every request of the trace is one of the command's, and the end is what became of it. -/
def Comes (command : Command) (t : List (Exchange (Step.Reply Time))) (r : Result Output) : Prop :=
  (∀ req reply, ⟨.call req, reply⟩ ∈ t → Sends command req) ∧ Verdict command t r

/-- An exchange that decides nothing. -/
def Quiet (command : Command) (x : Exchange (Step.Reply Time)) : Prop :=
  ¬ Lost x ∧ ¬ Missing command x ∧ ¬ Denied x

section Comes

variable {command : Command} {t : List (Exchange (Step.Reply Time))} {r : Result Output}
  {req : Request}

theorem Comes.cons {x : Exchange (Step.Reply Time)} (h : Comes command t r)
    (hquiet : Quiet command x)
    (hsends : ∀ req reply, x = ⟨.call req, reply⟩ → Sends command req) :
    Comes command (x :: t) r := by
  obtain ⟨hlost, hmissing, hdenied⟩ := hquiet
  refine ⟨?_, ?_⟩
  · rintro req reply (_ | _)
    · exact hsends req reply rfl
    · exact h.1 req reply ‹_›
  · cases h.2 with
    | refused hr he =>
      apply Verdict.refused ?_ he
      rcases hr with hr | ⟨y, hy, hr⟩
      · exact .inl hr
      · exact .inr ⟨y, .tail _ hy, hr⟩
    | denied hr hd ho =>
      obtain ⟨y, hy, hd⟩ := hd
      exact .denied (by simpa [Refused, hlost, hmissing] using hr) ⟨y, .tail _ hy, hd⟩ ho
    | done hr hd ho =>
      exact .done (by simpa [Refused, hlost, hmissing] using hr) (by simpa [hdenied] using hd) ho

/-- The connection decides nothing once it stands. -/
theorem Comes.connected (h : Comes command t r) : Comes command (⟨.connect, true⟩ :: t) r := by
  apply h.cons
  · refine ⟨by simp [Lost], ?_, id⟩
    rintro ⟨id, profiles, -, hx, -⟩
    cases hx
  · rintro req reply h
    cases h

theorem comes_unconnected {e : Error} (he : e.failureClass = .system) :
    Comes command [(⟨.connect, false⟩ : Exchange (Step.Reply Time))] (.error e) := by
  refine ⟨by simp, .refused (.inr ⟨_, .head _, .inl rfl⟩) ?_⟩
  simp [he]

theorem comes_broken {e : String} {err : Error} (hsends : Sends command req)
    (herr : err.failureClass = .system) :
    Comes command [(⟨.call req, .error e⟩ : Exchange (Step.Reply Time))] (.error err) := by
  refine ⟨?_, .refused (.inr ⟨_, .head _, .inl ⟨e, rfl⟩⟩) ?_⟩
  · intro req' reply hmem
    cases List.mem_singleton.mp hmem
    exact hsends
  · simp [herr]

theorem comes_answered {resp : Response Time} (hsends : Sends command req)
    (h : Verdict command [⟨.call req, .ok resp⟩] r) :
    Comes command [⟨.call req, .ok resp⟩] r := by
  refine ⟨fun req' reply hmem => ?_, h⟩
  cases List.mem_singleton.mp hmem
  exact hsends

theorem not_refused {resp : Response Time} (hinvalid : ¬ Invalid command)
    (hmissing : ¬ Missing command ⟨.call req, .ok resp⟩) :
    ¬ Refused command [⟨.call req, .ok resp⟩] := by
  rintro (h | ⟨x, hx, h⟩)
  · exact hinvalid h
  · obtain rfl := List.mem_singleton.mp hx
    rcases h with ⟨e, he⟩ | h
    · cases he
    · exact hmissing h

theorem verdict_formatError {resp : Response Time} {json : Bool} (hinvalid : ¬ Invalid command)
    (hresp : resp.kind = .error) :
    Verdict command [⟨.call req, .ok resp⟩] (formatError json resp) := by
  obtain ⟨o, ho, hdenied⟩ := formatError_error json hresp
  rw [ho]
  exact .denied (not_refused hinvalid (not_missing_of_error hresp))
    ⟨_, .head _, resp, rfl, .inl hresp⟩ hdenied

theorem not_denied {resp : Response Time} (hkind : resp.kind ≠ .error)
    (hkept : resp ≠ .updateApplied .rolledBack) : ¬ Denied ⟨.call req, .ok resp⟩ := by
  rintro ⟨resp', heq, herr | rfl⟩ <;> cases heq
  · exact hkind herr
  · exact hkept rfl

theorem verdict_done {resp : Response Time} {o : Output} (hinvalid : ¬ Invalid command)
    (hmissing : ¬ Missing command ⟨.call req, .ok resp⟩) (hkind : resp.kind ≠ .error)
    (hkept : resp ≠ .updateApplied .rolledBack) (ho : o.dispatch = .ok) :
    Verdict command [⟨.call req, .ok resp⟩] (.ok o) := by
  apply Verdict.done (not_refused hinvalid hmissing) ?_ ho
  intro x hx
  cases List.mem_singleton.mp hx
  exact not_denied hkind hkept

/-- A reply after which the command goes on. -/
theorem Comes.replied {resp : Response Time} (h : Comes command t r) (hsends : Sends command req)
    (hmissing : ∀ id, command ≠ .profileShow id) (hkind : resp.kind ≠ .error)
    (hkept : resp ≠ .updateApplied .rolledBack) :
    Comes command (⟨.call req, .ok resp⟩ :: t) r := by
  apply h.cons
  · refine ⟨?_, not_missing hmissing _, not_denied hkind hkept⟩
    rintro ⟨e, he⟩
    cases he
  · rintro req' reply heq
    cases heq
    exact hsends

end Comes

theorem formatDoctor_passed {c : ConnectivityChecklist} (json : Bool) (h : c.allPassed = true) :
    ∃ o, formatDoctor json (.doctor c : Response Time) = .ok o ∧ o.dispatch = .ok := by
  refine ⟨_, rfl, ?_⟩
  rw [if_pos h]
  rfl

theorem dispatchUpdateApply_comes (json : Bool) :
    Ensures Relied (dispatchUpdateApply json : Calling Time Output).run (Comes .updateApply) := by
  have hchecks : Sends .updateApply (.checkUpdate currentVersionInfo) := .inl rfl
  unfold dispatchUpdateApply
  rintro (e | checked) hresp
  · exact comes_broken hchecks rfl
  · have hconforms := hresp checked rfl
    cases checked with
    | error message cls => exact comes_answered hchecks (verdict_formatError id rfl)
    | updateAvailable manifest =>
      cases manifest with
      | none =>
        apply comes_answered hchecks
        exact verdict_done id (not_missing (by simp) _) (by simp [Response.kind]) (by simp) rfl
      | some manifest =>
        have happlies : Sends .updateApply (.applyUpdate manifest) := .inr ⟨manifest, rfl⟩
        rintro (e | applied) happlied
        · exact (comes_broken happlies rfl).replied hchecks (by simp) (by simp [Response.kind])
            (by simp)
        · have hkind := (happlied applied rfl).kind
          apply Comes.replied ?_ hchecks (by simp) (by simp [Response.kind]) (by simp)
          apply comes_answered happlies
          show Verdict _ _ (formatUpdateApplied json applied)
          cases applied with
          | updateApplied outcome =>
            cases outcome with
            | applied =>
              exact verdict_done id (not_missing (by simp) _) (by simp [Response.kind]) (by simp)
                rfl
            | rolledBack =>
              exact .denied (not_refused id (not_missing (by simp) _))
                ⟨_, .head _, _, rfl, .inr rfl⟩ rfl
          | error message cls => exact verdict_formatError id rfl
          | _ => rcases hkind with h | h <;> cases h
    | _ =>
      rcases hconforms.kind with h | h <;> cases h

theorem dispatchSetEnforcement_comes (json : Bool) (flags : EnforcementArgs) :
    Ensures Relied (dispatchSetEnforcement json flags : Calling Time Output).run
      (Comes (.configEnforcement flags)) := by
  have hreads : Sends (.configEnforcement flags) .getEnforcement := .inl rfl
  have hvalid : ¬ Invalid (.configEnforcement flags) := not_invalid rfl
  unfold dispatchSetEnforcement
  rintro (e | current) hresp
  · exact comes_broken hreads rfl
  · have hconforms := hresp current rfl
    cases current with
    | error message cls => exact comes_answered hreads (verdict_formatError hvalid rfl)
    | enforcement policy =>
      have hsets : Sends (.configEnforcement flags) (.setEnforcement (flags.apply policy)) :=
        .inr ⟨_, rfl⟩
      rintro (e | applied) happlied
      · exact (comes_broken hsets rfl).replied hreads (by simp) (by simp [Response.kind]) (by simp)
      · have hkind := (happlied applied rfl).kind
        have hafter {r : Result Output}
            (h : Verdict (.configEnforcement flags) [⟨.call _, .ok applied⟩] r) :
            Comes (.configEnforcement flags)
              [⟨.call .getEnforcement, .ok (.enforcement policy)⟩, ⟨.call _, .ok applied⟩] r :=
          (comes_answered hsets h).replied hreads (by simp) (by simp [Response.kind]) (by simp)
        cases applied with
        | enforcement set =>
          exact hafter (verdict_done hvalid (not_missing (by simp) _) (by simp [Response.kind])
            (by simp) rfl)
        | error message cls => exact hafter (verdict_formatError hvalid rfl)
        | _ => rcases hkind with h | h <;> cases h
    | _ => rcases hconforms.kind with h | h <;> cases h

section Format

variable [Chrono Time] (pr : Printers Time) (now : Time) (json : Bool)

theorem formatProfileShow_done (id : String) (profiles : List (Ipc.Profile Time)) :
    (∃ o, formatProfileShow pr now json id (.profiles profiles) = .ok o ∧ o.dispatch = .ok ∧
      ∃ p ∈ profiles, parseProfileId id = .ok p.id) ∨
    ∃ e, formatProfileShow pr now json id (.profiles profiles) = .error e ∧
      e.failureClass ≠ .internal ∧ ∀ p ∈ profiles, parseProfileId id ≠ .ok p.id := by
  unfold formatProfileShow
  cases hid : parseProfileId id with
  | error e =>
    have he := parseProfileId_error hid
    exact .inr ⟨e, rfl, by simp [he], fun _ _ => nofun⟩
  | ok wanted =>
    cases hfind : profiles.find? fun p => p.id = wanted with
    | none =>
      refine .inr ⟨.notFound ("no profile " ++ id), ?_, by simp [Error.failureClass],
        fun p hp heq => ?_⟩
      · simp only [bind, Except.bind, hfind]
      · have hnot := List.find?_eq_none.mp hfind p hp
        exact hnot (by simpa using (Except.ok.inj heq).symm)
    | some p =>
      refine .inl ⟨.ok (if json then toJson p else profileDetail pr now p), ?_, rfl, p,
        List.mem_of_find?_eq_some hfind, ?_⟩
      · simp only [bind, Except.bind, hfind]
      · have hp := List.find?_some hfind
        rw [of_decide_eq_true hp]

/-- A reply of the expected kind is printed, unless it lacks the profile to show. -/
theorem formatResponse_done {command : Command} {req : Request} {resp : Response Time}
    (hreq : buildRequest command = .ok req) (hresp : Conforms req resp)
    (hok : resp.kind ≠ .error) :
    (∃ o, formatResponse pr now json command resp = .ok o ∧ o.dispatch = .ok ∧
      ¬ Missing command ⟨.call req, .ok resp⟩) ∨
    ∃ e, formatResponse pr now json command resp = .error e ∧ e.failureClass ≠ .internal ∧
      Missing command ⟨.call req, .ok resp⟩ := by
  have hkind := hresp.kind.resolve_right hok
  unfold formatResponse
  rw [if_neg hok]
  cases command with
  | profileShow id =>
    cases hreq
    cases resp with
    | profiles profiles =>
      rcases formatProfileShow_done pr now json id profiles with
        ⟨o, ho, hdone, p, hp, hid⟩ | ⟨e, he, hcls, hnot⟩
      · refine .inl ⟨o, ho, hdone, ?_⟩
        rintro ⟨other, listed, hcommand, hx, hnot⟩
        obtain rfl := Command.profileShow.inj hcommand
        obtain rfl : profiles = listed := by simpa using hx
        exact hnot p hp hid
      · exact .inr ⟨e, he, hcls, id, profiles, rfl, rfl, hnot⟩
    | _ => cases hkind
  | doctor =>
    cases hreq
    cases resp with
    | doctor checklist =>
      obtain ⟨o, ho, hdone⟩ := formatDoctor_passed json (hresp.doctor checklist rfl)
      exact .inl ⟨o, ho, hdone, not_missing (by simp) _⟩
    | _ => cases hkind
  | updateApply => cases hreq
  | profileCreate | profileRm | sessionStart | sessionStop | diagnostics =>
    obtain ⟨a, -, rfl⟩ := request_of_parsed hreq
    cases resp <;> cases hkind
    exact .inl ⟨_, rfl, rfl, not_missing (by simp) _⟩
  | profileList | sessionList | status | configEnforcement =>
    cases hreq
    cases resp <;> cases hkind
    exact .inl ⟨_, rfl, rfl, not_missing (by simp) _⟩
  | updateCheck =>
    cases hreq
    cases resp with
    | updateAvailable manifest =>
      cases manifest <;> exact .inl ⟨_, rfl, rfl, not_missing (by simp) _⟩
    | _ => cases hkind

theorem dispatchRequest_comes (args : Args) (hone : OneRequest args.command) :
    Ensures Relied (dispatchRequest pr now args).run (Comes args.command) := by
  unfold dispatchRequest
  cases hreq : buildRequest args.command with
  | error e =>
    have hinvalid : Invalid args.command := by
      cases hc : args.command with
      | updateApply => rw [hc] at hone; exact hone
      | _ => exact ⟨e, hc ▸ hreq⟩
    show Comes args.command [] (.error e)
    exact ⟨by simp, .refused (.inl hinvalid) (by simp [buildRequest_error hreq hone])⟩
  | ok req =>
    have hsends := sends_of_buildRequest hreq
    have hvalid := not_invalid hreq
    rintro (_ | _) -
    · exact comes_unconnected rfl
    · rintro (e | resp) hresp
      · exact (comes_broken hsends rfl).connected
      · have hconforms := hresp resp rfl
        apply (comes_answered hsends _).connected
        show Verdict args.command [⟨.call req, .ok resp⟩]
          (formatResponse pr now args.json args.command resp)
        by_cases hkind : resp.kind = .error
        · unfold formatResponse
          rw [if_pos hkind]
          exact verdict_formatError hvalid hkind
        · rcases formatResponse_done pr now args.json hreq hconforms hkind with
            ⟨o, ho, hdone, hmissing⟩ | ⟨e, he, hcls, hmissing⟩
          · rw [ho]
            have hreply := hconforms.kind.resolve_right hkind
            exact verdict_done hvalid hmissing hkind
              (fun heq => ne_applyUpdate hreq (heq ▸ hreply).symm) hdone
          · rw [he]
            exact .refused (.inr ⟨_, .head _, .inr hmissing⟩) hcls

/-- What a command comes to, over every reply of a daemon that conforms. -/
theorem dispatch_comes (args : Args) :
    Ensures Relied (dispatch pr now args).run (Comes args.command) := by
  unfold dispatch
  split
  · next hcommand =>
    rw [hcommand]
    rintro (_ | _) -
    · exact comes_unconnected rfl
    · exact (dispatchUpdateApply_comes args.json).mono fun t r h => h.connected
  · next flags hcommand =>
    split
    · next hflags =>
      exact dispatchRequest_comes pr now args (by rw [hcommand]; exact hflags)
    · rw [hcommand]
      rintro (_ | _) -
      · exact comes_unconnected rfl
      · exact (dispatchSetEnforcement_comes args.json flags).mono fun t r h => h.connected
  · next hupdate hconfig =>
    apply dispatchRequest_comes pr now args
    cases hcommand : args.command with
    | updateApply => exact absurd hcommand hupdate
    | configEnforcement flags => exact absurd hcommand (hconfig flags)
    | _ => trivial

end Format

end Aegis.Cli
