import Aegis.Cli.Exit
import Aegis.Update.Confined

/-! What the command line can have installed: only an update that is newer than the command line
itself, for the handler names no version of its own. -/
namespace Aegis.Cli
open Ipc Text OsPath Disk
open DaemonHandler (Ask handle handle_answered)
open Program (Ensures Exchange Carried ensures_bind ensures_pure)

variable {Time : Type}

section Updates

variable (π : Primitives) (isPoint : Bytes → Bool) (key : Option String) (transport : FileTransport)

/-- What the daemon's update client answers, whatever the file system holds at that moment. -/
def Answers : (a : Ask) → a.Reply Time → Prop
  | .checkForUpdate info, r =>
    ∃ parseError read, r = checkForUpdate π (updateClient isPoint key) parseError
      (transport.fetch .unix read "manifest.json") info
  | .verify m info, r =>
    ∃ read, r = verifyUpdate π (updateClient isPoint key) m info (transport.serve read m)
  | .apply v, r => ∃ turn d, r = (applyVerified π (updateClient isPoint key) v turn d).1
  | _, _ => True

/-- The link may break at any message. -/
def LineAnswers : (l : Line) → l.Reply Time → Prop
  | .ask a, r => Answers π isPoint key transport a r
  | _, _ => True

/-- The artifacts of a manifest that the key signed, each served with its digest from below the
directory of images. -/
structure Genuine (m : UpdateManifest) (v : VerifiedArtifact) : Prop where
  signed : ∃ c, updateClient isPoint key = some c ∧ c.Signed π m
  content : v = ⟨m.version, m.artifacts⟩
  artifacts : ∀ a ∈ v.artifacts, Inside (Path.parse a.location) ∧ ∃ bytes, a.HasDigest π bytes

/-- What a command may have installed. -/
structure Installs (command : Command) (v : VerifiedArtifact) : Prop where
  command : command = .updateApply
  newer : currentVersionInfo.current < v.version
  genuine : ∃ m, Genuine π isPoint key m v

/-- An offer is newer than the version named in the check, and only a request to apply a manifest
leads to one being applied. -/
structure Offers (req : Request) (asked : List (Exchange (Ask.Reply Time)))
    (resp : Response Time) : Prop where
  newer : ∀ info m, req = .checkUpdate info → resp = .updateAvailable (some m) →
    info.current < m.version
  applied : ∀ v r, ⟨.apply v, r⟩ ∈ asked → ∃ m, req = .applyUpdate m ∧ Genuine π isPoint key m v

variable {π isPoint key transport}

theorem checkForUpdate_newer {parseError : Bytes → String} {fetched : Result Bytes}
    {info : VersionInfo} {m : UpdateManifest}
    (h : checkForUpdate π (updateClient isPoint key) parseError fetched info = .ok (some m)) :
    info.current < m.version := by
  unfold checkForUpdate at h
  cases hclient : updateClient isPoint key with
  | none =>
    rw [hclient] at h
    cases h
  | some c =>
    rw [hclient] at h
    exact (SignedUpdateClient.checkForUpdate_some h).2.1

theorem genuine_of_verified {m : UpdateManifest} {read : ℕ → OsStr → Result Bytes}
    {v : VerifiedArtifact} (h : verifyUpdate π (updateClient isPoint key) m handlerInfo
      (transport.serve read m) = .ok v) : Genuine π isPoint key m v := by
  obtain ⟨c, hclient, hsigned, -, hcontent, hartifacts⟩ := verifyUpdate_ok h
  exact ⟨⟨c, hclient, hsigned⟩, hcontent, hartifacts⟩

/-- A request that does not lead to an update being applied. -/
theorem offers_other {req : Request} (hcheck : ∀ info, req ≠ .checkUpdate info)
    (happly : ∀ v, ¬ Asks req (.apply v)) :
    Ensures (Answers π isPoint key transport) (handle req : Program (Ask.Reply Time) _)
      (Offers π isPoint key req) := by
  apply ((handle_within req).weaken fun _ _ _ => trivial).mono
  intro asked resp hwithin
  exact ⟨fun info _ hreq => absurd hreq (hcheck info),
    fun v r hmem => absurd (hwithin _ hmem) (happly v)⟩

theorem handle_offers (req : Request) :
    Ensures (Answers π isPoint key transport) (handle req : Program (Ask.Reply Time) _)
      (Offers π isPoint key req) := by
  cases req with
  | checkUpdate info =>
    rintro (e | manifest) hanswer
    · refine ⟨?_, by simp⟩
      rintro info m - h
      cases h
    · refine ⟨?_, by simp⟩
      intro other m hreq h
      obtain rfl := Request.checkUpdate.inj hreq
      obtain rfl := Response.updateAvailable.inj h
      obtain ⟨parseError, read, hcheck⟩ := hanswer
      exact checkForUpdate_newer hcheck.symm
  | applyUpdate manifest =>
    rintro (e | v) hverify
    · exact ⟨by simp, by simp⟩
    · obtain ⟨read, hverify⟩ := hverify
      have hgenuine := genuine_of_verified hverify.symm
      rintro (e | outcome) - <;>
      · refine ⟨by simp, fun w r hmem => ⟨manifest, rfl, ?_⟩⟩
        have hsame : w = v := by
          simp only [List.mem_cons, Sigma.mk.injEq, reduceCtorEq, Ask.apply.injEq,
            List.not_mem_nil, or_false, false_and, false_or] at hmem
          exact hmem.1
        rwa [hsame]
  | _ => exact offers_other (by simp) (by simp [Asks])

/-! ### The run -/

variable (π isPoint key transport)

/-- What is relied on of the daemon: it conforms, and an offer is newer than the version named. -/
def Trusted : (s : Step) → s.Reply Time → Prop
  | .connect, _ => True
  | .call req, reply => ∀ resp, reply = .ok resp → Conforms req resp ∧
    ∀ info m, req = .checkUpdate info → resp = .updateAvailable (some m) → info.current < m.version

/-- Only a request to apply a manifest leads to one being applied. -/
def Applies (s : Step) (_ : s.Reply Time) (t : List (Exchange (Line.Reply Time))) : Prop :=
  ∀ v r, ⟨.ask (.apply v), r⟩ ∈ t → ∃ m, s = .call (.applyUpdate m) ∧ Genuine π isPoint key m v

variable {π isPoint key transport}

theorem asks_offers (req : Request) :
    Ensures (LineAnswers π isPoint key transport)
      ((handle req).through fun a => Program.command (Line.ask a) :
        Program (Line.Reply Time) (Response Time))
      fun t resp => ∃ asked, t = asked.map asking ∧
        Conforms req resp ∧ Offers π isPoint key req asked resp := by
  have hreply : Ensures (Answers π isPoint key transport)
      (handle req : Program (Ask.Reply Time) _) _ :=
    ((handle_answered req).and (handle_reports req)).weaken fun _ _ _ => trivial
  have hmade (a : Ask) : Ensures (LineAnswers π isPoint key transport)
      (Program.command (Line.ask a) : Program (Line.Reply Time) _)
      fun t r => Answers π isPoint key transport a r ∧ t = [asking ⟨a, r⟩] :=
    fun r hr => ⟨hr, rfl⟩
  apply ((hreply.and (handle_offers req)).through hmade).mono
  rintro t resp ⟨asked, ⟨⟨hanswered, hreports⟩, hoffers⟩, hcarried⟩
  exact ⟨asked, hcarried.eq_map, ⟨hanswered.kind, hreports.doctor⟩, hoffers⟩

theorem serve_applies (s : Step) :
    Ensures (LineAnswers π isPoint key transport) (serve s : Program (Line.Reply Time) _)
      fun t r => Trusted s r ∧ Applies π isPoint key s r t := by
  cases s with
  | connect =>
    intro connected _
    exact ⟨trivial, by simp [Applies]⟩
  | call req =>
    rintro (_ | e) -
    · dsimp only [Program.bind]
      rw [ensures_bind]
      apply (asks_offers req).mono
      rintro t resp ⟨asked, rfl, hconforms, hnewer, happlied⟩
      have happlies (lost : Option String) : Applies π isPoint key (.call req) (.ok resp)
          (⟨.send, none⟩ :: (asked.map asking ++ [⟨.receive, lost⟩])) := by
        intro v r hmem
        obtain ⟨m, rfl, hgenuine⟩ := happlied v r (mem_asked hmem)
        exact ⟨m, rfl, hgenuine⟩
      rintro (_ | e) -
      · refine ⟨?_, happlies none⟩
        rintro resp' heq
        obtain rfl := Except.ok.inj heq
        exact ⟨hconforms, hnewer⟩
      · exact ⟨by simp [Trusted], happlies (some e)⟩
    · exact ⟨by simp [Trusted], by simp [Applies]⟩

/-- What is sent to be applied is newer than the command line. -/
def Newer (t : List (Exchange (Step.Reply Time))) : Prop :=
  ∀ m reply, ⟨.call (.applyUpdate m), reply⟩ ∈ t → currentVersionInfo.current < m.version

theorem newer_checked (r : Except String (Response Time)) :
    Newer [(⟨.call (.checkUpdate currentVersionInfo), r⟩ : Exchange (Step.Reply Time))] := by
  simp [Newer]

theorem newer_applied {checked reply : Except String (Response Time)} {manifest : UpdateManifest}
    (h : currentVersionInfo.current < manifest.version) :
    Newer [⟨.call (.checkUpdate currentVersionInfo), checked⟩,
      (⟨.call (.applyUpdate manifest), reply⟩ : Exchange (Step.Reply Time))] := by
  intro m _ hmem
  simp only [List.mem_cons, Sigma.mk.injEq, Step.call.injEq, reduceCtorEq, false_and, false_or,
    Request.applyUpdate.injEq, List.not_mem_nil, or_false] at hmem
  rwa [hmem.1]

theorem newer_connect (connected : Bool) :
    Newer [(⟨.connect, connected⟩ : Exchange (Step.Reply Time))] := by
  simp [Newer]

theorem Newer.connected {t : List (Exchange (Step.Reply Time))} (h : Newer t) :
    Newer (⟨.connect, true⟩ :: t) := by
  intro m reply hmem
  exact h m reply (List.mem_of_ne_of_mem (by simp) hmem)

theorem dispatchUpdateApply_newer (json : Bool) :
    Ensures Trusted (dispatchUpdateApply json : Calling Time Output).run fun t _ => Newer t := by
  unfold dispatchUpdateApply
  rintro (e | checked) hchecked
  · exact newer_checked _
  · cases checked with
    | updateAvailable manifest =>
      cases manifest with
      | none => exact newer_checked _
      | some manifest =>
        have hnewer := (hchecked _ rfl).2 _ _ rfl rfl
        rintro (e | applied) - <;> exact newer_applied hnewer
    | _ => exact newer_checked _

/-- A command that sends a request to apply a manifest is the one that applies updates. -/
theorem sends_applyUpdate {command : Command} {m : UpdateManifest}
    (h : Sends command (.applyUpdate m)) : command = .updateApply := by
  cases command with
  | updateApply => rfl
  | configEnforcement flags => rcases h with h | ⟨_, h⟩ <;> cases h
  | _ => exact absurd rfl (ne_applyUpdate h)

theorem trusted_relied (s : Step) (reply : s.Reply Time) (h : Trusted s reply) :
    Relied s reply := by
  cases s with
  | connect => trivial
  | call req => exact fun resp heq => (h resp heq).1

section Main

variable [Chrono Time] (pr : Printers Time) (now : Time)

theorem dispatch_newer (args : Args) :
    Ensures Trusted (dispatch pr now args).run fun t _ => Newer t := by
  have hcomes := (dispatch_comes pr now args).weaken trusted_relied
  cases hcommand : args.command with
  | updateApply =>
    unfold dispatch
    rw [hcommand]
    rintro (_ | _) -
    · exact newer_connect false
    · exact (dispatchUpdateApply_newer args.json).mono fun t _ h => h.connected
  | _ =>
    apply hcomes.mono
    rintro t r ⟨hsends, -⟩ m reply hmem
    have happly := sends_applyUpdate (hsends _ _ hmem)
    rw [hcommand] at happly
    cases happly

end Main

end Updates

end Aegis.Cli
