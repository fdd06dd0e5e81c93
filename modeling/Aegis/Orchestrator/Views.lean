import Aegis.Orchestrator.Cleanup

/-! What is shown of a session that is over, and what the daemon keeps of it: the views that
read the session table, and the key of the session. -/
namespace Aegis.Orchestrator
open Transition

/-! ### The views -/

/-- `list_sessions`: a summary of every tracked session, in any order. -/
def World.ListSessions (w : World) (sums : List SessionSummary) : Prop :=
  ∀ x, x ∈ sums ↔ ∃ s e, w.sessions s = some e ∧ x = e.summary s

def World.sessionChecklist (w : World) (s : SessionId) : Option ConnectivityChecklist :=
  (w.sessions s).bind SessionEntry.checklist

def unknownChecklist : ConnectivityChecklist :=
  .new (CheckId.all.map fun id =>
    ⟨id, .skipped, "runtime preflight has not reported this check"⟩)

/-- The reply to `GetDiagnostics`, without its items. -/
structure Diagnostics where
  protection : ProtectionStatus
  checklist : ConnectivityChecklist

/-- `GetDiagnostics` for the summaries it listed; the checklist is read in the state `later`, once
the profile is there. -/
def getDiagnostics (sums : List SessionSummary) (s : SessionId) (profile : Result Profile)
    (later : World) : Result Diagnostics :=
  match sums.find? fun x => x.id = s with
  | none => .error (.notFound ("session " ++ s.uuid.display))
  | some summary => profile.map fun _ =>
    ⟨summary.protection, (later.sessionChecklist s).getD unknownChecklist⟩

/-- Destroyed and Failed are gone; everything else is in flight or browsing. -/
def sessionIsLive : SessionState → Bool
  | .destroyed | .failed => false
  | _ => true

/-- The parts of a row of the profiles view that sessions decide. -/
structure ProfileView where
  id : String
  gatewayState : String
  publicIp : Option String

def ProfileView.fromProfile (p : Profile) (locked : Bool) : ProfileView where
  id := p.id.uuid.display
  gatewayState := if locked then "running" else "idle"
  publicIp := none

/-- The session a row is decorated with: a browsing one of the profile, or else any. -/
def rowSession (sums : List SessionSummary) (id : String) : Option SessionSummary :=
  (sums.find? fun x => x.profile.uuid.display = id && x.state.isBrowsing).or
    (sums.find? fun x => x.profile.uuid.display = id)

def ProfileView.decorate (v : ProfileView) : Option SessionSummary → ProfileView
  | none => v
  | some x =>
    { v with
      publicIp := x.publicIp
      gatewayState := if sessionIsLive x.state then "running" else v.gatewayState }

/-- `list_profiles`, for the profiles with their `locked` flag. -/
def listProfiles (profiles : List (Profile × Bool)) (sums : List SessionSummary) :
    List ProfileView :=
  (profiles.map fun (p, locked) => ProfileView.fromProfile p locked).map fun v =>
    v.decorate (rowSession sums v.id)

/-- A summary that reports protection Active or carries a public address. -/
def SessionSummary.Reports (x : SessionSummary) : Prop :=
  x.protection = .active ∨ x.publicIp ≠ none

/-- Nothing is reported of a session that is over. -/
structure Honest (w : World) : Prop where
  summaries : ∀ s e, w.sessions s = some e → SessionSummary.Reports (e.summary s) →
    sessionIsLive e.state = true
  diagnostics : ∀ sums s profile later d, w.ListSessions sums →
    getDiagnostics sums s profile later = .ok d → d.protection = .active →
    ∃ e, w.sessions s = some e ∧ sessionIsLive e.state = true
  profiles : ∀ sums profiles v ip, w.ListSessions sums → v ∈ listProfiles profiles sums →
    v.publicIp = some ip → ∃ s e, w.sessions s = some e ∧ e.profile.uuid.display = v.id ∧
      e.publicIp = some ip ∧ sessionIsLive e.state = true

/-- The current state of a session, if tracked. -/
def World.sessionState (w : World) (s : SessionId) : Option SessionState :=
  (w.sessions s).map SessionEntry.state

/-- The keys in the session table. -/
def World.ramKeys (w : World) (s : SessionId) : Option SecretKey :=
  (w.sessions s).map SessionEntry.ramKey

/-- The keys in the session table belong to sessions that are not over. -/
def KeysLive (w : World) : Prop :=
  ∀ s key state, w.ramKeys s = some key → w.sessionState s = some state →
    sessionIsLive state = true

/-- The step neither ends a teardown of a session that reports, nor records a preflight that
reports in a session that is over. -/
def NothingReported (w : World) : Label → Prop
  | .resume t input =>
    (∀ s c ending e, w.tasks t = some (.teardown s [c] ending) → w.sessions s = some e →
      ¬ SessionSummary.Reports (e.summary s)) ∧
    ∀ s profile c bundle e, w.tasks t = some (.drive s profile .runPreflight) →
      input = .checklist (.ok c) bundle → w.sessions s = some e → sessionIsLive e.state = false →
      c.status ≠ .active ∧ c.observedIp = none
  | _ => True

/-- The step ends no teardown. -/
def EndsNoTeardown (w : World) : Label → Prop
  | .resume t _ => ∀ s c ending, w.tasks t ≠ some (.teardown s [c] ending)
  | _ => True

/-! ### The views follow the summaries -/

section Views

variable {cfg : Wiring} {w w' : World} {t : TaskId} {s : SessionId}

theorem rowSession_mem {sums : List SessionSummary} {id : String} {x : SessionSummary}
    (h : rowSession sums id = some x) : x ∈ sums ∧ x.profile.uuid.display = id := by
  rcases Option.or_eq_some_iff.mp h with h | ⟨-, h⟩
  · have hx := List.find?_some h
    rw [Bool.and_eq_true, decide_eq_true_eq] at hx
    exact ⟨List.mem_of_find?_eq_some h, hx.1⟩
  · exact ⟨List.mem_of_find?_eq_some h, by simpa using List.find?_some h⟩

theorem listProfiles_publicIp {profiles : List (Profile × Bool)} {sums : List SessionSummary}
    {v : ProfileView} {ip : String} (h : v ∈ listProfiles profiles sums)
    (hip : v.publicIp = some ip) :
    ∃ x ∈ sums, x.profile.uuid.display = v.id ∧ x.publicIp = some ip := by
  obtain ⟨row, hrow, rfl⟩ := List.mem_map.mp h
  obtain ⟨p, -, rfl⟩ := List.mem_map.mp hrow
  cases hx : rowSession sums (ProfileView.fromProfile p.1 p.2).id with
  | none =>
    rw [hx] at hip
    cases hip
  | some x =>
    rw [hx] at hip
    obtain ⟨hmem, hid⟩ := rowSession_mem hx
    exact ⟨x, hmem, hid, hip⟩

/-- The views show what the summaries report. -/
theorem honest_iff : Honest w ↔ ∀ s e, w.sessions s = some e →
    SessionSummary.Reports (e.summary s) → sessionIsLive e.state = true := by
  refine ⟨Honest.summaries, fun h => ⟨h, ?_, ?_⟩⟩
  · intro sums s profile later d hsums hd hactive
    unfold getDiagnostics at hd
    split at hd
    · cases hd
    next x hx =>
      obtain ⟨k, e, he, rfl⟩ := (hsums x).mp (List.mem_of_find?_eq_some hx)
      obtain rfl : (e.summary k).id = s := by simpa using List.find?_some hx
      cases profile with
      | error err => cases hd
      | ok p =>
        obtain rfl := Except.ok.inj hd
        exact ⟨e, he, h k e he (.inl hactive)⟩
  · intro sums profiles v ip hsums hv hip
    obtain ⟨x, hx, hid, hxip⟩ := listProfiles_publicIp hv hip
    obtain ⟨k, e, he, rfl⟩ := (hsums x).mp hx
    refine ⟨k, e, he, hid, hxip, h k e he (.inr ?_)⟩
    rw [hxip]
    exact Option.some_ne_none ip

/-! ### What a step writes -/

/-- Settling a flow leaves the summary of its entry. -/
theorem settle_summary (profile : Profile) (flow : Flow) :
    (settle cfg s profile flow).entry.summary s = flow.entry.summary s := by
  rcases settle_cases cfg s profile flow with ⟨e, next, evs, rfl, heq⟩ | ⟨e, sum, evs, rfl, heq⟩ |
    ⟨e, err, evs, rfl, -, heq⟩ | ⟨e, err, evs, c, cs, rfl, -, -, heq⟩ <;> rw [heq] <;> rfl

theorem beginTeardown_summary (ending : Ending) (e : SessionEntry) (evs : List Event) :
    (beginTeardown cfg s ending e evs).entry.summary s = e.summary s := by
  rw [beginTeardown_entry]
  rfl

/-- A write that neither ends a session nor makes it report. -/
structure Quiet (old new : SessionSummary) : Prop where
  live : sessionIsLive old.state = true → sessionIsLive new.state = true
  reports : SessionSummary.Reports new → SessionSummary.Reports old

theorem Quiet.rfl {x : SessionSummary} : Quiet x x := ⟨id, id⟩

/-- A part of a start is quiet, unless it records a preflight. -/
theorem Resumes.quiet {profile : Profile} {reply : Option Gateway.Call} {e : SessionEntry}
    {pc : Drive} {input : Input} {flow : Flow} (h : Resumes cfg s profile reply e pc input flow) :
    Quiet (e.summary s) (flow.entry.summary s) ∨
    ∃ c bundle, pc = .runPreflight ∧ input = .checklist (.ok c) bundle ∧
      flow.entry = e.setChecklist c := by
  cases h
  case preflightPassed c b req hc hreq hsafe => exact .inr ⟨c, _, rfl, rfl, rfl⟩
  case preflightRefused c b text hc => exact .inr ⟨c, _, rfl, rfl, rfl⟩
  case preflightUnsafe c b err hc hsafe => exact .inr ⟨c, _, rfl, rfl, rfl⟩
  case browserProvisioned => exact .inl ⟨fun _ => rfl, id⟩
  case browserStarted => exact .inl ⟨fun _ => rfl, id⟩
  case browsing => exact .inl ⟨fun _ => rfl, id⟩
  case proxyReached =>
    exact .inl ⟨id, fun hr => .inr (hr.resolve_left nofun)⟩
  case proxyUnsafe =>
    exact .inl ⟨id, fun hr => .inr (hr.resolve_left nofun)⟩
  all_goals exact .inl .rfl

/-- Session code registers a session, ends a teardown, records a preflight, or is quiet. -/
theorem Runs.writes {l : Label} {seg : Segment} (h : Runs cfg w t s l seg) :
    (w.sessions s = none ∧ sessionIsLive seg.entry.state = true) ∨
    ∃ e, w.sessions s = some e ∧
      ((∃ c ending input, l = .resume t input ∧ w.tasks t = some (.teardown s [c] ending) ∧
          seg.entry = e.cleared ending.state) ∨
        (∃ profile c bundle, l = .resume t (.checklist (.ok c) bundle) ∧
          w.tasks t = some (.drive s profile .runPreflight) ∧
          seg.entry.summary s = (e.setChecklist c).summary s) ∨
        Quiet (e.summary s) (seg.entry.summary s)) := by
  cases h with
  | start _ hs _ hstart =>
    refine .inl ⟨hs, ?_⟩
    rw [(settle_entry _ _).1]
    cases hstart <;> rfl
  | @drive profile pc e input flow ht hs hf =>
    refine .inr ⟨e, hs, .inr ?_⟩
    rw [settle_summary]
    rcases (Drive.resume_cases hf).quiet with hq | ⟨c, bundle, rfl, rfl, hentry⟩
    · exact .inr hq
    · rw [hentry]
      exact .inl ⟨profile, c, bundle, rfl, ht, rfl⟩
  | @failClosed err e reply input _ hs _ =>
    refine .inr ⟨e, hs, .inr (.inr ?_)⟩
    rw [beginTeardown_summary]
    exact .rfl
  | @teardown c cs ending e input ht hs _ =>
    refine .inr ⟨e, hs, ?_⟩
    cases cs with
    | nil => exact .inl ⟨c, ending, input, rfl, ht, rfl⟩
    | cons d ds => exact .inr (.inr .rfl)
  | @stop e e' evs _ hs hcases =>
    refine .inr ⟨e, hs, .inr (.inr ?_)⟩
    rw [beginTeardown_summary]
    rcases hcases with ⟨htr, -⟩ | ⟨-, rfl, -⟩
    · obtain ⟨-, rfl⟩ := transition_eq_ok.mp htr
      exact ⟨fun _ => rfl, id⟩
    · exact .rfl

namespace World

/-- A step changes the entry of a session by a piece of its session code only. -/
theorem step_entry {l : Label} {e : SessionEntry} (h : w.step cfg l = some w')
    (he : w'.sessions s = some e) :
    w.sessions s = some e ∨ ∃ t seg, Runs cfg w t s l seg ∧ seg.entry = e := by
  rcases step_cases h with ⟨f, -, rfl⟩ | ⟨op, k, -, -, -, rfl⟩ | ⟨op, g, -, -, -, rfl⟩ |
    ⟨t, task, -, hset⟩ | ⟨t, u, seg, hr, hc⟩
  · exact .inl he
  · exact .inl he
  · exact .inl he
  · rw [(setTask_cases hset).1 s] at he
    exact .inl he
  · rw [(commit_cases hc).1 s] at he
    split_ifs at he with hu
    · subst hu
      exact .inr ⟨t, seg, hr, Option.some.inj he⟩
    · exact .inl he

/-- A teardown goes on for a tracked session only. -/
theorem step_tracked {input : Input} {c : Cleanup} {cs : List Cleanup} {ending : Ending}
    (h : w.step cfg (.resume t input) = some w')
    (ht : w.tasks t = some (.teardown s (c :: cs) ending)) : ∃ e, w.sessions s = some e := by
  cases hs : w.sessions s with
  | some e => exact ⟨e, rfl⟩
  | none =>
    simp only [step, resume, ht, hs] at h
    cases h

/-- The last call of a teardown returns. -/
theorem step_last {input : Input} {c : Cleanup} {ending : Ending} {e : SessionEntry}
    (h : w.step cfg (.resume t input) = some w')
    (ht : w.tasks t = some (.teardown s [c] ending)) (hs : w.sessions s = some e) :
    w'.sessions s = some (e.cleared ending.state) := by
  simp only [step, resume, ht, hs] at h
  split_ifs at h
  rw [(commit_cases h).1 s, if_pos rfl]
  rfl

/-- A preflight returns. -/
theorem step_preflight {profile : Profile} {c : ConnectivityChecklist}
    {bundle : Result BackendPolicyBundle} {e : SessionEntry}
    (h : w.step cfg (.resume t (.checklist (.ok c) bundle)) = some w')
    (ht : w.tasks t = some (.drive s profile .runPreflight)) (hs : w.sessions s = some e) :
    ∃ e', w'.sessions s = some e' ∧ e'.summary s = (e.setChecklist c).summary s := by
  simp only [step, resume, ht, hs, Drive.resume, Flow.try] at h
  have hentry := (commit_cases h).1 s
  rw [if_pos rfl] at hentry
  refine ⟨_, hentry, ?_⟩
  rw [settle_summary]
  have hres : Resumes cfg s profile (w.gateway.calls t) e .runPreflight
      (.checklist (.ok c) bundle) (afterPreflight s profile c bundle e) :=
    Drive.resume_cases rfl
  generalize afterPreflight s profile c bundle e = flow at hres
  cases hres with
  | callError _ herr => cases herr
  | preflightPassed _ _ _ => rfl
  | preflightRefused _ => rfl
  | preflightUnsafe _ _ => rfl

end World

/-! ### Runs -/

theorem reports_cleared {e : SessionEntry} {state : SessionState} :
    SessionSummary.Reports ((e.cleared state).summary s) ↔
      SessionSummary.Reports (e.summary s) := Iff.rfl

theorem Ending.not_live (ending : Ending) : sessionIsLive ending.state = false := by
  cases ending <;> rfl

theorem reports_setChecklist {e : SessionEntry} {c : ConnectivityChecklist} :
    ¬ SessionSummary.Reports ((e.setChecklist c).summary s) ↔
      c.status ≠ .active ∧ c.observedIp = none := by
  show ¬ (c.status = .active ∨ c.observedIp.map IpObservation.ip ≠ none) ↔ _
  rw [not_or, not_not, Option.map_eq_none_iff]

/-- An honest state stays honest in a step that leaves nothing reported. -/
theorem Honest.step {l : Label} (h : Honest w) (hok : NothingReported w l)
    (hs : w.step cfg l = some w') : Honest w' := by
  refine honest_iff.mpr fun s e he hreports => ?_
  rcases World.step_entry hs he with he | ⟨t, seg, hr, rfl⟩
  · exact h.summaries s e he hreports
  · rcases hr.writes with ⟨-, hlive⟩ | ⟨e, he, ⟨c, ending, input, rfl, ht, hentry⟩ |
      ⟨profile, c, bundle, rfl, ht, hsum⟩ | hq⟩
    · exact hlive
    · rw [hentry, reports_cleared] at hreports
      exact absurd hreports (hok.1 s c ending e ht he)
    · have hstate : seg.entry.state = e.state := congrArg SessionSummary.state hsum
      rw [hstate]
      by_contra hdead
      rw [hsum] at hreports
      exact reports_setChecklist.mpr
        (hok.2 s profile c bundle e ht rfl he (Bool.not_eq_true _ ▸ hdead)) hreports
    · exact hq.live (h.summaries s e he (hq.reports hreports))

/-- A step that leaves something reported of a session that is over. -/
theorem not_honest_of_reported {l : Label} (hok : ¬ NothingReported w l)
    (hs : w.step cfg l = some w') : ¬ Honest w' := by
  intro h
  cases l with
  | resume t input =>
    refine hok ⟨fun s c ending e ht he hreports => ?_,
      fun s profile c bundle e ht hinput he hdead => ?_⟩
    · have hlive := h.summaries s _ (World.step_last hs ht he) (reports_cleared.mpr hreports)
      rw [show (e.cleared ending.state).state = ending.state from rfl, ending.not_live] at hlive
      cases hlive
    · subst hinput
      obtain ⟨e', he', hsum⟩ := World.step_preflight hs ht he
      refine (reports_setChecklist (s := s) (e := e)).mp fun hreports => ?_
      have hlive := h.summaries s e' he' (hsum ▸ hreports)
      have hstate : e'.state = e.state := congrArg SessionSummary.state hsum
      rw [hstate, hdead] at hlive
      cases hlive
  | _ => exact hok trivial

/-- The daemon is honest for as long as no teardown of a session that reports ends, and no
preflight that reports arrives for a session that is over; the first such step ends it. -/
theorem honest_of_reach (hr : Reach (World.step cfg) World.Initial NothingReported w) :
    Honest w ∧ ∀ l w', w.step cfg l = some w' → (Honest w' ↔ NothingReported w l) := by
  have h : Honest w := by
    refine hr.invariant (fun w hi => honest_iff.mpr fun s e he => ?_)
      fun _ _ _ _ h hok hs => h.step hok hs
    rw [hi.sessions s] at he
    cases he
  refine ⟨h, fun l w' hs => ⟨fun h' => ?_, fun hok => h.step hok hs⟩⟩
  by_contra hok
  exact not_honest_of_reported hok hs h'

/-- Every tracked session has a key. -/
theorem keysLive_iff :
    KeysLive w ↔ ∀ s e, w.sessions s = some e → sessionIsLive e.state = true := by
  constructor
  · intro h s e he
    exact h s e.ramKey e.state (by rw [World.ramKeys, he]; rfl)
      (by rw [World.sessionState, he]; rfl)
  · intro h s key state _ hstate
    obtain ⟨e, he, rfl⟩ := Option.map_eq_some_iff.mp hstate
    exact h s e he

theorem KeysLive.step {l : Label} (h : KeysLive w) (hok : EndsNoTeardown w l)
    (hs : w.step cfg l = some w') : KeysLive w' := by
  rw [keysLive_iff] at h ⊢
  intro s e he
  rcases World.step_entry hs he with he | ⟨t, seg, hr, rfl⟩
  · exact h s e he
  · rcases hr.writes with ⟨-, hlive⟩ | ⟨e, he, ⟨c, ending, input, rfl, ht, -⟩ |
      ⟨profile, c, bundle, rfl, ht, hsum⟩ | hq⟩
    · exact hlive
    · exact absurd ht (hok s c ending)
    · have hstate : seg.entry.state = e.state := congrArg SessionSummary.state hsum
      rw [hstate]
      exact h s e he
    · exact hq.live (h s e he)

/-- The keys in the table belong to sessions that are not over for as long as no teardown ends;
the first one that does leaves its key. -/
theorem keysLive_of_reach (hr : Reach (World.step cfg) World.Initial EndsNoTeardown w) :
    KeysLive w ∧ ∀ l w', w.step cfg l = some w' → (KeysLive w' ↔ EndsNoTeardown w l) := by
  have h : KeysLive w := by
    refine hr.invariant (fun w hi => keysLive_iff.mpr fun s e he => ?_)
      fun _ _ _ _ h hok hs => h.step hok hs
    rw [hi.sessions s] at he
    cases he
  refine ⟨h, fun l w' hs => ⟨fun h' => ?_, fun hok => h.step hok hs⟩⟩
  cases l with
  | resume t input =>
    intro s c ending ht
    obtain ⟨e, he⟩ := World.step_tracked hs ht
    have hlive := keysLive_iff.mp h' s _ (World.step_last hs ht he)
    rw [show (e.cleared ending.state).state = ending.state from rfl, ending.not_live] at hlive
    cases hlive
  | _ => trivial

end Views

/-- The run that browses, with the address its preflight observed. -/
def observedRun : List Label :=
  leaseRun 0 ⟨0⟩ (Store.LockSystem.repeated 'a') ++ provisionRun 0 ⟨0⟩ ⟨10⟩ ⟨11⟩ ++ gatewayRun 0 ++
    [.resume 0 (.started (.ok ())), .resume 0 (.started (.ok ())),
      .resume 0 (.checklist
        (.ok { checklistPassed with observedIp := some ⟨"185.220.101.4", true, true⟩ })
        (.ok safeBundle)),
      .resume 0 (.launched (.ok ⟨⟨0⟩, .chromium, "pid"⟩)), .resume 0 (.running (.ok true)),
      .resume 0 .returned]

/-- That session is stopped by request 1. -/
def endedRun : List Label :=
  observedRun ++ .stopSession 1 ⟨0⟩ :: List.replicate 5 (.resume 1 (.destroyed (.ok true))) ++
    [.lock (.read 1 none), .lock (.compare 1), .lock (.remove 1 none), .resume 1 .returned]

/-- No task of the run is in the last call of a teardown, nor in a preflight of a session that is
over. -/
def quietStep (w : World) : Label → Bool
  | .resume t _ =>
    match w.tasks t with
    | some (.teardown _ [_] _) => false
    | some (.drive s _ .runPreflight) => (w.sessions s).all fun e => sessionIsLive e.state
    | _ => true
  | _ => true

theorem quietStep_sound (w : World) (l : Label) (h : quietStep w l = true) :
    NothingReported w l ∧ EndsNoTeardown w l := by
  cases l with
  | resume t input =>
    refine ⟨⟨fun s c ending e ht => ?_, fun s profile c bundle e ht _ he hdead => ?_⟩,
      fun s c ending ht => ?_⟩
    · simp [quietStep, ht] at h
    · simp only [quietStep, ht, he, Option.all_some] at h
      rw [hdead] at h
      cases h
    · simp [quietStep, ht] at h
  | _ => exact ⟨trivial, trivial⟩

theorem observedRun_summary :
    (exec (fun w l => if quietStep w l then World.step daemon w l else none) booted
      observedRun).map (fun w => (w.sessions ⟨0⟩).map (SessionEntry.summary · ⟨0⟩)) =
    some (some ⟨⟨0⟩, ⟨0⟩, .browsing, .active, some "185.220.101.4"⟩) := rfl

/-- While the session browses, its address is shown. -/
theorem honest_observedRun : ∃ w e, w.sessions ⟨0⟩ = some e ∧
    e.summary ⟨0⟩ = ⟨⟨0⟩, ⟨0⟩, .browsing, .active, some "185.220.101.4"⟩ ∧ Honest w := by
  obtain ⟨w, hw, hsum⟩ := Option.map_eq_some_iff.mp observedRun_summary
  obtain ⟨e, he, hsum⟩ := Option.map_eq_some_iff.mp hsum
  exact ⟨w, e, he, hsum, (honest_of_reach ((Reach.start booted_initial).execWhere
    (fun w l h => (quietStep_sound w l h).1) hw)).1⟩

theorem keysLive_observedRun : ∃ w e, w.sessions ⟨0⟩ = some e ∧ e.state = .browsing ∧
    KeysLive w := by
  obtain ⟨w, hw, hsum⟩ := Option.map_eq_some_iff.mp observedRun_summary
  obtain ⟨e, he, hsum⟩ := Option.map_eq_some_iff.mp hsum
  exact ⟨w, e, he, congrArg SessionSummary.state hsum,
    (keysLive_of_reach ((Reach.start booted_initial).execWhere
      (fun w l h => (quietStep_sound w l h).2) hw)).1⟩

/-- The world after the stop returned. -/
def ended : World := (exec (World.step daemon) booted endedRun).getD booted

theorem ended_reached : Reach (World.step daemon) World.Initial anyStep ended := by
  have hrun : exec (World.step daemon) booted endedRun = some ended := rfl
  exact (Reach.start booted_initial).exec hrun

/-- A session that was stopped is still reported with its protection and its address. -/
theorem ended_not_honest : Reach (World.step daemon) World.Initial anyStep ended ∧
    (ended.sessions ⟨0⟩).map (SessionEntry.summary · ⟨0⟩) =
      some ⟨⟨0⟩, ⟨0⟩, .destroyed, .active, some "185.220.101.4"⟩ ∧ ¬ Honest ended := by
  refine ⟨ended_reached, rfl, fun h => ?_⟩
  have hlive := h.summaries ⟨0⟩ _ rfl (.inl rfl)
  exact absurd hlive (by decide)

/-- Its key is still in the table, with its stop completed. -/
theorem ended_keepsKey : Reach (World.step daemon) World.Initial anyStep ended ∧
    (∃ r, ended.tasks 1 = some (.done (.ok r))) ∧ ended.ramKeys ⟨0⟩ = some 0 ∧
    ¬ KeysLive ended := by
  refine ⟨ended_reached, ⟨_, rfl⟩, rfl, fun h => ?_⟩
  have hlive := h ⟨0⟩ 0 .destroyed rfl rfl
  exact absurd hlive (by decide)

end Aegis.Orchestrator
