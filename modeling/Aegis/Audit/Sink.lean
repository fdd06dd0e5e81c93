import Aegis.Ipc.Protocol
import Aegis.Lib.LineLog
import Aegis.Lib.OsPath
import Aegis.Orchestrator.Session

/-! The audit log: records as lines of JSON, and the sink that appends them to a file. A call may
fail anywhere, also after a part of its line. -/
namespace Aegis
open Json Text Deserialize LineLog OsPath Orchestrator

/-! ### Records as JSON -/

instance : Wire Severity :=
  .variants [("info", .info), ("notice", .notice), ("warning", .warning), ("critical", .critical)]
    (by rintro (_ | _ | _ | _) <;> rfl)

namespace Orchestrator.EventKind

/-- A variant with one text. -/
def textRecord (name : String) : Record String :=
  .of (fun s => (s, ())) (fun (s, _) => s) (fun _ => rfl) (.required name .nil)

/-- A variant with two fields. -/
def pairRecord {α β : Type} [Wire α] [Wire β] (first second : String) : Record (α × β) :=
  .of (fun p => (p.1, p.2, ())) (fun (a, b, _) => (a, b)) (fun _ => rfl)
    (.required first <| .required second .nil)

def toValue : EventKind → Value
  | sessionState state =>
    .object (("event", .string "session_state") :: (textRecord "state").write state)
  | preflightCheck check outcome =>
    .object (("event", .string "preflight_check") ::
      (pairRecord "check" "outcome").write (check, outcome))
  | killSwitch state =>
    .object (("event", .string "kill_switch") :: (textRecord "state").write state)
  | tunnel state => .object (("event", .string "tunnel") :: (textRecord "state").write state)
  | vm role state =>
    .object (("event", .string "vm") :: (pairRecord "role" "state").write (role, state))
  | profile action => .object (("event", .string "profile") :: (textRecord "action").write action)
  | failClosed cls reason =>
    .object (("event", .string "fail_closed") :: (pairRecord "class" "reason").write (cls, reason))
  | integrity action outcome =>
    .object (("event", .string "integrity") ::
      (pairRecord "action" "outcome").write (action, outcome))

def ofTag (event : String) (v : Value) : Option EventKind :=
  match event with
  | "session_state" => ((textRecord "state").read v).map sessionState
  | "preflight_check" => ((pairRecord "check" "outcome").read v).map fun p => preflightCheck p.1 p.2
  | "kill_switch" => ((textRecord "state").read v).map killSwitch
  | "tunnel" => ((textRecord "state").read v).map tunnel
  | "vm" => ((pairRecord "role" "state").read v).map fun p => vm p.1 p.2
  | "profile" => ((textRecord "action").read v).map profile
  | "fail_closed" => ((pairRecord "class" "reason").read v).map fun p => failClosed p.1 p.2
  | "integrity" => ((pairRecord "action" "outcome").read v).map fun p => integrity p.1 p.2
  | _ => none

theorem tagged_write {α : Type} (r : Record α) (h : ("event" :: r.names).Nodup) (event : String)
    (a : α) : tagged "event" ofTag (.object (("event", .string event) :: r.write a)) =
      ofTag event (.object (r.write a)) := by
  apply tagged_cons
  rw [r.keys_write]
  exact (List.nodup_cons.mp h).1

theorem plain_write {α : Type} (r : Record α) (event : String) (a : α) :
    PlainValue (.object (("event", .string event) :: r.write a)) := by
  apply Record.plain_object
  intro n hn
  rcases List.mem_cons.mp hn with rfl | hn
  · trivial
  · exact r.plain a n hn

instance : Wire EventKind where
  toValue := toValue
  ofValue := tagged "event" ofTag
  plain e := by cases e <;> exact plain_write _ _ _
  ofValue_toValue e := by
    cases e
    all_goals
      rw [toValue, tagged_write _ (by decide), ofTag, Record.read_write _ (by decide)]
      rfl

end Orchestrator.EventKind

/-- An audit record with the time it is made at. -/
structure TimedRecord (Time : Type) where
  time : Time
  record : AuditRecord

variable {Time : Type} [Chrono Time]

def TimedRecord.fields : Record (TimedRecord Time) :=
  .of (fun r => (r.time, r.record.severity, r.record.session, r.record.profile, r.record.kind, ()))
    (fun (time, severity, session, profile, kind, _) => ⟨time, severity, session, profile, kind⟩)
    (fun _ => rfl)
    (.required "at" <| .required "severity" <| .defaulted "session" none <|
      .defaulted "profile" none <| .required "kind" .nil)

instance : Wire (TimedRecord Time) :=
  TimedRecord.fields.wire
    (show ["at", "severity", "session", "profile", "kind"].Nodup by decide)

/-! ### The sink -/

def newline : UInt8 := 10

def toJsonLine (r : TimedRecord Time) : Bytes := toVec r

/-- A sink that appends lines of JSON to a file. -/
structure FileAuditSink where
  path : OsStr

/-- What the outside answers to one call, each text that of an error. A write may break off after
some of the line; the newline is written last. -/
structure Answers where
  poisoned : Bool
  createDir : Option String
  openLog : Option String
  append : Option (ℕ × String)

structure Call (Time : Type) where
  answers : Answers
  record : TimedRecord Time

namespace FileAuditSink

/-- Whether the path has a parent with a name, which may have to be created. -/
def hasParent (os : Os) (s : FileAuditSink) : Bool :=
  let cs := components os s.path
  1 < cs.length && cs.getLast?.any fun c => c = .curDir || c.isName

/-- One call, with the content of the log, which may not be there. -/
def record (os : Os) (s : FileAuditSink) (τ : Answers) (r : TimedRecord Time)
    (file : Option Bytes) : Option Bytes × Result Unit :=
  let line := toJsonLine r
  if τ.poisoned then (file, .error (.internal "audit sink lock poisoned"))
  else
    match if s.hasParent os then τ.createDir else none with
    | some e => (file, .error (.system ("audit: create log dir: " ++ e)))
    | none =>
      match τ.openLog with
      | some e => (file, .error (.system ("audit: open log: " ++ e)))
      | none =>
        let content := file.getD []
        match τ.append with
        | some (n, e) => (some (content ++ line.take n), .error (.system ("audit: append: " ++ e)))
        | none => (some (content ++ (line ++ [newline])), .ok ())

/-- Calls one after another: what the log holds in the end, and the records of the calls that
returned `Ok`. -/
def run (os : Os) (s : FileAuditSink) :
    List (Call Time) → Option Bytes → Option Bytes × List (TimedRecord Time)
  | [], file => (file, [])
  | c :: cs, file =>
    let called := s.record os c.answers c.record file
    let rest := run os s cs called.1
    (rest.1, if called.2.isOk then c.record :: rest.2 else rest.2)

variable (os : Os) (s : FileAuditSink)

/-- The call gets as far as writing. -/
def Opens (τ : Answers) : Prop :=
  τ.poisoned = false ∧ (s.hasParent os = true → τ.createDir = none) ∧ τ.openLog = none

def Succeeds (c : Call Time) : Prop := s.Opens os c.answers ∧ c.answers.append = none

/-- The call fails behind the first octet of its line. -/
def Torn (c : Call Time) : Prop :=
  s.Opens os c.answers ∧ ∃ n e, c.answers.append = some (n, e) ∧ 0 < n

/-- What a call appends. -/
def effect (c : Call Time) : Piece UInt8 :=
  if c.answers.poisoned || (s.hasParent os && c.answers.createDir.isSome) ||
      c.answers.openLog.isSome then .part []
  else
    match c.answers.append with
    | some (n, _) => .part ((toJsonLine c.record).take n)
    | none => .whole (toJsonLine c.record)

variable {os s}

theorem effect_of_opens {c : Call Time} (h : s.Opens os c.answers) : s.effect os c =
    match c.answers.append with
    | some (n, _) => .part ((toJsonLine c.record).take n)
    | none => .whole (toJsonLine c.record) := by
  apply if_neg
  obtain ⟨hpoisoned, hdir, hlog⟩ := h
  rw [hpoisoned, hlog]
  cases hp : s.hasParent os with
  | false => simp
  | true => simp [hdir hp]

theorem effect_of_not_opens {c : Call Time} (h : ¬ s.Opens os c.answers) :
    s.effect os c = .part [] := by
  apply if_pos
  by_contra hnot
  simp only [Bool.or_eq_true, Bool.and_eq_true, not_or, not_and, Bool.not_eq_true,
    Option.isSome_eq_false_iff, Option.isNone_iff_eq_none] at hnot
  exact h ⟨hnot.1.1, hnot.1.2, hnot.2⟩

/-- The line a call appends as a whole. -/
theorem line?_effect (c : Call Time) : (s.effect os c).line?.isSome = true ↔ s.Succeeds os c := by
  by_cases h : s.Opens os c.answers
  · rw [effect_of_opens h, Succeeds, and_iff_right h]
    cases c.answers.append with
    | none => exact iff_of_true rfl rfl
    | some _ => exact iff_of_false nofun nofun
  · rw [effect_of_not_opens h]
    exact iff_of_false nofun fun hs => h hs.1

theorem toJsonLine_ne_nil (r : TimedRecord Time) : toJsonLine r ≠ [] := by
  intro h
  have hread := fromSlice_toVec r
  rw [← toJsonLine, h] at hread
  cases hread

theorem torn_effect (c : Call Time) : (s.effect os c).Torn ↔ s.Torn os c := by
  by_cases h : s.Opens os c.answers
  · rw [effect_of_opens h, Torn, and_iff_right h]
    cases c.answers.append with
    | none => exact iff_of_false not_false (by simp)
    | some w =>
      obtain ⟨n, e⟩ := w
      have htake : (toJsonLine c.record).take n ≠ [] ↔ 0 < n := by
        rw [ne_eq, List.take_eq_nil_iff, Nat.pos_iff_ne_zero]
        exact not_congr (or_iff_left (toJsonLine_ne_nil c.record))
      exact htake.trans ⟨fun hn => ⟨n, e, rfl, hn⟩, by rintro ⟨_, _, hw, hn⟩; cases hw; exact hn⟩
  · rw [effect_of_not_opens h]
    exact iff_of_false (fun hne => hne rfl) fun ht => h ht.1

theorem newline_not_mem_text (c : Call Time) : newline ∉ (s.effect os c).text := by
  have hline : newline ∉ toJsonLine c.record := newline_not_mem_toVec c.record
  by_cases h : s.Opens os c.answers
  · rw [effect_of_opens h]
    cases c.answers.append with
    | none => exact hline
    | some w => exact fun hmem => hline (List.mem_of_mem_take hmem)
  · rw [effect_of_not_opens h]
    exact List.not_mem_nil

variable (os s)

/-- A call appends what it says, and returns `Ok` exactly if that is a whole line. -/
theorem record_effect (c : Call Time) (file : Option Bytes) :
    (s.record os c.answers c.record file).1.getD [] =
        file.getD [] ++ (s.effect os c).bytes newline ∧
      (s.record os c.answers c.record file).2.isOk = (s.effect os c).line?.isSome := by
  obtain ⟨⟨poisoned, createDir, openLog, append⟩, r⟩ := c
  unfold record effect
  cases poisoned <;> cases s.hasParent os <;> cases createDir <;> cases openLog <;> cases append <;>
    simp [Piece.bytes, Piece.line?, Except.isOk, Except.toBool]

theorem line?_eq_some {c : Call Time} (h : (s.effect os c).line?.isSome = true) :
    (s.effect os c).line? = some (toJsonLine c.record) := by
  obtain ⟨hopens, hwritten⟩ := (line?_effect c).mp h
  rw [effect_of_opens hopens, hwritten]
  rfl

/-- What the calls append, and the records of those that returned `Ok`. -/
theorem run_effects (calls : List (Call Time)) (file : Option Bytes) :
    (s.run os calls file).1.getD [] =
        appendAll newline (file.getD []) (calls.map (s.effect os)) ∧
      (s.run os calls file).2.map toJsonLine = (calls.map (s.effect os)).filterMap Piece.line? := by
  induction calls generalizing file with
  | nil => exact ⟨(List.append_nil _).symm, rfl⟩
  | cons c calls ih =>
    obtain ⟨hfile, hok⟩ := record_effect os s c file
    obtain ⟨hrest, hlines⟩ := ih (s.record os c.answers c.record file).1
    rw [run, List.map_cons, appendAll_cons, ← hfile]
    refine ⟨hrest, ?_⟩
    dsimp only
    rw [hok, List.filterMap_cons]
    cases hline : (s.effect os c).line? with
    | none => exact hlines
    | some line =>
      have hself := line?_eq_some os s (c := c) (by rw [hline]; rfl)
      rw [hline] at hself
      obtain rfl := Option.some.inj hself
      rw [Option.isSome_some, if_pos rfl, List.map_cons, hlines]

/-- The records of the calls that returned `Ok` are in the log, each as a whole line of its own,
exactly if none of these calls comes after one that broke off within its line, nor after text
without a newline that was there before. -/
theorem acknowledged_whole_iff (calls : List (Call Time)) (file : Option Bytes) :
    ((s.run os calls file).2.map toJsonLine).Sublist
        ((lines newline ((s.run os calls file).1.getD [])).drop
          (lines newline (file.getD [])).length) ↔
      ((∃ c ∈ calls, s.Succeeds os c) → remainder newline (file.getD []) = []) ∧
        calls.Pairwise fun c d => s.Torn os c → ¬ s.Succeeds os d := by
  obtain ⟨hfile, hlines⟩ := run_effects os s calls file
  have hplain : ∀ a ∈ calls.map (s.effect os), newline ∉ a.text := by
    intro a ha
    obtain ⟨c, -, rfl⟩ := List.mem_map.mp ha
    exact newline_not_mem_text c
  have hsome : (∃ a ∈ calls.map (s.effect os), a.line?.isSome = true) ↔
      ∃ c ∈ calls, s.Succeeds os c := by
    constructor
    · rintro ⟨a, ha, hline⟩
      obtain ⟨c, hc, rfl⟩ := List.mem_map.mp ha
      exact ⟨c, hc, (line?_effect c).mp hline⟩
    · rintro ⟨c, hc, h⟩
      exact ⟨_, List.mem_map_of_mem hc, (line?_effect c).mpr h⟩
  rw [hfile, hlines, sublist_lines_iff hplain, hsome, List.pairwise_map]
  apply and_congr_right'
  apply List.Pairwise.iff
  intro c d
  rw [torn_effect, ← line?_effect d, Option.not_isSome_iff_eq_none]

/-- A record is written after the first octets of one for which the disk had no room. -/
def tornThenWhole : List (Call Ipc.Stamp) :=
  let r : TimedRecord Ipc.Stamp :=
    ⟨.sent, ⟨.critical, none, none, .failClosed .networkContainment "tunnel dropped"⟩⟩
  [⟨⟨false, none, none, some (7, "No space left on device (os error 28)")⟩, r⟩,
    ⟨⟨false, none, none, none⟩, r⟩]

theorem acknowledged_record_merged :
    ∃ r, (run .unix ⟨ascii "audit.log"⟩ tornThenWhole none).2 = [r] ∧
      toJsonLine r ∉
        lines newline ((run .unix ⟨ascii "audit.log"⟩ tornThenWhole none).1.getD []) := by
  refine ⟨_, rfl, ?_⟩
  decide +kernel

end FileAuditSink

end Aegis
