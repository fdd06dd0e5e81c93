import Aegis.Cli.Status
import Aegis.Ipc.Reordered

/-! What is written with `--json`: one document, from which the data of the reply is read back. -/
namespace Aegis.Cli
open Ipc Json Wire
open Orchestrator (EnforcementArgs)
open Program (Ensures Exchange ensures_bind ensures_pure)

variable {Time : Type}

/-! ### The documents -/

/-- A member of a document, read as a value of a type. -/
def field {α : Type} [Wire α] (k : String) : Value → Option α
  | .object ms =>
    match Deserialize.member k ms with
    | some (some v) => ofValue v
    | _ => none
  | _ => none

/-- The document gives the data of a reply back. -/
def Says [Chrono Time] (v : Value) : Response Time → Prop
  | .profiles profiles => ofValue v = some profiles
  | .profile profile => ofValue v = some profile
  | .ok => field "ok" v = some true
  | .session summary => ofValue v = some summary
  | .sessions sessions => ofValue v = some sessions
  | .diagnostics protection checklist items =>
    field "status" v = some (protectionLabel protection) ∧ field "checklist" v = some checklist ∧
      field "items" v = some items
  | .doctor checklist =>
    field "status" v = some (protectionLabel checklist.status) ∧
      field "checklist" v = some checklist
  | .updateAvailable none => field "available" v = some false
  | .updateAvailable (some manifest) =>
    field "available" v = some true ∧
      ∃ text, field "version" v = some text ∧ Version.fromStr text = .ok manifest.version
  | .updateApplied outcome =>
    field "applied" v = some true ∧ field "outcome" v = some (outcomeText outcome)
  | .status status => ofValue v = some status
  | .enforcement e => ofValue v = some e
  | .error message cls => field "error" v = some message ∧ field "class" v = some cls.display

/-- What the document of a command says: the profile to show is taken from the listing, and an
update that is not there is not applied. -/
def Tells [Chrono Time] (v : Value) : Command → Response Time → Prop
  | .profileShow id, .profiles profiles =>
    ∃ p ∈ profiles, parseProfileId id = .ok p.id ∧ ofValue v = some p
  | .updateApply, .updateAvailable _ => field "applied" v = some false
  | _, resp => Says v resp

theorem field_sortKeys {α : Type} [Wire α] [Reordered α] {k : String} (a : α)
    {ms : List (String × Value)} (hn : (keys ms).Nodup) (h : (k, toValue a) ∈ ms) :
    field k (sortKeys (.object ms)) = some a := by
  show (match Deserialize.member k (sortMembers (sortEach ms)) with
    | some (some v) => ofValue v
    | _ => none) = some a
  rw [member_sortEach hn h]
  exact Reordered.ofValue_sortKeys a

theorem read_toJson {α : Type} [Wire α] (a : α) : read (toJson a).toList = some (toValue a) := by
  rw [toJson, String.toList_ofList, read_pretty serdeStyle_readable 0 _ (plain a)]

theorem read_jsonText {v : Value} (h : PlainValue v) :
    read (jsonText v).toList = some (sortKeys v) := by
  rw [jsonText, String.toList_ofList, read_pretty serdeStyle_readable 0 _ (plain_sortKeys v h)]

/-! ### The replies -/

section Format

variable [Chrono Time] (pr : Printers Time) (now : Time)

/-- The text is one document, which tells the reply to the command. -/
def Printed (command : Command) (resp : Response Time) (o : Output) : Prop :=
  ∃ v, read o.stdout.toList = some v ∧ Tells v command resp

/-- A value written as it is. -/
theorem printed_toJson {α : Type} [Wire α] {a : α} {command : Command} {resp : Response Time}
    {o : Output} (ho : o.stdout = toJson a)
    (htells : ∀ v, ofValue v = some a → Tells v command resp) : Printed command resp o :=
  ⟨toValue a, by rw [ho, read_toJson], htells _ (ofValue_toValue a)⟩

/-- A document put together from fields. -/
theorem printed_jsonText (ms : List (String × Value)) {command : Command} {resp : Response Time}
    {o : Output} (ho : o.stdout = jsonText (.object ms)) (hplain : ∀ m ∈ ms, PlainValue m.2)
    (htells : Tells (sortKeys (.object ms)) command resp) : Printed command resp o :=
  ⟨_, by rw [ho, read_jsonText (Record.plain_object ms hplain)], htells⟩

theorem formatError_printed {command : Command} {resp : Response Time} {o : Output}
    (h : formatError true resp = .ok o) (hkind : resp.kind = .error) : Printed command resp o := by
  cases resp with
  | error message cls =>
    obtain rfl := Except.ok.inj h
    refine printed_jsonText [("error", .string message), ("class", .string cls.display)] rfl
      (by simp [plain_string]) ?_
    have hfields : Says (sortKeys (.object [("error", .string message),
        ("class", .string cls.display)])) (.error message cls : Response Time) :=
      ⟨field_sortKeys message (by simp [keys]) (by simp [toValue]),
        field_sortKeys cls.display (by simp [keys]) (by simp [toValue])⟩
    cases command <;> exact hfields
  | _ => cases hkind

theorem formatProfileShow_printed {id : String} {resp : Response Time} {o : Output}
    (h : formatProfileShow pr now true id resp = .ok o) : Printed (.profileShow id) resp o := by
  cases resp with
  | profiles profiles =>
    unfold formatProfileShow at h
    cases hid : parseProfileId id with
    | error e =>
      rw [hid] at h
      cases h
    | ok wanted =>
      cases hfind : profiles.find? fun p => p.id = wanted with
      | none =>
        simp only [hid, bind, Except.bind, hfind] at h
        cases h
      | some p =>
        simp only [hid, bind, Except.bind, hfind] at h
        obtain rfl := Except.ok.inj h
        apply printed_toJson rfl
        intro v hv
        have hp := List.find?_some hfind
        exact ⟨p, List.mem_of_find?_eq_some hfind, by rw [hid, of_decide_eq_true hp], hv⟩
  | _ => cases h

theorem formatDiagnostics_printed {session : String} {resp : Response Time} {o : Output}
    (h : formatDiagnostics true resp = .ok o) : Printed (.diagnostics session) resp o := by
  cases resp with
  | diagnostics protection checklist items =>
    obtain rfl := Except.ok.inj h
    apply printed_jsonText _ rfl
    · simp [plain_string, Wire.plain]
    · exact ⟨field_sortKeys (protectionLabel protection) (by simp [keys]) (by simp [toValue]),
        field_sortKeys checklist (by simp [keys]) (by simp),
        field_sortKeys items (by simp [keys]) (by simp)⟩
  | _ => cases h

theorem formatDoctor_printed {resp : Response Time} {o : Output}
    (h : formatDoctor true resp = .ok o) : Printed .doctor resp o := by
  cases resp with
  | doctor checklist =>
    obtain rfl := Except.ok.inj h
    apply printed_jsonText [("status", .string (protectionLabel checklist.status)),
      ("checklist", toValue checklist)]
    · cases checklist.allPassed <;> rfl
    · simp [plain_string, Wire.plain]
    · exact ⟨field_sortKeys (protectionLabel checklist.status) (by simp [keys]) (by simp [toValue]),
        field_sortKeys checklist (by simp [keys]) (by simp)⟩
  | _ => cases h

theorem formatUpdateCheck_printed {resp : Response Time} {o : Output}
    (h : formatUpdateCheck true resp = .ok o) : Printed .updateCheck resp o := by
  cases resp with
  | updateAvailable manifest =>
    cases manifest with
    | none =>
      obtain rfl := Except.ok.inj h
      apply printed_jsonText _ rfl
      · simp [PlainValue, Every]
      · exact field_sortKeys false (by simp [keys]) (by simp [toValue])
    | some manifest =>
      obtain rfl := Except.ok.inj h
      apply printed_jsonText _ rfl
      · simp [PlainValue, Every]
      · exact ⟨field_sortKeys true (by simp [keys]) (by simp [toValue]), manifest.version.display,
          field_sortKeys manifest.version.display (by simp [keys]) (by simp [toValue]),
          Version.fromStr_display manifest.version⟩
  | _ => cases h

theorem formatUpdateApplied_printed {resp : Response Time} {o : Output}
    (h : formatUpdateApplied true resp = .ok o) : Printed .updateApply resp o := by
  cases resp with
  | updateApplied outcome =>
    obtain rfl := Except.ok.inj h
    apply printed_jsonText [("applied", .bool true), ("outcome", .string (outcomeText outcome))]
    · cases outcome <;> rfl
    · simp [PlainValue, Every]
    · exact ⟨field_sortKeys true (by simp [keys]) (by simp [toValue]),
        field_sortKeys (outcomeText outcome) (by simp [keys]) (by simp [toValue])⟩
  | error message cls => exact formatError_printed h rfl
  | _ => cases h

theorem formatOk_printed {msg id : String} {resp : Response Time} {o : Output}
    (h : formatOk true msg resp = .ok o) : Printed (.profileRm id) resp o := by
  cases resp with
  | ok =>
    obtain rfl := Except.ok.inj h
    apply printed_jsonText _ rfl
    · simp [PlainValue, Every]
    · exact field_sortKeys true (by simp [keys]) (by simp [toValue])
  | _ => cases h

theorem formatResponse_printed {command : Command} {resp : Response Time} {o : Output}
    (h : formatResponse pr now true command resp = .ok o) : Printed command resp o := by
  unfold formatResponse at h
  split at h
  · exact formatError_printed h ‹_›
  · cases command with
    | profileShow id => exact formatProfileShow_printed pr now h
    | diagnostics session => exact formatDiagnostics_printed h
    | doctor => exact formatDoctor_printed h
    | updateCheck => exact formatUpdateCheck_printed h
    | profileRm id => exact formatOk_printed h
    | updateApply => cases h
    | profileList =>
      cases resp with
      | profiles profiles =>
        obtain rfl := Except.ok.inj h
        exact printed_toJson rfl fun v hv => hv
      | _ => cases h
    | profileCreate args =>
      cases resp with
      | profile profile =>
        obtain rfl := Except.ok.inj h
        exact printed_toJson rfl fun v hv => hv
      | _ => cases h
    | sessionStart id | sessionStop id =>
      cases resp with
      | session summary =>
        obtain rfl := Except.ok.inj h
        exact printed_toJson rfl fun v hv => hv
      | _ => cases h
    | sessionList =>
      cases resp with
      | sessions sessions =>
        obtain rfl := Except.ok.inj h
        exact printed_toJson rfl fun v hv => hv
      | _ => cases h
    | status =>
      cases resp with
      | status status =>
        obtain rfl := Except.ok.inj h
        exact printed_toJson rfl fun v hv => hv
      | _ => cases h
    | configEnforcement flags =>
      cases resp with
      | enforcement e =>
        obtain rfl := Except.ok.inj h
        exact printed_toJson rfl fun v hv => hv
      | _ => cases h

end Format

/-! ### The process -/

section Process

variable [Chrono Time] (pr : Printers Time) (now : Time)

/-- What a command prints tells the last reply. -/
def Shown (command : Command) (t : List (Exchange (Step.Reply Time))) (r : Result Output) : Prop :=
  ∀ o, r = .ok o → ∃ req resp, t.getLast? = some ⟨.call req, .ok resp⟩ ∧ Printed command resp o

theorem shown_error (command : Command) (t : List (Exchange (Step.Reply Time))) (e : Error) :
    Shown command t (.error e) := by
  rintro o h
  cases h

theorem shown_answered {command : Command} {t : List (Exchange (Step.Reply Time))} {req : Request}
    {resp : Response Time} {r : Result Output} (hlast : t.getLast? = some ⟨.call req, .ok resp⟩)
    (h : ∀ o, r = .ok o → Printed command resp o) : Shown command t r :=
  fun o ho => ⟨req, resp, hlast, h o ho⟩

theorem dispatchRequest_shown (socket : Option String) (command : Command) :
    Ensures (fun _ _ => True) (dispatchRequest pr now ⟨socket, true, command⟩).run
      (Shown command) := by
  unfold dispatchRequest
  cases hreq : buildRequest command with
  | error e =>
    show Shown command [] (.error e)
    exact shown_error command [] e
  | ok req =>
    rintro (_ | _) -
    · exact shown_error command _ _
    · rintro (e | resp) -
      · exact shown_error command _ _
      · show Shown command [⟨.connect, true⟩, ⟨.call req, .ok resp⟩]
          (formatResponse pr now true command resp)
        exact shown_answered rfl fun o ho => formatResponse_printed pr now ho

theorem dispatchUpdateApply_shown :
    Ensures (fun _ _ => True) (dispatchUpdateApply true : Calling Time Output).run
      (Shown .updateApply) := by
  unfold dispatchUpdateApply
  rintro (e | checked) -
  · exact shown_error _ _ _
  · cases checked with
    | error message cls =>
      show Shown _ [⟨.call _, .ok (.error message cls)⟩] (formatError true (.error message cls))
      exact shown_answered rfl fun o ho => formatError_printed ho rfl
    | updateAvailable manifest =>
      cases manifest with
      | none =>
        apply shown_answered rfl
        rintro o ho
        obtain rfl := Except.ok.inj ho
        refine printed_jsonText [("applied", .bool false), ("reason", .string "up to date")] rfl
          (by simp [PlainValue, Every]) ?_
        exact field_sortKeys false (by simp [keys]) (by simp [toValue])
      | some manifest =>
        rintro (e | applied) -
        · exact shown_error _ _ _
        · show Shown _ [⟨.call _, .ok (.updateAvailable (some manifest))⟩, ⟨.call _, .ok applied⟩]
            (formatUpdateApplied true applied)
          exact shown_answered rfl fun o ho => formatUpdateApplied_printed ho
    | _ => exact shown_error _ _ _

theorem formatEnforcement_printed {before : Option Enforcement} {flags : EnforcementArgs}
    {resp : Response Time} {o : Output} (h : formatEnforcement true before resp = .ok o) :
    Printed (.configEnforcement flags) resp o := by
  cases resp with
  | enforcement e =>
    obtain rfl := Except.ok.inj h
    exact printed_toJson rfl fun v hv => hv
  | _ => cases h

theorem dispatchSetEnforcement_shown (flags : EnforcementArgs) :
    Ensures (fun _ _ => True) (dispatchSetEnforcement true flags : Calling Time Output).run
      (Shown (.configEnforcement flags)) := by
  unfold dispatchSetEnforcement
  rintro (e | current) -
  · exact shown_error _ _ _
  · cases current with
    | error message cls =>
      show Shown _ [⟨.call _, .ok (.error message cls)⟩] (formatError true (.error message cls))
      exact shown_answered rfl fun o ho => formatError_printed ho rfl
    | enforcement policy =>
      rintro (e | applied) -
      · exact shown_error _ _ _
      · cases applied with
        | error message cls =>
          show Shown _ [⟨.call _, .ok (.enforcement policy)⟩, ⟨.call _, .ok (.error message cls)⟩]
            (formatError true (.error message cls))
          exact shown_answered rfl fun o ho => formatError_printed ho rfl
        | enforcement e =>
          show Shown _ [⟨.call _, .ok (.enforcement policy)⟩, ⟨.call _, .ok (.enforcement e)⟩]
            (formatEnforcement true (some policy) (.enforcement e))
          exact shown_answered rfl fun o ho => formatEnforcement_printed ho
        | _ => exact shown_error _ _ _
    | _ => exact shown_error _ _ _

theorem Shown.connected {command : Command} {t : List (Exchange (Step.Reply Time))}
    {r : Result Output} (h : Shown command t r) : Shown command (⟨.connect, true⟩ :: t) r := by
  rintro o ho
  obtain ⟨req, resp, hlast, hprinted⟩ := h o ho
  refine ⟨req, resp, ?_, hprinted⟩
  rw [List.getLast?_cons, hlast]
  rfl

theorem dispatch_shown (socket : Option String) (command : Command) :
    Ensures (fun _ _ => True) (dispatch pr now ⟨socket, true, command⟩).run (Shown command) := by
  unfold dispatch
  cases command with
  | updateApply =>
    rintro (_ | _) -
    · exact shown_error _ _ _
    · exact dispatchUpdateApply_shown.mono fun t r h => h.connected
  | configEnforcement flags =>
    dsimp only
    split
    · exact dispatchRequest_shown pr now socket _
    · rintro (_ | _) -
      · exact shown_error _ _ _
      · exact (dispatchSetEnforcement_shown flags).mono fun t r h => h.connected
  | _ => exact dispatchRequest_shown pr now socket _

/-- With `--json`, what goes to the output is nothing where the client failed, and else one document
on lines of its own, from which the last reply of the daemon is read back. -/
def Documented (command : Command) (t : List (Exchange (Step.Reply Time))) (e : Ended) : Prop :=
  (e.status = exitClientError ∧ e.stdout = "") ∨
    ∃ text v req resp, e.stdout = text ++ "\n" ∧ read text.toList = some v ∧
      t.getLast? = some ⟨.call req, .ok resp⟩ ∧ Tells v command resp

theorem main_documented (socket : Option String) (command : Command) :
    Ensures (fun _ _ => True) (main pr now ⟨socket, true, command⟩) (Documented command) := by
  unfold main
  rw [ensures_bind]
  apply (dispatch_shown pr now socket command).mono
  rintro t (e | o) h
  · rw [ensures_pure, List.append_nil]
    exact .inl ⟨rfl, rfl⟩
  · rw [ensures_pure, List.append_nil]
    obtain ⟨req, resp, hlast, v, hread, htells⟩ := h o rfl
    refine .inr ⟨o.stdout, v, req, resp, ?_, hread, hlast, htells⟩
    apply if_neg
    intro hempty
    rw [hempty] at hread
    cases hread

end Process

end Aegis.Cli