import Aegis.Cli.Command
import Aegis.Cli.Render

/-! What a command prints for a reply, and how it ends. -/
namespace Aegis.Cli
open Ipc Json
open Orchestrator (EnforcementArgs)

/-- How a command that reached the daemon ends. -/
inductive Dispatch where
  | ok
  | daemonError
  deriving DecidableEq

/-- The text for each stream, without the newline it is printed with, and the end. -/
structure Output where
  stdout : String
  stderr : String
  dispatch : Dispatch

namespace Output

def ok (stdout : String) : Output := ⟨stdout, "", .ok⟩

/-- A text that is printed although the operation failed. -/
def okButFailed (stdout : String) : Output := ⟨stdout, "", .daemonError⟩

end Output

/-- A value of the workspace's types as pretty JSON, its fields in their order. -/
def toJson {α : Type} [Wire α] (a : α) : String :=
  String.ofList (pretty serdeStyle 0 (Wire.toValue a))

/-- A JSON value put together by the command line; its keys are sorted. -/
def jsonText (v : Value) : String := String.ofList (pretty serdeStyle 0 (sortKeys v))

section Format

variable {Time : Type} [Chrono Time] (pr : Printers Time) (now : Time) (json : Bool)

def responseName (r : Response Time) : String :=
  match r.kind with
  | .profiles => "profiles"
  | .profile => "profile"
  | .ok => "ok"
  | .session => "session"
  | .sessions => "sessions"
  | .diagnostics => "diagnostics"
  | .doctor => "doctor"
  | .updateAvailable => "update-available"
  | .updateApplied => "update-applied"
  | .status => "status"
  | .enforcement => "enforcement"
  | .error => "error"

/-- The reply is not of the kind the command calls for. -/
def unexpected (expected : String) (got : Response Time) : Result Output :=
  .error (.internal ("expected " ++ expected ++ " response, got " ++ responseName got))

def formatError : Response Time → Result Output
  | .error message cls =>
    .ok (if json then
      .okButFailed (jsonText (.object [("error", .string message), ("class", .string cls.display)]))
    else ⟨"", "error: " ++ message ++ " [" ++ cls.display ++ "]", .daemonError⟩)
  | _ => .error (.internal "format_error on non-error")

def formatProfiles : Response Time → Result Output
  | .profiles profiles =>
    .ok (.ok (if json then toJson profiles else profilesTable pr now profiles))
  | other => unexpected "Profiles" other

def reducedProtection : String :=
  "reduced protection: the site runs on your real OS, only VM isolation is dropped"

def formatProfile (isolation : IsolationArg) : Response Time → Result Output
  | .profile profile =>
    .ok ⟨if json then toJson profile else profileDetail pr now profile,
      if isolation = .host then reducedProtection else "", .ok⟩
  | other => unexpected "Profile" other

def formatProfileShow (id : String) : Response Time → Result Output
  | .profiles profiles => do
    let wanted ← parseProfileId id
    match profiles.find? fun p => p.id = wanted with
    | some p => .ok (.ok (if json then toJson p else profileDetail pr now p))
    | none => .error (.notFound ("no profile " ++ id))
  | other => unexpected "Profiles" other

def formatSession : Response Time → Result Output
  | .session summary =>
    .ok (.ok (if json then toJson summary
      else "session " ++ (sessionRow summary).getD 0 "" ++ " " ++
        (sessionRow summary).getD 2 "" ++ " " ++ protectionBadge summary.protection))
  | other => unexpected "Session" other

def formatSessions : Response Time → Result Output
  | .sessions sessions => .ok (.ok (if json then toJson sessions else sessionsTable sessions))
  | other => unexpected "Sessions" other

def formatDiagnostics : Response Time → Result Output
  | .diagnostics protection checklist items =>
    .ok (.ok (if json then
        jsonText (.object [("status", .string (protectionLabel protection)),
          ("checklist", Wire.toValue checklist), ("items", Wire.toValue items)])
      else diagnosticsReport protection checklist items))
  | other => unexpected "Diagnostics" other

/-- A self-test that fails ends as an error of the daemon. -/
def formatDoctor : Response Time → Result Output
  | .doctor checklist =>
    let stdout := if json then
        jsonText (.object [("status", .string (protectionLabel checklist.status)),
          ("checklist", Wire.toValue checklist)])
      else doctorReport checklist
    .ok (if checklist.allPassed then .ok stdout else .okButFailed stdout)
  | other => unexpected "Doctor" other

def formatStatus : Response Time → Result Output
  | .status status => .ok (.ok (if json then toJson status else statusReport status))
  | other => unexpected "Status" other

/-- The warning of a policy that gives the full isolation of the one before up. -/
def relaxedWarning (before : Option Enforcement) (e : Enforcement) : String :=
  match before with
  | some prev => if prev.isFullIsolation && !e.isFullIsolation then reducedProtection else ""
  | none => ""

def formatEnforcement (before : Option Enforcement) : Response Time → Result Output
  | .enforcement e =>
    .ok ⟨if json then toJson e else enforcementReport e, relaxedWarning before e, .ok⟩
  | other => unexpected "Enforcement" other

def formatUpdateCheck : Response Time → Result Output
  | .updateAvailable (some manifest) =>
    .ok (.ok (if json then
        jsonText (.object [("available", .bool true),
          ("version", .string manifest.version.display)])
      else "update available: " ++ manifest.version.display))
  | .updateAvailable none =>
    .ok (.ok (if json then jsonText (.object [("available", .bool false)]) else "up to date"))
  | other => unexpected "UpdateAvailable" other

def outcomeText : ApplyOutcome → String
  | .applied => "applied"
  | .rolledBack => "rolled-back"

/-- An update that was rolled back ends as an error of the daemon. -/
def formatUpdateApplied : Response Time → Result Output
  | .error message cls => formatError json (.error message cls : Response Time)
  | .updateApplied outcome =>
    let stdout := if json then
        jsonText (.object [("applied", .bool true), ("outcome", .string (outcomeText outcome))])
      else "update " ++ outcomeText outcome
    .ok (match outcome with
      | .applied => .ok stdout
      | .rolledBack => .okButFailed stdout)
  | other => unexpected "UpdateApplied" other

def formatOk (msg : String) : Response Time → Result Output
  | .ok => .ok (.ok (if json then jsonText (.object [("ok", .bool true)]) else msg))
  | other => unexpected "Ok" other

def formatResponse (command : Command) (response : Response Time) : Result Output :=
  if response.kind = .error then formatError json response
  else match command with
    | .profileCreate args => formatProfile pr now json args.isolation response
    | .profileList => formatProfiles pr now json response
    | .profileShow id => formatProfileShow pr now json id response
    | .profileRm _ => formatOk json "profile removed" response
    | .sessionStart _ | .sessionStop _ => formatSession json response
    | .sessionList => formatSessions json response
    | .diagnostics _ => formatDiagnostics json response
    | .status => formatStatus json response
    | .configEnforcement _ => formatEnforcement json none response
    | .doctor => formatDoctor json response
    | .updateCheck => formatUpdateCheck json response
    | .updateApply => .error (.internal "unreachable apply render")

end Format

end Aegis.Cli
