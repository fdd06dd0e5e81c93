import Aegis.Cli.Output
import Aegis.Daemon.Handler

/-! A run of the command line: what it exchanges with the daemon, what it prints and the status it
ends with. -/
namespace Aegis.Cli
open Ipc Json
open Orchestrator (EnforcementArgs)

/-- The parsed command line. -/
structure Args where
  socket : Option String
  json : Bool
  command : Command

/-- What the command line does to the daemon's socket. -/
inductive Step where
  | connect
  | call (req : Request)

/-- Whether it could connect, and the reply or the error of the exchange. -/
@[reducible] def Step.Reply (Time : Type) : Step → Type
  | .connect => Bool
  | .call _ => Except String (Response Time)

variable {Time : Type}

abbrev Calling (Time α : Type) := ExceptT Error (Program (Step.Reply Time)) α

def socketPath (args : Args) : String := args.socket.getD "/run/aegis/daemon.sock"

/-- A step of the command line, with its outcome. -/
def step (s : Step) : Calling Time (s.Reply Time) := ExceptT.lift (Program.command s)

def connect (args : Args) : Calling Time Unit := do
  let connected : Bool ← step .connect
  if connected then return ()
  else throw (.system ("cannot reach the daemon socket at " ++ socketPath args ++
    " (is aegis-daemon running? set --socket / AEGIS_SOCKET)"))

def call (req : Request) : Calling Time (Response Time) := do
  let reply : Except String (Response Time) ← step (.call req)
  match reply with
  | .ok response => return response
  | .error e => throw (.system ("ipc: " ++ e))

section Run

variable [Chrono Time] (pr : Printers Time) (now : Time) (json : Bool)

/-- Check for the newest manifest, then apply what the daemon answered. -/
def dispatchUpdateApply : Calling Time Output := do
  let checked ← call (.checkUpdate currentVersionInfo)
  match checked with
  | .updateAvailable (some manifest) =>
    let applied ← call (.applyUpdate manifest)
    ExceptT.mk (pure (formatUpdateApplied json applied))
  | .updateAvailable none =>
    return .ok (if json then
        jsonText (.object [("applied", .bool false), ("reason", .string "up to date")])
      else "already up to date; nothing to apply")
  | .error _ _ => ExceptT.mk (pure (formatError json checked))
  | other => throw (.internal ("unexpected response to check-update: " ++ responseName other))

/-- Fetch the policy, apply the flags that were given, and set it. -/
def dispatchSetEnforcement (args : EnforcementArgs) : Calling Time Output := do
  let current ← call .getEnforcement
  match current with
  | .enforcement e =>
    let applied ← call (.setEnforcement (args.apply e))
    if applied.kind = .error then ExceptT.mk (pure (formatError json applied))
    else ExceptT.mk (pure (formatEnforcement json (some e) applied))
  | .error _ _ => ExceptT.mk (pure (formatError json current))
  | other => throw (.internal ("unexpected response to get-enforcement: " ++ responseName other))

/-- The commands of one request. -/
def dispatchRequest (args : Args) : Calling Time Output := do
  let request ← ExceptT.mk (pure (buildRequest args.command))
  connect args
  let response ← call request
  ExceptT.mk (pure (formatResponse pr now args.json args.command response))

def dispatch (args : Args) : Calling Time Output :=
  match args.command with
  | .updateApply => do
    connect args
    dispatchUpdateApply args.json
  | .configEnforcement flags =>
    if flags.isEmpty then dispatchRequest pr now args
    else do
      connect args
      dispatchSetEnforcement args.json flags
  | _ => dispatchRequest pr now args

/-- What was written to the streams, and the exit status. -/
structure Ended where
  stdout : String
  stderr : String
  status : ℕ

def exitDaemonError : ℕ := 2
def exitClientError : ℕ := 3

/-- A text with its newline; nothing is written for an empty one. -/
def printed (s : String) : String := if s = "" then "" else s ++ "\n"

def Output.emit (o : Output) : Ended :=
  ⟨printed o.stdout, printed o.stderr,
    match o.dispatch with
    | .ok => 0
    | .daemonError => exitDaemonError⟩

def clientError (err : Error) : Ended :=
  ⟨"", "error: " ++ err.display ++ " [" ++ err.failureClass.display ++ "]\n", exitClientError⟩

def main (args : Args) : Program (Step.Reply Time) Ended := do
  match ← (dispatch pr now args).run with
  | .ok output => return output.emit
  | .error err => return clientError err

end Run

/-! ### The daemon at the other end -/

/-- The socket, and what the daemon's handler asks. A message may be lost on either way. -/
inductive Line where
  | connect
  | send
  | receive
  | ask (a : DaemonHandler.Ask)

@[reducible] def Line.Reply (Time : Type) : Line → Type
  | .connect => Bool
  | .send | .receive => Option String
  | .ask a => a.Reply Time

/-- An exchange: the request goes to the handler, its reply back. -/
def exchange (req : Request) : Program (Line.Reply Time) (Except String (Response Time)) := do
  let sent : Option String ← Program.command Line.send
  match sent with
  | some e => return .error e
  | none =>
    let resp ← (DaemonHandler.handle req).through fun a => Program.command (Line.ask a)
    let received : Option String ← Program.command Line.receive
    match received with
    | some e => return .error e
    | none => return .ok resp

def serve : (s : Step) → Program (Line.Reply Time) (s.Reply Time)
  | .connect => Program.command Line.connect
  | .call req => exchange req

end Aegis.Cli
