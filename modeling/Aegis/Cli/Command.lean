import Aegis.Ipc.Protocol
import Aegis.Orchestrator.Toggles

/-! The command line: the parsed arguments and the requests they become. -/
namespace Aegis.Cli
open Ipc
open Orchestrator (EnforcementArgs)

/-! ### The arguments -/

inductive ProfileKindArg where
  | ephemeral
  | persistent

def ProfileKindArg.toDomain : ProfileKindArg → ProfileType
  | ephemeral => .ephemeral
  | persistent => .persistent

inductive NetArg where
  | tor
  | vpn
  | proxy
  deriving DecidableEq

inductive IsolationArg where
  | vm
  | host
  deriving DecidableEq

def IsolationArg.toDomain : IsolationArg → IsolationLevel
  | vm => .fullVm
  | host => .hostProcess

inductive BrowserArg where
  | chromium
  | firefox

def BrowserArg.toDomain : BrowserArg → BrowserBackendId
  | chromium => .chromium
  | firefox => .firefox

inductive ProxyKindArg where
  | socks5
  | http

def ProxyKindArg.toDomain : ProxyKindArg → ProxyProtocol
  | socks5 => .socks5
  | http => .httpConnect

inductive ProtectionArg where
  | balanced
  | strict

def ProtectionArg.toDomain : ProtectionArg → ProtectionLevel
  | balanced => .balanced
  | strict => .strict

/-- The arguments of `profile create`. -/
structure ProfileCreateArgs where
  name : String
  kind : ProfileKindArg
  net : NetArg
  protection : ProtectionArg
  isolation : IsolationArg
  browser : BrowserArg
  proxyKind : ProxyKindArg
  proxyHost : Option String
  proxyPort : Option Port
  torBridge : List String

/-- The commands; an id is still the text that was given. -/
inductive Command where
  | profileCreate (args : ProfileCreateArgs)
  | profileList
  | profileShow (id : String)
  | profileRm (id : String)
  | sessionStart (profile : String)
  | sessionStop (id : String)
  | sessionList
  | diagnostics (session : String)
  | status
  | configEnforcement (args : EnforcementArgs)
  | doctor
  | updateCheck
  | updateApply

/-! ### The requests -/

def parseProfileId (s : String) : Result ProfileId :=
  match Uuid.parse s with
  | some u => .ok ⟨u⟩
  | none => .error (.config ("not a valid profile id: " ++ s))

def parseSessionId (s : String) : Result SessionId :=
  match Uuid.parse s with
  | some u => .ok ⟨u⟩
  | none => .error (.config ("not a valid session id: " ++ s))

/-- The network of a new profile. A VPN gets placeholders, which the daemon refuses. -/
def networkMode (args : ProfileCreateArgs) : Result NetworkMode :=
  match args.net with
  | .tor => .ok (.tor ⟨!args.torBridge.isEmpty, args.torBridge, none⟩)
  | .vpn => .ok (.vpn ⟨.wireGuard, "", ⟨""⟩, []⟩)
  | .proxy =>
    match args.proxyHost.filter fun h => Text.trim h ≠ "", args.proxyPort with
    | some host, some port => .ok (.proxy ⟨args.proxyKind.toDomain, host, port, none, true⟩)
    | _, _ =>
      .error (.config "--net proxy requires --proxy-host <H> and --proxy-port <P>")

def buildSpec (args : ProfileCreateArgs) : Result Ipc.ProfileSpec :=
  if args.isolation = .host ∧ args.net = .vpn then
    .error (.config ("host mode supports Tor or a SOCKS5/HTTP proxy, not a VPN — use full VM " ++
      "isolation (--isolation vm) for a VPN"))
  else do
    let mode ← networkMode args
    return {
      name := args.name
      kind := args.kind.toDomain
      network := .fromMode mode
      protection := args.protection.toDomain
      isolation := args.isolation.toDomain
      browser := args.browser.toDomain
      fingerprint := none
      permissions := .secureDefault }

/-- The version the command line is built with. -/
def version : String := "0.1.0"

def currentVersionInfo : VersionInfo :=
  match Version.fromStr version with
  | .ok current => ⟨current⟩
  | .error _ => ⟨⟨0, 0, 0⟩⟩

example : currentVersionInfo.current = ⟨0, 1, 0⟩ := by decide

def buildRequest : Command → Result Request
  | .profileCreate args => do return .createProfile (← buildSpec args)
  | .profileList | .profileShow _ => .ok .listProfiles
  | .profileRm id => do return .deleteProfile (← parseProfileId id)
  | .sessionStart profile => do return .startSession ⟨← parseProfileId profile, none⟩
  | .sessionStop id => do return .stopSession (← parseSessionId id)
  | .sessionList => .ok .listSessions
  | .diagnostics session => do return .getDiagnostics (← parseSessionId session)
  | .status => .ok .getStatus
  | .configEnforcement _ => .ok .getEnforcement
  | .doctor => .ok .doctor
  | .updateCheck => .ok (.checkUpdate currentVersionInfo)
  | .updateApply => .error (.internal "update apply is dispatched via its own path")

end Aegis.Cli
