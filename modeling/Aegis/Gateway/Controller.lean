import Aegis.Gateway.Render
import Aegis.Lib.Text
import Aegis.Lib.Transition

/-! The nftables-backed gateway controller. A call advances one step at a time: an external
command, or one access to the state behind the mutex. -/
namespace Aegis.Gateway
open Nft

/-- What an external command produced. -/
structure CommandOutput where
  code : Option ℤ
  stdout : String
  stderr : String
  deriving DecidableEq

def CommandOutput.success (o : CommandOutput) : Bool := o.code = some 0

/-- The exit code as the error texts show it. -/
def CommandOutput.codeText (o : CommandOutput) : String :=
  match o.code with
  | some c => "Some(" ++ toString c ++ ")"
  | none => "None"

/-- The controller's state behind its mutex. -/
structure State where
  config : Option GatewayConfig
  firewall : Option FirewallPolicy
  firewallApplied : Bool
  killswitch : KillSwitchState

def State.default : State := ⟨none, none, false, .armed⟩

inductive Request where
  | configure (cfg : GatewayConfig)
  | applyFirewall (policy : FirewallPolicy)
  | tunnelStatus
  | engageKillswitch
  | releaseKillswitch
  | killswitchState
  | health

inductive Reply where
  | unit (result : Result Unit)
  | tunnel (result : Result TunnelStatus)
  | killswitch (result : Result KillSwitchState)
  | health (result : Result GatewayHealth)

/-- How far a call has come. `cutLoad` and `cutRecord` are the two steps of the controller's
`fail_closed`, with the reply that follows them. -/
inductive Call where
  | configureBackend (cfg : GatewayConfig)
  | configureStore (cfg : GatewayConfig)
  | applyRead (policy : FirewallPolicy)
  | applyLoad (policy : FirewallPolicy) (cfg : GatewayConfig)
  | applyRecord (policy : FirewallPolicy)
  | statusRead
  | statusProbe (mode : NetworkMode)
  | engageLoad
  | engageRecord (result : Result Unit)
  | releaseRead
  | releaseLoad (policy : FirewallPolicy) (cfg : GatewayConfig)
  | releaseRecord
  | killswitchRead
  | healthRead
  | healthReadMode (firewallApplied : Bool) (killswitch : KillSwitchState)
  | healthProbe (mode : NetworkMode) (firewallApplied : Bool) (killswitch : KillSwitchState)
  | cutLoad (reply : Reply)
  | cutRecord (reply : Reply)
  | done (reply : Reply)

def Request.call : Request → Call
  | configure cfg => .configureBackend cfg
  | applyFirewall policy => .applyRead policy
  | tunnelStatus => .statusRead
  | engageKillswitch => .engageLoad
  | releaseKillswitch => .releaseRead
  | killswitchState => .killswitchRead
  | health => .healthRead

/-- The result of `load_ruleset` and the tables after it. -/
def loadRuleset (tables : List Table) (script : List Command) :
    Result CommandOutput → Result Unit × List Table
  | .error e => (.error e, tables)
  | .ok out =>
    if out.success then (.ok (), (load tables script).getD tables)
    else (.error (.system ("nft load failed (code " ++ out.codeText ++ "): " ++
      Text.trim out.stderr)), tables)

/-- The result of `start_backend`. -/
def startBackend : Result CommandOutput → Result Unit
  | .error e => .error e
  | .ok out =>
    if out.success then .ok ()
    else .error (.system ("backend start failed (code " ++ out.codeText ++ "): " ++
      Text.trim out.stderr))

/-- A bare percentage or `PROGRESS=NN`: the first word of the output that is one. -/
def bootstrapPercent (stdout : String) : ℕ :=
  min (((Text.splitWhitespace stdout.toList).findSome? fun tok =>
    Text.parseUnsigned 256
      ((Text.stripPrefix "PROGRESS=".toList tok).getD tok)).getD 0) 100

def parseTorBootstrap (stdout : String) : TunnelStatus :=
  let pct := bootstrapPercent stdout
  { state := if pct = 100 then .up else if 1 ≤ pct ∧ pct ≤ 99 then .connecting else .down
    bootstrapPercent := some pct
    detail := none }

/-- The result of `probe_status`. -/
def probeStatus (mode : NetworkMode) : Result CommandOutput → Result TunnelStatus
  | .error e => .error e
  | .ok out =>
    match mode with
    | .tor _ =>
      if !out.success then .ok ⟨.failed, none, some "tor bootstrap probe failed"⟩
      else .ok (parseTorBootstrap out.stdout)
    | .vpn _ | .proxy _ =>
      if out.success then .ok .up
      else .ok ⟨.failed, none, some "tunnel probe reported failure"⟩

/-- What `health` reports of a tunnel state. -/
def healthOf (configured firewallApplied : Bool) (killswitch : KillSwitchState)
    (tunnel : TunnelStatus) : Reply :=
  .health (.ok
    { gatewayUp := configured && killswitch.allowsTraffic
      firewallApplied := firewallApplied
      tunnel := tunnel
      killswitch := killswitch })

/-- A step that runs an external command with the given outcome. -/
def Call.run (tables : List Table) (out : Result CommandOutput) :
    Call → Option (List Table × Call)
  | configureBackend cfg =>
    match startBackend out with
    | .error e => some (tables, cutLoad (.unit (.error e)))
    | .ok () => some (tables, configureStore cfg)
  | applyLoad policy cfg =>
    match loadRuleset tables (renderNftables policy cfg) out with
    | (.error e, tables') => some (tables', cutLoad (.unit (.error e)))
    | (.ok (), tables') => some (tables', applyRecord policy)
  | statusProbe mode =>
    match probeStatus mode out with
    | .error e => some (tables, cutLoad (.tunnel (.error e)))
    | .ok status =>
      if status.state = .failed then some (tables, cutLoad (.tunnel (.ok status)))
      else some (tables, done (.tunnel (.ok status)))
  | engageLoad =>
    let (result, tables') := loadRuleset tables renderKillswitch out
    some (tables', engageRecord result)
  | releaseLoad policy cfg =>
    match loadRuleset tables (renderNftables policy cfg) out with
    | (.error e, tables') => some (tables', cutLoad (.unit (.error e)))
    | (.ok (), tables') => some (tables', releaseRecord)
  | healthProbe mode applied killswitch =>
    let tunnel := match probeStatus mode out with
      | .ok status => status
      | .error _ => ⟨.failed, none, some "status probe errored"⟩
    some (tables, done (healthOf true applied killswitch tunnel))
  | cutLoad reply => some ((loadRuleset tables renderKillswitch out).2, cutRecord reply)
  | _ => none

/-- A step that accesses the state behind the mutex. -/
def Call.access (st : State) : Call → Option (State × Call)
  | configureStore cfg => some ({ st with config := some cfg }, done (.unit (.ok ())))
  | applyRead policy =>
    match policy.validate with
    | some reason =>
      some (st, done (.unit (.error (.config ("unsafe firewall policy: " ++ reason)))))
    | none =>
      match st.config with
      | none => some (st, done (.unit (.error
          (.precondition "configure() must run before apply_firewall()"))))
      | some cfg => some (st, applyLoad policy cfg)
  | applyRecord policy =>
    some ({ st with firewall := some policy, firewallApplied := true, killswitch := .armed },
      done (.unit (.ok ())))
  | statusRead =>
    match st.config with
    | none => some (st, done (.tunnel (.error (.precondition "gateway not configured"))))
    | some cfg => some (st, statusProbe cfg.mode)
  | engageRecord result =>
    some ({ st with killswitch := .engaged, firewallApplied := false }, done (.unit result))
  | releaseRead =>
    match st.config, st.firewall with
    | none, _ => some (st, done (.unit (.error
        (.precondition "cannot release kill switch: no validated configuration"))))
    | some _, none => some (st, done (.unit (.error
        (.precondition "cannot release kill switch: no validated firewall policy"))))
    | some cfg, some policy =>
      match policy.validate with
      | some reason => some (st, cutLoad (.unit (.error
          (.config ("stored firewall policy no longer valid: " ++ reason)))))
      | none => some (st, releaseLoad policy cfg)
  | releaseRecord =>
    some ({ st with killswitch := .armed, firewallApplied := true }, done (.unit (.ok ())))
  | killswitchRead => some (st, done (.killswitch (.ok st.killswitch)))
  | healthRead =>
    if st.config.isSome then some (st, healthReadMode st.firewallApplied st.killswitch)
    else some (st, done (healthOf false st.firewallApplied st.killswitch
      ⟨.down, none, some "not configured"⟩))
  | healthReadMode applied killswitch =>
    match st.config with
    | some cfg => some (st, healthProbe cfg.mode applied killswitch)
    | none => some (st, done (healthOf true applied killswitch ⟨.down, none, none⟩))
  | cutRecord reply =>
    some ({ st with killswitch := .engaged, firewallApplied := false }, done reply)
  | _ => none

/-- The controller, the host's tables and the calls in progress. -/
structure System where
  state : State
  tables : List Table
  calls : TaskId → Option Call

/-- A step of the gateway: a call begins, runs its next command or accesses the state. -/
inductive Op where
  | begin (t : TaskId) (req : Request)
  | run (t : TaskId) (out : Result CommandOutput)
  | access (t : TaskId)

namespace System

def setCall (s : System) (t : TaskId) (c : Call) : System :=
  { s with calls := Function.update s.calls t (some c) }

@[simp, grind =] theorem setCall_calls (s : System) (t u : TaskId) (c : Call) :
    (s.setCall t c).calls u = if u = t then some c else s.calls u := by
  simp [setCall, Function.update_apply]

/-- The task has no call in progress. -/
def idle (s : System) (t : TaskId) : Bool :=
  match s.calls t with
  | none | some (.done _) => true
  | _ => false

/-- One step; every step is a step of one call. -/
def step (s : System) : Op → Option System
  | .begin t req => if s.idle t then some (s.setCall t req.call) else none
  | .run t out =>
    match s.calls t with
    | none => none
    | some c => (c.run s.tables out).map fun r => { s.setCall t r.2 with tables := r.1 }
  | .access t =>
    match s.calls t with
    | none => none
    | some c => (c.access s.state).map fun r => { s.setCall t r.2 with state := r.1 }

/-- The controller as `new` builds it, on a host with the given tables. -/
def initial (tables : List Table) : System := ⟨.default, tables, fun _ => none⟩

end System

end Aegis.Gateway
