import Aegis.Core.Base

/-! The session state graph and the preflight checklist. -/
namespace Aegis

/-- The lifecycle state of a session. -/
inductive SessionState where
  | requested
  | provisioning
  | gatewayStarting
  | preflight
  | browsing
  | closing
  | destroyed
  | failed
  deriving DecidableEq

namespace SessionState

/-- The name the state is serialized with. -/
def asStr : SessionState → String
  | requested => "requested"
  | provisioning => "provisioning"
  | gatewayStarting => "gateway-starting"
  | preflight => "preflight"
  | browsing => "browsing"
  | closing => "closing"
  | destroyed => "destroyed"
  | failed => "failed"

/-- The name the state has in error texts. -/
def debug : SessionState → String
  | requested => "Requested"
  | provisioning => "Provisioning"
  | gatewayStarting => "GatewayStarting"
  | preflight => "Preflight"
  | browsing => "Browsing"
  | closing => "Closing"
  | destroyed => "Destroyed"
  | failed => "Failed"

/-- The canonical successor states. -/
def allowedNext : SessionState → List SessionState
  | requested => [provisioning, failed, closing]
  | provisioning => [gatewayStarting, failed, closing]
  | gatewayStarting => [preflight, failed, closing]
  | preflight => [browsing, failed, closing]
  | browsing => [closing, failed]
  | closing => [destroyed, failed]
  | destroyed => []
  | failed => [closing, destroyed]

def canTransitionTo (s next : SessionState) : Bool := next ∈ s.allowedNext

def isTerminal : SessionState → Bool
  | destroyed => true
  | _ => false

def isBrowsing : SessionState → Bool
  | browsing => true
  | _ => false

/-- A session being torn down or already torn down. -/
def Ended (s : SessionState) : Prop := s = closing ∨ s = destroyed ∨ s = failed

instance (s : SessionState) : Decidable s.Ended :=
  inferInstanceAs (Decidable (s = closing ∨ s = destroyed ∨ s = failed))

/-- `Browsing` is entered from `Preflight` only. -/
theorem canTransitionTo_browsing {s : SessionState} :
    s.canTransitionTo browsing = true ↔ s = preflight := by
  cases s <;> simp [canTransitionTo, allowedNext]

/-- The state graph never leads out of the ended states. -/
theorem Ended.next {s t : SessionState} (hs : s.Ended) (h : s.canTransitionTo t = true) :
    t.Ended := by
  rcases hs with rfl | rfl | rfl <;> cases t <;>
    simp_all [canTransitionTo, allowedNext, Ended]

/-- From every state, `Closing` is either allowed or the session has already ended. -/
theorem closing_or_ended (s : SessionState) : s.canTransitionTo closing = true ∨ s.Ended := by
  cases s <;> simp [canTransitionTo, allowedNext, Ended]

end SessionState

/-- The six mandatory preflight checks. -/
inductive CheckId where
  | gatewayReady
  | tunnelReady
  | dnsRouteVerified
  | publicIpObserved
  | webrtcPolicyLoaded
  | ipv6PolicyVerified
  deriving DecidableEq

namespace CheckId

/-- All checks, in execution order. -/
def all : List CheckId :=
  [gatewayReady, tunnelReady, dnsRouteVerified, publicIpObserved, webrtcPolicyLoaded,
    ipv6PolicyVerified]

def asStr : CheckId → String
  | gatewayReady => "gateway_ready"
  | tunnelReady => "tunnel_ready"
  | dnsRouteVerified => "dns_route_verified"
  | publicIpObserved => "public_ip_observed"
  | webrtcPolicyLoaded => "webrtc_policy_loaded"
  | ipv6PolicyVerified => "ipv6_policy_verified"

end CheckId

inductive CheckOutcome where
  | pass
  | fail
  | skipped
  deriving DecidableEq

namespace CheckOutcome

def isPass : CheckOutcome → Bool
  | pass => true
  | _ => false

def asStr : CheckOutcome → String
  | pass => "pass"
  | fail => "fail"
  | skipped => "skipped"

end CheckOutcome

structure CheckReport where
  id : CheckId
  outcome : CheckOutcome
  detail : String
  deriving DecidableEq

/-- An observation of the session's public address from inside the session. -/
structure IpObservation where
  ip : String
  viaTunnel : Bool
  differsFromHost : Bool
  deriving DecidableEq

inductive ProtectionStatus where
  | active
  | partialProtection
  | unsafeConfiguration
  | noProtection
  deriving DecidableEq

def ProtectionStatus.permitsBrowsing : ProtectionStatus → Bool
  | active => true
  | _ => false

structure ConnectivityChecklist where
  reports : List CheckReport
  observedIp : Option IpObservation
  deriving DecidableEq

namespace ConnectivityChecklist

def new (reports : List CheckReport) : ConnectivityChecklist := ⟨reports, none⟩

def report (c : ConnectivityChecklist) (id : CheckId) : Option CheckReport :=
  c.reports.find? fun r => r.id = id

/-- Whether the check has a report and it passed; a missing report does not pass. -/
def passed (c : ConnectivityChecklist) (id : CheckId) : Bool :=
  ((c.report id).map fun r => r.outcome.isPass).getD false

def allPassed (c : ConnectivityChecklist) : Bool := CheckId.all.all c.passed

def failures (c : ConnectivityChecklist) : List CheckId :=
  CheckId.all.filter fun id => !c.passed id

def status (c : ConnectivityChecklist) : ProtectionStatus :=
  if c.allPassed then .active
  else if !c.passed .gatewayReady || !c.passed .tunnelReady then .noProtection
  else .unsafeConfiguration

def permitsBrowsing (c : ConnectivityChecklist) : Bool := c.status.permitsBrowsing

/-- A checklist permits browsing exactly when its status is `Active`. -/
theorem permitsBrowsing_iff (c : ConnectivityChecklist) :
    c.permitsBrowsing = true ↔ c.status = .active := by
  unfold permitsBrowsing
  cases c.status <;> simp [ProtectionStatus.permitsBrowsing]

/-- The status is `Active` exactly when no mandatory check failed or is missing. -/
theorem status_active_iff (c : ConnectivityChecklist) :
    c.status = .active ↔ c.failures = [] := by
  have hf : c.failures = [] ↔ c.allPassed = true := by
    simp [failures, allPassed, List.filter_eq_nil_iff]
  rw [hf]
  unfold status
  split_ifs <;> simp_all

end ConnectivityChecklist

/-- The running view of a session. -/
structure SessionSummary where
  id : SessionId
  profile : ProfileId
  state : SessionState
  protection : ProtectionStatus
  publicIp : Option String
  deriving DecidableEq

def SessionSummary.isSafe (s : SessionSummary) : Bool :=
  s.state.isBrowsing && s.protection.permitsBrowsing

end Aegis
