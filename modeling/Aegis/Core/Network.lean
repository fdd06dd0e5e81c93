import Aegis.Core.Base

/-! Network modes, gateway configuration, the declarative firewall policy and the health types. -/
namespace Aegis

/-- A 16-bit port number. -/
abbrev Port := BitVec 16

/-- A handle to a secret held in secure storage. -/
structure CredentialRef where
  id : String
  deriving DecidableEq

structure TorConfig where
  useBridges : Bool
  bridges : List String
  exitCountry : Option String
  deriving DecidableEq

namespace TorConfig

def default : TorConfig := ⟨false, [], none⟩

end TorConfig

inductive VpnProtocol where
  | wireGuard
  | openVpn
  deriving DecidableEq

structure VpnConfig where
  protocol : VpnProtocol
  endpoint : String
  credentialsRef : CredentialRef
  dnsServers : List String
  deriving DecidableEq

inductive ProxyProtocol where
  | socks5
  | httpConnect
  deriving DecidableEq

structure ProxyConfig where
  protocol : ProxyProtocol
  host : String
  port : Port
  credentialsRef : Option CredentialRef
  remoteDns : Bool
  deriving DecidableEq

/-- The outbound tunnel of a session. -/
inductive NetworkMode where
  | tor (cfg : TorConfig)
  | vpn (cfg : VpnConfig)
  | proxy (cfg : ProxyConfig)
  deriving DecidableEq

namespace NetworkMode

def label : NetworkMode → String
  | tor _ => "Tor"
  | vpn _ => "VPN"
  | proxy _ => "Proxy"

def isTor : NetworkMode → Bool
  | tor _ => true
  | _ => false

end NetworkMode

inductive DnsMode where
  | torDnsPort
  | tunnelDns
  | proxyRemote
  | staticDns
  deriving DecidableEq

structure DnsPolicy where
  mode : DnsMode
  servers : List String
  blockPlainDns : Bool
  deriving DecidableEq

/-- Capture all DNS to Tor's `DNSPort`. -/
def DnsPolicy.tor : DnsPolicy := ⟨.torDnsPort, [], true⟩

/-- The DNS policy implied by a mode. -/
def NetworkMode.defaultDnsPolicy : NetworkMode → DnsPolicy
  | .tor _ => DnsPolicy.tor
  | .vpn cfg => ⟨.tunnelDns, cfg.dnsServers, true⟩
  | .proxy cfg => if cfg.remoteDns then ⟨.proxyRemote, [], true⟩ else ⟨.proxyRemote, [], true⟩

/-- Every mode's default blocks plain DNS. -/
theorem NetworkMode.defaultDnsPolicy_blocks (m : NetworkMode) :
    m.defaultDnsPolicy.blockPlainDns = true := by
  cases m <;> simp [defaultDnsPolicy, DnsPolicy.tor]

inductive Ipv6Policy where
  | block
  | routeThroughTunnel
  deriving DecidableEq

structure NetworkConfig where
  mode : NetworkMode
  dns : DnsPolicy
  ipv6 : Ipv6Policy
  deriving DecidableEq

def NetworkConfig.fromMode (mode : NetworkMode) : NetworkConfig :=
  ⟨mode, mode.defaultDnsPolicy, .block⟩

def NetworkConfig.default : NetworkConfig := .fromMode (.tor .default)

/-- The gateway configuration derived from a profile's network settings. -/
structure GatewayConfig where
  mode : NetworkMode
  dns : DnsPolicy
  ipv6 : Ipv6Policy
  downstreamCidr : String
  gatewayAddress : String
  deriving DecidableEq

inductive DefaultPolicy where
  | drop
  | accept
  deriving DecidableEq

/-- The declarative policy that is rendered into nftables. -/
structure FirewallPolicy where
  defaultPolicy : DefaultPolicy
  redirectDnsTo : Option Port
  redirectTcpTo : Option Port
  blockDirectUdp : Bool
  ipv6 : Ipv6Policy
  rejectHostInitiated : Bool
  deriving DecidableEq

namespace FirewallPolicy

/-- The fail-closed policy of a configuration. -/
def failClosed (cfg : GatewayConfig) : FirewallPolicy where
  defaultPolicy := .drop
  redirectDnsTo := match cfg.mode with | .tor _ => some 5353 | _ => none
  redirectTcpTo := match cfg.mode with | .tor _ => some 9040 | _ => none
  blockDirectUdp := true
  ipv6 := cfg.ipv6
  rejectHostInitiated := true

/-- The reason a policy is unsafe, if it is. -/
def validate (p : FirewallPolicy) : Option String :=
  if p.defaultPolicy ≠ .drop then some "firewall default policy must be Drop"
  else if !p.blockDirectUdp then some "direct UDP must be blocked"
  else if !p.rejectHostInitiated then some "host-initiated traffic must be rejected"
  else none

theorem validate_eq_none {p : FirewallPolicy} : p.validate = none ↔
    p.defaultPolicy = .drop ∧ p.blockDirectUdp = true ∧ p.rejectHostInitiated = true := by
  unfold validate
  split_ifs <;> simp_all

/-- The fail-closed policy passes its own validation, for every configuration. -/
theorem failClosed_validate (cfg : GatewayConfig) : (failClosed cfg).validate = none := by
  simp [validate_eq_none, failClosed]

end FirewallPolicy

inductive TunnelState where
  | down
  | connecting
  | up
  | failed
  deriving DecidableEq

def TunnelState.isUp : TunnelState → Bool
  | up => true
  | _ => false

structure TunnelStatus where
  state : TunnelState
  bootstrapPercent : Option ℕ
  detail : Option String
  deriving DecidableEq

def TunnelStatus.up : TunnelStatus := ⟨.up, some 100, none⟩

inductive KillSwitchState where
  | armed
  | engaged
  deriving DecidableEq

def KillSwitchState.allowsTraffic : KillSwitchState → Bool
  | armed => true
  | engaged => false

structure GatewayHealth where
  gatewayUp : Bool
  firewallApplied : Bool
  tunnel : TunnelStatus
  killswitch : KillSwitchState
  deriving DecidableEq

def GatewayHealth.isReady (h : GatewayHealth) : Bool :=
  h.gatewayUp && h.firewallApplied && h.tunnel.state.isUp && h.killswitch.allowsTraffic

end Aegis
