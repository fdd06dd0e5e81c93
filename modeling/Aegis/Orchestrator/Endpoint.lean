import Aegis.Gateway.Containment
import Aegis.Orchestrator.Gate

/-! The proxy endpoint a browser is launched with, and what the gateway's own ruleset does with
the connections to it. -/
namespace Aegis.Orchestrator
open Gateway

/-- The address and the port an endpoint names. -/
def proxyAddress (endpoint : String) : Option (BitVec 32 × Port) :=
  match HostProxy.parse endpoint with
  | .ok proxy => (Nft.parseCidr (proxy.probeHost ++ "/32")).map fun s => (s.addr, proxy.probePort)
  | .error _ => none

/-- The first packet of a TCP connection from the browser subnet to an address and a port. -/
structure Dials (cidr : String) (addr : BitVec 32) (port : Port) (p : Nft.Packet) : Prop where
  downstream : FromDownstream cidr p
  segment : ∃ sport flags, p.transport = .tcp sport port flags
  daddr : ∃ s, p.net = .ipv4 s addr

/-- Every connection to the endpoint is delivered to the address and the port it names. -/
def Admits (h : Nft.Host) (cfg : GatewayConfig) (endpoint : String) : Prop :=
  ∃ addr port, proxyAddress endpoint = some (addr, port) ∧
    ∀ p, Dials cfg.downstreamCidr addr port p →
      h.receive (ruleset (.failClosed cfg) cfg) p = .delivered p

section Receive

variable {policy : FirewallPolicy} {cfg : GatewayConfig} {h : Nft.Host} {p : Nft.Packet}
  {sport port : Port} {flags : BitVec 8}

/-- A redirected packet has the port it is redirected to. -/
theorem dport_redirect (hp : FromDownstream cfg.downstreamCidr p)
    (ht : p.transport = .tcp sport port flags) (target : Port) :
    (h.redirect target p).dport = some target := by
  obtain ⟨s, d, hnet, -⟩ := hp.saddr
  simp [Nft.Host.redirect, hnet, Nft.Packet.setDport, ht, Nft.Packet.dport]

/-- A segment for a port that is neither captured nor opened does not get there. -/
theorem receive_ne_delivered (hp : FromDownstream cfg.downstreamCidr p)
    (ht : p.transport = .tcp sport port flags) (hport : port ≠ 53)
    (hdns : policy.redirectDnsTo ≠ some port) (htcp : policy.redirectTcpTo ≠ some port) :
    h.receive (ruleset policy cfg) p ≠ .delivered p := by
  intro heq
  simp only [Nft.Host.receive, prerouting_ruleset h hp] at heq
  cases htarget : redirectTarget policy p with
  | some target =>
    obtain ⟨-, hlocal⟩ := hp.redirect h target
    have hto : policy.redirectTcpTo = some target := by
      unfold redirectTarget at htarget
      simp only [ht, if_neg hport] at htarget
      split_ifs at htarget
      exact htarget
    rw [htarget] at heq
    simp only [hlocal, if_true] at heq
    split_ifs at heq
    have hsame : h.redirect target p = p := Nft.Outcome.delivered.inj heq
    have hd := dport_redirect (h := h) hp ht target
    rw [hsame] at hd
    have hself : p.dport = some port := by simp [Nft.Packet.dport, ht]
    rw [hself] at hd
    exact htcp (hd ▸ hto)
  | none =>
    rw [htarget] at heq
    dsimp only at heq
    split_ifs at heq with hlocal hpass
    rw [passes_input, accepts_inputChain hp] at hpass
    have hopen : policy.redirectDnsTo = some port ∨ policy.redirectTcpTo = some port := by
      simpa [opensInput, ht] using hpass
    exact hopen.elim hdns htcp

end Receive

/-- The port of the endpoint: Tor's SOCKS port, or that of the transparent proxy. -/
def endpointPort (cfg : GatewayConfig) : Port := if cfg.mode.isTor then 9050 else 1080

theorem proxyAddress_browserLaunchRequest (s : SessionId) (profile : Profile)
    (network : NetworkConfig) :
    proxyAddress (browserLaunchRequest s profile (gatewayConfig network)).proxyEndpoint =
      some (0x0A989801#32, endpointPort (gatewayConfig network)) := by
  have htor : proxyAddress "socks5://10.152.152.1:9050" = some (0x0A989801#32, 9050) := by
    decide +kernel
  have hother : proxyAddress "socks5://10.152.152.1:1080" = some (0x0A989801#32, 1080) := by
    decide +kernel
  unfold browserLaunchRequest endpointPort gatewayConfig
  cases network.mode with
  | tor c => exact htor
  | vpn c => exact hother
  | proxy c => exact hother

/-- No mode captures or opens the port of the endpoint. -/
theorem endpointPort_closed (cfg : GatewayConfig) : endpointPort cfg ≠ 53 ∧
    (FirewallPolicy.failClosed cfg).redirectDnsTo ≠ some (endpointPort cfg) ∧
    (FirewallPolicy.failClosed cfg).redirectTcpTo ≠ some (endpointPort cfg) := by
  unfold endpointPort FirewallPolicy.failClosed
  cases cfg.mode <;> simp [NetworkMode.isTor]

/-- The browser at `10.152.152.5` opens a connection to the gateway. -/
def dialing (port : Port) : Nft.Packet where
  iif := "eth1"
  oif := ""
  net := .ipv4 0x0A989805#32 0x0A989801#32
  transport := .tcp 40000 port 2
  ct := .new

theorem dials_dialing (network : NetworkConfig) (port : Port) :
    Dials (gatewayConfig network).downstreamCidr 0x0A989801#32 port (dialing port) := by
  refine ⟨⟨rfl, ?_, _, _, rfl, ?_⟩, ⟨_, _, rfl⟩, _, rfl⟩
  · change "eth1" ≠ "lo"
    decide
  · change Nft.inCidr "10.152.152.0/24" 0x0A989805#32 = true
    decide

/-- The endpoint a browser of the profile is launched with. -/
def endpointOf (s : SessionId) (profile : Profile) : String :=
  (browserLaunchRequest s profile (gatewayConfig profile.spec.network)).proxyEndpoint

/-- Whatever the profile's network is, the endpoint is not admitted: no connection to it is
delivered to the address and the port it names. -/
theorem proxyEndpoint_never_admitted (h : Nft.Host) (s : SessionId) (profile : Profile) :
    ¬ Admits h (gatewayConfig profile.spec.network) (endpointOf s profile) ∧
    ∀ addr port p, proxyAddress (endpointOf s profile) = some (addr, port) →
      Dials (gatewayConfig profile.spec.network).downstreamCidr addr port p →
        h.receive (ruleset (.failClosed (gatewayConfig profile.spec.network))
          (gatewayConfig profile.spec.network)) p ≠ .delivered p := by
  have haddr := proxyAddress_browserLaunchRequest s profile profile.spec.network
  have hnever (addr : BitVec 32) (port : Port) (p : Nft.Packet)
      (hread : proxyAddress (endpointOf s profile) = some (addr, port))
      (hp : Dials (gatewayConfig profile.spec.network).downstreamCidr addr port p) :
      h.receive (ruleset (.failClosed (gatewayConfig profile.spec.network))
        (gatewayConfig profile.spec.network)) p ≠ .delivered p := by
    unfold endpointOf at hread
    rw [haddr] at hread
    cases hread
    obtain ⟨sport, flags, ht⟩ := hp.segment
    obtain ⟨hport, hdns, htcp⟩ := endpointPort_closed (gatewayConfig profile.spec.network)
    exact receive_ne_delivered hp.downstream ht hport hdns htcp
  refine ⟨?_, hnever⟩
  rintro ⟨addr, port, hread, hall⟩
  have hport : addr = 0x0A989801#32 := by
    unfold endpointOf at hread
    rw [haddr] at hread
    cases hread
    rfl
  subst hport
  exact hnever _ port (dialing port) hread (dials_dialing _ _) (hall _ (dials_dialing _ _))

/-- Under Tor the connection to the SOCKS port ends at the transparent port instead. -/
theorem torEndpoint_redirected :
    ¬ Admits (gatewayHost "eth0") (gatewayConfig (torProfile ⟨0⟩).spec.network)
      (endpointOf ⟨0⟩ (torProfile ⟨0⟩)) ∧
    (gatewayHost "eth0").receive
      (ruleset (.failClosed (gatewayConfig (torProfile ⟨0⟩).spec.network))
        (gatewayConfig (torProfile ⟨0⟩).spec.network)) (dialing 9050) =
      .delivered (dialing 9040) := by
  have hreceive : (gatewayHost "eth0").receive
      (ruleset (.failClosed (gatewayConfig (torProfile ⟨0⟩).spec.network))
        (gatewayConfig (torProfile ⟨0⟩).spec.network)) (dialing 9050) =
      .delivered (dialing 9040) := by decide +kernel
  refine ⟨?_, hreceive⟩
  rintro ⟨addr, port, haddr, hall⟩
  unfold endpointOf at haddr
  rw [proxyAddress_browserLaunchRequest] at haddr
  cases haddr
  have hdelivered := hall (dialing 9050) (dials_dialing _ _)
  rw [hreceive] at hdelivered
  exact absurd hdelivered (by decide)

end Aegis.Orchestrator
