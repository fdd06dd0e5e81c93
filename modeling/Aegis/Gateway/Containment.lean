import Aegis.Gateway.Render

/-! What the rendered ruleset does with the first packet of a flow from the browser subnet:
which packets it redirects, delivers to the gateway, forwards or blocks. -/
namespace Aegis.Gateway
open Nft

/-- The tables in force after the rendered script is loaded into an empty ruleset. -/
def ruleset (policy : FirewallPolicy) (cfg : GatewayConfig) : List Table :=
  (load [] (renderNftables policy cfg)).getD []

theorem ruleset_eq (policy : FirewallPolicy) (cfg : GatewayConfig) :
    ruleset policy cfg = [aegisTable policy cfg] := by
  simp [ruleset, load_renderNftables]

/-- The first packet of a flow from the downstream subnet: an IPv4 packet whose source is
in the subnet, arriving on an interface other than loopback. -/
structure FromDownstream (cidr : String) (p : Packet) : Prop where
  new : p.ct = .new
  iif : p.iif ≠ loopback
  saddr : ∃ s d, p.net = .ipv4 s d ∧ inCidr cidr s = true

/-- The port the prerouting chain redirects a downstream packet to. -/
def redirectTarget (policy : FirewallPolicy) (p : Packet) : Option Port :=
  match p.transport with
  | .udp _ d => if d = 53 then policy.redirectDnsTo else none
  | .tcp _ d flags =>
    if d = 53 then policy.redirectDnsTo
    else if flags &&& 2 ≠ 0 then policy.redirectTcpTo else none
  | _ => none

/-- The ports the input chain opens to the downstream subnet. -/
def opensInput (policy : FirewallPolicy) (p : Packet) : Bool :=
  match p.transport with
  | .udp _ d => policy.redirectDnsTo = some d
  | .tcp _ d _ => policy.redirectDnsTo = some d ∨ policy.redirectTcpTo = some d
  | _ => false

attribute [local simp] firstMatch_cons firstMatch_append Rule.applies Match.holds Packet.isTcp
  Packet.isUdp Packet.dport Packet.tcpFlags

theorem firstMatch_preroutingRules {policy : FirewallPolicy} {cidr : String} {p : Packet}
    {s d : BitVec 32} (hnet : p.net = .ipv4 s d) (hs : inCidr cidr s = true) :
    firstMatch p (preroutingRules policy cidr) = (redirectTarget policy p).map .redirect := by
  unfold preroutingRules redirectTarget
  cases hdns : policy.redirectDnsTo <;> cases htcp : policy.redirectTcpTo <;>
    cases ht : p.transport <;> simp [hnet, hs, ht]
  all_goals split_ifs <;> simp_all

theorem accepts_inputChain {policy : FirewallPolicy} {cidr : String} {p : Packet}
    (h : FromDownstream cidr p) :
    (filterChain .input (inputRules policy cidr)).accepts p = opensInput policy p := by
  obtain ⟨s, d, hnet, hs⟩ := h.saddr
  have hiif := h.iif
  simp only [Chain.accepts, filterChain, inputRules, establishedRelated, opensInput]
  cases hdns : policy.redirectDnsTo <;> cases htcp : policy.redirectTcpTo <;>
    cases hrej : policy.rejectHostInitiated <;> cases ht : p.transport <;>
      simp [hnet, hs, ht, h.new, hiif]
  all_goals grind

theorem accepts_forwardChain {policy : FirewallPolicy} {cidr : String} {p : Packet}
    (h : FromDownstream cidr p) (hudp : policy.blockDirectUdp = true) :
    (filterChain .forward (forwardRules policy cidr)).accepts p = !p.isUdp := by
  obtain ⟨s, d, hnet, hs⟩ := h.saddr
  simp only [Chain.accepts, filterChain, forwardRules, establishedRelated]
  cases policy.ipv6 <;> cases ht : p.transport <;> simp [hnet, hs, ht, h.new, hudp]

theorem prerouting_ruleset {policy : FirewallPolicy} {cfg : GatewayConfig} {p : Packet}
    (h : Host) (hp : FromDownstream cfg.downstreamCidr p) :
    h.prerouting (ruleset policy cfg) p =
      match redirectTarget policy p with
      | some port => h.redirect port p
      | none => p := by
  obtain ⟨s, d, hnet, hs⟩ := hp.saddr
  have hchains : chainsOn (ruleset policy cfg) .nat .prerouting p =
      [{ name := "prerouting", type := .nat, hook := .prerouting, priority := "dstnat"
         policy := .accept, rules := preroutingRules policy cfg.downstreamCidr }] := by
    simp [ruleset_eq, chainsOn, aegisTable, filterChain, Family.sees]
  rw [Host.prerouting, hchains, List.findSome?_cons, Chain.redirectPort,
    firstMatch_preroutingRules hnet hs]
  cases redirectTarget policy p <;> rfl

theorem passes_input (policy : FirewallPolicy) (cfg : GatewayConfig) (p : Packet) :
    passes (ruleset policy cfg) .input p =
      (filterChain .input (inputRules policy cfg.downstreamCidr)).accepts p := by
  simp [ruleset_eq, passes, chainsOn, aegisTable, filterChain, Family.sees]

theorem passes_forward (policy : FirewallPolicy) (cfg : GatewayConfig) (p : Packet) :
    passes (ruleset policy cfg) .forward p =
      (filterChain .forward (forwardRules policy cfg.downstreamCidr)).accepts p := by
  simp [ruleset_eq, passes, chainsOn, aegisTable, filterChain, Family.sees]

/-- Redirection keeps a packet in the subnet's flow and addresses it to the gateway. -/
theorem FromDownstream.redirect {cidr : String} {p : Packet} (hp : FromDownstream cidr p)
    (h : Host) (port : Port) :
    FromDownstream cidr (h.redirect port p) ∧ h.isLocal (h.redirect port p).net = true := by
  obtain ⟨s, d, hnet, hs⟩ := hp.saddr
  have hct : (h.redirect port p).ct = p.ct := by
    simp only [Host.redirect, hnet, Packet.setDport]; cases p.transport <;> rfl
  have hiif : (h.redirect port p).iif = p.iif := by
    simp only [Host.redirect, hnet, Packet.setDport]; cases p.transport <;> rfl
  have hdst : (h.redirect port p).net = .ipv4 s (h.ifaceAddr p.iif) := by
    simp only [Host.redirect, hnet]
  exact ⟨⟨hct.trans hp.new, hiif ▸ hp.iif, s, _, hdst, hs⟩, by rw [hdst, h.redirect_local]⟩

/-- What the input chain opens is a port the policy redirects to. -/
theorem opensInput_dport {policy : FirewallPolicy} {p : Packet} (h : opensInput policy p = true) :
    ∃ d, p.dport = some d ∧ (policy.redirectDnsTo = some d ∨ policy.redirectTcpTo = some d) := by
  unfold opensInput at h
  split at h
  next d ht => exact ⟨d, by simp [ht], .inl (by simpa using h)⟩
  next d _ ht => exact ⟨d, by simp [ht], by simpa using h⟩
  · cases h

/-- Where the packets of the browser subnet may end: at a port the policy redirects to,
or nowhere. -/
def Contained (policy : FirewallPolicy) : Outcome → Prop
  | .delivered q =>
    ∃ d, q.dport = some d ∧ (policy.redirectDnsTo = some d ∨ policy.redirectTcpTo = some d)
  | .forwarded _ => False
  | .blocked => True

theorem FromDownstream.route {cidr : String} {p : Packet} (hp : FromDownstream cidr p)
    (oif : String) : FromDownstream cidr { p with oif := oif } :=
  ⟨hp.new, hp.iif, hp.saddr⟩

theorem passes_forward_fromDownstream {policy : FirewallPolicy} {cfg : GatewayConfig} {p : Packet}
    (oif : String) (hp : FromDownstream cfg.downstreamCidr p)
    (hudp : policy.blockDirectUdp = true) :
    passes (ruleset policy cfg) .forward { p with oif := oif } = !p.isUdp := by
  rw [passes_forward, accepts_forwardChain (hp.route oif) hudp]
  rfl

/-- A packet that is neither redirected nor addressed to the gateway is dropped if it is UDP
and leaves by its route otherwise. -/
theorem receive_of_not_redirected {policy : FirewallPolicy} {cfg : GatewayConfig} {p : Packet}
    {h : Host} (hp : FromDownstream cfg.downstreamCidr p) (hudp : policy.blockDirectUdp = true)
    (ht : redirectTarget policy p = none) (hlocal : h.isLocal p.net = false) :
    h.receive (ruleset policy cfg) p =
      if p.isUdp then .blocked else .forwarded { p with oif := h.oif p.net } := by
  have hpass := passes_forward_fromDownstream (h.oif p.net) hp hudp
  simp only [Host.receive, prerouting_ruleset h hp, ht, hlocal, hpass]
  cases p.isUdp <;> simp

/-- A packet addressed to the gateway, or redirected to it, is contained; any other packet
is judged by the forward chain. -/
theorem contained_receive {policy : FirewallPolicy} {cfg : GatewayConfig} {p : Packet} (h : Host)
    (hp : FromDownstream cfg.downstreamCidr p) (hudp : policy.blockDirectUdp = true) :
    Contained policy (h.receive (ruleset policy cfg) p) ↔
      (redirectTarget policy p).isSome ∨ h.isLocal p.net ∨ p.isUdp := by
  have hinput {q : Packet} (hq : FromDownstream cfg.downstreamCidr q) :
      Contained policy
        (if passes (ruleset policy cfg) .input q then .delivered q else .blocked) := by
    rw [passes_input, accepts_inputChain hq]
    split_ifs with ho
    · exact opensInput_dport ho
    · trivial
  cases ht : redirectTarget policy p with
  | some port =>
    obtain ⟨hq, hlocal⟩ := hp.redirect h port
    simpa [Host.receive, prerouting_ruleset h hp, ht, hlocal] using hinput hq
  | none =>
    cases hlocal : h.isLocal p.net with
    | true => simpa [Host.receive, prerouting_ruleset h hp, ht, hlocal] using hinput hp
    | false =>
      rw [receive_of_not_redirected hp hudp ht hlocal]
      cases p.isUdp <;> simp [Contained]

/-- The packets the rules account for: UDP, what is addressed to the gateway itself, DNS
over TCP where DNS is redirected, and TCP segments with SYN where TCP is redirected. -/
def Handled (policy : FirewallPolicy) (h : Host) (p : Packet) : Prop :=
  p.isUdp = true ∨ h.isLocal p.net = true ∨
    (p.isTcp = true ∧ p.dport = some 53 ∧ policy.redirectDnsTo.isSome) ∨
    (p.isTcp = true ∧ p.dport ≠ some 53 ∧ p.tcpFlags &&& 2 ≠ 0 ∧ policy.redirectTcpTo.isSome)

theorem handled_iff {policy : FirewallPolicy} {h : Host} {p : Packet} : Handled policy h p ↔
    (redirectTarget policy p).isSome ∨ h.isLocal p.net ∨ p.isUdp := by
  unfold Handled redirectTarget
  cases ht : p.transport <;> simp [ht]
  all_goals grind

/-- Under an accepted policy the first packet of a flow from the subnet is contained
exactly when it is one the rules account for. -/
theorem receive_contained_iff_handled {policy : FirewallPolicy} {cfg : GatewayConfig} {p : Packet}
    (h : Host) (hvalid : policy.validate = none) (hp : FromDownstream cfg.downstreamCidr p) :
    Contained policy (h.receive (ruleset policy cfg) p) ↔ Handled policy h p := by
  obtain ⟨-, hudp, -⟩ := FirewallPolicy.validate_eq_none.mp hvalid
  rw [contained_receive h hp hudp, handled_iff]

/-- Profile settings of the gateway under `mode`. -/
def configFor (mode : NetworkMode) : GatewayConfig where
  mode := mode
  dns := mode.defaultDnsPolicy
  ipv6 := .block
  downstreamCidr := "10.152.152.0/24"
  gatewayAddress := "10.152.152.1"

/-- A gateway at `10.152.152.1` whose other destinations leave by `uplink`. -/
def gatewayHost (uplink : String) : Host where
  isLocal
    | .ipv4 _ d => d = 0x0A989801#32
    | .ipv6 _ _ => false
  ifaceAddr _ := 0x0A989801#32
  oif _ := uplink
  redirect_local _ _ := by simp

/-- The first packet of a flow from `10.152.152.5` to `8.8.8.8`. -/
def toInternet (transport : Transport) : Packet where
  iif := "eth1"
  oif := ""
  net := .ipv4 0x0A989805#32 0x08080808#32
  transport := transport
  ct := .new

theorem fromDownstream_toInternet (mode : NetworkMode) (transport : Transport) :
    FromDownstream (configFor mode).downstreamCidr (toInternet transport) :=
  ⟨rfl, by change "eth1" ≠ "lo"; decide, _, _, rfl,
    by change inCidr "10.152.152.0/24" _ = true; decide⟩

/-- A SYN segment is redirected under the fail-closed Tor policy. -/
theorem receive_contained_syn :
    Contained (.failClosed (configFor (.tor .default)))
      ((gatewayHost "eth0").receive
        (ruleset (.failClosed (configFor (.tor .default))) (configFor (.tor .default)))
        (toInternet (.tcp 40000 443 2))) := by
  refine (receive_contained_iff_handled (gatewayHost "eth0")
    (FirewallPolicy.failClosed_validate _) (fromDownstream_toInternet _ _)).mpr ?_
  exact .inr (.inr (.inr ⟨rfl, by decide, by decide, rfl⟩))

/-- An echo request is forwarded past Tor. -/
theorem receive_forwards_icmp :
    (gatewayHost "eth0").receive
      (ruleset (.failClosed (configFor (.tor .default))) (configFor (.tor .default)))
      (toInternet (.icmp 8)) = .forwarded { toInternet (.icmp 8) with oif := "eth0" } :=
  receive_of_not_redirected (fromDownstream_toInternet _ _) rfl rfl (by decide)

/-! ## Modes without redirection -/

theorem redirectTarget_failClosed {cfg : GatewayConfig} (hmode : cfg.mode.isTor = false)
    (p : Packet) : redirectTarget (.failClosed cfg) p = none := by
  have hports : (FirewallPolicy.failClosed cfg).redirectDnsTo = none ∧
      (FirewallPolicy.failClosed cfg).redirectTcpTo = none := by
    cases hm : cfg.mode <;> simp_all [FirewallPolicy.failClosed, NetworkMode.isTor]
  unfold redirectTarget
  rw [hports.1, hports.2]
  cases p.transport <;> simp

/-- Nothing is redirected outside Tor mode: a packet for another host leaves by the interface
its route names, the tunnel's or another, unless it is UDP. -/
theorem receive_failClosed {cfg : GatewayConfig} {p : Packet} {h : Host}
    (hmode : cfg.mode.isTor = false) (hp : FromDownstream cfg.downstreamCidr p)
    (hlocal : h.isLocal p.net = false) :
    h.receive (ruleset (.failClosed cfg) cfg) p =
      if p.isUdp then .blocked else .forwarded { p with oif := h.oif p.net } :=
  receive_of_not_redirected hp rfl (redirectTarget_failClosed hmode p) hlocal

/-- In VPN and proxy mode the forward chain keeps the first packet of a flow from the subnet
off the uplink exactly when it is UDP. -/
theorem forward_blocks_uplink_iff {cfg : GatewayConfig} {p : Packet} (uplink : String)
    (hmode : cfg.mode.isTor = false) (hp : FromDownstream cfg.downstreamCidr p) :
    (passes (ruleset (.failClosed cfg) cfg) .forward { p with oif := uplink } = false ∧
      ∀ h : Host, h.isLocal p.net = false → h.oif p.net = uplink →
        h.receive (ruleset (.failClosed cfg) cfg) p = .blocked) ↔ p.isUdp = true := by
  rw [passes_forward_fromDownstream uplink hp rfl]
  constructor
  · exact fun h => by simpa using h.1
  · intro hudp
    refine ⟨by rw [hudp]; rfl, fun h hlocal _ => ?_⟩
    rw [receive_failClosed hmode hp hlocal, if_pos hudp]

def vpnMode : NetworkMode := .vpn ⟨.wireGuard, "vpn.example.net:51820", ⟨"vpn"⟩, ["10.8.0.1"]⟩

/-- A datagram stays off the uplink in VPN mode. -/
theorem forward_blocks_uplink_udp :
    passes (ruleset (.failClosed (configFor vpnMode)) (configFor vpnMode)) .forward
      { toInternet (.udp 40000 53) with oif := "eth0" } = false :=
  ((forward_blocks_uplink_iff "eth0" rfl (fromDownstream_toInternet vpnMode (.udp 40000 53))).mpr
    rfl).1

/-- DNS over TCP leaves by the uplink in VPN mode. -/
theorem forward_accepts_uplink_dns :
    passes (ruleset (.failClosed (configFor vpnMode)) (configFor vpnMode)) .forward
      { toInternet (.tcp 40000 53 2) with oif := "eth0" } = true :=
  passes_forward_fromDownstream "eth0" (fromDownstream_toInternet vpnMode _) rfl

end Aegis.Gateway
