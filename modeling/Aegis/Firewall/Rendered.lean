import Aegis.Firewall.Swap
import Aegis.Gateway.Containment

/-! The armed set, with the subnet and the gateway address of a configuration in its defines,
beside the ruleset that is rendered for the configuration. -/
namespace Aegis.Firewall
open Nft Gateway

/-! ### The defines of the files -/

/-- The prefix a rule of the files stands for, once `lan_net` and `gw_addr` are substituted. -/
def define (lan gw cidr : String) : String :=
  if cidr = lanNet then lan else if cidr = gwAddr then gw else cidr

def defineMatch (lan gw : String) : Match → Match
  | .saddr c => .saddr (define lan gw c)
  | .saddrNe c => .saddrNe (define lan gw c)
  | .daddr c => .daddr (define lan gw c)
  | m => m

def defineRule (lan gw : String) (r : Rule) : Rule :=
  { r with conds := r.conds.map (defineMatch lan gw) }

def defineChain (lan gw : String) (c : Chain) : Chain :=
  { c with rules := c.rules.map (defineRule lan gw) }

/-- The armed set for a subnet and a gateway address, both as prefixes. -/
def armedFor (lan gw : String) : List Table :=
  armedTables.map fun t => { t with chains := t.chains.map (defineChain lan gw) }

/-- The gateway address of a configuration, as a prefix. -/
def gatewayPrefix (cfg : GatewayConfig) : String := cfg.gatewayAddress ++ "/32"

/-! ### What the armed set does with a packet of the subnet -/

/-- The first packet of a flow from the browser subnet, on the downstream interface. -/
structure FromBrowser (lan : String) (p : Packet) : Prop where
  new : p.ct = .new
  iif : p.iif = downIf
  saddr : ∃ s d, p.net = .ipv4 s d ∧ inCidr lan s = true

theorem FromBrowser.downstream {lan : String} {p : Packet} (hp : FromBrowser lan p) :
    FromDownstream lan p :=
  ⟨hp.new, by rw [hp.iif]; decide, hp.saddr⟩

/-- The port the armed set redirects to. -/
def torTarget (p : Packet) : Option Port :=
  match p.transport with
  | .udp _ d => if d = 53 then some torDnsport else none
  | .tcp _ _ _ => some torTransport
  | _ => none

/-- What the armed set accepts on the input hook. -/
def opensTor (gw : String) (p : Packet) : Bool :=
  match p.net, p.transport with
  | .ipv4 _ d, .tcp _ port _ => inCidr gw d && (port = torTransport || port = torDnsport)
  | .ipv4 _ d, .udp _ port => inCidr gw d && port = torDnsport
  | .ipv4 _ _, .icmp type => ([8, 3] : List (BitVec 8)).contains type
  | _, _ => false

section Armed

variable {lan gw : String} {p : Packet}

@[local simp] theorem define_lanNet : define lan gw lanNet = lan := if_pos rfl

@[local simp] theorem define_gwAddr : define lan gw gwAddr = gw := by
  have hne : gwAddr ≠ lanNet := by decide
  rw [define, if_neg hne, if_pos rfl]

@[local simp] theorem define_torVirtual : define lan gw torVirtual = torVirtual := by
  have hlan : torVirtual ≠ lanNet := by decide
  have hgw : torVirtual ≠ gwAddr := by decide
  rw [define, if_neg hlan, if_neg hgw]

attribute [local simp] firstMatch_cons Rule.applies Match.holds Packet.isTcp Packet.isUdp
  Packet.dport Packet.tcpFlags defineChain defineRule defineMatch

theorem prerouting_armed (h : Host) (hp : FromBrowser lan p) :
    h.prerouting (armedFor lan gw) p =
      match torTarget p with
      | some port => h.redirect port p
      | none => p := by
  obtain ⟨s, d, hnet, hs⟩ := hp.saddr
  have hchains : (chainsOn (armedFor lan gw) .nat .prerouting p).findSome? (Chain.redirectPort p) =
      torTarget p := by
    cases ht : p.transport <;>
      simp [chainsOn, armedFor, armedTables, ip6Filter, ipNat, inetFilter, loopbackChains,
        dropChain,
        Family.sees, hnet, hs, hp.iif, ht, Chain.redirectPort, torTarget]
    split_ifs <;> rfl
  rw [Host.prerouting, hchains]
  cases torTarget p <;> rfl

theorem passes_input_armed (hp : FromBrowser lan p) :
    passes (armedFor lan gw) .input p = opensTor gw p := by
  obtain ⟨s, d, hnet, hs⟩ := hp.saddr
  have hlo : downIf ≠ loopback := by decide
  cases ht : p.transport <;>
    simp [passes, chainsOn, armedFor, armedTables, ip6Filter, ipNat, inetFilter, loopbackChains,
      dropChain, Family.sees, hnet, hs, hp.iif, hp.new, ht, Chain.accepts, returnTraffic, acceptTor,
      acceptIif, opensTor, hlo]
  all_goals split_ifs <;> simp_all

theorem passes_forward_armed (hp : FromBrowser lan p) :
    passes (armedFor lan gw) .forward p = false := by
  obtain ⟨s, d, hnet, hs⟩ := hp.saddr
  cases ht : p.transport <;>
    simp [passes, chainsOn, armedFor, armedTables, ip6Filter, ipNat, inetFilter, loopbackChains,
      dropChain, Family.sees, hnet, hs, hp.iif, hp.new, ht, Chain.accepts, returnTraffic]

end Armed

/-- The gateway of a configuration: its downstream interface has the gateway address. -/
structure GatewayAt (h : Host) (cfg : GatewayConfig) (addr : BitVec 32) : Prop where
  text : parseCidr (gatewayPrefix cfg) = some ⟨addr, 32⟩
  iface : h.ifaceAddr downIf = addr

section Receive

variable {h : Host} {cfg : GatewayConfig} {addr : BitVec 32} {p : Packet}

theorem GatewayAt.inCidr (hg : GatewayAt h cfg addr) (d : BitVec 32) :
    inCidr (gatewayPrefix cfg) d = true ↔ d = addr := by
  unfold Nft.inCidr
  rw [hg.text]
  simp [Subnet.contains, BitVec.toNat_inj]

theorem GatewayAt.isLocal (hg : GatewayAt h cfg addr) (s : BitVec 32) :
    h.isLocal (.ipv4 s addr) = true := hg.iface ▸ h.redirect_local s downIf

/-- What a redirection makes of a packet of the subnet. -/
theorem redirect_fromBrowser (hg : GatewayAt h cfg addr) (hp : FromBrowser cfg.downstreamCidr p)
    (port : Port) : FromBrowser cfg.downstreamCidr (h.redirect port p) ∧
      ∃ s, (h.redirect port p).net = .ipv4 s addr ∧
        (h.redirect port p).transport = (p.setDport port).transport := by
  obtain ⟨s, d, hnet, hs⟩ := hp.saddr
  have hsame : (p.setDport port).ct = p.ct ∧ (p.setDport port).iif = p.iif := by
    unfold Packet.setDport
    cases p.transport <;> exact ⟨rfl, rfl⟩
  simp only [Host.redirect, hnet]
  rw [hp.iif, hg.iface]
  exact ⟨⟨hsame.1.trans hp.new, hsame.2.trans hp.iif, s, addr, rfl, hs⟩, s, rfl, trivial⟩

/-- The armed set redirects, or delivers what it opens, or blocks. -/
theorem receive_armed (hg : GatewayAt h cfg addr) (hp : FromBrowser cfg.downstreamCidr p) :
    h.receive (armedFor cfg.downstreamCidr (gatewayPrefix cfg)) p =
      match torTarget p with
      | some port => .delivered (h.redirect port p)
      | none => if h.isLocal p.net && opensTor (gatewayPrefix cfg) p then .delivered p
        else .blocked := by
  simp only [Host.receive, prerouting_armed h hp]
  cases htarget : torTarget p with
  | some port =>
    obtain ⟨hq, s, hnet, htransport⟩ := redirect_fromBrowser hg hp port
    have hopen : opensTor (gatewayPrefix cfg) (h.redirect port p) = true := by
      unfold opensTor torTarget at *
      rw [hnet, htransport]
      have haddr := (hg.inCidr addr).mpr rfl
      cases ht : p.transport with
      | tcp => simp_all [Packet.setDport]
      | udp =>
        simp only [ht] at htarget
        split_ifs at htarget
        simp_all [Packet.setDport]
      | icmp => simp [ht] at htarget
      | other => simp [ht] at htarget
    have hlocal : h.isLocal (h.redirect port p).net = true := by rw [hnet]; exact hg.isLocal s
    simp only [hlocal, passes_input_armed hq, hopen, if_true]
  | none =>
    have hforward : passes (armedFor cfg.downstreamCidr (gatewayPrefix cfg)) .forward
        { p with oif := h.oif p.net } = false :=
      passes_forward_armed ⟨hp.new, hp.iif, hp.saddr⟩
    simp only [passes_input_armed hp, hforward]
    cases h.isLocal p.net <;> simp

/-- The ports of the fail-closed policy under Tor are those of the files. -/
theorem failClosed_tor (hmode : cfg.mode.isTor = true) :
    (FirewallPolicy.failClosed cfg).redirectDnsTo = some torDnsport ∧
      (FirewallPolicy.failClosed cfg).redirectTcpTo = some torTransport := by
  unfold NetworkMode.isTor at hmode
  split at hmode
  next c hm => simp [FirewallPolicy.failClosed, hm, torDnsport, torTransport]
  · cases hmode

/-- The rendered ruleset redirects, or delivers what it opens, or forwards what is not UDP. -/
theorem receive_rendered (hg : GatewayAt h cfg addr) (hmode : cfg.mode.isTor = true)
    (hp : FromBrowser cfg.downstreamCidr p) :
    h.receive (ruleset (.failClosed cfg) cfg) p =
      match redirectTarget (.failClosed cfg) p with
      | some port => .delivered (h.redirect port p)
      | none =>
        if h.isLocal p.net then
          if opensInput (.failClosed cfg) p then .delivered p else .blocked
        else if p.isUdp then .blocked else .forwarded { p with oif := h.oif p.net } := by
  obtain ⟨hdns, htcp⟩ := failClosed_tor hmode
  cases htarget : redirectTarget (.failClosed cfg) p with
  | some port =>
    obtain ⟨hq, hlocal⟩ := hp.downstream.redirect h port
    obtain ⟨-, s, -, htransport⟩ := redirect_fromBrowser hg hp port
    have hopen : opensInput (.failClosed cfg) (h.redirect port p) = true := by
      unfold opensInput redirectTarget at *
      rw [htransport]
      cases ht : p.transport with
      | tcp =>
        simp only [ht] at htarget
        split_ifs at htarget <;> simp_all [Packet.setDport]
      | udp =>
        simp only [ht] at htarget
        split_ifs at htarget
        simp_all [Packet.setDport]
      | icmp => simp [ht] at htarget
      | other => simp [ht] at htarget
    simp only [Host.receive, prerouting_ruleset h hp.downstream, htarget, hlocal, passes_input,
      accepts_inputChain hq, hopen, if_true]
  | none =>
    cases hlocal : h.isLocal p.net with
    | true =>
      simp only [Host.receive, prerouting_ruleset h hp.downstream, htarget, hlocal, passes_input,
        accepts_inputChain hp.downstream, if_true]
    | false =>
      rw [receive_of_not_redirected hp.downstream rfl htarget hlocal]
      rfl

end Receive

/-- The packets that meet one outcome under both: any datagram but one to the port of the resolver
at another local address, a segment that is redirected to the port it is for, or that both redirect
to the transparent port, and other packets for the gateway that are no accepted ICMP message. -/
def Agreeing (h : Host) (addr : BitVec 32) (p : Packet) : Prop :=
  match p.net, p.transport with
  | .ipv4 _ d, .udp _ port => port = torDnsport → h.isLocal p.net = true → d = addr
  | .ipv4 _ d, .tcp _ port flags =>
    port ≠ 53 ∧ (flags &&& 2 ≠ 0 ∨ port = torTransport ∧ d = addr)
  | .ipv4 _ _, .icmp type => h.isLocal p.net = true ∧ type ∉ ([8, 3] : List (BitVec 8))
  | .ipv4 _ _, .other _ => h.isLocal p.net = true
  | .ipv6 _ _, _ => False

section Agree

variable {h : Host} {cfg : GatewayConfig} {addr s d : BitVec 32} {p : Packet} {sport port : Port}

/-- A redirected segment has the port it is redirected to. -/
theorem dport_redirect {flags : BitVec 8} (hnet : p.net = .ipv4 s d)
    (ht : p.transport = .tcp sport port flags) (target : Port) :
    (h.redirect target p).dport = some target := by
  simp [Host.redirect, hnet, Packet.setDport, ht, Packet.dport]

/-- Redirection changes nothing for what was addressed there. -/
theorem redirect_eq_self_iff {flags : BitVec 8} (hg : GatewayAt h cfg addr) (hiif : p.iif = downIf)
    (hnet : p.net = .ipv4 s d) (ht : p.transport = .tcp sport port flags) (target : Port) :
    h.redirect target p = p ↔ port = target ∧ d = addr := by
  have hredirect : h.redirect target p =
      { p with transport := .tcp sport target flags, net := .ipv4 s addr } := by
    simp [Host.redirect, hnet, Packet.setDport, ht, hiif, hg.iface]
  rw [hredirect]
  constructor
  · intro heq
    have htransport := congrArg Packet.transport heq
    have haddr := congrArg Packet.net heq
    simp only [ht, hnet, Transport.tcp.injEq, Net.ipv4.injEq, true_and, and_true]
      at htransport haddr
    exact ⟨htransport.symm, haddr.symm⟩
  · rintro ⟨rfl, rfl⟩
    rw [← ht, ← hnet]

/-- For every subnet and gateway address, under Tor: the rendered ruleset and the armed set of the
files treat a new packet from the browser subnet alike exactly when it is one of these. -/
theorem receive_eq_iff (hmode : cfg.mode.isTor = true) (hg : GatewayAt h cfg addr)
    (hp : FromBrowser cfg.downstreamCidr p) :
    h.receive (ruleset (.failClosed cfg) cfg) p =
        h.receive (armedFor cfg.downstreamCidr (gatewayPrefix cfg)) p ↔ Agreeing h addr p := by
  obtain ⟨hdns, htcp⟩ := failClosed_tor hmode
  obtain ⟨s, d, hnet, hs⟩ := hp.saddr
  have hin := hg.inCidr d
  rw [receive_rendered hg hmode hp, receive_armed hg hp]
  cases ht : p.transport with
  | udp sport port =>
    simp only [redirectTarget, torTarget, Agreeing, opensInput, opensTor, ht, hnet, hdns,
      Packet.isUdp]
    by_cases h53 : port = 53
    · have hother : (53 : Port) ≠ torDnsport := by decide
      subst h53
      rw [if_pos rfl]
      exact iff_of_true rfl fun hport => absurd hport hother
    · rw [if_neg h53]
      cases hlocal : h.isLocal (.ipv4 s d) with
      | false => simp
      | true =>
        by_cases hdport : port = torDnsport
        · simp [hdport, ← hin]
        · simp [hdport, Ne.symm hdport]
  | tcp sport port flags =>
    have hself := redirect_eq_self_iff hg hp.iif hnet ht torTransport
    simp only [redirectTarget, torTarget, Agreeing, opensInput, ht, hnet, hdns, htcp, Packet.isUdp]
    by_cases h53 : port = 53
    · -- DNS over TCP goes to the resolver's port here, to the transparent port there
      rw [if_pos h53]
      refine ⟨fun heq => ?_, fun hne => absurd h53 hne.1⟩
      have hports := congrArg Packet.dport (Outcome.delivered.inj heq)
      rw [dport_redirect hnet ht, dport_redirect hnet ht] at hports
      exact absurd hports (by decide)
    · rw [if_neg h53]
      by_cases hsyn : flags &&& 2 ≠ 0
      · rw [if_pos hsyn]
        exact iff_of_true rfl ⟨h53, .inl hsyn⟩
      · rw [if_neg hsyn]
        have hright : (port ≠ 53 ∧ (flags &&& 2 ≠ 0 ∨ port = torTransport ∧ d = addr)) ↔
            port = torTransport ∧ d = addr :=
          ⟨fun hboth => hboth.2.resolve_left hsyn, fun hto => ⟨h53, .inr hto⟩⟩
        rw [hright, ← hself]
        cases hlocal : h.isLocal (.ipv4 s d) with
        | false =>
          have hne : h.redirect torTransport p ≠ p := fun heq => by
            rw [(hself.mp heq).2, hg.isLocal s] at hlocal
            cases hlocal
          simp [hne]
        | true =>
          by_cases hopen : torDnsport = port ∨ torTransport = port
          · simp only [hopen, Option.some.injEq, decide_true, if_true, Outcome.delivered.injEq]
            exact eq_comm
          · have hne : h.redirect torTransport p ≠ p := fun heq =>
              hopen (.inr (hself.mp heq).1.symm)
            simp [hopen, hne]
  | icmp type =>
    simp only [redirectTarget, torTarget, Agreeing, opensInput, opensTor, ht, hnet, Packet.isUdp]
    cases hlocal : h.isLocal (.ipv4 s d) with
    | false => simp
    | true => simp
  | other proto =>
    simp only [redirectTarget, torTarget, Agreeing, opensInput, opensTor, ht, hnet, Packet.isUdp]
    cases hlocal : h.isLocal (.ipv4 s d) with
    | false => simp
    | true => simp

end Agree

/-! ### The defaults of the files -/

/-- With the documented defaults the armed set is the one the files load. -/
theorem armedFor_defaults : loadAll .firewallDir [] [.armed] = some (armedFor lanNet gwAddr) := by
  rw [load_armed]
  simp [armedFor, armedTables, ip6Filter, ipNat, inetFilter, loopbackChains, dropChain, defineChain,
    defineRule, defineMatch, returnTraffic, acceptTor, acceptIif, acceptOif, define_lanNet,
    define_gwAddr, define_torVirtual]

/-- A name query of the browser meets one outcome. -/
theorem dnsQuery_agrees :
    (gatewayHost "eth0").receive
        (ruleset (.failClosed (configFor (.tor .default))) (configFor (.tor .default)))
        (toInternet (.udp 40000 53)) =
      (gatewayHost "eth0").receive
        (armedFor (configFor (.tor .default)).downstreamCidr
          (gatewayPrefix (configFor (.tor .default)))) (toInternet (.udp 40000 53)) := by
  have hgateway : GatewayAt (gatewayHost "eth0") (configFor (.tor .default)) 0x0A989801#32 :=
    ⟨by decide +kernel, rfl⟩
  have hbrowser : FromBrowser (configFor (.tor .default)).downstreamCidr
      (toInternet (.udp 40000 53)) :=
    ⟨rfl, rfl, (fromDownstream_toInternet (.tor .default) (.udp 40000 53)).saddr⟩
  refine (receive_eq_iff rfl hgateway hbrowser).mpr ?_
  exact fun hport => absurd hport (by decide)

/-- DNS over TCP is redirected to the resolver's port by one, and to the transparent port by the
other. -/
theorem dnsOverTcp_disagrees :
    (gatewayHost "eth0").receive
        (ruleset (.failClosed (configFor (.tor .default))) (configFor (.tor .default)))
        (toInternet (.tcp 40000 53 2)) =
      .delivered { toInternet (.tcp 40000 5353 2) with net := .ipv4 0x0A989805#32 0x0A989801#32 } ∧
    (gatewayHost "eth0").receive
        (armedFor (configFor (.tor .default)).downstreamCidr
          (gatewayPrefix (configFor (.tor .default)))) (toInternet (.tcp 40000 53 2)) =
      .delivered { toInternet (.tcp 40000 9040 2) with net := .ipv4 0x0A989805#32 0x0A989801#32 } ∧
    (gatewayHost "eth0").receive
        (ruleset (.failClosed (configFor (.tor .default))) (configFor (.tor .default)))
        (toInternet (.tcp 40000 53 2)) ≠
      (gatewayHost "eth0").receive
        (armedFor (configFor (.tor .default)).downstreamCidr
          (gatewayPrefix (configFor (.tor .default)))) (toInternet (.tcp 40000 53 2)) := by
  decide +kernel

end Aegis.Firewall
