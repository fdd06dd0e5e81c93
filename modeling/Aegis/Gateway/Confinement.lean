import Aegis.Gateway.Containment

/-! Which packets of new flows the rendered ruleset lets cross the gateway or reach it, from any
source and over either version of IP. -/
namespace Aegis.Gateway
open Nft

/-- An IPv4 packet whose source is in the subnet. -/
def SourceIn (cidr : String) (p : Packet) : Prop :=
  ∃ s d, p.net = .ipv4 s d ∧ inCidr cidr s = true

/-- An IPv6 packet between link-local addresses. -/
def LinkLocal (p : Packet) : Prop :=
  ∃ s d, p.net = .ipv6 s d ∧ linkLocal.contains s = true ∧ linkLocal.contains d = true

/-- A port that the policy redirects to. -/
def IsRedirectPort (policy : FirewallPolicy) (port : Port) : Prop :=
  policy.redirectDnsTo = some port ∨ policy.redirectTcpTo = some port

/-- A packet of a new flow crosses the gateway only from the downstream subnet, and reaches it only
on loopback or from the subnet at a redirect port. -/
structure Confined (policy : FirewallPolicy) (cfg : GatewayConfig) (p : Packet) : Prop where
  forward : p.ct = .new → passes (ruleset policy cfg) .forward p = true →
    SourceIn cfg.downstreamCidr p
  input : p.ct = .new → passes (ruleset policy cfg) .input p = true →
    p.iif = loopback ∨ SourceIn cfg.downstreamCidr p ∧ ∃ port, p.dport = some port ∧
      IsRedirectPort policy port

section Rules

variable {p : Packet} {rules : List Rule} {hook : Hook} {policy : FirewallPolicy}
  {cfg : GatewayConfig} {cidr : String} {stmt : Stmt} {port : Port}

theorem exists_of_firstMatch (h : firstMatch p rules = some stmt) :
    ∃ r ∈ rules, r.applies p = true ∧ r.stmt = stmt := by
  induction rules with
  | nil => cases h
  | cons r rs ih =>
    rw [firstMatch_cons] at h
    split_ifs at h with happlies
    · exact ⟨r, List.mem_cons_self, happlies, Option.some.inj h⟩
    · obtain ⟨s, hs, hrest⟩ := ih h
      exact ⟨s, List.mem_cons_of_mem r hs, hrest⟩

/-- A chain that drops by default accepts a packet by one of its rules. -/
theorem exists_of_accepts (h : (filterChain hook rules).accepts p = true) : ∃ r ∈ rules,
    r.applies p = true ∧ (r.stmt = .accept ∨ (∃ d, r.stmt = .redirect d) ∨
      r.stmt = .masquerade) := by
  unfold Chain.accepts filterChain at h
  dsimp only at h
  split at h
  · obtain ⟨r, hr, happlies, hstmt⟩ := exists_of_firstMatch ‹_›
    exact ⟨r, hr, happlies, .inl hstmt⟩
  · obtain ⟨r, hr, happlies, hstmt⟩ := exists_of_firstMatch ‹_›
    exact ⟨r, hr, happlies, .inr (.inl ⟨_, hstmt⟩)⟩
  · obtain ⟨r, hr, happlies, hstmt⟩ := exists_of_firstMatch ‹_›
    exact ⟨r, hr, happlies, .inr (.inr hstmt)⟩
  · cases h
  · cases h
  · cases h
  · cases h

theorem establishedRelated_applies (hnew : p.ct = .new) : establishedRelated.applies p = false := by
  simp [Rule.applies, establishedRelated, Match.holds, hnew]

theorem sourceIn_of_holds (h : (Match.saddr cidr).holds p = true) : SourceIn cidr p := by
  cases hnet : p.net with
  | ipv4 s d =>
    simp only [Match.holds, hnet] at h
    exact ⟨s, d, hnet, h⟩
  | ipv6 s d => simp [Match.holds, hnet] at h

theorem dport_of_udpDport (h : (Match.udpDport port).holds p = true) : p.dport = some port := by
  simp only [Match.holds, Bool.and_eq_true, decide_eq_true_eq] at h
  exact h.2

theorem dport_of_tcpDport (h : (Match.tcpDport port).holds p = true) : p.dport = some port := by
  simp only [Match.holds, Bool.and_eq_true, decide_eq_true_eq] at h
  exact h.2

/-- A rule applies when all of its conditions hold. -/
theorem applies_iff {r : Rule} : r.applies p = true ↔ ∀ m ∈ r.conds, m.holds p = true :=
  List.all_eq_true

end Rules

section Chains

variable {p : Packet} {policy : FirewallPolicy} {cfg : GatewayConfig} {cidr : String}

/-- What crosses the gateway: the subnet, and IPv6 between link-local addresses where it is
routed. -/
theorem forward_accepts_cases (hnew : p.ct = .new)
    (h : (filterChain .forward (forwardRules policy cidr)).accepts p = true) :
    SourceIn cidr p ∨ policy.ipv6 = .routeThroughTunnel ∧ LinkLocal p := by
  obtain ⟨r, hr, happlies, hstmt⟩ := exists_of_accepts h
  have hall := applies_iff.mp happlies
  unfold forwardRules at hr
  simp only [List.mem_append, List.mem_singleton] at hr
  rcases hr with ((rfl | hr) | hr) | rfl
  · rw [establishedRelated_applies hnew] at happlies
    cases happlies
  · right
    cases hipv6 : policy.ipv6 with
    | block =>
      rw [hipv6] at hr
      obtain rfl := List.mem_singleton.mp hr
      rcases hstmt with h | ⟨d, h⟩ | h <;> cases h
    | routeThroughTunnel =>
      rw [hipv6] at hr
      obtain rfl := List.mem_singleton.mp hr
      have hsource := hall _ List.mem_cons_self
      have hdest := hall _ (List.mem_cons_of_mem _ List.mem_cons_self)
      cases hnet : p.net with
      | ipv4 s d => simp [Match.holds, hnet] at hsource
      | ipv6 s d =>
        simp only [Match.holds, hnet] at hsource hdest
        exact ⟨rfl, s, d, hnet, hsource, hdest⟩
  · split_ifs at hr
    · obtain rfl := List.mem_singleton.mp hr
      rcases hstmt with h | ⟨d, h⟩ | h <;> cases h
    · cases hr
  · exact .inl (sourceIn_of_holds (hall _ List.mem_cons_self))

/-- What reaches the gateway: loopback, and the subnet at a redirect port. -/
theorem input_accepts_cases (hnew : p.ct = .new)
    (h : (filterChain .input (inputRules policy cidr)).accepts p = true) :
    p.iif = loopback ∨ SourceIn cidr p ∧ ∃ port, p.dport = some port ∧
      IsRedirectPort policy port := by
  obtain ⟨r, hr, happlies, hstmt⟩ := exists_of_accepts h
  have hall := applies_iff.mp happlies
  unfold inputRules at hr
  simp only [List.mem_append, List.mem_cons, List.not_mem_nil, or_false] at hr
  rcases hr with (((rfl | rfl) | hr) | hr) | hr
  · rw [establishedRelated_applies hnew] at happlies
    cases happlies
  · exact .inl (of_decide_eq_true (hall _ List.mem_cons_self))
  · right
    cases hdns : policy.redirectDnsTo with
    | none =>
      rw [hdns] at hr
      cases hr
    | some port =>
      rw [hdns] at hr
      simp only [List.mem_cons, List.not_mem_nil, or_false] at hr
      rcases hr with rfl | rfl
      · exact ⟨sourceIn_of_holds (hall _ List.mem_cons_self), port,
          dport_of_udpDport (hall _ (List.mem_cons_of_mem _ List.mem_cons_self)), .inl hdns⟩
      · exact ⟨sourceIn_of_holds (hall _ List.mem_cons_self), port,
          dport_of_tcpDport (hall _ (List.mem_cons_of_mem _ List.mem_cons_self)), .inl hdns⟩
  · right
    cases htcp : policy.redirectTcpTo with
    | none =>
      rw [htcp] at hr
      cases hr
    | some port =>
      rw [htcp] at hr
      obtain rfl := List.mem_singleton.mp hr
      exact ⟨sourceIn_of_holds (hall _ List.mem_cons_self), port,
        dport_of_tcpDport (hall _ (List.mem_cons_of_mem _ List.mem_cons_self)), .inr htcp⟩
  · split_ifs at hr
    · obtain rfl := List.mem_singleton.mp hr
      rcases hstmt with h | ⟨d, h⟩ | h <;> cases h
    · cases hr

/-- Routed IPv6 between link-local addresses crosses the gateway, on whatever interface it
arrives. -/
theorem forward_accepts_linkLocal (hnew : p.ct = .new) (hipv6 : policy.ipv6 = .routeThroughTunnel)
    (hlocal : LinkLocal p) :
    (filterChain .forward (forwardRules policy cidr)).accepts p = true := by
  obtain ⟨s, d, hnet, hs, hd⟩ := hlocal
  have hrule : (Rule.mk ["IPv6 routed through the tunnel (tunnel supports v6)"]
      [.saddr6 "fe80::/10" linkLocal, .daddr6 "fe80::/10" linkLocal] .accept).applies p = true := by
    simp [Rule.applies, Match.holds, hnet, hs, hd]
  have hfirst : firstMatch p (forwardRules policy cidr) = some .accept := by
    unfold forwardRules
    rw [hipv6]
    simp only [List.cons_append, List.nil_append]
    rw [firstMatch_cons, establishedRelated_applies hnew, if_neg (by decide), firstMatch_cons,
      if_pos hrule]
  unfold Chain.accepts filterChain
  dsimp only
  rw [hfirst]

end Chains

/-- A packet is confined unless it is one of a new flow between link-local IPv6 addresses under a
policy that routes IPv6. -/
theorem confined_iff (policy : FirewallPolicy) (cfg : GatewayConfig) (p : Packet) :
    Confined policy cfg p ↔
      ¬ (policy.ipv6 = .routeThroughTunnel ∧ p.ct = .new ∧ LinkLocal p) := by
  constructor
  · rintro ⟨hforward, -⟩ ⟨hipv6, hnew, hlocal⟩
    obtain ⟨s, d, hnet, -⟩ := hforward hnew (by
      rw [passes_forward]
      exact forward_accepts_linkLocal hnew hipv6 hlocal)
    obtain ⟨_, _, hnet', -⟩ := hlocal
    rw [hnet] at hnet'
    cases hnet'
  · intro hplain
    refine ⟨fun hnew h => ?_, fun hnew h => ?_⟩
    · rw [passes_forward] at h
      rcases forward_accepts_cases hnew h with hsource | ⟨hipv6, hlocal⟩
      · exact hsource
      · exact absurd ⟨hipv6, hnew, hlocal⟩ hplain
    · rw [passes_input] at h
      exact input_accepts_cases hnew h

/-- The documented gateway, set to route IPv6 through the tunnel. -/
def routedConfig : GatewayConfig := { configFor (.tor .default) with ipv6 := .routeThroughTunnel }

/-- A TCP connection between two link-local neighbours, from the upstream side. -/
def neighbour : Packet where
  iif := "eth0"
  oif := "eth1"
  net := .ipv6 (0xfe80#128 <<< 112 + 1) (0xfe80#128 <<< 112 + 2)
  transport := .tcp 40000 22 2
  ct := .new

/-- It crosses the gateway under an accepted policy. -/
theorem neighbour_not_confined : (FirewallPolicy.failClosed routedConfig).validate = none ∧
    passes (ruleset (.failClosed routedConfig) routedConfig) .forward neighbour = true ∧
    ¬ Confined (.failClosed routedConfig) routedConfig neighbour := by
  have hlocal : LinkLocal neighbour := ⟨_, _, rfl, by decide, by decide⟩
  refine ⟨by decide, ?_, fun h => (confined_iff _ _ _).mp h ⟨rfl, rfl, hlocal⟩⟩
  rw [passes_forward]
  exact forward_accepts_linkLocal rfl rfl hlocal

end Aegis.Gateway
