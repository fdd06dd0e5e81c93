import Aegis.Core.Network
import Aegis.Lib.Nft

/-! The rulesets the controller feeds to `nft`, as commands and as the text of the script. -/
namespace Aegis.Gateway
open Nft

/-- The table Aegis owns. -/
def tableName : String := "aegis"

def loopback : String := "lo"

def establishedRelated : Rule := { conds := [.ctState [.established, .related]], stmt := .accept }

/-- Transparent redirects of the browser subnet's DNS and TCP. -/
def preroutingRules (policy : FirewallPolicy) (cidr : String) : List Rule :=
  (match policy.redirectDnsTo with
    | some dns =>
      [{ conds := [.saddr cidr, .udpDport 53], stmt := .redirect dns },
        { conds := [.saddr cidr, .tcpDport 53], stmt := .redirect dns }]
    | none => []) ++
  match policy.redirectTcpTo with
    | some tcp =>
      [{ conds := [.saddr cidr, .tcpFlags "syn" 2, .tcpDportNe 53], stmt := .redirect tcp }]
    | none => []

/-- Traffic addressed to the gateway itself. -/
def inputRules (policy : FirewallPolicy) (cidr : String) : List Rule :=
  [establishedRelated, { conds := [.iif loopback], stmt := .accept }] ++
  (match policy.redirectDnsTo with
    | some dns =>
      [{ conds := [.saddr cidr, .udpDport dns], stmt := .accept },
        { conds := [.saddr cidr, .tcpDport dns], stmt := .accept }]
    | none => []) ++
  (match policy.redirectTcpTo with
    | some tcp => [{ conds := [.saddr cidr, .tcpDport tcp], stmt := .accept }]
    | none => []) ++
  if policy.rejectHostInitiated then
    [{ comments := ["reject host-initiated traffic (mgmt channel is a local unix socket)"]
       conds := [.nfprotoIpv4], stmt := .reject "icmp type admin-prohibited" }]
  else []

/-- The link-local prefix `fe80::/10`. -/
def linkLocal : Subnet 128 := ⟨0xfe80#128 <<< 112, 10⟩

/-- The browser subnet toward the tunnel. -/
def forwardRules (policy : FirewallPolicy) (cidr : String) : List Rule :=
  [establishedRelated] ++
  (match policy.ipv6 with
    | .block =>
      [{ comments := ["IPv6 fully blocked at the gateway (no v6 leaks)"]
         conds := [.nfprotoIpv6], stmt := .drop }]
    | .routeThroughTunnel =>
      [{ comments := ["IPv6 routed through the tunnel (tunnel supports v6)"]
         conds := [.saddr6 "fe80::/10" linkLocal, .daddr6 "fe80::/10" linkLocal]
         stmt := .accept }]) ++
  (if policy.blockDirectUdp then
    [{ comments := ["drop direct UDP (only tunnel-carried UDP is permitted)"]
       conds := [.saddr cidr, .l4proto .udp], stmt := .drop }]
  else []) ++
  [{ comments := ["only the downstream browser subnet may reach the tunnel"]
     conds := [.saddr cidr], stmt := .accept }]

/-- Traffic the gateway originates itself. -/
def outputRules (policy : FirewallPolicy) : List Rule :=
  [establishedRelated, { conds := [.oif loopback], stmt := .accept }] ++
  (match policy.ipv6 with
    | .block => [{ conds := [.nfprotoIpv6], stmt := .drop }]
    | .routeThroughTunnel => []) ++
  [{ conds := [.nfprotoIpv4, .ctState [.new]], stmt := .accept }]

def filterChain (hook : Hook) (rules : List Rule) : Chain where
  name := hook.script
  type := .filter
  hook := hook
  priority := "filter"
  policy := .drop
  rules := rules

/-- The table `render_nftables` builds. -/
def aegisTable (policy : FirewallPolicy) (cfg : GatewayConfig) : Table where
  family := .inet
  name := tableName
  chains :=
    [{ name := "prerouting", type := .nat, hook := .prerouting, priority := "dstnat"
       policy := .accept, rules := preroutingRules policy cfg.downstreamCidr },
      filterChain .input (inputRules policy cfg.downstreamCidr),
      filterChain .forward (forwardRules policy cfg.downstreamCidr),
      filterChain .output (outputRules policy)]

/-- The kill switch: drop-all base chains without a rule. -/
def killswitchTable : Table where
  family := .inet
  name := tableName
  chains := [filterChain .input [], filterChain .forward [], filterChain .output []]

/-- Replace the Aegis table by `t` in one transaction. -/
def replaceTable (t : Table) : List Command :=
  [.addTable .inet tableName, .deleteTable .inet tableName, .table t]

/-- The complete ruleset of a policy under a configuration. -/
def renderNftables (policy : FirewallPolicy) (cfg : GatewayConfig) : List Command :=
  replaceTable (aegisTable policy cfg)

/-- The kill-switch ruleset: a total, unconditional block. -/
def renderKillswitch : List Command := replaceTable killswitchTable

/-- Loading a rendered ruleset leaves exactly its table in place of the previous one. -/
theorem load_renderNftables (tables : List Table) (policy : FirewallPolicy) (cfg : GatewayConfig) :
    load tables (renderNftables policy cfg) =
      some (tables.filter (fun u => !u.is .inet tableName) ++ [aegisTable policy cfg]) :=
  load_replace tables (aegisTable policy cfg)

theorem load_renderKillswitch (tables : List Table) : load tables renderKillswitch =
    some (tables.filter (fun u => !u.is .inet tableName) ++ [killswitchTable]) :=
  load_replace tables killswitchTable

/-! ## The script text -/

/-- The lines of the NAT section. -/
def preroutingText (policy : FirewallPolicy) (cidr : String) : List String :=
  (match policy.redirectDnsTo with
    | some dns =>
      ["\t\tip saddr " ++ cidr ++ " udp dport 53 redirect to :" ++ portText dns ++ "\n",
        "\t\tip saddr " ++ cidr ++ " tcp dport 53 redirect to :" ++ portText dns ++ "\n"]
    | none => []) ++
  match policy.redirectTcpTo with
    | some tcp =>
      ["\t\tip saddr " ++ cidr ++ " tcp flags syn tcp dport != 53 redirect to :" ++
        portText tcp ++ "\n"]
    | none => []

/-- The lines of the INPUT section. -/
def inputText (policy : FirewallPolicy) (cidr : String) : List String :=
  ["\t\tct state established,related accept\n",
    "\t\tiif \"" ++ loopback ++ "\" accept\n"] ++
  (match policy.redirectDnsTo with
    | some dns =>
      ["\t\tip saddr " ++ cidr ++ " udp dport " ++ portText dns ++ " accept\n",
        "\t\tip saddr " ++ cidr ++ " tcp dport " ++ portText dns ++ " accept\n"]
    | none => []) ++
  (match policy.redirectTcpTo with
    | some tcp => ["\t\tip saddr " ++ cidr ++ " tcp dport " ++ portText tcp ++ " accept\n"]
    | none => []) ++
  if policy.rejectHostInitiated then
    ["\t\t# reject host-initiated traffic (mgmt channel is a local unix socket)\n",
      "\t\tmeta nfproto ipv4 reject with icmp type admin-prohibited\n"]
  else []

/-- The lines of the FORWARD section. -/
def forwardText (policy : FirewallPolicy) (cidr : String) : List String :=
  ["\t\tct state established,related accept\n"] ++
  (match policy.ipv6 with
    | .block =>
      ["\t\t# IPv6 fully blocked at the gateway (no v6 leaks)\n",
        "\t\tmeta nfproto ipv6 drop\n"]
    | .routeThroughTunnel =>
      ["\t\t# IPv6 routed through the tunnel (tunnel supports v6)\n",
        "\t\tip6 saddr fe80::/10 ip6 daddr fe80::/10 accept\n"]) ++
  (if policy.blockDirectUdp then
    ["\t\t# drop direct UDP (only tunnel-carried UDP is permitted)\n",
      "\t\tip saddr " ++ cidr ++ " meta l4proto udp drop\n"]
  else []) ++
  ["\t\t# only the downstream browser subnet may reach the tunnel\n",
    "\t\tip saddr " ++ cidr ++ " accept\n"]

/-- The lines of the OUTPUT section. -/
def outputText (policy : FirewallPolicy) : List String :=
  ["\t\tct state established,related accept\n",
    "\t\toif \"" ++ loopback ++ "\" accept\n"] ++
  (match policy.ipv6 with
    | .block => ["\t\tmeta nfproto ipv6 drop\n"]
    | .routeThroughTunnel => []) ++
  ["\t\tmeta nfproto ipv4 ct state new accept\n"]

/-- The text `render_nftables` pushes, one line an entry. -/
def renderNftablesText (policy : FirewallPolicy) (cfg : GatewayConfig) : List String :=
  let cidr := cfg.downstreamCidr
  ["#!/usr/sbin/nft -f\n",
    "# Aegis Gateway fail-closed ruleset (spec §5). Generated; do not edit.\n",
    "add table inet " ++ tableName ++ "\n",
    "delete table inet " ++ tableName ++ "\n",
    "table inet " ++ tableName ++ " \x7b\n",
    "\tchain prerouting \x7b\n",
    "\t\ttype nat hook prerouting priority dstnat; policy accept;\n"] ++
  preroutingText policy cidr ++
  ["\t\x7d\n",
    "\tchain input \x7b\n",
    "\t\ttype filter hook input priority filter; policy drop;\n"] ++
  inputText policy cidr ++
  ["\t\x7d\n",
    "\tchain forward \x7b\n",
    "\t\ttype filter hook forward priority filter; policy drop;\n"] ++
  forwardText policy cidr ++
  ["\t\x7d\n",
    "\tchain output \x7b\n",
    "\t\ttype filter hook output priority filter; policy drop;\n"] ++
  outputText policy ++
  ["\t\x7d\n",
    "\x7d\n"]

/-- The text `render_killswitch` pushes. -/
def renderKillswitchText : List String :=
  ["#!/usr/sbin/nft -f\n",
    "# Aegis kill switch: total block. All chains drop, no exceptions.\n",
    "add table inet " ++ tableName ++ "\n",
    "delete table inet " ++ tableName ++ "\n",
    "table inet " ++ tableName ++ " \x7b\n"] ++
  ["input", "forward", "output"].flatMap (fun hook =>
    ["\tchain " ++ hook ++ " \x7b\n",
      "\t\ttype filter hook " ++ hook ++ " priority filter; policy drop;\n",
      "\t\x7d\n"]) ++
  ["\x7d\n"]

attribute [local simp] Rule.lines Rule.script Match.script Stmt.script commas CtState.script
  String.append_assoc

private theorem portText_dns : portText 53#16 = "53" := by decide

theorem preroutingRules_lines (policy : FirewallPolicy) (cidr : String) :
    (preroutingRules policy cidr).flatMap Rule.lines = preroutingText policy cidr := by
  unfold preroutingRules preroutingText
  cases policy.redirectDnsTo <;> cases policy.redirectTcpTo <;>
    simp [← String.toList_inj, portText_dns]

theorem inputRules_lines (policy : FirewallPolicy) (cidr : String) :
    (inputRules policy cidr).flatMap Rule.lines = inputText policy cidr := by
  unfold inputRules inputText
  cases policy.redirectDnsTo <;> cases policy.redirectTcpTo <;>
    cases policy.rejectHostInitiated <;>
      simp [← String.toList_inj, establishedRelated, loopback]

theorem forwardRules_lines (policy : FirewallPolicy) (cidr : String) :
    (forwardRules policy cidr).flatMap Rule.lines = forwardText policy cidr := by
  unfold forwardRules forwardText
  cases policy.ipv6 <;> cases policy.blockDirectUdp <;>
    simp [← String.toList_inj, establishedRelated]

theorem outputRules_lines (policy : FirewallPolicy) :
    (outputRules policy).flatMap Rule.lines = outputText policy := by
  unfold outputRules outputText
  cases policy.ipv6 <;> simp [establishedRelated, loopback]

/-- The commands are the script: below its two header lines, the rendered text is the
concrete syntax of the commands. -/
theorem scriptLines_renderNftables (policy : FirewallPolicy) (cfg : GatewayConfig) :
    scriptLines (renderNftables policy cfg) = (renderNftablesText policy cfg).drop 2 := by
  simp [scriptLines, renderNftables, replaceTable, aegisTable, Command.lines, Chain.lines,
    filterChain, preroutingRules_lines, inputRules_lines, forwardRules_lines,
    outputRules_lines, renderNftablesText, ChainType.script, Hook.script, Policy.script,
    Family.script, tableName, -Rule.lines]

theorem scriptLines_renderKillswitch :
    scriptLines renderKillswitch = renderKillswitchText.drop 2 := by
  simp [scriptLines, renderKillswitch, replaceTable, killswitchTable, Command.lines,
    Chain.lines, filterChain, renderKillswitchText, ChainType.script, Hook.script,
    Policy.script, Family.script, tableName]

end Aegis.Gateway
