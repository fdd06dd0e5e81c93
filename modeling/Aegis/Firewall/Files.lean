import Aegis.Lib.Nft

/-! The nftables files of the repository: the armed set and the kill switch, as they stand under
`firewall/nftables` and in the gateway image. -/
namespace Aegis.Firewall
open Nft

def downIf : String := "eth1"
def upIf : String := "eth0"
def loopback : String := "lo"
def lanNet : String := "10.152.152.0/24"
/-- The address `10.152.152.1`, as a prefix. -/
def gwAddr : String := "10.152.152.1/32"
def torDnsport : Nft.Port := 5353
def torTransport : Nft.Port := 9040
def torVirtual : String := "10.192.0.0/10"

/-- A base filter chain that drops what its rules do not accept. -/
def dropChain (hook : Hook) (rules : List Rule) : Chain where
  name := hook.script
  type := .filter
  hook := hook
  priority := "filter"
  policy := .drop
  rules := rules

def acceptIif : Rule := { conds := [.iif loopback], stmt := .accept }
def acceptOif : Rule := { conds := [.oif loopback], stmt := .accept }

/-- Input, forward and output chains that let only loopback pass. -/
def loopbackChains : List Chain :=
  [dropChain .input [acceptIif], dropChain .forward [], dropChain .output [acceptOif]]

/-- `ipv6-block.nft`: drop all IPv6. -/
def ip6Filter : Table := ⟨.ip6, "filter", loopbackChains⟩

/-- `nat-tor.nft`: redirect the browser subnet into Tor, masquerade what leaves upstream. -/
def ipNat : Table where
  family := .ip
  name := "nat"
  chains :=
    [{ name := "prerouting", type := .nat, hook := .prerouting, priority := "dstnat"
       policy := .accept
       rules :=
        [{ conds := [.iifNe downIf], stmt := .return },
          { conds := [.saddrNe lanNet], stmt := .return },
          { conds := [.l4proto .udp, .udpDport 53], stmt := .redirect torDnsport },
          { conds := [.l4proto .tcp, .tcpDport 53], stmt := .redirect torTransport },
          { conds := [.daddr torVirtual, .l4proto .tcp], stmt := .redirect torTransport },
          { conds := [.l4proto .tcp], stmt := .redirect torTransport }] },
      { name := "postrouting", type := .nat, hook := .postrouting, priority := "srcnat"
        policy := .accept, rules := [{ conds := [.oif upIf], stmt := .masquerade }] }]

def returnTraffic : List Rule :=
  [{ conds := [.ctState [.established, .related]], stmt := .accept },
    { conds := [.ctState [.invalid]], stmt := .drop }]

/-- A connection of the browser subnet to a Tor port of the gateway. -/
def acceptTor (port : Match) : Rule :=
  { conds := [.iif downIf, .saddr lanNet, .daddr gwAddr, port], stmt := .accept }

/-- `gateway.nft`: the stateful default-deny firewall. -/
def inetFilter : Table where
  family := .inet
  name := "filter"
  chains :=
    [dropChain .input ([acceptIif] ++ returnTraffic ++
        [acceptTor (.tcpDport torTransport), acceptTor (.udpDport torDnsport),
          acceptTor (.tcpDport torDnsport),
          { conds := [.iif downIf, .saddr lanNet,
              .icmpType ["echo-request", "destination-unreachable"] [8, 3]]
            stmt := .accept }]),
      dropChain .forward (returnTraffic ++
        [{ conds := [.saddr lanNet, .udpDport 53], stmt := .drop },
          { conds := [.saddr lanNet, .l4proto .udp], stmt := .drop }]),
      dropChain .output ([acceptOif] ++ returnTraffic ++
        [{ conds := [.oif upIf], stmt := .accept }])]

/-- Declare a table and delete it, so that nothing is left of it. -/
def remove (family : Family) (name : String) : List Command :=
  [.addTable family name, .deleteTable family name]

/-- Replace a table. -/
def replace (t : Table) : List Command := remove t.family t.name ++ [.table t]

/-- The table of `killswitch.nft`. -/
def killswitch : Table := ⟨.inet, "killswitch", loopbackChains⟩

/-- The tables of `aegis-killswitch.nft`. -/
def aegisLock : Table := ⟨.inet, "aegis_lock", loopbackChains⟩
def aegisLock6 : Table := ⟨.ip6, "aegis_lock6", loopbackChains⟩

/-- Where the files are taken from. -/
inductive Source where
  | firewallDir
  | gatewayImage

/-- A load of the operator, of the health check or of a unit. -/
inductive Load where
  | armed
  | killswitch
  deriving DecidableEq

/-- The scripts of a load, each loaded as one transaction. -/
def Load.scripts : Load → Source → List (List Command)
  | armed, .firewallDir => [replace ip6Filter, replace ipNat, replace inetFilter]
  | armed, .gatewayImage => [replace ip6Filter ++ replace ipNat ++ replace inetFilter]
  | killswitch, .firewallDir =>
    [remove .inet "filter" ++ remove .ip "nat" ++ [.table Firewall.killswitch]]
  | killswitch, .gatewayImage =>
    [remove .inet "filter" ++ remove .ip "nat" ++ remove .ip6 "filter" ++
      [.table aegisLock, .table aegisLock6]]

/-- Load one after the other. -/
def loadAll (src : Source) (tables : List Table) (ls : List Load) : Option (List Table) :=
  ls.foldlM (fun tables l => (l.scripts src).foldlM load tables) tables

end Aegis.Firewall
