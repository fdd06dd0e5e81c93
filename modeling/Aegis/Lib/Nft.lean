import Mathlib.Data.BitVec
import Mathlib.Data.List.Basic

/-! A packet-filter semantics for nftables: rules, base chains and tables, the verdict
of a hook, destination translation, and the commands that load tables into a host. -/
namespace Nft

abbrev Port := BitVec 16

/-- Addresses of an IP packet; both ends belong to one family. -/
inductive Net where
  | ipv4 (saddr daddr : BitVec 32)
  | ipv6 (saddr daddr : BitVec 128)
  deriving DecidableEq

inductive Transport where
  | tcp (sport dport : Port) (flags : BitVec 8)
  | udp (sport dport : Port)
  | icmp (type : BitVec 8)
  | other (proto : BitVec 8)
  deriving DecidableEq

inductive CtState where
  | new
  | established
  | related
  | invalid
  | untracked
  deriving DecidableEq

/-- `iif` is the interface a packet arrived on and `oif` the one it would leave by;
a packet that does not have one carries the empty name there. -/
structure Packet where
  iif : String
  oif : String
  net : Net
  transport : Transport
  ct : CtState
  deriving DecidableEq

namespace Packet

def isTcp (p : Packet) : Bool := match p.transport with | .tcp _ _ _ => true | _ => false
def isUdp (p : Packet) : Bool := match p.transport with | .udp _ _ => true | _ => false

/-- The destination port of a TCP or UDP packet. -/
def dport (p : Packet) : Option Port :=
  match p.transport with
  | .tcp _ d _ => some d
  | .udp _ d => some d
  | _ => none

def tcpFlags (p : Packet) : BitVec 8 := match p.transport with | .tcp _ _ f => f | _ => 0

/-- Rewrite the destination port; packets without ports are unchanged. -/
def setDport (p : Packet) (d : Port) : Packet :=
  match p.transport with
  | .tcp s _ f => { p with transport := .tcp s d f }
  | .udp s _ => { p with transport := .udp s d }
  | _ => p

end Packet

/-- An address prefix of width `w`: the first `len` bits of `addr`. -/
structure Subnet (w : ℕ) where
  addr : BitVec w
  len : ℕ
  deriving DecidableEq

def Subnet.contains {w : ℕ} (s : Subnet w) (a : BitVec w) : Bool :=
  a.toNat / 2 ^ (w - s.len) = s.addr.toNat / 2 ^ (w - s.len)

/-- The value of a dotted quad, from its characters. -/
def parseOctet (cs : List Char) : Option ℕ :=
  if cs ≠ [] ∧ cs.length ≤ 3 ∧ cs.all Char.isDigit then
    let n := cs.foldl (fun n c => 10 * n + (c.toNat - '0'.toNat)) 0
    if n < 256 then some n else none
  else none

def splitOn (sep : Char) : List Char → List (List Char)
  | [] => [[]]
  | c :: cs =>
    if c = sep then [] :: splitOn sep cs
    else match splitOn sep cs with
      | [] => [[c]]
      | w :: ws => (c :: w) :: ws

/-- Read `a.b.c.d/len`, the form an IPv4 prefix has in a rule. -/
def parseCidr (text : String) : Option (Subnet 32) :=
  match splitOn '/' text.toList with
  | [quad, len] =>
    match (splitOn '.' quad).mapM parseOctet, parseOctet len with
    | some [a, b, c, d], some n =>
      if n ≤ 32 then some ⟨BitVec.ofNat 32 (((a * 256 + b) * 256 + c) * 256 + d), n⟩ else none
    | _, _ => none
  | _ => none

inductive L4Proto where
  | tcp
  | udp
  deriving DecidableEq

/-- Matching expressions. A `saddr` or `daddr` prefix is kept as the text of the rule and
read by `parseCidr`; a text that is no prefix matches nothing. -/
inductive Match where
  | iif (name : String)
  | iifNe (name : String)
  | oif (name : String)
  | nfprotoIpv4
  | nfprotoIpv6
  | saddr (cidr : String)
  | saddrNe (cidr : String)
  | daddr (cidr : String)
  | saddr6 (text : String) (pre : Subnet 128)
  | daddr6 (text : String) (pre : Subnet 128)
  | l4proto (l : L4Proto)
  | tcpDport (d : Port)
  | tcpDportNe (d : Port)
  | udpDport (d : Port)
  | tcpFlags (text : String) (mask : BitVec 8)
  | icmpType (texts : List String) (types : List (BitVec 8))
  | ctState (states : List CtState)

def inCidr (cidr : String) (a : BitVec 32) : Bool :=
  match parseCidr cidr with
  | some s => s.contains a
  | none => false

namespace Match

/-- Whether a packet satisfies the expression. An expression on a header the packet
does not have fails; a flag mask holds when one of its bits is set. -/
def holds (p : Packet) : Match → Bool
  | iif n => p.iif = n
  | iifNe n => p.iif ≠ n
  | oif n => p.oif = n
  | nfprotoIpv4 => match p.net with | .ipv4 _ _ => true | _ => false
  | nfprotoIpv6 => match p.net with | .ipv6 _ _ => true | _ => false
  | saddr c => match p.net with | .ipv4 s _ => inCidr c s | _ => false
  | saddrNe c => match p.net with | .ipv4 s _ => !inCidr c s | _ => false
  | daddr c => match p.net with | .ipv4 _ d => inCidr c d | _ => false
  | saddr6 _ q => match p.net with | .ipv6 s _ => q.contains s | _ => false
  | daddr6 _ q => match p.net with | .ipv6 _ d => q.contains d | _ => false
  | l4proto .tcp => p.isTcp
  | l4proto .udp => p.isUdp
  | tcpDport d => p.isTcp && p.dport = some d
  | tcpDportNe d => p.isTcp && p.dport ≠ some d
  | udpDport d => p.isUdp && p.dport = some d
  | tcpFlags _ m => p.isTcp && (p.tcpFlags &&& m) ≠ 0
  | icmpType _ ts => match p.net, p.transport with | .ipv4 _ _, .icmp t => t ∈ ts | _, _ => false
  | ctState l => p.ct ∈ l

end Match

inductive Stmt where
  | accept
  | drop
  | reject (kind : String)
  | return
  | redirect (port : Port)
  | masquerade
  deriving DecidableEq

/-- A rule: its conditions all hold or it is skipped. `comments` are the comment lines
written above it. -/
structure Rule where
  comments : List String := []
  conds : List Match
  stmt : Stmt

def Rule.applies (p : Packet) (r : Rule) : Bool := r.conds.all (·.holds p)

inductive ChainType where
  | filter
  | nat
  deriving DecidableEq

inductive Hook where
  | prerouting
  | input
  | forward
  | output
  | postrouting
  deriving DecidableEq

inductive Policy where
  | accept
  | drop
  deriving DecidableEq

/-- A base chain. -/
structure Chain where
  name : String
  type : ChainType
  hook : Hook
  priority : String
  policy : Policy
  rules : List Rule

/-- The statement of the first rule that applies. -/
def firstMatch (p : Packet) : List Rule → Option Stmt
  | [] => none
  | r :: rs => if r.applies p then some r.stmt else firstMatch p rs

@[simp] theorem firstMatch_nil (p : Packet) : firstMatch p [] = none := rfl

theorem firstMatch_cons (p : Packet) (r : Rule) (rs : List Rule) :
    firstMatch p (r :: rs) = if r.applies p then some r.stmt else firstMatch p rs := rfl

theorem firstMatch_append (p : Packet) (rs ts : List Rule) :
    firstMatch p (rs ++ ts) = (firstMatch p rs).or (firstMatch p ts) := by
  induction rs with
  | nil => simp
  | cons r rs ih =>
    rw [List.cons_append, firstMatch_cons, firstMatch_cons, ih]
    split_ifs <;> simp

/-- Repeating a rule decides nothing new. -/
theorem firstMatch_replicate (p : Packet) (r : Rule) (n : ℕ) :
    firstMatch p (List.replicate (n + 1) r) = firstMatch p [r] := by
  induction n with
  | zero => rfl
  | succ n ih =>
    rw [List.replicate_succ, firstMatch_cons, ih, firstMatch_cons]
    split_ifs <;> rfl

/-- The first terminal match decides, and the policy decides when there is none.
`return` from a base chain falls to its policy; translations accept. -/
def Chain.accepts (p : Packet) (c : Chain) : Bool :=
  match firstMatch p c.rules with
  | some .accept | some (.redirect _) | some .masquerade => true
  | some .drop | some (.reject _) => false
  | some .return | none => c.policy = .accept

inductive Family where
  | inet
  | ip
  | ip6
  deriving DecidableEq

structure Table where
  family : Family
  name : String
  chains : List Chain

/-- Whether tables of the family see the packet. -/
def Family.sees (p : Packet) : Family → Bool
  | inet => true
  | ip => match p.net with | .ipv4 _ _ => true | _ => false
  | ip6 => match p.net with | .ipv6 _ _ => true | _ => false

/-- The base chains a packet traverses on a hook, filters or translations. -/
def chainsOn (tables : List Table) (type : ChainType) (hook : Hook) (p : Packet) : List Chain :=
  (tables.filter fun t => t.family.sees p).flatMap fun t =>
    t.chains.filter fun c => c.type = type ∧ c.hook = hook

/-- A packet passes a hook when every filter chain on it accepts. -/
def passes (tables : List Table) (hook : Hook) (p : Packet) : Bool :=
  (chainsOn tables .filter hook p).all (·.accepts p)

/-- The verdict of a hook: a packet passes when every base chain on it accepts, translations
included. -/
def verdict (tables : List Table) (hook : Hook) (p : Packet) : Bool :=
  passes tables hook p && (chainsOn tables .nat hook p).all (·.accepts p)

@[simp] theorem verdict_nil (hook : Hook) (p : Packet) : verdict [] hook p = true := rfl

/-- Every table of a ruleset has to let the packet pass. -/
theorem verdict_append (ts us : List Table) (hook : Hook) (p : Packet) :
    verdict (ts ++ us) hook p = (verdict ts hook p && verdict us hook p) := by
  have hchains (type : ChainType) : chainsOn (ts ++ us) type hook p =
      chainsOn ts type hook p ++ chainsOn us type hook p := by
    simp [chainsOn]
  simp only [verdict, passes, hchains, List.all_append]
  ac_rfl

theorem verdict_cons (t : Table) (ts : List Table) (hook : Hook) (p : Packet) :
    verdict (t :: ts) hook p = (verdict [t] hook p && verdict ts hook p) :=
  verdict_append [t] ts hook p

/-- A table of one family sees no more packets than the same table for both. -/
theorem verdict_of_inet {n m : String} {f : Family} {chains : List Chain} {hook : Hook} {p : Packet}
    (h : verdict [⟨.inet, n, chains⟩] hook p = true) : verdict [⟨f, m, chains⟩] hook p = true := by
  by_cases hsees : f.sees p = true
  · have hchains (type : ChainType) : chainsOn [⟨f, m, chains⟩] type hook p =
        chainsOn [⟨.inet, n, chains⟩] type hook p := by
      have hboth : Family.inet.sees p = true := rfl
      simp [chainsOn, hsees, hboth]
    rw [← h]
    simp only [verdict, passes, hchains]
  · simp [verdict, passes, chainsOn, hsees]

/-- The addresses and routes of the host that runs the rules; the address a redirection
uses is one of its own. -/
structure Host where
  isLocal : Net → Bool
  ifaceAddr : String → BitVec 32
  oif : Net → String
  redirect_local : ∀ s i, isLocal (.ipv4 s (ifaceAddr i)) = true

/-- Redirection sends an IPv4 packet to the host itself, at the given port. -/
def Host.redirect (h : Host) (port : Port) (p : Packet) : Packet :=
  match p.net with
  | .ipv4 s _ => { p.setDport port with net := .ipv4 s (h.ifaceAddr p.iif) }
  | .ipv6 _ _ => p

/-- The port a translation chain redirects a packet to. -/
def Chain.redirectPort (p : Packet) (c : Chain) : Option Port :=
  match firstMatch p c.rules with
  | some (.redirect port) => some port
  | _ => none

/-- Destination translation of the first packet of a flow, by the first prerouting
translation chain that redirects it. -/
def Host.prerouting (h : Host) (tables : List Table) (p : Packet) : Packet :=
  match (chainsOn tables .nat .prerouting p).findSome? (Chain.redirectPort p) with
  | some port => h.redirect port p
  | none => p

inductive Outcome where
  | delivered (p : Packet)
  | forwarded (p : Packet)
  | blocked
  deriving DecidableEq

/-- What becomes of the first packet of a flow that arrives at the host: translation,
routing, then the input or the forward hook. -/
def Host.receive (h : Host) (tables : List Table) (p : Packet) : Outcome :=
  let q := h.prerouting tables p
  if h.isLocal q.net then
    if passes tables .input q then .delivered q else .blocked
  else
    let q := { q with oif := h.oif q.net }
    if passes tables .forward q then .forwarded q else .blocked

/-- The commands of a script. A script is loaded as one transaction. -/
inductive Command where
  | addTable (family : Family) (name : String)
  | deleteTable (family : Family) (name : String)
  | table (t : Table)

def Table.is (t : Table) (family : Family) (name : String) : Bool :=
  t.family = family ∧ t.name = name

def hasTable (tables : List Table) (family : Family) (name : String) : Bool :=
  tables.any fun t => t.is family name

/-- Declare a chain: an existing chain of that name gets the rules in addition to its own. -/
def addChain (chains : List Chain) (c : Chain) : List Chain :=
  if chains.any (·.name = c.name) then
    chains.map fun d =>
      if d.name = c.name then { d with policy := c.policy, rules := d.rules ++ c.rules } else d
  else chains ++ [c]

/-- Execute one command; deleting an absent table is an error. A table block adds its
chains to the table of that name, creating it where it is absent. -/
def runCommand (tables : List Table) : Command → Option (List Table)
  | .addTable f n => some (if hasTable tables f n then tables else tables ++ [⟨f, n, []⟩])
  | .deleteTable f n =>
    if hasTable tables f n then some (tables.filter fun t => !t.is f n) else none
  | .table t =>
    some (if hasTable tables t.family t.name then
      tables.map fun u =>
        if u.is t.family t.name then { u with chains := t.chains.foldl addChain u.chains } else u
    else tables ++ [t])

/-- Load a script; a failing command leaves the tables as they were. -/
def load (tables : List Table) (script : List Command) : Option (List Table) :=
  script.foldlM runCommand tables

theorem load_append (tables : List Table) (script rest : List Command) :
    load tables (script ++ rest) = (load tables script).bind fun tables => load tables rest :=
  List.foldlM_append

/-- Adding and deleting a table removes it, whether it was there or not. -/
theorem load_remove (tables : List Table) (f : Family) (n : String) :
    load tables [.addTable f n, .deleteTable f n] = some (tables.filter fun t => !t.is f n) := by
  have hself : (⟨f, n, []⟩ : Table).is f n = true := by simp [Table.is]
  by_cases h : hasTable tables f n = true
  · simp [load, runCommand, h]
  · have hadd : hasTable (tables ++ [⟨f, n, []⟩]) f n = true := by simp [hasTable, hself]
    simp [load, runCommand, h, hadd, hself]

/-- Adding, deleting and defining a table replaces whatever the table held before. -/
theorem load_replace (tables : List Table) (t : Table) :
    load tables [.addTable t.family t.name, .deleteTable t.family t.name, .table t] =
      some (tables.filter (fun u => !u.is t.family t.name) ++ [t]) := by
  have hgone : hasTable (tables.filter fun u => !u.is t.family t.name) t.family t.name = false := by
    simp [hasTable]
  have hremove := load_remove tables t.family t.name
  have happ := load_append tables [.addTable t.family t.name, .deleteTable t.family t.name]
    [.table t]
  rw [hremove] at happ
  simpa [load, runCommand, hgone] using happ

/-! ## Concrete syntax -/

def CtState.script : CtState → String
  | new => "new"
  | established => "established"
  | related => "related"
  | invalid => "invalid"
  | untracked => "untracked"

def portText (d : Port) : String := toString d.toNat

def commas : List String → String
  | [] => ""
  | [s] => s
  | s :: ss => s ++ "," ++ commas ss

def Match.script : Match → String
  | iif n => "iif \"" ++ n ++ "\""
  | iifNe n => "iif != \"" ++ n ++ "\""
  | oif n => "oif \"" ++ n ++ "\""
  | nfprotoIpv4 => "meta nfproto ipv4"
  | nfprotoIpv6 => "meta nfproto ipv6"
  | saddr c => "ip saddr " ++ c
  | saddrNe c => "ip saddr != " ++ c
  | daddr c => "ip daddr " ++ c
  | saddr6 t _ => "ip6 saddr " ++ t
  | daddr6 t _ => "ip6 daddr " ++ t
  | l4proto .tcp => "meta l4proto tcp"
  | l4proto .udp => "meta l4proto udp"
  | tcpDport d => "tcp dport " ++ portText d
  | tcpDportNe d => "tcp dport != " ++ portText d
  | udpDport d => "udp dport " ++ portText d
  | tcpFlags t _ => "tcp flags " ++ t
  | icmpType ts _ => "icmp type \x7b " ++ commas ts ++ " \x7d"
  | ctState l => "ct state " ++ commas (l.map CtState.script)

def Stmt.script : Stmt → String
  | accept => "accept"
  | drop => "drop"
  | reject k => "reject with " ++ k
  | .return => "return"
  | redirect d => "redirect to :" ++ portText d
  | masquerade => "masquerade"

/-- The conditions and the statement, separated by blanks. -/
def Rule.script (r : Rule) : String :=
  r.conds.foldr (fun m s => m.script ++ " " ++ s) r.stmt.script

def Rule.lines (r : Rule) : List String :=
  r.comments.map (fun c => "\t\t# " ++ c ++ "\n") ++ ["\t\t" ++ r.script ++ "\n"]

def ChainType.script : ChainType → String
  | filter => "filter"
  | nat => "nat"

def Hook.script : Hook → String
  | prerouting => "prerouting"
  | input => "input"
  | forward => "forward"
  | output => "output"
  | postrouting => "postrouting"

def Policy.script : Policy → String
  | accept => "accept"
  | drop => "drop"

def Chain.lines (c : Chain) : List String :=
  ["\tchain " ++ c.name ++ " \x7b\n",
    "\t\ttype " ++ c.type.script ++ " hook " ++ c.hook.script ++ " priority " ++ c.priority ++
      "; policy " ++ c.policy.script ++ ";\n"] ++
    c.rules.flatMap Rule.lines ++ ["\t\x7d\n"]

def Family.script : Family → String
  | inet => "inet"
  | ip => "ip"
  | ip6 => "ip6"

def Command.lines : Command → List String
  | addTable f n => ["add table " ++ f.script ++ " " ++ n ++ "\n"]
  | deleteTable f n => ["delete table " ++ f.script ++ " " ++ n ++ "\n"]
  | table t => ["table " ++ t.family.script ++ " " ++ t.name ++ " \x7b\n"] ++
      t.chains.flatMap Chain.lines ++ ["\x7d\n"]

/-- The text of a script below its header comments. -/
def scriptLines (script : List Command) : List String := script.flatMap Command.lines

end Nft
