import Aegis.Lib.Nft

/-! Connection tracking beside a ruleset: the flows a host has seen, the state a packet gets from
them, and the translation of its destination along a flow. -/
namespace Nft

inductive Addr where
  | v4 (a : BitVec 32)
  | v6 (a : BitVec 128)
  deriving DecidableEq

namespace Net

def src : Net → Addr
  | ipv4 s _ => .v4 s
  | ipv6 s _ => .v6 s

def dst : Net → Addr
  | ipv4 _ d => .v4 d
  | ipv6 _ d => .v6 d

def isIpv4 : Net → Bool
  | ipv4 _ _ => true
  | ipv6 _ _ => false

def swap : Net → Net
  | ipv4 s d => ipv4 d s
  | ipv6 s d => ipv6 d s

/-- Replace the source; an address of the other family changes nothing. -/
def setSrc : Net → Addr → Net
  | ipv4 _ d, .v4 s => ipv4 s d
  | ipv6 _ d, .v6 s => ipv6 s d
  | n, _ => n

/-- Replace the destination; an address of the other family changes nothing. -/
def setDst : Net → Addr → Net
  | ipv4 s _, .v4 d => ipv4 s d
  | ipv6 s _, .v6 d => ipv6 s d
  | n, _ => n

@[simp] theorem src_swap (n : Net) : n.swap.src = n.dst := by cases n <;> rfl
@[simp] theorem isIpv4_swap (n : Net) : n.swap.isIpv4 = n.isIpv4 := by cases n <;> rfl

@[simp] theorem isIpv4_setSrc (n : Net) (a : Addr) : (n.setSrc a).isIpv4 = n.isIpv4 := by
  cases n <;> cases a <;> rfl

@[simp] theorem src_setDst (n : Net) (a : Addr) : (n.setDst a).src = n.src := by
  cases n <;> cases a <;> rfl

theorem dst_setDst_src {n m : Net} (h : n.isIpv4 = m.isIpv4) : (n.setDst m.src).dst = m.src := by
  cases n <;> cases m <;> first | rfl | cases h

theorem isIpv4_of_dst_eq {n m : Net} (h : n.dst = m.dst) : n.isIpv4 = m.isIpv4 := by
  cases n <;> cases m <;> first | rfl | cases h

theorem isIpv4_of_src_eq {n m : Net} (h : n.src = m.src) : n.isIpv4 = m.isIpv4 := by
  cases n <;> cases m <;> first | rfl | cases h

theorem eq_ipv4 {n : Net} {s : BitVec 32} (hsrc : n.src = .v4 s) : ∃ d, n = ipv4 s d := by
  cases n with
  | ipv4 s' d => cases hsrc; exact ⟨d, rfl⟩
  | ipv6 s' d => cases hsrc

end Net

/-! ### Tuples -/

/-- What identifies a flow beside the addresses. -/
inductive L4 where
  | tcp (sport dport : Port)
  | udp (sport dport : Port)
  | icmp (type : BitVec 8) (id : BitVec 16)
  | other (proto : BitVec 8)
  deriving DecidableEq

/-- One direction of a flow. -/
structure Tuple where
  net : Net
  l4 : L4
  deriving DecidableEq

/-- The ICMP queries and their answers, for IPv4 or for IPv6. -/
def icmpQueries : Bool → List (BitVec 8 × BitVec 8)
  | true => [(8, 0), (13, 14), (15, 16), (17, 18)]
  | false => [(128, 129), (139, 140)]

namespace Tuple

/-- The tuple of the packets that answer; only queries and answers have one among the ICMP
messages. -/
def invert (t : Tuple) : Option Tuple :=
  match t.l4 with
  | .tcp s d => some ⟨t.net.swap, .tcp d s⟩
  | .udp s d => some ⟨t.net.swap, .udp d s⟩
  | .other n => some ⟨t.net.swap, .other n⟩
  | .icmp type id =>
    let queries := icmpQueries t.net.isIpv4
    ((queries ++ queries.map Prod.swap).lookup type).map fun type => ⟨t.net.swap, .icmp type id⟩

theorem invert_net {t u : Tuple} (h : t.invert = some u) : u.net = t.net.swap := by
  unfold invert at h
  split at h
  · cases h; rfl
  · cases h; rfl
  · cases h; rfl
  · obtain ⟨type, -, rfl⟩ := Option.map_eq_some_iff.mp h
    rfl

/-- Whether a packet with the tuple can start a flow: an ICMP message has to be a query. -/
def opens (t : Tuple) : Bool :=
  match t.l4 with
  | .icmp type _ => ((icmpQueries t.net.isIpv4).lookup type).isSome
  | _ => true

def sport (t : Tuple) : Option Port :=
  match t.l4 with
  | .tcp s _ => some s
  | .udp s _ => some s
  | _ => none

/-- Another source port; for ICMP, another identifier. -/
def setSport (t : Tuple) (s : Port) : Tuple :=
  match t.l4 with
  | .tcp _ d => { t with l4 := .tcp s d }
  | .udp _ d => { t with l4 := .udp s d }
  | .icmp type _ => { t with l4 := .icmp type s }
  | .other _ => t

@[simp] theorem net_setSport (t : Tuple) (s : Port) : (t.setSport s).net = t.net := by
  unfold setSport
  split <;> rfl

end Tuple

/-- A packet with what tracking reads of it besides: the identifier of an ICMP query, and the
tuple of the packet an ICMP error embeds. -/
structure Datagram where
  packet : Packet
  id : BitVec 16 := 0
  inner : Option Tuple := none
  deriving DecidableEq

namespace Datagram

def tuple (d : Datagram) : Tuple where
  net := d.packet.net
  l4 := match d.packet.transport with
    | .tcp s p _ => .tcp s p
    | .udp s p => .udp s p
    | .icmp type => .icmp type d.id
    | .other n => .other n

def icmpTypeIn (d : Datagram) (v4 v6 : BitVec 8 → Bool) : Bool :=
  match d.packet.net, d.packet.transport with
  | .ipv4 _ _, .icmp type => v4 type
  | .ipv6 _ _, .icmp type => v6 type
  | _, _ => false

/-- An ICMP error: unreachable, source quench, redirect, time exceeded, parameter problem; for
IPv6 the lower half of the types. -/
def isError (d : Datagram) : Bool :=
  d.icmpTypeIn (fun type => [3, 4, 5, 11, 12].contains type) (· < 128)

/-- Multicast listener and neighbour discovery is not tracked. -/
def isUntracked (d : Datagram) : Bool :=
  d.icmpTypeIn (fun _ => false)
    (fun type => [130, 131, 132, 133, 134, 135, 136, 143].contains type)

end Datagram

/-! ### Flows -/

/-- A flow: the tuple of its first packet, and the tuple of the answers to what translation made
of that packet. -/
structure Flow where
  original : Tuple
  reply : Tuple
  seenReply : Bool := false
  deriving DecidableEq

inductive Direction where
  | original
  | reply
  deriving DecidableEq

def Direction.opposite : Direction → Direction
  | original => reply
  | reply => original

def Flow.tuple (f : Flow) : Direction → Tuple
  | .original => f.original
  | .reply => f.reply

/-- The packets of one direction of a flow go to the source of the other one. -/
def Flow.translate (f : Flow) (dir : Direction) (p : Packet) : Packet :=
  let other := f.tuple dir.opposite
  let q := match other.sport with
    | some port => p.setDport port
    | none => p
  { q with net := p.net.setDst other.net.src }

/-- The flow and the direction a tuple belongs to. -/
def lookup (flows : List Flow) (t : Tuple) : Option (Flow × Direction) :=
  flows.findSome? fun f =>
    if f.original = t then some (f, .original)
    else if f.reply = t then some (f, .reply) else none

theorem lookup_eq_some {flows : List Flow} {t : Tuple} {f : Flow} {dir : Direction}
    (h : lookup flows t = some (f, dir)) : f ∈ flows ∧ f.tuple dir = t := by
  obtain ⟨g, hg, hf⟩ := List.exists_of_findSome?_eq_some h
  split_ifs at hf with horig hreply
  · cases hf; exact ⟨hg, horig⟩
  · cases hf; exact ⟨hg, hreply⟩

/-- The flow that a packet with tuple `t` starts when translation leaves tuple `q` of it. Where
the answers to it would be those of another flow the source port is changed, and the packet is
dropped where that does not help. -/
def Flow.start (flows : List Flow) (t q : Tuple) (port : Port) : Option Flow :=
  match q.invert with
  | none => none
  | some u =>
    if (lookup flows u).isNone then some { original := t, reply := u }
    else match (q.setSport port).invert with
      | none => none
      | some u =>
        if (lookup flows u).isNone then some { original := t, reply := u } else none

theorem Flow.start_eq_some {flows : List Flow} {t q : Tuple} {port : Port} {f : Flow}
    (h : Flow.start flows t q port = some f) : f.original = t ∧ f.reply.net = q.net.swap := by
  unfold Flow.start at h
  split at h
  · cases h
  next u hu =>
    split_ifs at h with hfree
    · cases h
      exact ⟨rfl, Tuple.invert_net hu⟩
    · split at h
      · cases h
      next u' hu' =>
        split_ifs at h
        cases h
        exact ⟨rfl, by rw [Tuple.invert_net hu', Tuple.net_setSport]⟩

/-- What tracking makes of a packet: its state, and the flow it goes along. -/
structure Tracked where
  ct : CtState
  along : Option (Flow × Direction) := none
  deriving DecidableEq

/-- The first packet of a flow. -/
def Tracked.fresh (k : Tracked) : Bool := k.ct = .new && k.along.isNone

/-- The flow an ICMP error is about: that of the packet it embeds, if the error is for the sender
of that packet. -/
def Datagram.about (flows : List Flow) (d : Datagram) : Option (Flow × Direction) :=
  (d.inner.bind Tuple.invert).bind fun t =>
    if d.packet.net.dst = t.net.dst then lookup flows t else none

theorem Datagram.about_eq_some {flows : List Flow} {d : Datagram} {f : Flow} {dir : Direction}
    (h : d.about flows = some (f, dir)) :
    f ∈ flows ∧ d.packet.net.dst = (f.tuple dir).net.dst := by
  obtain ⟨t, -, ht⟩ := Option.bind_eq_some_iff.mp h
  obtain ⟨hdst, hfound⟩ := Option.ite_none_right_eq_some.mp ht
  obtain ⟨hmem, rfl⟩ := lookup_eq_some hfound
  exact ⟨hmem, hdst⟩

/-- An ICMP error is related to the flow it is about. `valid` is the judgement of the protocol's
own tracker, such as the check of a TCP window. -/
def classify (flows : List Flow) (d : Datagram) (valid : Bool) : Tracked :=
  if d.isError then
    match d.about flows with
    | none => { ct := .invalid }
    | some flow => { ct := .related, along := some flow }
  else if d.isUntracked then { ct := .untracked }
  else if !valid then { ct := .invalid }
  else match lookup flows d.tuple with
    | none => if d.tuple.opens then { ct := .new } else { ct := .invalid }
    | some (f, .reply) => { ct := .established, along := some (f, .reply) }
    | some (f, .original) =>
      { ct := if f.seenReply then .established else .new, along := some (f, .original) }

/-- A packet goes along no flow and is no return traffic, or it is a packet of a flow, or an error
about one. -/
theorem classify_cases (flows : List Flow) (d : Datagram) (valid : Bool) :
    ((classify flows d valid).along = none ∧ (classify flows d valid).ct ≠ .established ∧
      (classify flows d valid).ct ≠ .related) ∨
    (∃ flow, lookup flows d.tuple = some flow ∧ (classify flows d valid).along = some flow) ∨
    (d.isError = true ∧ ∃ flow, d.about flows = some flow ∧
      classify flows d valid = { ct := .related, along := some flow }) := by
  unfold classify
  by_cases herror : d.isError = true
  · cases habout : d.about flows with
    | none => exact .inl (by simp [herror])
    | some flow => exact .inr (.inr ⟨herror, flow, rfl, by simp [herror]⟩)
  · simp only [if_neg herror]
    cases hfound : lookup flows d.tuple with
    | none =>
      refine .inl ?_
      simp only
      split_ifs <;> simp
    | some flow =>
      obtain ⟨f, dir⟩ := flow
      cases dir <;> simp only <;> split_ifs <;> simp

/-- A packet with the state tracking gives it. -/
def Packet.withCt (p : Packet) (ct : CtState) : Packet := { p with ct := ct }

@[simp] theorem Packet.net_withCt (p : Packet) (ct : CtState) : (p.withCt ct).net = p.net := rfl
@[simp] theorem Packet.iif_withCt (p : Packet) (ct : CtState) : (p.withCt ct).iif = p.iif := rfl

/-! ### Translation of the destination -/

/-- A translation of the destination leaves the rest of a packet as it was. -/
structure Readdressed (p q : Packet) : Prop where
  iif : q.iif = p.iif
  ct : q.ct = p.ct
  src : q.net.src = p.net.src
  isTcp : q.isTcp = p.isTcp
  isUdp : q.isUdp = p.isUdp

theorem Readdressed.refl (p : Packet) : Readdressed p p := ⟨rfl, rfl, rfl, rfl, rfl⟩

theorem readdressed_setDport (p : Packet) (port : Port) : Readdressed p (p.setDport port) := by
  unfold Packet.setDport
  split
  next ht => exact ⟨rfl, rfl, rfl, by simp [Packet.isTcp, ht], by simp [Packet.isUdp, ht]⟩
  next ht => exact ⟨rfl, rfl, rfl, by simp [Packet.isTcp, ht], by simp [Packet.isUdp, ht]⟩
  · exact .refl p

theorem Readdressed.withNet {p q : Packet} (h : Readdressed p q) {n : Net}
    (hsrc : n.src = p.net.src) : Readdressed p { q with net := n } :=
  ⟨h.iif, h.ct, hsrc, h.isTcp, h.isUdp⟩

theorem Flow.readdressed (f : Flow) (dir : Direction) (p : Packet) :
    Readdressed p (f.translate dir p) := by
  have hport (port : Option Port) : Readdressed p
      (match port with | some port => p.setDport port | none => p) := by
    cases port with
    | none => exact .refl p
    | some port => exact readdressed_setDport p port
  exact (hport (f.tuple dir.opposite).sport).withNet (Net.src_setDst _ _)

theorem Host.readdressed (h : Host) (tables : List Table) (p : Packet) :
    Readdressed p (h.prerouting tables p) := by
  unfold Host.prerouting
  split
  next port _ =>
    unfold Host.redirect
    split
    next s d hnet => exact (readdressed_setDport p port).withNet (by rw [hnet]; rfl)
    · exact .refl p
  · exact .refl p

end Nft
