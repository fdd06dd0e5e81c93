import Aegis.Lib.Conntrack
import Aegis.Lib.Transition

/-! A host that tracks, routes and filters one packet after the other, and what it forwards under a
ruleset that lets return traffic through and nothing else. -/
namespace Nft
open Transition

/-- The addresses and routes of a host; every interface has an address of its own. -/
structure Router where
  owns : Addr → Bool
  ifaceAddr : String → BitVec 32
  oif : Net → String
  owns_iface : ∀ i, owns (.v4 (ifaceAddr i)) = true

/-- A packet the host handled, with the state it had and what became of it. -/
structure Handled where
  packet : Packet
  outcome : Outcome
  deriving DecidableEq

structure Tracker where
  flows : List Flow
  log : List Handled
  deriving DecidableEq

/-- What the host decides for a packet beside the rules: whether the tracker of its protocol finds
it in order, and the source port that replaces one that is taken. -/
structure Choice where
  valid : Bool
  port : Port

inductive Traffic where
  | arrive (d : Datagram) (c : Choice)
  | send (d : Datagram) (c : Choice)
  | expire (f : Flow)

/-- An answer makes its flow one that answers were seen of. -/
def markReplied (flows : List Flow) (t : Tracked) : List Flow :=
  match t.ct, t.along with
  | .established, some (f, .reply) =>
    flows.map fun g => if g = f then { g with seenReply := true } else g
  | _, _ => flows

namespace Router

/-- The host, as the rules see it. -/
def host (r : Router) : Host where
  isLocal n := r.owns n.dst
  ifaceAddr := r.ifaceAddr
  oif := r.oif
  redirect_local _ i := r.owns_iface i

/-- Routing lets no packet of the loopback interface leave the host, and none in from another
interface that has an address of the host as its source. -/
def martian (r : Router) (p : Packet) : Bool :=
  if p.iif = "lo" then !r.owns p.net.dst else r.owns p.net.src

/-- Routing, then the input or the forward hook. -/
def judge (r : Router) (tables : List Table) (q : Packet) : Outcome :=
  if r.martian q then .blocked
  else if r.owns q.net.dst then
    if passes tables .input q then .delivered q else .blocked
  else
    let q := { q with oif := r.oif q.net }
    if passes tables .forward q then .forwarded q else .blocked

/-- The destination of a packet is translated along its flow, and by the rules where it starts
one. -/
def prerouting (r : Router) (tables : List Table) (t : Tracked) (p : Packet) : Packet :=
  match t.along with
  | some (f, dir) => f.translate dir p
  | none => if t.ct = .new then r.host.prerouting tables p else p

/-- What becomes of a packet that arrives. -/
def outcome (r : Router) (tables : List Table) (t : Tracked) (p : Packet) : Outcome :=
  r.judge tables (r.prerouting tables t p)

/-- Source translation, by the interface a packet leaves on. -/
def postrouting (r : Router) (tables : List Table) (q : Packet) : Packet :=
  if (chainsOn tables .nat .postrouting q).any fun c => firstMatch q c.rules = some .masquerade then
    { q with net := q.net.setSrc (.v4 (r.ifaceAddr q.oif)) }
  else q

/-- The flow that an accepted packet starts. -/
def started (r : Router) (tables : List Table) (flows : List Flow) (d : Datagram) (port : Port) :
    Outcome → Option Flow
  | .delivered q => Flow.start flows d.tuple { d with packet := q }.tuple port
  | .forwarded q =>
    Flow.start flows d.tuple { d with packet := r.postrouting tables q }.tuple port
  | .blocked => none

/-- A packet arrives. Its flow is tracked once the packet was accepted. -/
def arrive (r : Router) (tables : List Table) (k : Tracker) (d : Datagram) (c : Choice) : Tracker :=
  let t := classify k.flows d c.valid
  let p := d.packet.withCt t.ct
  let outcome := r.outcome tables t p
  if t.fresh then
    match r.started tables k.flows d c.port outcome with
    | some f => ⟨f :: k.flows, ⟨p, outcome⟩ :: k.log⟩
    | none => { k with log := ⟨p, .blocked⟩ :: k.log }
  else ⟨markReplied k.flows t, ⟨p, outcome⟩ :: k.log⟩

/-- A process of the host sends a packet. -/
def send (r : Router) (tables : List Table) (k : Tracker) (d : Datagram) (c : Choice) : Tracker :=
  let t := classify k.flows d c.valid
  let p := d.packet.withCt t.ct
  if t.fresh then
    if passes tables .output p then
      match r.started tables k.flows d c.port (.forwarded p) with
      | some f => { k with flows := f :: k.flows }
      | none => k
    else k
  else { k with flows := markReplied k.flows t }

/-- What the host sends has an address of the host as its source; a flow may expire at any time. -/
def step (r : Router) (tables : List Table) (k : Tracker) : Traffic → Option Tracker
  | .arrive d c => some (r.arrive tables k d c)
  | .send d c => if r.owns d.packet.net.src then some (r.send tables k d c) else none
  | .expire f => some { k with flows := k.flows.filter (· ≠ f) }

end Router

/-- Nothing is tracked yet. -/
structure Tracker.Initial (k : Tracker) : Prop where
  flows : k.flows = []
  log : k.log = []

/-! ### Rulesets that forward return traffic only -/

/-- The forward hook accepts the IPv4 packets that go along a flow, and no others. -/
def ReturnsOnly (tables : List Table) : Prop :=
  ∀ q : Packet, passes tables .forward q = true ↔
    q.net.isIpv4 = true ∧ (q.ct = .established ∨ q.ct = .related)

/-- One end of the flow is the host. -/
structure Flow.EndsAt (r : Router) (f : Flow) : Prop where
  family : f.reply.net.isIpv4 = f.original.net.isIpv4
  owns : r.owns f.original.net.src = true ∨ r.owns f.reply.net.src = true

def Tracker.EndsAt (r : Router) (k : Tracker) : Prop := ∀ f ∈ k.flows, f.EndsAt r

/-- An IPv4 error from outside, about a packet that another host sent along a tracked flow. -/
def Datagram.Escapes (r : Router) (k : Tracker) (d : Datagram) : Prop :=
  d.packet.iif ≠ "lo" ∧ r.owns d.packet.net.src = false ∧ d.packet.net.isIpv4 = true ∧
    d.isError = true ∧ ∃ flow ∈ d.about k.flows,
      r.owns (flow.1.tuple flow.2.opposite).net.src = false

instance (r : Router) (k : Tracker) (d : Datagram) : Decidable (d.Escapes r k) :=
  inferInstanceAs (Decidable (_ ∧ _))

/-- No arriving error is about a packet that another host sent along a tracked flow. -/
def Traffic.Harmless (r : Router) (k : Tracker) : Traffic → Prop
  | arrive d _ => ¬ d.Escapes r k
  | _ => True

instance (r : Router) (k : Tracker) : (l : Traffic) → Decidable (l.Harmless r k)
  | .arrive _ _ => inferInstanceAs (Decidable (¬ _))
  | .send _ _ => isTrue trivial
  | .expire _ => isTrue trivial

section ReturnsOnly

variable {r : Router} {tables : List Table} {k k' : Tracker} {d : Datagram} {c : Choice}
  {f : Flow} {dir : Direction} {p q : Packet}

theorem Router.judge_delivered (h : r.judge tables p = .delivered q) :
    q = p ∧ r.owns p.net.dst = true ∧ passes tables .input p = true := by
  dsimp only [judge] at h
  split_ifs at h with hm hd hp
  cases h
  exact ⟨rfl, hd, hp⟩

theorem Router.judge_forwarded (h : r.judge tables p = .forwarded q) :
    p.iif ≠ "lo" ∧ r.owns p.net.src = false ∧ r.owns p.net.dst = false ∧
      passes tables .forward { p with oif := r.oif p.net } = true := by
  dsimp only [judge] at h
  split_ifs at h with hm hd _ hp
  cases h
  have hdst : r.owns p.net.dst = false := by simpa using hd
  unfold martian at hm
  split_ifs at hm with hlo
  · exact absurd hdst (by simpa using hm)
  · exact ⟨hlo, by simpa using hm, hdst, hp⟩

theorem Flow.EndsAt.family_tuple (h : f.EndsAt r) (dir : Direction) :
    (f.tuple dir).net.isIpv4 = (f.tuple dir.opposite).net.isIpv4 := by
  cases dir with
  | original => exact h.family.symm
  | reply => exact h.family

/-- What goes along a flow is addressed to the sender of the opposite direction. -/
theorem Flow.EndsAt.dst_translate (h : f.EndsAt r) (hp : p.net.isIpv4 = (f.tuple dir).net.isIpv4) :
    (f.translate dir p).net.dst = (f.tuple dir.opposite).net.src :=
  Net.dst_setDst_src (hp.trans (h.family_tuple dir))

theorem Router.prerouting_along {t : Tracked} (h : t.along = some (f, dir)) :
    r.prerouting tables t p = f.translate dir p := by
  rw [prerouting, h]

theorem Router.readdressed_prerouting (r : Router) (tables : List Table) (t : Tracked)
    (p : Packet) : Readdressed p (r.prerouting tables t p) := by
  unfold prerouting
  split
  next f dir _ => exact f.readdressed dir p
  · split_ifs
    · exact r.host.readdressed tables p
    · exact .refl p

/-- No packet of a flow that ends at the host is forwarded. -/
theorem Flow.EndsAt.not_forwarded (h : f.EndsAt r) (hp : p.net = (f.tuple dir).net) :
    r.judge tables (f.translate dir p) ≠ .forwarded q := by
  intro hjudge
  obtain ⟨-, hsrc, hdst, -⟩ := Router.judge_forwarded hjudge
  rw [(f.readdressed dir p).src, hp] at hsrc
  rw [h.dst_translate (congrArg Net.isIpv4 hp)] at hdst
  have hends := h.owns
  cases dir with
  | original => simp_all [Flow.tuple, Direction.opposite]
  | reply => simp_all [Flow.tuple, Direction.opposite]

theorem Datagram.Escapes.classify (h : d.Escapes r k) (valid : Bool) :
    Nft.classify k.flows d valid = { ct := .related, along := d.about k.flows } := by
  obtain ⟨-, -, -, herror, flow, habout, -⟩ := h
  rw [Nft.classify, if_pos herror, habout]

/-- A packet from another host is forwarded exactly when it is an error that escapes. -/
theorem Router.forwarded_iff (hreturns : ReturnsOnly tables) (hends : k.EndsAt r) {t : Tracked}
    (ht : classify k.flows d c.valid = t) :
    (∃ q, r.outcome tables t (d.packet.withCt t.ct) = .forwarded q) ↔ d.Escapes r k := by
  constructor
  · rintro ⟨q, hjudge⟩
    have hcases := classify_cases k.flows d c.valid
    rw [ht] at hcases
    have hsame := r.readdressed_prerouting tables t (d.packet.withCt t.ct)
    obtain ⟨hlo, hsrc, hother, hpass⟩ := judge_forwarded hjudge
    obtain ⟨h4, hct⟩ := (hreturns _).mp hpass
    rw [hsame.iif] at hlo
    rw [hsame.src] at hsrc
    rcases hcases with
      ⟨-, hest, hrel⟩ | ⟨⟨f, dir⟩, hfound, halong⟩ | ⟨herror, ⟨f, dir⟩, habout, hclass⟩
    · -- what goes along no flow is no return traffic
      rw [show _ = t.ct from hsame.ct] at hct
      exact absurd hct (not_or.mpr ⟨hest, hrel⟩)
    · obtain ⟨hmem, htuple⟩ := lookup_eq_some hfound
      rw [outcome, prerouting_along halong] at hjudge
      exact absurd hjudge ((hends f hmem).not_forwarded (congrArg Tuple.net htuple.symm))
    · obtain ⟨hmem, hdst⟩ := Datagram.about_eq_some habout
      rw [prerouting_along (congrArg Tracked.along hclass), (hends f hmem).dst_translate
        (p := d.packet.withCt t.ct) (Net.isIpv4_of_dst_eq hdst)] at hother
      have hfamily := (Net.isIpv4_of_src_eq hsame.src).symm.trans h4
      exact ⟨hlo, hsrc, hfamily, herror, (f, dir), habout, hother⟩
  · intro hescapes
    have hclass := hescapes.classify c.valid
    obtain ⟨hlo, hsrc, h4, herror, ⟨f, dir⟩, habout, hother⟩ := hescapes
    obtain ⟨hmem, hdst⟩ := Datagram.about_eq_some habout
    rw [ht, habout] at hclass
    subst hclass
    have hsame := f.readdressed dir (d.packet.withCt .related)
    have hto := (hends f hmem).dst_translate (p := d.packet.withCt .related)
      (Net.isIpv4_of_dst_eq hdst)
    have hmartian : r.martian (f.translate dir (d.packet.withCt .related)) = false := by
      rw [martian, hsame.iif, Packet.iif_withCt, if_neg hlo, hsame.src, Packet.net_withCt, hsrc]
    have hpass : passes tables .forward { f.translate dir (d.packet.withCt .related) with
        oif := r.oif (f.translate dir (d.packet.withCt .related)).net } = true :=
      (hreturns _).mpr ⟨(Net.isIpv4_of_src_eq hsame.src).trans h4, .inr hsame.ct⟩
    rw [outcome, prerouting_along rfl, judge, hmartian, hto, hother]
    simp [hpass]

/-! ### Runs -/

theorem Flow.EndsAt.of_tuples {g : Flow} (h : g.EndsAt r) (horig : f.original = g.original)
    (hreply : f.reply = g.reply) : f.EndsAt r where
  family := by rw [horig, hreply]; exact h.family
  owns := by rw [horig, hreply]; exact h.owns

theorem Tracker.EndsAt.markReplied (h : k.EndsAt r) (t : Tracked) :
    ∀ f ∈ markReplied k.flows t, f.EndsAt r := by
  intro f hf
  unfold Nft.markReplied at hf
  split at hf
  · obtain ⟨g, hg, rfl⟩ := List.mem_map.mp hf
    split_ifs
    · exact (h g hg).of_tuples rfl rfl
    · exact h g hg
  · exact h f hf

@[simp] theorem Datagram.net_tuple (d : Datagram) : d.tuple.net = d.packet.net := rfl

/-- A flow that starts where its first packet is delivered ends at the host. -/
theorem Flow.EndsAt.delivered {flows : List Flow} {port : Port}
    (hstart : r.started tables flows d port (.delivered q) = some f)
    (hsrc : q.net.src = d.packet.net.src) (hdst : r.owns q.net.dst = true) : f.EndsAt r := by
  obtain ⟨horig, hreply⟩ := Flow.start_eq_some hstart
  rw [Datagram.net_tuple] at hreply
  refine ⟨?_, .inr ?_⟩
  · rw [hreply, horig, Net.isIpv4_swap, Net.isIpv4_of_src_eq hsrc]
    rfl
  · rw [hreply, Net.src_swap]
    exact hdst

theorem Router.isIpv4_postrouting (r : Router) (tables : List Table) (q : Packet) :
    (r.postrouting tables q).net.isIpv4 = q.net.isIpv4 := by
  unfold postrouting
  split_ifs
  · exact Net.isIpv4_setSrc _ _
  · rfl

/-- A flow that the host itself starts ends there. -/
theorem Flow.EndsAt.sent {flows : List Flow} {port : Port} {ct : CtState}
    (hstart : r.started tables flows d port (.forwarded (d.packet.withCt ct)) = some f)
    (hsrc : r.owns d.packet.net.src = true) : f.EndsAt r := by
  obtain ⟨horig, hreply⟩ := Flow.start_eq_some hstart
  rw [Datagram.net_tuple] at hreply
  refine ⟨?_, .inl ?_⟩
  · rw [hreply, horig, Net.isIpv4_swap, Router.isIpv4_postrouting]
    rfl
  · rw [horig]
    exact hsrc

theorem Tracker.EndsAt.arrive (h : k.EndsAt r) (hreturns : ReturnsOnly tables) :
    (r.arrive tables k d c).EndsAt r := by
  unfold Router.arrive
  set t := classify k.flows d c.valid with ht
  dsimp only
  split_ifs with hfresh
  · split
    next f hstart =>
      intro g hg
      rcases List.mem_cons.mp hg with rfl | hg
      · have hsame := r.readdressed_prerouting tables t (d.packet.withCt t.ct)
        cases houtcome : r.outcome tables t (d.packet.withCt t.ct) with
        | delivered q =>
          obtain ⟨rfl, hdst, -⟩ := Router.judge_delivered houtcome
          rw [houtcome] at hstart
          exact Flow.EndsAt.delivered hstart hsame.src hdst
        | forwarded q =>
          -- the forward hook accepts no first packet of a flow
          obtain ⟨-, -, -, hpass⟩ := Router.judge_forwarded houtcome
          obtain ⟨-, hct⟩ := (hreturns _).mp hpass
          have hnew : t.ct = .new := by simp_all [Tracked.fresh]
          rw [show _ = t.ct from hsame.ct, hnew] at hct
          simp at hct
        | blocked => rw [houtcome] at hstart; cases hstart
      · exact h g hg
    · exact h
  · exact h.markReplied t

theorem Tracker.EndsAt.send (h : k.EndsAt r) (hsrc : r.owns d.packet.net.src = true) :
    (r.send tables k d c).EndsAt r := by
  unfold Router.send
  dsimp only
  split_ifs with hfresh hpass
  · split
    next f hstart =>
      intro g hg
      rcases List.mem_cons.mp hg with rfl | hg
      · exact Flow.EndsAt.sent hstart hsrc
      · exact h g hg
    · exact h
  · exact h
  · exact h.markReplied _

theorem Tracker.EndsAt.step {l : Traffic} (h : k.EndsAt r) (hreturns : ReturnsOnly tables)
    (hs : r.step tables k l = some k') : k'.EndsAt r := by
  cases l with
  | arrive d c => cases hs; exact h.arrive hreturns
  | send d c =>
    obtain ⟨hsrc, hk⟩ := Option.ite_none_right_eq_some.mp hs
    cases hk
    exact h.send hsrc
  | expire f => cases hs; exact fun g hg => h g (List.mem_of_mem_filter hg)

theorem endsAt_of_reach {ok : Tracker → Traffic → Prop} (hreturns : ReturnsOnly tables)
    (hr : Reach (r.step tables) Tracker.Initial ok k) : k.EndsAt r := by
  refine hr.invariant (fun k hk => ?_) fun k l k' _ h _ hs => h.step hreturns hs
  intro f hf
  rw [hk.flows] at hf
  cases hf

/-- What a step adds to the log is the arrival it handled. -/
theorem Router.step_log {l : Traffic} {e : Handled} (hs : r.step tables k l = some k')
    (he : e ∈ k'.log) : e ∈ k.log ∨ ∃ d c, l = .arrive d c ∧
      e.packet = d.packet.withCt (classify k.flows d c.valid).ct ∧ (e.outcome = .blocked ∨
        e.outcome = r.outcome tables (classify k.flows d c.valid) e.packet) := by
  cases l with
  | arrive d c =>
    cases hs
    unfold arrive at he
    dsimp only at he
    split_ifs at he
    · split at he
      · rcases List.mem_cons.mp he with rfl | he
        · exact .inr ⟨d, c, rfl, rfl, .inr rfl⟩
        · exact .inl he
      · rcases List.mem_cons.mp he with rfl | he
        · exact .inr ⟨d, c, rfl, rfl, .inl rfl⟩
        · exact .inl he
    · rcases List.mem_cons.mp he with rfl | he
      · exact .inr ⟨d, c, rfl, rfl, .inr rfl⟩
      · exact .inl he
  | send d c =>
    obtain ⟨-, hk⟩ := Option.ite_none_right_eq_some.mp hs
    cases hk
    unfold send at he
    dsimp only at he
    split_ifs at he
    · split at he <;> exact .inl he
    · exact .inl he
    · exact .inl he
  | expire f => cases hs; exact .inl he

def Tracker.Unforwarded (k : Tracker) : Prop := ∀ e ∈ k.log, ∀ q, e.outcome ≠ .forwarded q

/-- In every run without an error that escapes, nothing is forwarded. -/
theorem unforwarded_of_reach (hreturns : ReturnsOnly tables)
    (hr : Reach (r.step tables) Tracker.Initial (Traffic.Harmless r) k) : k.Unforwarded := by
  refine hr.invariant (fun k hk => ?_) fun k l k' hr h hok hs => ?_
  · intro e he
    rw [hk.log] at he
    cases he
  · intro e he q houtcome
    rcases Router.step_log hs he with he | ⟨d, c, hl, hpacket, hblocked | hjudge⟩
    · exact h e he q houtcome
    · rw [hblocked] at houtcome
      cases houtcome
    · rw [hpacket] at hjudge
      have hends := endsAt_of_reach hreturns hr
      subst hl
      exact hok ((Router.forwarded_iff hreturns hends rfl).mp ⟨q, hjudge ▸ houtcome⟩)

/-- A step that leaves nothing forwarded handles no error that escapes. -/
theorem harmless_of_unforwarded {l : Traffic} (hreturns : ReturnsOnly tables) (hends : k.EndsAt r)
    (hs : r.step tables k l = some k') (h : k'.Unforwarded) : l.Harmless r k := by
  cases l with
  | arrive d c =>
    intro hescapes
    obtain ⟨q, hq⟩ := (Router.forwarded_iff (c := c) hreturns hends rfl).mpr hescapes
    have hfresh : (classify k.flows d c.valid).fresh = false := by
      rw [hescapes.classify]
      rfl
    have hmem : ⟨d.packet.withCt (classify k.flows d c.valid).ct, .forwarded q⟩ ∈ k'.log := by
      cases hs
      simp only [Router.arrive, hfresh, Bool.false_eq_true, if_false, hq]
      exact List.mem_cons_self
    exact h _ hmem q rfl
  | send d c => trivial
  | expire f => trivial

end ReturnsOnly

end Nft
