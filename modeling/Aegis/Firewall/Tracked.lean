import Aegis.Firewall.Rendered
import Aegis.Lib.Router

/-! The armed set with connection tracking: what the gateway forwards in a run, and where the
packets of the browser subnet end. -/
namespace Aegis.Firewall
open Nft Transition Gateway

/-- The first packets that have to go to Tor: TCP and name queries of the browser subnet. -/
structure ForTor (p : Packet) : Prop where
  browser : FromBrowser lanNet p
  kind : p.isTcp = true ∨ p.isUdp = true ∧ p.dport = some 53

/-- Delivered to a Tor port at the address of the gateway, or dropped. -/
def AtTor : Outcome → Prop
  | .delivered q => (∃ s d, q.net = .ipv4 s d ∧ inCidr gwAddr d = true) ∧
      (q.dport = some torTransport ∨ q.dport = some torDnsport)
  | .forwarded _ => False
  | .blocked => True

/-- No packet was forwarded, and the first packets for Tor went there or nowhere. -/
structure Closed (k : Tracker) : Prop where
  unforwarded : k.Unforwarded
  atTor : ∀ e ∈ k.log, ForTor e.packet → AtTor e.outcome

attribute [local simp] firstMatch_cons Rule.applies Match.holds Packet.isTcp Packet.isUdp
  Packet.dport

/-- The forward hook of the armed set: IPv6 is dropped, and the rules below the one for return
traffic accept nothing. -/
theorem returnsOnly_armed : ReturnsOnly armedTables := by
  intro q
  cases hnet : q.net <;> cases hct : q.ct <;>
    simp [passes, chainsOn, armedTables, ip6Filter, ipNat, inetFilter, loopbackChains, dropChain,
      Family.sees, hnet, hct, Chain.accepts, returnTraffic, Net.isIpv4]
  all_goals split_ifs <;> simp_all

theorem armedFor_eq : armedFor lanNet gwAddr = armedTables := by
  have hload := armedFor_defaults
  rw [load_armed] at hload
  exact (Option.some.inj hload).symm

theorem load_image {tables : List Table} (h : loadAll .gatewayImage [] [.armed] = some tables) :
    tables = armedTables := by
  rw [load_armed] at h
  exact (Option.some.inj h).symm

/-- What the input hook lets in of TCP and UDP is for a Tor port. -/
theorem atTor_of_opensTor {q : Packet} (h : opensTor gwAddr q = true)
    (hkind : q.isTcp = true ∨ q.isUdp = true) : AtTor (.delivered q) := by
  unfold opensTor at h
  split at h
  next s d sport port flags hnet ht =>
    obtain ⟨hd, hport⟩ := Bool.and_eq_true_iff.mp h
    exact ⟨⟨s, d, hnet, hd⟩, by simpa [ht] using hport⟩
  next s d sport port hnet ht =>
    obtain ⟨hd, hport⟩ := Bool.and_eq_true_iff.mp h
    exact ⟨⟨s, d, hnet, hd⟩, .inr (by simpa [ht] using hport)⟩
  next ht => simp [ht] at hkind
  · cases h

theorem FromBrowser.readdressed {lan : String} {p q : Packet} (h : FromBrowser lan p)
    (hsame : Readdressed p q) : FromBrowser lan q := by
  obtain ⟨s, d, hnet, hs⟩ := h.saddr
  have hsrc : q.net.src = .v4 s := by rw [hsame.src, hnet]; rfl
  obtain ⟨d', hnet'⟩ := Net.eq_ipv4 hsrc
  exact ⟨hsame.ct.trans h.new, hsame.iif.trans h.iif, s, d', hnet', hs⟩

/-- Whatever flows are tracked, a first packet for Tor goes there or nowhere. -/
theorem atTor_outcome (r : Router) (t : Tracked) {p : Packet} (hp : ForTor p) :
    AtTor (r.outcome armedTables t p) := by
  have hsame := r.readdressed_prerouting armedTables t p
  cases houtcome : r.outcome armedTables t p with
  | delivered q =>
    obtain ⟨rfl, -, hpass⟩ := Router.judge_delivered houtcome
    have hopens : opensTor gwAddr (r.prerouting armedTables t p) = true := by
      rw [← passes_input_armed (hp.browser.readdressed hsame), armedFor_eq]
      exact hpass
    apply atTor_of_opensTor hopens
    rw [hsame.isTcp, hsame.isUdp]
    exact hp.kind.imp_right And.left
  | forwarded q =>
    obtain ⟨-, -, -, hpass⟩ := Router.judge_forwarded houtcome
    obtain ⟨-, hct⟩ := (returnsOnly_armed _).mp hpass
    rw [show _ = CtState.new from hsame.ct.trans hp.browser.new] at hct
    simp at hct
  | blocked => trivial

/-- In every run of the gateway under the ruleset of its image, in which no arriving error is about
a packet that another host sent along a tracked flow, nothing is forwarded and the first packets
for Tor go there or nowhere. -/
theorem closed_of_reach {r : Router} {tables : List Table} {k : Tracker}
    (hload : loadAll .gatewayImage [] [.armed] = some tables)
    (hr : Reach (r.step tables) Tracker.Initial (Traffic.Harmless r) k) : Closed k := by
  obtain rfl := load_image hload
  refine ⟨unforwarded_of_reach returnsOnly_armed hr, ?_⟩
  refine hr.invariant (P := fun k => ∀ e ∈ k.log, ForTor e.packet → AtTor e.outcome)
    (fun k hk => ?_) fun k l k' _ h _ hs => ?_
  · intro e he
    rw [hk.log] at he
    cases he
  · intro e he hp
    rcases Router.step_log hs he with he | ⟨d, c, -, -, hblocked | houtcome⟩
    · exact h e he hp
    · rw [hblocked]
      trivial
    · rw [houtcome]
      exact atTor_outcome r _ hp

/-- The condition on the errors is exact: a step of any run that forwards nothing meets it. -/
theorem harmless_of_closed {r : Router} {k k' : Tracker} {l : Traffic}
    (hr : Reach (r.step armedTables) Tracker.Initial anyStep k)
    (hs : r.step armedTables k l = some k') (h : Closed k') : l.Harmless r k :=
  harmless_of_unforwarded returnsOnly_armed (endsAt_of_reach returnsOnly_armed hr) hs
    h.unforwarded

/-! ### Runs of one gateway -/

/-- A gateway with the address `192.168.122.10` upstream. -/
def gateway : Router where
  owns a := a ∈ ([.v4 0x0A989801#32, .v4 0xC0A87A0A#32] : List Addr)
  ifaceAddr i := if i = upIf then 0xC0A87A0A#32 else 0x0A989801#32
  oif
    | .ipv4 _ d => if inCidr lanNet d then downIf else upIf
    | .ipv6 _ _ => upIf
  owns_iface i := by split_ifs <;> decide

/-- A segment of the browser's connection to a web server. -/
def browserSyn : Datagram :=
  { packet := ⟨downIf, "", .ipv4 0x0A989805#32 0x5DB8D822#32, .tcp 40000 443 2, .new⟩ }

/-- The answer of Tor's transparent port, as it leaves before its source is translated. -/
def torSynAck : Datagram :=
  { packet := ⟨"", downIf, .ipv4 0x0A989801#32 0x0A989805#32, .tcp 9040 40000 18, .new⟩ }

def browserQuery : Datagram :=
  { packet := ⟨downIf, "", .ipv4 0x0A989805#32 0x08080808#32, .udp 40001 53, .new⟩ }

/-- Tor connects to a relay. -/
def relaySyn : Datagram :=
  { packet := ⟨"", upIf, .ipv4 0xC0A87A0A#32 0xCB007109#32, .tcp 50000 443 2, .new⟩ }

/-- The router upstream answers that a host is unreachable. -/
def unreachable (d : BitVec 32) (inner : Tuple) : Datagram :=
  { packet := ⟨upIf, "", .ipv4 0xC0A87A01#32 d, .icmp 3, .new⟩, inner := some inner }

def inOrder : Choice := ⟨true, 0⟩

/-- The browser opens a connection, Tor answers it. -/
def connect : List Traffic := [.arrive browserSyn inOrder, .send torSynAck inOrder]

/-- Besides, the browser asks for a name, and a relay of Tor cannot be reached. -/
def torRun : List Traffic := connect ++
  [.arrive browserQuery inOrder, .send relaySyn inOrder,
    .arrive (unreachable 0xC0A87A0A#32 relaySyn.tuple) inOrder]

def executed (ls : List Traffic) : Option Tracker :=
  exec (fun k l => if l.Harmless gateway k then gateway.step armedTables k l else none) ⟨[], []⟩ ls

/-- A run with an error about a packet of the gateway. -/
theorem closed_torRun : ∃ k, Reach (gateway.step armedTables) Tracker.Initial
    (Traffic.Harmless gateway) k ∧ k.flows.length = 3 ∧ Closed k := by
  have hrun : (executed torRun).map (·.flows.length) = some 3 := by decide +kernel
  obtain ⟨k, hk, hflows⟩ := Option.map_eq_some_iff.mp hrun
  have hr : Reach (gateway.step armedTables) Tracker.Initial (Traffic.Harmless gateway) k :=
    Reach.execWhere (fun k l h => of_decide_eq_true h) (.start ⟨rfl, rfl⟩)
      (by simpa [executed] using hk)
  exact ⟨k, hr, hflows, closed_of_reach (load_armed .gatewayImage []) hr⟩

/-- What the gateway receives for the transparent port is addressed to it as this packet is. -/
def redirectedSyn : Tuple := ⟨.ipv4 0x0A989805#32 0x0A989801#32, .tcp 40000 9040⟩

/-- An error of the router upstream about the browser's redirected segment is forwarded to the
browser. -/
theorem unreachable_forwarded : loadAll .gatewayImage [] [.armed] = some armedTables ∧
    ∃ k, Reach (gateway.step armedTables) Tracker.Initial anyStep k ∧
      (∃ e ∈ k.log, e.outcome = .forwarded ⟨upIf, downIf,
        .ipv4 0xC0A87A01#32 0x0A989805#32, .icmp 3, .related⟩) ∧ ¬ Closed k := by
  have hrun : (exec (gateway.step armedTables) ⟨[], []⟩
      (connect ++ [.arrive (unreachable 0x0A989805#32 redirectedSyn) inOrder])).map
        (·.log.head?.map Handled.outcome) = some (some (.forwarded ⟨upIf, downIf,
          .ipv4 0xC0A87A01#32 0x0A989805#32, .icmp 3, .related⟩)) := by decide +kernel
  obtain ⟨k, hk, hlog⟩ := Option.map_eq_some_iff.mp hrun
  obtain ⟨e, he, houtcome⟩ := Option.map_eq_some_iff.mp hlog
  have hmem := List.mem_of_head? he
  refine ⟨load_armed .gatewayImage [], k, Reach.exec (.start ⟨rfl, rfl⟩) hk,
    ⟨e, hmem, houtcome⟩, fun hclosed => ?_⟩
  exact hclosed.unforwarded e hmem _ houtcome

end Aegis.Firewall
