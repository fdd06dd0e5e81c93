import Aegis.Launcher.Chromium
import Aegis.Launcher.Firefox
import Aegis.Orchestrator.Idempotent
import Aegis.Orchestrator.Request

/-! The host proxy that is probed and the one the browser is pointed at: three readings of one
network setting, by the probe, by the Chromium switch and by the Firefox preferences. -/
namespace Aegis.Orchestrator
open Launcher Endpoint Text Transition

variable {cfg : Wiring} {w : World} {s : SessionId}

/-! ### The server a bundle points the browser at -/

/-- The bundle an engine renders for a request. -/
def renderPolicy : BrowserBackendId → BrowserLaunchRequest → Result RenderedBundle
  | .chromium => Chromium.renderChromiumPolicy
  | .firefox => Firefox.renderFirefoxPolicy

/-- The server of the `--proxy-server` switch of a command line. -/
def chromiumServer (line : List String) : Option Server :=
  (Chromium.lastOccurrence line "--proxy-server".toList).bind fun arg =>
    readServer (Chromium.switchValue arg)

/-- The version a SOCKS proxy is set to. -/
def socksProtocol (version : ℕ) : Option Protocol :=
  if version = 5 then some .socks5 else if version = 4 then some .socks4 else none

/-- The server of the manual proxy settings among preferences. -/
def firefoxServer (prefs : List (String × Json.Value)) : Option Server := do
  let .number type ← prefs.lookup "network.proxy.type" | none
  let .string host ← prefs.lookup "network.proxy.socks" | none
  let .number port ← prefs.lookup "network.proxy.socks_port" | none
  let .number version ← prefs.lookup "network.proxy.socks_version" | none
  if type.whole ≠ 1 then none
  let protocol ← socksProtocol version.whole
  return ⟨protocol, host, BitVec.ofNat 16 port.whole⟩

def usedServer (b : RenderedBundle) : Option Server :=
  match b.backend with
  | .chromium => chromiumServer b.commandLine
  | .firefox => firefoxServer b.preferences

theorem lastOccurrence_split {pre post : List String} {arg : String} {name : List Char}
    (h : Chromium.switchName arg = name) (hpost : ∀ x ∈ post, Chromium.switchName x ≠ name) :
    Chromium.lastOccurrence (pre ++ arg :: post) name = some arg := by
  induction post using List.reverseRecOn with
  | nil => rw [Chromium.lastOccurrence_append_singleton, if_pos h]
  | append_singleton post x ih =>
    have hx : Chromium.switchName x ≠ name := hpost x (by simp)
    rw [← List.cons_append, ← List.append_assoc, Chromium.lastOccurrence_append_singleton,
      if_neg hx]
    exact ih fun y hy => hpost y (by simp [hy])

theorem switchValue_proxyServer (endpoint : String) :
    Chromium.switchValue ("--proxy-server=" ++ endpoint) = endpoint := by
  have hchars : ("--proxy-server=" ++ endpoint).toList =
      "--proxy-server".toList ++ '=' :: endpoint.toList := by
    have hname : "--proxy-server=".toList = "--proxy-server".toList ++ ['='] := by decide +kernel
    rw [String.toList_append, hname, List.append_assoc, List.singleton_append]
  have hname : ("--proxy-server".toList).all (· ≠ '=') = true := by decide +kernel
  unfold Chromium.switchValue
  rw [hchars, List.dropWhile_append_of_pos (List.all_eq_true.mp hname)]
  simp

/-- A Chromium bundle points at what its endpoint is taken for. -/
theorem usedServer_chromium {req : BrowserLaunchRequest} {b : RenderedBundle}
    (h : Chromium.renderChromiumPolicy req = .ok b) :
    usedServer b = readServer req.proxyEndpoint := by
  obtain ⟨-, -, rfl⟩ := Chromium.renderChromiumPolicy_eq_ok.mp h
  obtain ⟨post, hline⟩ : ∃ post, Chromium.renderCommandLine req =
      ["--user-data-dir=" ++ req.userDataDir] ++ ("--proxy-server=" ++ req.proxyEndpoint) :: post :=
    ⟨_, rfl⟩
  have hpost : ∀ x ∈ post, Chromium.switchName x ≠ "--proxy-server".toList := by
    have hnames := congrArg (List.drop 2) (Chromium.map_switchName req)
    rw [hline, List.map_append, List.map_singleton, List.map_cons, List.singleton_append] at hnames
    have hdrop : post.map Chromium.switchName = (Chromium.switchNames
        (decide (req.fingerprint.webgl = .disabled)) (!req.fingerprint.webgpuEnabled)
        (decide (req.fingerprint.level = .strict))).drop 2 := hnames
    have hall : ∀ gl gpu strict : Bool,
        "--proxy-server".toList ∉ (Chromium.switchNames gl gpu strict).drop 2 := by
      decide +kernel
    intro x hx he
    have hmem : Chromium.switchName x ∈ post.map Chromium.switchName := List.mem_map_of_mem hx
    rw [hdrop, he] at hmem
    exact hall _ _ _ hmem
  have hname : Chromium.switchName ("--proxy-server=" ++ req.proxyEndpoint) =
      "--proxy-server".toList := Chromium.switchName_append (by decide) _
  show (Chromium.lastOccurrence (Chromium.renderCommandLine req) _).bind _ = _
  rw [hline, lastOccurrence_split hname hpost, Option.bind_some, switchValue_proxyServer]

theorem lookup_of_mem {κ α : Type} [BEq κ] [LawfulBEq κ] {ms : List (κ × α)} {k : κ} {v : α}
    (hn : (ms.map Prod.fst).Nodup) (h : (k, v) ∈ ms) : ms.lookup k = some v := by
  induction ms with
  | nil => cases h
  | cons m ms ih =>
    obtain ⟨hm, hms⟩ := List.nodup_cons.mp hn
    rcases List.mem_cons.mp h with rfl | hin
    · simp
    · have hne : (k == m.1) = false := by
        rw [beq_eq_false_iff_ne]
        rintro rfl
        exact hm (List.mem_map.mpr ⟨_, hin, rfl⟩)
      rw [List.lookup_cons, hne]
      exact ih hms hin

theorem lookup_sortMembers {ms : List (String × Json.Value)} {k : String} {v : Json.Value}
    (hn : (Json.keys ms).Nodup) (h : (k, v) ∈ ms) : (Json.sortMembers ms).lookup k = some v := by
  have hsorted : ((Json.sortMembers ms).map Prod.fst).Nodup :=
    (Json.sorted_sortMembers ms).nodup_keys
  exact lookup_of_mem hsorted ((Json.sortMembers_perm hn).mem_iff.mpr h)

/-- A Firefox bundle points at the host and the port of its endpoint, as a SOCKS5 proxy. -/
theorem usedServer_firefox {req : BrowserLaunchRequest} {b : RenderedBundle} {host : String}
    {port : Port} (h : Firefox.renderFirefoxPolicy req = .ok b)
    (hparse : Firefox.parseSocksEndpoint req.proxyEndpoint = .ok (host, port)) :
    usedServer b = some ⟨.socks5, host, port⟩ := by
  obtain ⟨-, host', port', hparse', -, rfl⟩ := Firefox.renderFirefoxPolicy_eq_ok.mp h
  obtain ⟨rfl, rfl⟩ := Prod.mk.inj (Except.ok.inj (hparse.symm.trans hparse'))
  have hlookup {k : String} {v : Json.Value}
      (hmem : (k, v) ∈ Firefox.preferences req.fingerprint host port) :
      (Json.sortMembers (Firefox.preferences req.fingerprint host port)).lookup k = some v :=
    lookup_sortMembers (Firefox.preferences_nodup req.fingerprint host port) hmem
  have htype := hlookup (k := "network.proxy.type") (v := Firefox.int 1)
    (by simp [Firefox.preferences])
  have hsocks := hlookup (k := "network.proxy.socks") (v := .string host)
    (by simp [Firefox.preferences])
  have hport := hlookup (k := "network.proxy.socks_port") (v := Firefox.int port.toNat)
    (by simp [Firefox.preferences])
  have hversion := hlookup (k := "network.proxy.socks_version") (v := Firefox.int 5)
    (by simp [Firefox.preferences])
  show firefoxServer (Firefox.rendered req host port).preferences = _
  rw [Firefox.rendered_preferences, firefoxServer, htype, hsocks, hport, hversion]
  simp [Firefox.int, Json.Number.ofNat, socksProtocol]

/-! ### The proxy that is probed -/

/-- The text behind the last colon of an endpoint. -/
def portText (endpoint : String) : List Char :=
  ((rsplitOnce ':' (authority endpoint.toList)).map Prod.snd).getD []

/-- The endpoint is no list, has one `://` at most, and a port without a sign. -/
structure PlainEndpoint (endpoint : String) : Prop where
  single : isList endpoint.toList = false
  noFurther : ¬ separator <:+: (splitScheme endpoint.toList).2
  port : (portText endpoint).all Char.isDigit = true

/-- What the probe reads of an endpoint: a host and the numeral of a port around the last colon. -/
structure Probes (endpoint : String) (proxy : HostProxy) (digits : List Char) (n : ℕ) : Prop where
  kept : proxy.endpoint = endpoint
  parts : authority endpoint.toList = proxy.probeHost.toList ++ ':' :: digits
  lastColon : ':' ∉ digits
  hostNonempty : proxy.probeHost ≠ ""
  numeral : parseUnsigned (2 ^ 16) digits = some n
  probePort : proxy.probePort = BitVec.ofNat 16 n

theorem probes_of_parse {endpoint : String} {proxy : HostProxy}
    (h : HostProxy.parse endpoint = .ok proxy) : ∃ digits n, Probes endpoint proxy digits n := by
  unfold HostProxy.parse at h
  dsimp only at h
  split at h
  · cases h
  · rename_i host digits hsplit
    obtain ⟨hparts, hcolon⟩ := rsplitOnce_eq_some.mp hsplit
    split at h
    · cases h
    · rename_i n hn
      split_ifs at h with hhost
      cases h
      exact ⟨digits, n, rfl, by rw [String.toList_ofList]; exact hparts, hcolon,
        by simpa using hhost, hn, rfl⟩

section Probes

variable {endpoint : String} {proxy : HostProxy} {digits : List Char} {n : ℕ}

theorem Probes.portText_eq (h : Probes endpoint proxy digits n) : portText endpoint = digits := by
  rw [portText, rsplitOnce_eq_some.mpr ⟨h.parts, h.lastColon⟩]
  rfl

/-- Firefox cuts every endpoint where the probe does. -/
theorem Probes.parseSocksEndpoint (h : Probes endpoint proxy digits n) :
    Firefox.parseSocksEndpoint endpoint = .ok (proxy.probeHost, proxy.probePort) :=
  Firefox.parseSocksEndpoint_eq_ok.mpr
    ⟨n, digits, h.parts, h.lastColon, h.hostNonempty, h.numeral, h.probePort⟩

/-- Chromium does so exactly on plain endpoints, and speaks the protocol their scheme means. -/
theorem Probes.readServer_iff (h : Probes endpoint proxy digits n) (p : Protocol) :
    readServer endpoint = some ⟨p, proxy.probeHost, proxy.probePort⟩ ↔
      PlainEndpoint endpoint ∧ spokenProtocol (splitScheme endpoint.toList).1 = some p := by
  have hhost : proxy.probeHost.toList ≠ [] := fun he =>
    h.hostNonempty (String.toList_eq_nil_iff.mp he)
  have hread := readServer_eq_some (p := p) h.parts h.lastColon hhost h.numeral
  rw [String.ofList_toList, ← h.probePort] at hread
  rw [hread]
  constructor
  · rintro ⟨hlist, hspoken, hsep, hdigits⟩
    exact ⟨⟨hlist, hsep, by rwa [h.portText_eq]⟩, hspoken⟩
  · rintro ⟨hplain, hspoken⟩
    exact ⟨hplain.single, hspoken, hplain.noFurther, by rw [← h.portText_eq]; exact hplain.port⟩

end Probes

/-! ### The proxy that is configured -/

/-- The endpoint of a Tor session: the one set in the environment, or the local Tor port. -/
def torEndpoint (w : Wiring) : String :=
  (w.aegisHostProxy.filter fun p => trim p ≠ "").getD "socks5h://127.0.0.1:9050"

/-- The protocol an endpoint is meant to be spoken to in; one without a scheme is a SOCKS port. -/
def endpointProtocol (endpoint : String) : Option Protocol :=
  match (splitScheme endpoint.toList).1 with
  | none => some .socks5
  | some scheme => if scheme = "socks5h".toList then some .socks5 else schemeProtocol scheme

/-- The protocol of the configured proxy. -/
def proxyProtocol (w : Wiring) : NetworkMode → Option Protocol
  | .tor _ => endpointProtocol (torEndpoint w)
  | .proxy cfg =>
    match cfg.protocol with
    | .socks5 => some .socks5
    | .httpConnect => some .http
  | .vpn _ => none

/-- The browser is pointed at the host and the port that were probed, to speak the protocol that is
configured. -/
def UsesProbed (w : Wiring) (mode : NetworkMode) (proxy : HostProxy) (b : RenderedBundle) : Prop :=
  ∃ p, proxyProtocol w mode = some p ∧ usedServer b = some ⟨p, proxy.probeHost, proxy.probePort⟩

/-- The network settings an engine is pointed right under: Chromium needs a scheme it accepts and a
plain endpoint, Firefox a SOCKS5 proxy. -/
def PointsRight (w : Wiring) : BrowserBackendId → NetworkMode → Prop
  | .chromium, .tor _ =>
    PlainEndpoint (torEndpoint w) ∧
      ∃ scheme, (splitScheme (torEndpoint w).toList).1 = some scheme ∧
        (schemeProtocol scheme).isSome = true
  | .chromium, .proxy cfg =>
    cfg.protocol = .httpConnect ∧ isList cfg.host.toList = false ∧
      ¬ separator <:+: cfg.host.toList
  | .firefox, .tor _ => endpointProtocol (torEndpoint w) = some .socks5
  | .firefox, .proxy cfg => cfg.protocol = .socks5
  | _, .vpn _ => False

/-! ### When they are one -/

theorem hostProxyEndpoint_tor {t : TorConfig} :
    cfg.hostProxyEndpoint (.tor t) = HostProxy.parse (torEndpoint cfg) := rfl

/-- The scheme the daemon writes for a configured proxy. -/
def proxyScheme : ProxyProtocol → String
  | .socks5 => "socks5h"
  | .httpConnect => "http"

theorem hostProxyEndpoint_proxy {c : ProxyConfig} :
    cfg.hostProxyEndpoint (.proxy c) = HostProxy.parse
      (proxyScheme c.protocol ++ "://" ++ c.host ++ ":" ++ toString c.port.toNat) := by
  cases hc : c.protocol <;> simp [Wiring.hostProxyEndpoint, proxyScheme, hc]

theorem splitScheme_proxy (c : ProxyConfig) :
    splitScheme (proxyScheme c.protocol ++ "://" ++ c.host ++ ":" ++ toString c.port.toNat).toList =
      (some (proxyScheme c.protocol).toList,
        c.host.toList ++ ':' :: (toString c.port.toNat).toList) := by
  have hchars : (proxyScheme c.protocol ++ "://" ++ c.host ++ ":" ++ toString c.port.toNat).toList =
      (proxyScheme c.protocol).toList ++ separator ++
        (c.host.toList ++ ':' :: (toString c.port.toNat).toList) := by
    have hcolon : ":".toList = [':'] := by decide +kernel
    simp only [String.toList_append, hcolon, List.append_assoc, List.singleton_append]
    rfl
  have hscheme : ∀ p, ':' ∉ (proxyScheme p).toList := by
    intro p
    cases p <;> decide +kernel
  have hlower : ∀ p, ((proxyScheme p).toList.dropWhile fun c => c = ' ' || c = '\t').map
      Char.toLower = (proxyScheme p).toList := by
    intro p
    cases p <;> decide +kernel
  rw [hchars, splitScheme_append (hscheme _), hlower]

theorem isDigit_toString (n : ℕ) : ∀ d ∈ (toString n).toList, d.isDigit = true := by
  intro d hd
  have hrepr : (toString n).toList = Nat.toDigits 10 n := Nat.toList_repr
  rw [hrepr] at hd
  exact isDigit_toDigits n d hd

/-- The endpoint of a configured proxy is plain exactly when its host is. -/
theorem plainEndpoint_proxy {c : ProxyConfig} {proxy : HostProxy} {digits : List Char} {n : ℕ}
    (h : Probes (proxyScheme c.protocol ++ "://" ++ c.host ++ ":" ++ toString c.port.toNat) proxy
      digits n) :
    PlainEndpoint (proxyScheme c.protocol ++ "://" ++ c.host ++ ":" ++ toString c.port.toNat) ↔
      isList c.host.toList = false ∧ ¬ separator <:+: c.host.toList := by
  have hsplit := splitScheme_proxy c
  have hparts := h.parts
  have hport := h.portText_eq
  have hprinted := isDigit_toString c.port.toNat
  have hnot (k : Char) (hk : k.isDigit = false) : k ∉ (toString c.port.toNat).toList :=
    fun hm => Bool.false_ne_true (hk.symm.trans (hprinted k hm))
  have hsep := separator_infix_append c.host.toList (hnot '/' (by decide))
  have hlist : isList (proxyScheme c.protocol ++ "://" ++ c.host ++ ":" ++
      toString c.port.toNat).toList = isList c.host.toList := by
    have hscheme : isList (proxyScheme c.protocol).toList = false := by
      cases c.protocol <;> decide +kernel
    have hmiddle : isList "://".toList = false ∧ isList ":".toList = false := by decide +kernel
    have hdigits : isList (toString c.port.toNat).toList = false := by
      have hcomma := hnot ',' (by decide)
      have hsemicolon := hnot ';' (by decide)
      have hequals := hnot '=' (by decide)
      rw [isList, List.any_eq_false]
      intro k hk
      simp only [Bool.or_eq_true, decide_eq_true_eq, not_or]
      exact ⟨⟨fun he => hcomma (he ▸ hk), fun he => hsemicolon (he ▸ hk)⟩,
        fun he => hequals (he ▸ hk)⟩
    unfold isList at hscheme hmiddle hdigits ⊢
    simp only [String.toList_append, List.any_append, hscheme, hmiddle.1, hmiddle.2, hdigits,
      Bool.false_or, Bool.or_false]
  constructor
  · intro hplain
    refine ⟨by rw [← hlist]; exact hplain.single, ?_⟩
    have hfurther := hplain.noFurther
    rw [hsplit] at hfurther
    exact fun hin => hfurther (hsep.mpr hin)
  · rintro ⟨hsingle, hhost⟩
    have hrest : ¬ separator <:+: c.host.toList ++ ':' :: (toString c.port.toNat).toList :=
      fun hin => hhost (hsep.mp hin)
    refine ⟨by rw [hlist]; exact hsingle, by rw [hsplit]; exact hrest, ?_⟩
    have hself : authority (proxyScheme c.protocol ++ "://" ++ c.host ++ ":" ++
        toString c.port.toNat).toList = c.host.toList ++ ':' :: (toString c.port.toNat).toList := by
      rw [← authority_splitScheme, hsplit]
      rcases authority_cases (c.host.toList ++ ':' :: (toString c.port.toNat).toList) with
        ⟨-, hself⟩ | ⟨hin, -⟩
      · exact hself
      · exact absurd hin hrest
    rw [portText, hself, rsplitOnce_eq_some.mpr ⟨rfl, hnot ':' (by decide)⟩]
    exact List.all_eq_true.mpr hprinted

section Used

variable {mode : NetworkMode} {proxy : HostProxy} {endpoint : String} {digits : List Char} {n : ℕ}
  {req : BrowserLaunchRequest} {b : RenderedBundle}

theorem usesProbed_chromium (h : Probes endpoint proxy digits n)
    (hreq : req.proxyEndpoint = endpoint) (hb : Chromium.renderChromiumPolicy req = .ok b) :
    UsesProbed cfg mode proxy b ↔ PlainEndpoint endpoint ∧ ∃ p, proxyProtocol cfg mode = some p ∧
      spokenProtocol (splitScheme endpoint.toList).1 = some p := by
  have hused := usedServer_chromium hb
  rw [hreq] at hused
  constructor
  · rintro ⟨p, hp, hserver⟩
    obtain ⟨hplain, hspoken⟩ := (h.readServer_iff p).mp (hused ▸ hserver)
    exact ⟨hplain, p, hp, hspoken⟩
  · rintro ⟨hplain, p, hp, hspoken⟩
    exact ⟨p, hp, hused.trans ((h.readServer_iff p).mpr ⟨hplain, hspoken⟩)⟩

theorem usesProbed_firefox (h : Probes endpoint proxy digits n)
    (hreq : req.proxyEndpoint = endpoint) (hb : Firefox.renderFirefoxPolicy req = .ok b) :
    UsesProbed cfg mode proxy b ↔ proxyProtocol cfg mode = some .socks5 := by
  have hused := usedServer_firefox hb (hreq ▸ h.parseSocksEndpoint)
  constructor
  · rintro ⟨p, hp, hserver⟩
    obtain rfl : Protocol.socks5 = p :=
      (Server.mk.inj (Option.some.inj (hused.symm.trans hserver))).1
    exact hp
  · intro hp
    exact ⟨.socks5, hp, hused⟩

/-- What a Tor endpoint is meant to be spoken to in is what Chromium speaks exactly where it
accepts the scheme. -/
theorem endpointProtocol_spoken (endpoint : String) :
    (∃ p, endpointProtocol endpoint = some p ∧
      spokenProtocol (splitScheme endpoint.toList).1 = some p) ↔
    ∃ scheme, (splitScheme endpoint.toList).1 = some scheme ∧
      (schemeProtocol scheme).isSome = true := by
  unfold endpointProtocol
  cases (splitScheme endpoint.toList).1 with
  | none =>
    refine ⟨?_, nofun⟩
    rintro ⟨p, hsocks, hhttp⟩
    cases hsocks
    cases hhttp
  | some scheme =>
    have hsocks : schemeProtocol "socks5h".toList = none := by decide +kernel
    generalize "socks5h".toList = socks5h at hsocks ⊢
    simp only [Option.some.injEq, exists_eq_left', spokenProtocol, Option.isSome_iff_exists]
    by_cases h : scheme = socks5h
    · simp [h, hsocks]
    · simp [h]

/-- An engine is pointed at the proxy that was probed exactly under the settings it is pointed
right under. -/
theorem usesProbed_iff {engine : BrowserBackendId} (hproxy : cfg.hostProxyEndpoint mode = .ok proxy)
    (hreq : req.proxyEndpoint = proxy.endpoint) (hb : renderPolicy engine req = .ok b) :
    UsesProbed cfg mode proxy b ↔ PointsRight cfg engine mode := by
  cases mode with
  | vpn v => cases hproxy
  | tor t =>
    obtain ⟨digits, n, hprobes⟩ := probes_of_parse (hostProxyEndpoint_tor.symm.trans hproxy)
    cases engine with
    | chromium =>
      rw [usesProbed_chromium hprobes (hreq.trans hprobes.kept) hb]
      exact and_congr_right fun _ => endpointProtocol_spoken (torEndpoint cfg)
    | firefox => exact usesProbed_firefox hprobes (hreq.trans hprobes.kept) hb
  | proxy c =>
    obtain ⟨digits, n, hprobes⟩ := probes_of_parse (hostProxyEndpoint_proxy.symm.trans hproxy)
    cases engine with
    | chromium =>
      rw [usesProbed_chromium hprobes (hreq.trans hprobes.kept) hb, plainEndpoint_proxy hprobes,
        splitScheme_proxy]
      have hspoken : (∃ p, proxyProtocol cfg (.proxy c) = some p ∧
          spokenProtocol (some (proxyScheme c.protocol).toList) = some p) ↔
          c.protocol = .httpConnect := by
        have hsocks : schemeProtocol "socks5h".toList = none := by decide +kernel
        have hhttp : schemeProtocol "http".toList = some .http := by decide +kernel
        cases hc : c.protocol with
        | socks5 =>
          show (∃ p, proxyProtocol cfg (.proxy c) = some p ∧
            schemeProtocol "socks5h".toList = some p) ↔ _
          rw [hsocks]
          simp
        | httpConnect =>
          show (∃ p, proxyProtocol cfg (.proxy c) = some p ∧
            schemeProtocol "http".toList = some p) ↔ _
          rw [hhttp]
          simp [proxyProtocol, hc]
      rw [hspoken]
      exact ⟨fun h => ⟨h.2, h.1⟩, fun h => ⟨h.2, h.1⟩⟩
    | firefox =>
      rw [usesProbed_firefox hprobes (hreq.trans hprobes.kept) hb]
      show proxyProtocol cfg (.proxy c) = some .socks5 ↔ c.protocol = .socks5
      cases hc : c.protocol <;> simp [proxyProtocol, hc]

end Used

/-- A launched host session's proxy had answered its probe, and is the one of its request. -/
theorem proxyReached_of_launched {profile : Profile} {req : BrowserLaunchRequest}
    {bundle : BackendPolicyBundle} (hr : Reach (World.step cfg) World.Initial anyStep w)
    (hp : .registered s profile ∈ w.log) (hi : profile.spec.isolation = .hostProcess)
    (hl : .launchCalled s req bundle ∈ w.log) :
    ∃ proxy, cfg.hostProxyEndpoint profile.spec.network.mode = .ok proxy ∧
      req.proxyEndpoint = proxy.endpoint ∧ .proxyReached s proxy ∈ w.log := by
  have hlaunches := (faithful_of_reach hr).launched s req bundle profile hl hp
  unfold LaunchesFor at hlaunches
  rw [hi] at hlaunches
  obtain ⟨proxy, hproxy, rfl⟩ := hlaunches
  -- the probe answered before the launch
  obtain ⟨us, vs, hlog⟩ := List.append_of_mem hl
  obtain ⟨ev, hev, proxy', hproxy', rfl⟩ :=
    precedes_iff.mp (((gated_of_reach hr).ordered s).probed profile hp hi) us _ vs hlog
      ⟨_, bundle, rfl⟩
  obtain rfl : proxy = proxy' := Except.ok.inj (hproxy.symm.trans hproxy')
  have hmem : .proxyReached s proxy ∈ w.log := by
    rw [hlog]
    exact List.mem_append_right _ (List.mem_cons_of_mem _ hev)
  exact ⟨proxy, hproxy, rfl, hmem⟩

/-- In every run, a host session that is launched had its proxy probed, and the rendered launch
points the browser at it exactly under the settings its engine is pointed right under. -/
theorem probed_used_iff {profile : Profile} {req : BrowserLaunchRequest}
    {bundle : BackendPolicyBundle} {b : RenderedBundle}
    (hr : Reach (World.step cfg) World.Initial anyStep w)
    (hp : .registered s profile ∈ w.log) (hi : profile.spec.isolation = .hostProcess)
    (hl : .launchCalled s req bundle ∈ w.log) (hb : renderPolicy profile.spec.browser req = .ok b) :
    ∃ proxy, cfg.hostProxyEndpoint profile.spec.network.mode = .ok proxy ∧
      .proxyReached s proxy ∈ w.log ∧
      (UsesProbed cfg profile.spec.network.mode proxy b ↔
        PointsRight cfg profile.spec.browser profile.spec.network.mode) := by
  obtain ⟨proxy, hproxy, hreq, hmem⟩ := proxyReached_of_launched hr hp hi hl
  exact ⟨proxy, hproxy, hmem, usesProbed_iff hproxy hreq hb⟩

/-! ### Two launches -/

/-- An ephemeral profile that browses on the host through a network mode. -/
def modeProfile (mode : NetworkMode) : Profile :=
  { hostProfile ⟨0⟩ with
    spec := { (hostProfile ⟨0⟩).spec with network := { NetworkConfig.default with mode } } }

/-- The steps of its start, up to its launch. -/
def hostLaunchRun (mode : NetworkMode) : List Label :=
  [.setEnforcement { Enforcement.secure with allowHostBrowser := true }, .startSession 0 ⟨0⟩,
    .resume 0 (.profile (.ok (modeProfile mode))),
    .lock (.stat 0 true (Store.LockSystem.repeated 'a')), .lock (.create 0 none),
    .lock (.write 0 none), .resume 0 (.registered ⟨0⟩ (.ok 0) ⟨0⟩),
    .resume 0 (.reachable (.ok true) (.ok safeBundle))]

def modeRequest (mode : NetworkMode) (proxy : HostProxy) : BrowserLaunchRequest :=
  hostLaunchRequest ⟨0⟩ (modeProfile mode) (daemon.hostUserDataDir (modeProfile mode)) proxy

/-- An HTTP proxy with a plain host name. -/
def httpMode : NetworkMode := .proxy ⟨.httpConnect, "proxy.example", 3128, none, true⟩

def httpProxy : HostProxy := ⟨"http://proxy.example:3128", "proxy.example", 3128⟩

def torMode : NetworkMode := .tor .default

def torProxy : HostProxy := ⟨"socks5h://127.0.0.1:9050", "127.0.0.1", 9050⟩

theorem hostLaunchRun_tor : (exec (World.step daemon) booted (hostLaunchRun torMode)).map
    (fun w => (w.log[11]?, w.log[0]?)) = some (some (.registered ⟨0⟩ (modeProfile torMode)),
      some (.launchCalled ⟨0⟩ (modeRequest torMode torProxy) safeBundle)) := rfl

theorem hostLaunchRun_http : (exec (World.step daemon) booted (hostLaunchRun httpMode)).map
    (fun w => (w.log[11]?, w.log[0]?)) = some (some (.registered ⟨0⟩ (modeProfile httpMode)),
      some (.launchCalled ⟨0⟩ (modeRequest httpMode httpProxy) safeBundle)) := rfl

theorem hostLaunchRun_reach {mode : NetworkMode} {proxy : HostProxy}
    (h : (exec (World.step daemon) booted (hostLaunchRun mode)).map
      (fun w => (w.log[11]?, w.log[0]?)) = some (some (.registered ⟨0⟩ (modeProfile mode)),
        some (.launchCalled ⟨0⟩ (modeRequest mode proxy) safeBundle))) :
    ∃ w, Reach (World.step daemon) World.Initial anyStep w ∧
      .registered ⟨0⟩ (modeProfile mode) ∈ w.log ∧
      .launchCalled ⟨0⟩ (modeRequest mode proxy) safeBundle ∈ w.log := by
  obtain ⟨w, hw, hlog⟩ := Option.map_eq_some_iff.mp h
  obtain ⟨hreg, hlaunch⟩ := Prod.mk.inj hlog
  exact ⟨w, (Reach.start booted_initial).exec hw, List.mem_of_getElem? hreg,
    List.mem_of_getElem? hlaunch⟩

theorem modeRequest_accepted {mode : NetworkMode} {proxy : HostProxy}
    (h : (Chromium.rendered (modeRequest mode proxy)).assertSafe true = .ok ()) :
    renderPolicy .chromium (modeRequest mode proxy) =
      .ok (Chromium.rendered (modeRequest mode proxy)) :=
  Chromium.renderChromiumPolicy_eq_ok.mpr ⟨rfl, h, rfl⟩

theorem httpRequest_accepted : renderPolicy .chromium (modeRequest httpMode httpProxy) =
    .ok (Chromium.rendered (modeRequest httpMode httpProxy)) :=
  modeRequest_accepted (by decide +kernel)

theorem torRequest_accepted : renderPolicy .chromium (modeRequest torMode torProxy) =
    .ok (Chromium.rendered (modeRequest torMode torProxy)) :=
  modeRequest_accepted (by decide +kernel)

/-- Chromium behind an HTTP proxy with a plain host is pointed at what was probed. -/
theorem probed_used_http : ∃ w proxy, Reach (World.step daemon) World.Initial anyStep w ∧
    .proxyReached ⟨0⟩ proxy ∈ w.log ∧
    (UsesProbed daemon httpMode proxy (Chromium.rendered (modeRequest httpMode httpProxy)) ↔
      PointsRight daemon .chromium httpMode) := by
  obtain ⟨w, hr, hreg, hlaunch⟩ := hostLaunchRun_reach hostLaunchRun_http
  obtain ⟨proxy, -, hreached, hiff⟩ := probed_used_iff hr hreg rfl hlaunch httpRequest_accepted
  exact ⟨w, proxy, hr, hreached, hiff⟩

/-- Chromium through the default Tor endpoint is given a scheme it does not accept. -/
theorem tor_not_used : ∃ w proxy, Reach (World.step daemon) World.Initial anyStep w ∧
    .proxyReached ⟨0⟩ proxy ∈ w.log ∧
    .launchCalled ⟨0⟩ (modeRequest torMode torProxy) safeBundle ∈ w.log ∧
    renderPolicy .chromium (modeRequest torMode torProxy) =
      .ok (Chromium.rendered (modeRequest torMode torProxy)) ∧
    ¬ UsesProbed daemon torMode proxy (Chromium.rendered (modeRequest torMode torProxy)) := by
  obtain ⟨w, hr, hreg, hlaunch⟩ := hostLaunchRun_reach hostLaunchRun_tor
  obtain ⟨proxy, hproxy, hreq, hreached⟩ := proxyReached_of_launched hr hreg rfl hlaunch
  refine ⟨w, proxy, hr, hreached, hlaunch, torRequest_accepted, ?_⟩
  intro hused
  obtain ⟨-, scheme, hscheme, haccepted⟩ :=
    (usesProbed_iff hproxy hreq torRequest_accepted).mp hused
  have hrefused : ∀ scheme, (splitScheme (torEndpoint daemon).toList).1 = some scheme →
      schemeProtocol scheme = none := by
    have : (splitScheme (torEndpoint daemon).toList).1.all
      (fun scheme => (schemeProtocol scheme).isNone) = true := by decide +kernel
    intro scheme hscheme
    simpa [hscheme] using this
  rw [hrefused scheme hscheme] at haccepted
  cases haccepted

end Aegis.Orchestrator
