import Aegis.Core.Spec
import Aegis.Core.Session
import Aegis.Ipc.Serde
import Mathlib.Tactic.Ring

/-! The domain types a request or a reply carries, with the names, defaults and tags they are sent
with. -/
namespace Aegis
open Json Text Deserialize

/-! ### Identifiers and times -/

namespace Uuid

def parseHex (cs : List Char) : Option Uuid :=
  if cs.length = 32 then
    (cs.foldlM (fun n c => (hexDigit c).map (16 * n + ·)) 0).map (BitVec.ofNat 128)
  else none

/-- Groups of the given lengths with hyphens between them, put together. -/
def groups : List ℕ → List Char → Option (List Char)
  | [], _ => none
  | [n], cs => if cs.length = n then some cs else none
  | n :: ns, cs =>
    match cs.drop n with
    | '-' :: rest => (groups ns rest).map (cs.take n ++ ·)
    | _ => none

def parseHyphenated (cs : List Char) : Option Uuid := (groups [8, 4, 4, 4, 12] cs).bind parseHex

/-- The plain, hyphenated, braced and URN forms. -/
def parse (s : String) : Option Uuid :=
  let cs := s.toList
  if cs.length = 32 then parseHex cs
  else if cs.length = 36 then parseHyphenated cs
  else if cs.length = 38 ∧ cs.head? = some '{' ∧ cs.getLast? = some '}' then
    parseHyphenated cs.tail.dropLast
  else if cs.length = 45 then (stripPrefix "urn:uuid:".toList cs).bind parseHyphenated
  else none

theorem foldlM_digits (u n acc : ℕ) :
    ((List.range n).map fun i => Nat.digitChar (u / 16 ^ (n - 1 - i) % 16)).foldlM
      (fun n c => (hexDigit c).map (16 * n + ·)) acc = some (acc * 16 ^ n + u % 16 ^ n) := by
  induction n generalizing acc with
  | zero => simp [Nat.mod_one]
  | succ n ih =>
    have hrest : (List.range n).map (fun i => Nat.digitChar (u / 16 ^ (n - (i + 1)) % 16)) =
        (List.range n).map fun i => Nat.digitChar (u / 16 ^ (n - 1 - i) % 16) := by
      apply List.map_congr_left
      intro i hi
      rw [Nat.sub_sub, Nat.add_comm i 1]
    have hsplit : u % 16 ^ (n + 1) = u / 16 ^ n % 16 * 16 ^ n + u % 16 ^ n := by
      rw [pow_succ, Nat.mod_mul]
      ring
    rw [List.range_succ_eq_map, List.map_cons, List.map_map, List.foldlM_cons]
    simp only [Nat.add_sub_cancel, Nat.sub_zero, Function.comp_def, Nat.succ_eq_add_one, hrest]
    rw [hexDigit_digitChar (Nat.mod_lt _ (by decide))]
    simp only [Option.map_some, Option.bind_eq_bind, Option.bind_some, ih, hsplit]
    congr 1
    ring

theorem length_digits (u : Uuid) : u.digits.length = 32 := by simp [digits]

theorem parseHex_digits (u : Uuid) : parseHex u.digits = some u := by
  have hfold := foldlM_digits u.toNat 32 0
  have hlt : u.toNat % 16 ^ 32 = u.toNat := Nat.mod_eq_of_lt u.isLt
  rw [Nat.zero_mul, Nat.zero_add, hlt] at hfold
  unfold parseHex
  rw [if_pos u.length_digits, digits, hfold, Option.map_some, BitVec.ofNat_toNat]
  simp

theorem groups_cons {n : ℕ} {g : List Char} (hg : g.length = n) (m : ℕ) (ns : List ℕ)
    (cs : List Char) :
    groups (n :: m :: ns) (g ++ '-' :: cs) = (groups (m :: ns) cs).map (g ++ ·) := by
  subst hg
  rw [groups]
  · rw [List.drop_left, List.take_left]
    rfl
  · nofun

theorem group_append (i n : ℕ) (cs : List Char) :
    (cs.drop i).take n ++ cs.drop (i + n) = cs.drop i := by
  rw [← List.drop_drop, List.take_append_drop]

/-- An identifier is read as it is displayed. -/
theorem parse_display (u : Uuid) : parse u.display = some u := by
  have hlen := u.length_digits
  have htext : u.display.toList = u.digits.take 8 ++ '-' :: ((u.digits.drop 8).take 4 ++
      '-' :: ((u.digits.drop 12).take 4 ++ '-' :: ((u.digits.drop 16).take 4 ++
      '-' :: u.digits.drop 20))) := by simp [display]
  have hgroups : groups [8, 4, 4, 4, 12] u.display.toList = some u.digits := by
    have hlast : groups [12] (u.digits.drop 20) = some (u.digits.drop 20) :=
      if_pos (by simp [hlen])
    rw [htext, groups_cons (by simp [hlen]), groups_cons (by simp [hlen]),
      groups_cons (by simp [hlen]), groups_cons (by simp [hlen]), hlast]
    simp only [Option.map_some]
    rw [group_append 16 4, group_append 12 4, group_append 8 4, List.take_append_drop]
  have h36 : u.display.toList.length = 36 := by simp [htext, hlen]
  unfold parse
  rw [if_neg (by omega), if_pos h36, parseHyphenated, hgroups, Option.bind_some, parseHex_digits]

end Uuid

instance : Wire ProfileId :=
  .map (fun s => (Uuid.parse s).map ProfileId.mk) (fun i => i.uuid.display) fun i => by
    rw [Uuid.parse_display, Option.map_some]

instance : Wire SessionId :=
  .map (fun s => (Uuid.parse s).map SessionId.mk) (fun i => i.uuid.display) fun i => by
    rw [Uuid.parse_display, Option.map_some]

instance : Wire.NonNull ProfileId := ⟨fun _ => nofun⟩

instance : Wire.NonNull SessionId := ⟨fun _ => nofun⟩

/-- The text a timestamp is sent as, which gives it back. -/
class Chrono (Time : Type) where
  toRfc3339 : Time → String
  parse : String → Option Time
  parse_toRfc3339 : ∀ t, parse (toRfc3339 t) = some t

instance {Time : Type} [Chrono Time] : Wire Time :=
  .map Chrono.parse Chrono.toRfc3339 Chrono.parse_toRfc3339

instance {Time : Type} [Chrono Time] : Wire.NonNull Time := ⟨fun _ => nofun⟩

/-! ### Network -/

instance : Wire CredentialRef := .map (some ∘ CredentialRef.mk) CredentialRef.id fun _ => rfl

instance : Wire.NonNull CredentialRef := ⟨fun _ => nofun⟩

def TorConfig.record : Record TorConfig :=
  .of (fun c => (c.useBridges, c.bridges, c.exitCountry, ()))
    (fun (useBridges, bridges, exitCountry, _) => ⟨useBridges, bridges, exitCountry⟩)
    (fun _ => rfl)
    (.defaulted "use_bridges" false <| .defaulted "bridges" [] <|
      .defaulted "exit_country" none .nil)

instance : Wire VpnProtocol :=
  .variants [("wire-guard", .wireGuard), ("open-vpn", .openVpn)] (by rintro (_ | _) <;> rfl)

def VpnConfig.record : Record VpnConfig :=
  .of (fun c => (c.protocol, c.endpoint, c.credentialsRef, c.dnsServers, ()))
    (fun (protocol, endpoint, credentialsRef, dnsServers, _) =>
      ⟨protocol, endpoint, credentialsRef, dnsServers⟩)
    (fun _ => rfl)
    (.required "protocol" <| .required "endpoint" <| .required "credentials_ref" <|
      .defaulted "dns_servers" [] .nil)

instance : Wire ProxyProtocol :=
  .variants [("socks5", .socks5), ("http-connect", .httpConnect)] (by rintro (_ | _) <;> rfl)

def ProxyConfig.record : Record ProxyConfig :=
  .of (fun c => (c.protocol, c.host, c.port, c.credentialsRef, c.remoteDns, ()))
    (fun (protocol, host, port, credentialsRef, remoteDns, _) =>
      ⟨protocol, host, port, credentialsRef, remoteDns⟩)
    (fun _ => rfl)
    (.required "protocol" <| .required "host" <| .required "port" <|
      .defaulted "credentials_ref" none <| .defaulted "remote_dns" false .nil)

namespace NetworkMode

def toValue : NetworkMode → Value
  | tor c => .object (("kind", .string "tor") :: TorConfig.record.write c)
  | vpn c => .object (("kind", .string "vpn") :: VpnConfig.record.write c)
  | proxy c => .object (("kind", .string "proxy") :: ProxyConfig.record.write c)

def ofTag (kind : String) (v : Value) : Option NetworkMode :=
  match kind with
  | "tor" => (TorConfig.record.read v).map tor
  | "vpn" => (VpnConfig.record.read v).map vpn
  | "proxy" => (ProxyConfig.record.read v).map proxy
  | _ => none

theorem tagged_write {α : Type} (r : Record α) (h : ("kind" :: r.names).Nodup) (kind : String)
    (a : α) : tagged "kind" ofTag (.object (("kind", .string kind) :: r.write a)) =
      ofTag kind (.object (r.write a)) := by
  apply tagged_cons
  rw [r.keys_write]
  exact (List.nodup_cons.mp h).1

instance : Wire NetworkMode where
  toValue := toValue
  ofValue := tagged "kind" ofTag
  plain m := by
    cases m
    all_goals
      apply Record.plain_object
      intro n hn
      rcases List.mem_cons.mp hn with rfl | hn
      · trivial
      · exact Record.plain _ _ n hn
  ofValue_toValue m := by
    cases m with
    | tor c =>
      rw [toValue, tagged_write _ (by decide), ofTag, Record.read_write _ (by decide)]
      rfl
    | vpn c =>
      rw [toValue, tagged_write _ (by decide), ofTag, Record.read_write _ (by decide)]
      rfl
    | proxy c =>
      rw [toValue, tagged_write _ (by decide), ofTag, Record.read_write _ (by decide)]
      rfl

end NetworkMode

instance : Wire DnsMode :=
  .variants [("tor-dns-port", .torDnsPort), ("tunnel-dns", .tunnelDns),
    ("proxy-remote", .proxyRemote), ("static-dns", .staticDns)]
    (by rintro (_ | _ | _ | _) <;> rfl)

def DnsPolicy.record : Record DnsPolicy :=
  .of (fun p => (p.mode, p.servers, p.blockPlainDns, ()))
    (fun (mode, servers, blockPlainDns, _) => ⟨mode, servers, blockPlainDns⟩) (fun _ => rfl)
    (.required "mode" <| .defaulted "servers" [] <| .required "block_plain_dns" .nil)

instance : Wire DnsPolicy := DnsPolicy.record.wire (by decide)

instance : Wire Ipv6Policy :=
  .variants [("block", .block), ("route-through-tunnel", .routeThroughTunnel)]
    (by rintro (_ | _) <;> rfl)

def NetworkConfig.record : Record NetworkConfig :=
  .of (fun c => (c.mode, c.dns, c.ipv6, ())) (fun (mode, dns, ipv6, _) => ⟨mode, dns, ipv6⟩)
    (fun _ => rfl)
    (.required "mode" <| .defaulted "dns" .tor <| .defaulted "ipv6" .block .nil)

instance : Wire NetworkConfig := NetworkConfig.record.wire (by decide)

instance : Wire.NonNull NetworkConfig := ⟨fun _ => nofun⟩

namespace NetworkConfig

/-- A value with the mode and neither of the other fields: by name, or as the only item. -/
def GivesOnly (mode : NetworkMode) : Value → Prop
  | .object ms => (∃ m, member "mode" ms = some (some m) ∧ Wire.ofValue m = some mode) ∧
      member "dns" ms = some none ∧ member "ipv6" ms = some none
  | .array vs => ∃ m, vs = [m] ∧ Wire.ofValue m = some mode
  | _ => False

/-- The default of a field does not see the mode. -/
theorem ofValue_of_givesOnly {mode : NetworkMode} {v : Value} (h : GivesOnly mode v) :
    Wire.ofValue v = some (⟨mode, .tor, .block⟩ : NetworkConfig) := by
  cases v with
  | object ms =>
    obtain ⟨⟨m, hmode, hm⟩, hdns, hipv6⟩ := h
    show record.named ms = _
    simp [record, Record.of, Record.required, Record.defaulted, Record.cons, Record.nil, hmode, hm,
      hdns, hipv6]
  | array vs =>
    obtain ⟨m, rfl, hm⟩ := h
    show record.listed [m] = _
    simp [record, Record.of, Record.required, Record.defaulted, Record.cons, Record.nil, hm]
  | null | bool _ | number _ | string _ => exact h.elim

theorem eq_fromMode_iff (mode : NetworkMode) :
    ⟨mode, .tor, .block⟩ = fromMode mode ↔ mode.isTor = true := by
  cases mode with
  | tor cfg => exact iff_of_true rfl rfl
  | vpn cfg => simp [fromMode, NetworkMode.defaultDnsPolicy, DnsPolicy.tor, NetworkMode.isTor]
  | proxy cfg => simp [fromMode, NetworkMode.defaultDnsPolicy, DnsPolicy.tor, NetworkMode.isTor]

/-- A document that gives only the mode. -/
def ModeOnly (mode : NetworkMode) (bs : Bytes) : Prop :=
  ∃ cs v, utf8Decode bs = some cs ∧ Json.read cs = some v ∧ GivesOnly mode v

/-- The shortest such document. -/
def modeDocument (mode : NetworkMode) : Bytes :=
  utf8 (compact serdeStyle (.object [("mode", Wire.toValue mode)]))

theorem modeOnly_modeDocument (mode : NetworkMode) : ModeOnly mode (modeDocument mode) := by
  have hplain : PlainValue (.object [("mode", Wire.toValue mode)]) := by
    apply Record.plain_object
    intro m hm
    obtain rfl := List.mem_singleton.mp hm
    exact Wire.plain mode
  refine ⟨_, _, utf8Decode_utf8 _, read_compact serdeStyle_readable _ hplain, ?_⟩
  exact ⟨⟨_, rfl, Wire.ofValue_toValue mode⟩, rfl, rfl⟩

/-- The documents with only a mode that are read as the configuration of that mode are those of
Tor. -/
theorem fromSlice_eq_fromMode_iff {mode : NetworkMode} {bs : Bytes} (h : ModeOnly mode bs) :
    fromSlice NetworkConfig bs = some (fromMode mode) ↔ mode.isTor = true := by
  obtain ⟨cs, v, hbs, hcs, hv⟩ := h
  rw [← eq_fromMode_iff, fromSlice, hbs]
  simp only [Option.bind_eq_bind, Option.bind_some]
  rw [hcs, Option.bind_some, ofValue_of_givesOnly hv, Option.some_inj]

theorem fromSlice_modeDocument :
    fromSlice NetworkConfig (modeDocument (.tor .default)) = some (fromMode (.tor .default)) ↔
      (NetworkMode.tor .default).isTor = true :=
  fromSlice_eq_fromMode_iff (modeOnly_modeDocument _)

/-- The tunnel's own servers are not the ones that are asked. -/
theorem vpn_document_reads_tor_dns :
    let mode : NetworkMode := .vpn ⟨.wireGuard, "vpn.example:51820", ⟨"vpn-key-1"⟩, ["10.64.0.1"]⟩
    let document := "\x7b\"mode\":\x7b\"kind\":\"vpn\",\"protocol\":\"wire-guard\",
      \"endpoint\":\"vpn.example:51820\",\"credentials_ref\":\"vpn-key-1\",
      \"dns_servers\":[\"10.64.0.1\"]\x7d\x7d"
    ∃ c, fromSlice NetworkConfig (utf8 document.toList) = some c ∧ c.mode = mode ∧
      c.dns = DnsPolicy.tor ∧ c ≠ fromMode mode := by
  refine ⟨⟨.vpn ⟨.wireGuard, "vpn.example:51820", ⟨"vpn-key-1"⟩, ["10.64.0.1"]⟩, .tor, .block⟩,
    by decide +kernel, rfl, rfl, by decide⟩

end NetworkConfig

/-! ### Fingerprint and enforcement -/

instance : Wire ProtectionLevel :=
  .variants [("balanced", .balanced), ("strict", .strict)] (by rintro (_ | _) <;> rfl)

instance : Wire.NonNull ProtectionLevel := ⟨fun _ => nofun⟩

instance : Wire WebGlMode :=
  .variants [("virtual-backend", .virtualBackend), ("restricted", .restricted),
    ("disabled", .disabled)] (by rintro (_ | _ | _) <;> rfl)

instance : Wire CanvasMode :=
  .variants [("passthrough", .passthrough), ("limited", .limited)] (by rintro (_ | _) <;> rfl)

instance : Wire LetterboxMode :=
  .variants [("off", .off), ("on", .on)] (by rintro (_ | _) <;> rfl)

instance : Wire FontPolicy := .variants [("standard-set", .standardSet)] (by rintro ⟨⟩; rfl)

def FingerprintPolicy.record : Record FingerprintPolicy :=
  .of
    (fun p => (p.level, p.webgl, p.webgpuEnabled, p.canvas, p.letterbox, p.fonts,
      p.timerCoarseningUs, p.limitMediaDeviceEnumeration, p.hardwareConcurrency,
      p.disableBatteryApi, p.disableSensorApis, p.blockDeviceApis, p.timezone, p.primaryLanguage,
      ()))
    (fun (level, webgl, webgpuEnabled, canvas, letterbox, fonts, timerCoarseningUs,
        limitMediaDeviceEnumeration, hardwareConcurrency, disableBatteryApi, disableSensorApis,
        blockDeviceApis, timezone, primaryLanguage, _) =>
      { level, webgl, webgpuEnabled, canvas, letterbox, fonts, timerCoarseningUs,
        limitMediaDeviceEnumeration, hardwareConcurrency, disableBatteryApi, disableSensorApis,
        blockDeviceApis, timezone, primaryLanguage })
    (fun _ => rfl)
    (.required "level" <| .required "webgl" <| .required "webgpu_enabled" <|
      .required "canvas" <| .required "letterbox" <| .required "fonts" <|
      .required "timer_coarsening_us" <| .required "limit_media_device_enumeration" <|
      .optional "hardware_concurrency" <| .required "disable_battery_api" <|
      .required "disable_sensor_apis" <| .required "block_device_apis" <|
      .optional "timezone" <| .required "primary_language" .nil)

instance : Wire FingerprintPolicy := FingerprintPolicy.record.wire (by decide)

instance : Wire.NonNull FingerprintPolicy := ⟨fun _ => nofun⟩

instance : Wire IsolationLevel :=
  .variants [("full-vm", .fullVm), ("host-process", .hostProcess)] (by rintro (_ | _) <;> rfl)

def Enforcement.record : Record Enforcement :=
  .of (fun e => (e.requireVmIsolation, e.requireGateway, e.allowHostBrowser, ()))
    (fun (requireVmIsolation, requireGateway, allowHostBrowser, _) =>
      ⟨requireVmIsolation, requireGateway, allowHostBrowser⟩)
    (fun _ => rfl)
    (.defaulted "require_vm_isolation" true <| .defaulted "require_gateway" true <|
      .defaulted "allow_host_browser" false .nil)

instance : Wire Enforcement := Enforcement.record.wire (by decide)

/-! ### Sessions -/

instance : Wire SessionState :=
  .variants [("requested", .requested), ("provisioning", .provisioning),
    ("gateway-starting", .gatewayStarting), ("preflight", .preflight), ("browsing", .browsing),
    ("closing", .closing), ("destroyed", .destroyed), ("failed", .failed)]
    (by rintro (_ | _ | _ | _ | _ | _ | _ | _) <;> rfl)

instance : Wire ProtectionStatus :=
  .variants [("active", .active), ("partial", .partialProtection), ("unsafe", .unsafeConfiguration),
    ("none", .noProtection)] (by rintro (_ | _ | _ | _) <;> rfl)

def SessionSummary.record : Record SessionSummary :=
  .of (fun s => (s.id, s.profile, s.state, s.protection, s.publicIp, ()))
    (fun (id, profile, state, protection, publicIp, _) =>
      ⟨id, profile, state, protection, publicIp⟩)
    (fun _ => rfl)
    (.required "id" <| .required "profile" <| .required "state" <| .required "protection" <|
      .defaulted "public_ip" none .nil)

instance : Wire SessionSummary := SessionSummary.record.wire (by decide)

instance : Wire CheckId :=
  .variants (CheckId.all.map fun c => (c.asStr, c)) (by rintro (_ | _ | _ | _ | _ | _) <;> rfl)

instance : Wire CheckOutcome :=
  .variants [("pass", .pass), ("fail", .fail), ("skipped", .skipped)]
    (by rintro (_ | _ | _) <;> rfl)

def CheckReport.record : Record CheckReport :=
  .of (fun r => (r.id, r.outcome, r.detail, ()))
    (fun (id, outcome, detail, _) => ⟨id, outcome, detail⟩)
    (fun _ => rfl) (.required "id" <| .required "outcome" <| .required "detail" .nil)

instance : Wire CheckReport := CheckReport.record.wire (by decide)

def IpObservation.record : Record IpObservation :=
  .of (fun o => (o.ip, o.viaTunnel, o.differsFromHost, ()))
    (fun (ip, viaTunnel, differsFromHost, _) => ⟨ip, viaTunnel, differsFromHost⟩) (fun _ => rfl)
    (.required "ip" <| .required "via_tunnel" <| .required "differs_from_host" .nil)

instance : Wire IpObservation := IpObservation.record.wire (by decide)

instance : Wire.NonNull IpObservation := ⟨fun _ => nofun⟩

def ConnectivityChecklist.record : Record ConnectivityChecklist :=
  .of (fun c => (c.reports, c.observedIp, ()))
    (fun (reports, observedIp, _) => ⟨reports, observedIp⟩)
    (fun _ => rfl) (.required "reports" <| .defaulted "observed_ip" none .nil)

instance : Wire ConnectivityChecklist := ConnectivityChecklist.record.wire (by decide)

instance : Wire FailureClass :=
  .variants [("network-containment", .networkContainment), ("isolation", .isolation),
    ("cryptography", .cryptography), ("integrity", .integrity), ("configuration", .configuration),
    ("precondition", .precondition), ("system", .system), ("internal", .internal)]
    (by rintro (_ | _ | _ | _ | _ | _ | _ | _) <;> rfl)

/-! ### Updates -/

theorem u32_natValue (n : UInt32) : u32 (natValue n.toNat) = some n := by
  rw [u32, unsigned_natValue n.toNat_lt, Option.map_some, UInt32.ofNat_toNat]

theorem u64_natValue (n : UInt64) : u64 (natValue n.toNat) = some n := by
  rw [u64, unsigned_natValue n.toNat_lt, Option.map_some, UInt64.ofNat_toNat]

theorem plain_natValue (n : ℕ) : PlainValue (natValue n) := ⟨n, rfl⟩

theorem plain_string (s : String) : PlainValue (.string s) := trivial

instance : Wire Version where
  toValue := Version.toValue
  ofValue := Version.ofValue
  plain v := Record.plain_object _ (by simp [plain_natValue])
  ofValue_toValue v := by
    simp [Version.toValue, Version.ofValue, required, member, u32_natValue]

instance : Wire.NonNull Version := ⟨fun _ => nofun⟩

instance : Wire Artifact where
  toValue := Artifact.toValue
  ofValue := Artifact.ofValue
  plain a := Record.plain_object _ (by simp [plain_natValue, plain_string])
  ofValue_toValue a := by
    have hkind : ArtifactKind.names.lookup a.kind.name = some a.kind := by
      cases a.kind <;> rfl
    simp [Artifact.toValue, Artifact.ofValue, required, member, unitVariant, hkind, string,
      u64_natValue]

instance : Wire UpdateManifest where
  toValue := UpdateManifest.toValue
  ofValue := UpdateManifest.ofValue
  plain m := by
    have hversion : PlainValue m.version.toValue := Wire.plain m.version
    have hdelta : PlainValue (optionValue Version.toValue m.deltaBase) := Wire.plain m.deltaBase
    have hartifacts : PlainValue (.array (m.artifacts.map Artifact.toValue)) :=
      Wire.plain m.artifacts
    have hsbom : PlainValue (optionValue .string m.sbom) := Wire.plain m.sbom
    exact Record.plain_object _
      (by simp [plain_natValue, plain_string, hversion, hdelta, hartifacts, hsbom])
  ofValue_toValue m := by
    have hversion : Version.ofValue m.version.toValue = some m.version :=
      Wire.ofValue_toValue m.version
    have hdelta : nullable Version.ofValue (optionValue Version.toValue m.deltaBase) =
      some m.deltaBase := Wire.ofValue_toValue m.deltaBase
    have hkind : UpdateKind.names.lookup m.kind.name = some m.kind := by
      cases m.kind <;> rfl
    have hartifacts : list Artifact.ofValue (.array (m.artifacts.map Artifact.toValue)) =
      some m.artifacts := Wire.ofValue_toValue m.artifacts
    have hsbom : nullable string (optionValue .string m.sbom) = some m.sbom :=
      Wire.ofValue_toValue m.sbom
    simp [UpdateManifest.toValue, UpdateManifest.ofValue, required, Deserialize.optional, member,
      unitVariant, u32_natValue, hversion, hdelta, hkind, hartifacts, hsbom, string]

instance : Wire.NonNull UpdateManifest := ⟨fun _ => nofun⟩

instance : Wire ApplyOutcome :=
  .variants [("applied", .applied), ("rolled-back", .rolledBack)] (by rintro (_ | _) <;> rfl)

def VersionInfo.record : Record VersionInfo :=
  .of (fun i => (i.current, ())) (fun (current, _) => ⟨current⟩) (fun _ => rfl)
    (.required "current" .nil)

instance : Wire VersionInfo := VersionInfo.record.wire (by decide)

/-! ### Permissions -/

namespace Feature

/-- Every governed feature, in the order the features are compared in. -/
def all : List Feature :=
  [location, camera, microphone, notifications, clipboardRead, usb, bluetooth, serial, hid, midi,
    fileSystemAccess, autoplay, downloads]

theorem mem_all (f : Feature) : f ∈ all := by cases f <;> decide

theorem idxOf_injective : Function.Injective fun f : Feature => all.idxOf f := fun f _ h =>
  (List.idxOf_inj (mem_all f)).mp h

instance : LinearOrder Feature := LinearOrder.lift' (fun f => all.idxOf f) idxOf_injective

def names : List (String × Feature) :=
  [("location", location), ("camera", camera), ("microphone", microphone),
    ("notifications", notifications), ("clipboard-read", clipboardRead), ("usb", usb),
    ("bluetooth", bluetooth), ("serial", serial), ("hid", hid), ("midi", midi),
    ("file-system-access", fileSystemAccess), ("autoplay", autoplay), ("downloads", downloads)]

theorem lookup_nameIn (f : Feature) : names.lookup (nameIn names f) = some f := by
  cases f <;> rfl

end Feature

instance : Wire PermissionState :=
  .variants [("block", .block), ("ask", .ask), ("allow", .allow), ("confined-to-vm", .confinedToVm),
    ("quarantine", .quarantine), ("limited", .limited)] (by rintro (_ | _ | _ | _ | _ | _) <;> rfl)

instance : Wire (SortedMap Feature PermissionState) :=
  SortedMap.wire (nameIn Feature.names) (fun s => Feature.names.lookup s) Feature.lookup_nameIn

instance {α : Type} [Wire α] : Wire (SortedMap String α) :=
  SortedMap.wire id some fun _ => rfl

namespace Ipc

/-- The permission policy with its maps as they are sent. -/
structure PermissionPolicy where
  defaults : SortedMap Feature PermissionState
  overrides : SortedMap String (SortedMap Feature PermissionState)
  deriving DecidableEq

namespace PermissionPolicy

/-- The states the maps give. -/
def toCore (p : PermissionPolicy) : Aegis.PermissionPolicy where
  defaults := p.defaults.get?
  overrides origin := (p.overrides.get? origin).map SortedMap.get?

/-- The default table. -/
def secureDefault : PermissionPolicy where
  defaults := .ofList
    [(.location, .block), (.camera, .block), (.microphone, .block), (.notifications, .ask),
      (.clipboardRead, .block), (.usb, .block), (.bluetooth, .block), (.serial, .block),
      (.hid, .block), (.midi, .block), (.fileSystemAccess, .confinedToVm), (.autoplay, .limited),
      (.downloads, .quarantine)]
  overrides := .empty

theorem toCore_secureDefault : secureDefault.toCore = .secureDefault := by
  unfold toCore Aegis.PermissionPolicy.secureDefault
  congr 1
  funext f
  cases f <;> rfl

def record : Record PermissionPolicy :=
  .of (fun p => (p.defaults, p.overrides, ()))
    (fun (defaults, overrides, _) => ⟨defaults, overrides⟩)
    (fun _ => rfl) (.required "defaults" <| .defaulted "overrides" .empty .nil)

instance : Wire PermissionPolicy := record.wire (by decide)

instance : Wire.NonNull PermissionPolicy := ⟨fun _ => nofun⟩

end PermissionPolicy

end Ipc

end Aegis
