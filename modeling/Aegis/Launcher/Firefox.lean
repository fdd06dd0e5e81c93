import Aegis.Core.Browser
import Aegis.Core.Spec
import Aegis.Ipc.Serde
import Aegis.Lib.Endpoint
import Aegis.Lib.UserJs

/-! The Firefox backend: the preferences and the command line of a launch request, the text of
`user.js`, and when that text is read back as the preferences it was made of. -/
namespace Aegis.Launcher.Firefox
open Json Text

/-- The host and the port of a proxy endpoint; its scheme is not looked at. -/
def parseSocksEndpoint (endpoint : String) : Result (String × Port) :=
  let authority := (afterLast "://".toList endpoint.toList).getD endpoint.toList
  match rsplitOnce ':' authority with
  | none =>
    .error (.config ("Firefox proxy endpoint '" ++ endpoint ++ "' is missing a host:port"))
  | some (host, port) =>
    if host = [] then
      .error (.config ("Firefox proxy endpoint '" ++ endpoint ++ "' is missing a host"))
    else match parseUnsigned (2 ^ 16) port with
      | none =>
        .error (.config ("Firefox proxy endpoint '" ++ endpoint ++ "' has an invalid port"))
      | some n => .ok (String.ofList host, BitVec.ofNat 16 n)

def int (n : ℕ) : Value := .number (.ofNat n)

/-- The preferences in the order they are inserted. -/
def preferences (fp : FingerprintPolicy) (socksHost : String) (socksPort : Port) :
    List (String × Value) :=
  let letterbox := decide (fp.letterbox = .on) || decide (fp.level = .strict)
  [ -- everything through the proxy, names resolved by it, nothing exempt
    ("network.proxy.type", int 1),
    ("network.proxy.socks", .string socksHost),
    ("network.proxy.socks_port", int socksPort.toNat),
    ("network.proxy.socks_version", int 5),
    ("network.proxy.socks_remote_dns", .bool true),
    ("network.proxy.no_proxies_on", .string ""),
    ("network.trr.mode", int 5),
    ("media.peerconnection.enabled", .bool false),
    ("media.peerconnection.ice.no_host", .bool true),
    ("media.peerconnection.ice.default_address_only", .bool true),
    ("privacy.resistFingerprinting", .bool true),
    ("privacy.resistFingerprinting.letterboxing", .bool letterbox),
    ("privacy.firstparty.isolate", .bool true),
    ("privacy.trackingprotection.enabled", .bool true),
    ("webgl.disabled", .bool (decide (fp.webgl = .disabled))),
    ("dom.webgpu.enabled", .bool false),
    ("dom.webbluetooth.enabled", .bool !fp.blockDeviceApis),
    ("dom.webusb.enabled", .bool !fp.blockDeviceApis),
    ("dom.serial.enabled", .bool !fp.blockDeviceApis),
    ("dom.webmidi.enabled", .bool !fp.blockDeviceApis),
    ("device.sensors.enabled", .bool !fp.disableSensorApis),
    ("dom.battery.enabled", .bool !fp.disableBatteryApi),
    ("intl.accept_languages", .string fp.primaryLanguage),
    ("javascript.use_us_english_locale", .bool true),
    ("toolkit.telemetry.enabled", .bool false),
    ("toolkit.telemetry.unified", .bool false),
    ("toolkit.telemetry.archive.enabled", .bool false),
    ("datareporting.healthreport.uploadEnabled", .bool false),
    ("datareporting.policy.dataSubmissionEnabled", .bool false),
    ("app.shield.optoutstudies.enabled", .bool false),
    ("browser.newtabpage.activity-stream.feeds.telemetry", .bool false),
    ("browser.newtabpage.activity-stream.telemetry", .bool false),
    ("identity.fxaccounts.enabled", .bool false),
    ("services.sync.enabled", .bool false),
    ("app.update.enabled", .bool false),
    ("app.update.auto", .bool false),
    ("app.update.service.enabled", .bool false),
    ("extensions.update.enabled", .bool false),
    ("browser.search.update", .bool false)]

/-- The preferences of a request; without a proxy there are none. -/
def renderPreferences (req : BrowserLaunchRequest) : Result (List (String × Value)) :=
  (parseSocksEndpoint req.proxyEndpoint).map fun (socksHost, socksPort) =>
    sortMembers (preferences req.fingerprint socksHost socksPort)

def renderCommandLine (req : BrowserLaunchRequest) : List String :=
  ["-no-remote", "-new-instance", "-profile", req.userDataDir]

def renderFirefoxPolicy (req : BrowserLaunchRequest) : Result RenderedBundle :=
  match req.fingerprint.validate with
  | some reason => .error (.config ("invalid fingerprint policy: " ++ reason))
  | none => do
    let preferences ← renderPreferences req
    let bundle : RenderedBundle :=
      { backend := .firefox
        managedPolicies := []
        commandLine := renderCommandLine req
        preferences }
    bundle.assertSafe req.production
    return bundle

def header : String :=
  "// Generated by Aegis Private Browser. Do not edit; regenerated on every launch.\n"

/-- The text of `user.js`, one line for each preference in the order of their names. -/
def renderUserJs (preferences : List (String × Value)) : String :=
  preferences.foldl (fun out (key, value) =>
    out ++ ("user_pref(\"" ++ key ++ "\", " ++ String.ofList (compact serdeStyle value) ++ ");\n"))
    header

/-- What a request is accepted as, once its endpoint is read. -/
def rendered (req : BrowserLaunchRequest) (host : String) (port : Port) : RenderedBundle where
  backend := .firefox
  managedPolicies := []
  commandLine := renderCommandLine req
  preferences := sortMembers (preferences req.fingerprint host port)

theorem rendered_preferences (req : BrowserLaunchRequest) (host : String) (port : Port) :
    (rendered req host port).preferences = sortMembers (preferences req.fingerprint host port) := by
  simp only [rendered]

theorem renderFirefoxPolicy_eq_ok {req : BrowserLaunchRequest} {b : RenderedBundle} :
    renderFirefoxPolicy req = .ok b ↔ req.fingerprint.validate = none ∧ ∃ host port,
      parseSocksEndpoint req.proxyEndpoint = .ok (host, port) ∧
      (rendered req host port).assertSafe req.production = .ok () ∧
      b = rendered req host port := by
  unfold renderFirefoxPolicy renderPreferences
  cases req.fingerprint.validate with
  | some reason => simp
  | none =>
    cases parseSocksEndpoint req.proxyEndpoint with
    | error e => simp [Except.map, bind, Except.bind]
    | ok r =>
      obtain ⟨host, port⟩ := r
      show ((rendered req host port).assertSafe req.production >>= fun _ =>
        pure (rendered req host port)) = .ok b ↔ _
      cases hsafe : (rendered req host port).assertSafe req.production with
      | error e => simp [bind, Except.bind, hsafe]
      | ok u =>
        constructor
        · intro h
          cases h
          exact ⟨rfl, host, port, rfl, hsafe, rfl⟩
        · rintro ⟨-, host', port', he, -, rfl⟩
          cases he
          rfl

/-! ### The text is read back -/

/-- The names of the preferences, which no request changes. -/
def names : List String :=
  ["network.proxy.type", "network.proxy.socks", "network.proxy.socks_port",
    "network.proxy.socks_version", "network.proxy.socks_remote_dns",
    "network.proxy.no_proxies_on", "network.trr.mode", "media.peerconnection.enabled",
    "media.peerconnection.ice.no_host", "media.peerconnection.ice.default_address_only",
    "privacy.resistFingerprinting", "privacy.resistFingerprinting.letterboxing",
    "privacy.firstparty.isolate", "privacy.trackingprotection.enabled", "webgl.disabled",
    "dom.webgpu.enabled", "dom.webbluetooth.enabled", "dom.webusb.enabled", "dom.serial.enabled",
    "dom.webmidi.enabled", "device.sensors.enabled", "dom.battery.enabled",
    "intl.accept_languages", "javascript.use_us_english_locale", "toolkit.telemetry.enabled",
    "toolkit.telemetry.unified", "toolkit.telemetry.archive.enabled",
    "datareporting.healthreport.uploadEnabled", "datareporting.policy.dataSubmissionEnabled",
    "app.shield.optoutstudies.enabled", "browser.newtabpage.activity-stream.feeds.telemetry",
    "browser.newtabpage.activity-stream.telemetry", "identity.fxaccounts.enabled",
    "services.sync.enabled", "app.update.enabled", "app.update.auto",
    "app.update.service.enabled", "extensions.update.enabled", "browser.search.update"]

theorem keys_preferences (fp : FingerprintPolicy) (host : String) (port : Port) :
    keys (preferences fp host port) = names := rfl

theorem names_nodup : names.Nodup := by decide +kernel

theorem preferences_nodup (fp : FingerprintPolicy) (host : String) (port : Port) :
    (keys (preferences fp host port)).Nodup := names_nodup

theorem names_plain : ∀ s ∈ names, UserJs.PlainName s := by
  have hall : names.all (fun s => s.toList.all fun c => c ≠ '"' && c ≠ '\\' && c.toNat ≠ 0) =
      true := by decide +kernel
  intro s hs c hc
  simpa [and_assoc] using List.all_eq_true.mp (List.all_eq_true.mp hall s hs) c hc

theorem preferences_plain (fp : FingerprintPolicy) (host : String) (port : Port) :
    ∀ s ∈ keys (preferences fp host port), UserJs.PlainName s := names_plain

/-- The characters whose escapes the reader of preference files knows: all but the null character,
backspace, tab and form feed. -/
def Clean (c : Char) : Prop := c.toNat ≠ 0 ∧ c.toNat ≠ 8 ∧ c.toNat ≠ 9 ∧ c.toNat ≠ 12

instance (c : Char) : Decidable (Clean c) := inferInstanceAs (Decidable (_ ∧ _))

theorem readUnicode_escape {c : Char} (h : c.toNat < 0x20) (cs : List Char) :
    ∃ ds, unicodeEscape c ++ cs = '\\' :: 'u' :: ds ∧ readUnicode ds = some (c, cs) :=
  ⟨_, rfl, readChar_unicodeEscape h cs⟩

theorem readChar_escape_clean {c : Char} (h : Clean c) (cs : List Char) :
    UserJs.readChar (serdeStyle.escape c ++ cs) = some (c, cs) := by
  obtain ⟨h0, h8, h9, h12⟩ := h
  unfold serdeStyle commonEscape
  dsimp only
  split_ifs with hspecial h10 h13 hcontrol
  · rcases hspecial with rfl | rfl <;> rfl
  · obtain rfl := char_eq h10
    rfl
  · obtain rfl := char_eq h13
    rfl
  · obtain ⟨ds, hds, hread⟩ := readUnicode_escape hcontrol cs
    rw [Option.getD_some, hds, UserJs.readChar, hread]
    exact if_neg h0
  · obtain ⟨hquote, hslash⟩ := not_or.mp hspecial
    rw [Option.getD_none, List.singleton_append, UserJs.readChar.eq_def]
    split <;> simp_all

theorem readChar_escape_refused {c : Char} (h : ¬ Clean c) (cs : List Char) :
    UserJs.readChar (serdeStyle.escape c ++ cs) = none := by
  have hcases : c.toNat = 0 ∨ c.toNat = 8 ∨ c.toNat = 9 ∨ c.toNat = 12 := by
    unfold Clean at h
    tauto
  rcases hcases with hc | hc | hc | hc
  · obtain rfl := char_eq hc
    rfl
  · obtain rfl := char_eq hc
    rfl
  · obtain rfl := char_eq hc
    rfl
  · obtain rfl := char_eq hc
    rfl

theorem readInt_toDigits {n : ℕ} (hn : n < 2 ^ 31) (cs : List Char) :
    UserJs.readInt (Nat.toDigits 10 n ++ ')' :: cs) = some (.ofNat n, ')' :: cs) := by
  have hends : Ends (')' :: cs) := by
    intro c hc
    obtain rfl : ')' = c := by simpa using hc
    decide
  have hread := readDigits_append (isDigit_toDigits n) Nat.toDigits_ne_nil hends
  obtain ⟨d, ds, hd⟩ := List.exists_cons_of_ne_nil (Nat.toDigits_ne_nil : Nat.toDigits 10 n ≠ [])
  have hdigit := isDigit_toDigits n d (by simp [hd])
  have hsign (c : Char) (hc : c.isDigit = false) : d ≠ c := by
    rintro rfl
    exact Bool.false_ne_true (hc.symm.trans hdigit)
  have hvalue : Nat.ofDigitChars 10 (Nat.toDigits 10 n) 0 = n := Nat.ofDigitChars_ten_toDigits
  rw [hd, List.cons_append] at hread
  rw [hd] at hvalue
  rw [hd, List.cons_append]
  unfold UserJs.readInt
  split
  rename_i negative cs' heq
  split at heq
  · exact absurd (List.cons.inj ‹_›).1 (hsign '-' (by decide))
  · exact absurd (List.cons.inj ‹_›).1 (hsign '+' (by decide))
  · obtain ⟨rfl, rfl⟩ := Prod.mk.inj heq
    simp only [hread, Option.bind_eq_bind, Option.bind_some, hvalue]
    rw [if_pos (.inl hn)]
    rfl

/-- A number of 31 bits. -/
def Small (n : Number) : Prop := ∃ k, k < 2 ^ 31 ∧ n = .ofNat k

theorem serdeStyle_prints : UserJs.Prints serdeStyle Clean Small where
  escape := fun _ cs h => readChar_escape_clean h cs
  refuses := fun _ cs h => readChar_escape_refused h cs
  head := escape_head
  number := by
    rintro n cs ⟨k, hk, rfl⟩
    exact readInt_toDigits hk cs
  number_head := by
    rintro n ⟨k, hk, rfl⟩
    obtain ⟨d, ds, hd⟩ := List.exists_cons_of_ne_nil (Nat.toDigits_ne_nil : Nat.toDigits 10 k ≠ [])
    exact ⟨d, ds, hd, isDigit_toDigits k d (by simp [hd])⟩

/-- The text after the slashes of the first line. -/
def comment : List Char :=
  " Generated by Aegis Private Browser. Do not edit; regenerated on every launch.".toList

theorem comment_line : ∀ c ∈ comment, c ≠ '\n' ∧ c ≠ '\r' := by
  have hall : comment.all (fun c => c ≠ '\n' && c ≠ '\r') = true := by decide +kernel
  intro c hc
  simpa using List.all_eq_true.mp hall c hc

/-- A line of the file. -/
def line (p : String × Value) : String :=
  "user_pref(\"" ++ p.1 ++ "\", " ++ String.ofList (compact serdeStyle p.2) ++ ");\n"

theorem line_toList (p : String × Value) :
    (line p).toList = UserJs.statement serdeStyle p := by
  have hopen : "user_pref(\"".toList = "user_pref".toList ++ ['(', '"'] := by decide +kernel
  have hcomma : "\", ".toList = ['"', ',', ' '] := by decide +kernel
  have hclose : ");\n".toList = [')', ';', '\n'] := by decide +kernel
  have hvalue : (String.ofList (compact serdeStyle p.2)).toList = compact serdeStyle p.2 :=
    String.toList_ofList
  unfold UserJs.statement line
  generalize "user_pref".toList = user at hopen ⊢
  rw [String.toList_append, String.toList_append, String.toList_append, String.toList_append,
    hopen, hcomma, hclose, hvalue]
  simp only [List.append_assoc, List.cons_append, List.nil_append]

theorem renderUserJs_toList (ps : List (String × Value)) :
    (renderUserJs ps).toList = UserJs.print serdeStyle comment ps := by
  have hloop : ∀ out : String, (ps.foldl (fun out p => out ++ line p) out).toList =
      out.toList ++ ps.flatMap (UserJs.statement serdeStyle) := by
    induction ps with
    | nil => simp
    | cons p ps ih =>
      intro out
      rw [List.foldl_cons, ih, List.flatMap_cons, String.toList_append, line_toList,
        List.append_assoc]
  have hheader : header.toList = "//".toList ++ comment ++ ['\n'] := by decide +kernel
  show (ps.foldl (fun out p => out ++ line p) header).toList = _
  rw [hloop, hheader, UserJs.print, List.append_assoc, List.singleton_append]

theorem scalar_int {n : ℕ} (h : n < 2 ^ 31) : UserJs.Scalar Small (int n) := ⟨n, h, rfl⟩

theorem scalar_preferences (fp : FingerprintPolicy) (host : String) (port : Port) :
    ∀ v ∈ (preferences fp host port).map Prod.snd, UserJs.Scalar Small v := by
  have hport : UserJs.Scalar Small (int port.toNat) := scalar_int (by have := port.isLt; omega)
  have hint (n : ℕ) (h : n < 10) : UserJs.Scalar Small (int n) := scalar_int (by omega)
  have hstring (s : String) : UserJs.Scalar Small (.string s) := trivial
  have hbool (b : Bool) : UserJs.Scalar Small (.bool b) := trivial
  simp [preferences, hport, hint, hstring, hbool]

/-- The strings among the preferences are the host, the language and the empty list of hosts that
are exempt. -/
theorem cleanValue_preferences (fp : FingerprintPolicy) (host : String) (port : Port) :
    (∀ v ∈ (preferences fp host port).map Prod.snd, UserJs.CleanValue Clean v) ↔
      (∀ c ∈ host.toList, Clean c) ∧ ∀ c ∈ fp.primaryLanguage.toList, Clean c := by
  simp only [preferences, List.map_cons, List.map_nil, List.forall_mem_cons]
  simp [UserJs.CleanValue, int]

theorem parseSocksEndpoint_eq_ok {endpoint host : String} {port : Port} :
    parseSocksEndpoint endpoint = .ok (host, port) ↔ ∃ n digits,
      Endpoint.authority endpoint.toList = host.toList ++ ':' :: digits ∧ ':' ∉ digits ∧ host ≠ "" ∧
      parseUnsigned (2 ^ 16) digits = some n ∧ port = BitVec.ofNat 16 n := by
  have heq : parseSocksEndpoint endpoint =
      match rsplitOnce ':' (Endpoint.authority endpoint.toList) with
      | none =>
        .error (.config ("Firefox proxy endpoint '" ++ endpoint ++ "' is missing a host:port"))
      | some (host, port) =>
        if host = [] then
          .error (.config ("Firefox proxy endpoint '" ++ endpoint ++ "' is missing a host"))
        else match parseUnsigned (2 ^ 16) port with
          | none =>
            .error (.config ("Firefox proxy endpoint '" ++ endpoint ++ "' has an invalid port"))
          | some n => .ok (String.ofList host, BitVec.ofNat 16 n) := rfl
  rw [heq]
  generalize Endpoint.authority endpoint.toList = a
  constructor
  · intro h
    split at h
    · cases h
    · rename_i host' digits hsplit
      split_ifs at h with hempty
      split at h
      · cases h
      · rename_i n hn
        cases h
        obtain ⟨rfl, hdigits⟩ := rsplitOnce_eq_some.mp hsplit
        exact ⟨n, digits, by rw [String.toList_ofList], hdigits, by simpa using hempty, hn, rfl⟩
  · rintro ⟨n, digits, rfl, hdigits, hhost, hn, rfl⟩
    have hne : host.toList ≠ [] := fun he => hhost (String.toList_eq_nil_iff.mp he)
    rw [rsplitOnce_eq_some.mpr ⟨rfl, hdigits⟩]
    simp only [hne, if_false, hn, String.ofList_toList]

/-- Preferences with distinct plain names are read back exactly when their strings are clean. -/
theorem read_renderUserJs {ps : List (String × Value)} (hnames : (keys ps).Nodup)
    (hplain : ∀ s ∈ keys ps, UserJs.PlainName s)
    (hscalar : ∀ v ∈ ps.map Prod.snd, UserJs.Scalar Small v) :
    UserJs.read (renderUserJs (sortMembers ps)).toList = some (sortMembers ps) ↔
      ∀ v ∈ ps.map Prod.snd, UserJs.CleanValue Clean v := by
  have hperm : (sortMembers ps).Perm ps := sortMembers_perm hnames
  have hshape : ∀ p ∈ sortMembers ps, UserJs.PlainName p.1 ∧ UserJs.Scalar Small p.2 := by
    intro p hp
    have hin := hperm.mem_iff.mp hp
    exact ⟨hplain _ (List.mem_map_of_mem hin), hscalar _ (List.mem_map_of_mem hin)⟩
  rw [renderUserJs_toList, UserJs.read_print_iff serdeStyle_prints comment_line
    (sorted_sortMembers _) hshape, List.forall_mem_map]
  exact forall_congr' fun p => by rw [hperm.mem_iff]

theorem clean_of_isDigit {c : Char} (h : c.isDigit = true) : Clean c := by
  have hle : 48 ≤ c.toNat := by
    simp only [Char.isDigit, Bool.and_eq_true, decide_eq_true_eq] at h
    exact h.1
  refine ⟨?_, ?_, ?_, ?_⟩ <;> omega

/-- The text written for an accepted request is read back as exactly its preferences when and only
when neither the address of the proxy nor the language has a character of those that are escaped in
a way the reader does not know. -/
theorem userJs_read_iff {req : BrowserLaunchRequest} {b : RenderedBundle}
    (h : renderFirefoxPolicy req = .ok b) :
    UserJs.read (renderUserJs b.preferences).toList = some b.preferences ↔
      (∀ c ∈ Endpoint.authority req.proxyEndpoint.toList, Clean c) ∧
        ∀ c ∈ req.fingerprint.primaryLanguage.toList, Clean c := by
  obtain ⟨-, host, port, hparse, -, rfl⟩ := renderFirefoxPolicy_eq_ok.mp h
  obtain ⟨n, digits, hauthority, -, -, hn, -⟩ := parseSocksEndpoint_eq_ok.mp hparse
  have hdigits : ∀ c ∈ ':' :: digits, Clean c := by
    intro c hc
    rcases List.mem_cons.mp hc with rfl | hin
    · decide
    · rcases mem_of_parseUnsigned hn c hin with rfl | hdigit
      · decide
      · exact clean_of_isDigit hdigit
  have hhost : (∀ c ∈ Endpoint.authority req.proxyEndpoint.toList, Clean c) ↔
      ∀ c ∈ host.toList, Clean c := by
    rw [hauthority, List.forall_mem_append]
    exact and_iff_left hdigits
  have hread := read_renderUserJs (preferences_nodup req.fingerprint host port)
    (preferences_plain _ _ _) (scalar_preferences req.fingerprint host port)
  rw [rendered_preferences, hread, cleanValue_preferences, hhost]

/-- A launch with an endpoint, under the default policy in a language. -/
def launching (endpoint language : String) : BrowserLaunchRequest where
  session := ⟨0⟩
  profile := ⟨0⟩
  userDataDir := "/run/aegis/host-profiles/0"
  fingerprint := { FingerprintPolicy.balanced with primaryLanguage := language }
  permissions := .secureDefault
  proxyEndpoint := endpoint
  renderMode := .software
  production := true

theorem launching_accepted {endpoint host : String} {port : Port} (language : String)
    (h : parseSocksEndpoint endpoint = .ok (host, port)) :
    renderFirefoxPolicy (launching endpoint language) =
      .ok (rendered (launching endpoint language) host port) := by
  have hsafe : BackendPolicyBundle.assertSafe
      ⟨.firefox, ["-no-remote", "-new-instance", "-profile", "/run/aegis/host-profiles/0"]⟩ true =
      .ok () := by decide +kernel
  exact renderFirefoxPolicy_eq_ok.mpr ⟨rfl, host, port, h, hsafe, rfl⟩

/-- What a launch through the default Tor endpoint is accepted as. -/
def torBundle : RenderedBundle :=
  rendered (launching "socks5h://127.0.0.1:9050" "en-US") "127.0.0.1" 9050

theorem userJs_read_iff_tor :
    UserJs.read (renderUserJs torBundle.preferences).toList = some torBundle.preferences ↔
    (∀ c ∈ Endpoint.authority "socks5h://127.0.0.1:9050".toList, Clean c) ∧
      ∀ c ∈ "en-US".toList, Clean c :=
  userJs_read_iff (launching_accepted "en-US" (by decide +kernel))

/-- A tab in the address of the proxy is written with an escape that is not in the grammar. -/
theorem tabbedHost_not_read : ∃ b,
    renderFirefoxPolicy (launching "socks5h://a\tb:1080" "en-US") = .ok b ∧
    UserJs.read (renderUserJs b.preferences).toList ≠ some b.preferences := by
  have hparse : parseSocksEndpoint "socks5h://a\tb:1080" = .ok ("a\tb", 1080) := by
    decide +kernel
  refine ⟨_, launching_accepted "en-US" hparse, ?_⟩
  have hread := read_renderUserJs
    (preferences_nodup (launching "" "en-US").fingerprint "a\tb" 1080)
    (preferences_plain _ _ _)
    (scalar_preferences (launching "" "en-US").fingerprint "a\tb" 1080)
  rw [cleanValue_preferences] at hread
  rw [rendered_preferences]
  intro hsame
  have htab : Clean '\t' := (hread.mp hsame).1 '\t' (by decide)
  exact absurd htab (by decide)

end Aegis.Launcher.Firefox
