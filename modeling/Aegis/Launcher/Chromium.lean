import Aegis.Core.Browser
import Aegis.Core.Spec

/-! The hardened Chromium backend: the command line and the managed policies of a launch request,
which switches of the line take effect, and which overrides the policies are made of. -/
namespace Aegis.Launcher.Chromium

/-- The managed-policy file Chromium reads. -/
def managedPolicyFile : String := "aegis-managed.json"

def settingBlock : ℕ := 2
def settingAsk : ℕ := 3

def renderCommandLine (req : BrowserLaunchRequest) : List String :=
  let fp := req.fingerprint
  [ -- profile isolation
    "--user-data-dir=" ++ req.userDataDir,
    -- everything through the proxy, nothing exempt
    "--proxy-server=" ++ req.proxyEndpoint,
    "--proxy-bypass-list=",
    "--force-webrtc-ip-handling-policy=disable_non_proxied_udp",
    "--disable-sync",
    "--disable-background-networking",
    "--disable-component-update",
    "--disable-domain-reliability",
    "--disable-breakpad",
    "--no-pings",
    "--no-default-browser-check",
    "--no-first-run",
    "--disable-first-run-ui",
    "--metrics-recording-only",
    "--disable-features=Translate,MediaRouter,OptimizationHints",
    "--site-per-process",
    "--enable-features=StrictOriginIsolation",
    "--lang=" ++ fp.primaryLanguage,
    "--accept-lang=" ++ fp.primaryLanguage ] ++
  (if fp.webgl = .disabled then ["--disable-webgl", "--disable-webgl2"] else []) ++
  (if fp.webgpuEnabled then []
    else ["--disable-features=WebGPU,WebGPUService", "--disable-webgpu"]) ++
  (if fp.level = .strict then ["--disable-3d-apis"] else [])

/-- The content-setting value of a permission state: 1 allows, 2 blocks, 3 asks. -/
def contentSetting : PermissionState → ℕ
  | .allow | .confinedToVm | .limited => 1
  | .ask => settingAsk
  | .block | .quarantine => settingBlock

/-- The origin the feature defaults are resolved at. -/
def defaultOrigin : String := "https://example.invalid"

def setting (n : ℕ) : Json.Value := .number (.ofNat n)

/-- The policy document for the states of the features it covers. -/
def policy (geo cam mic notif clipboard : PermissionState) : List (String × Json.Value) :=
  [("SyncDisabled", .bool true),
    ("MetricsReportingEnabled", .bool false),
    ("BrowserSignin", setting 0),
    ("RemoteDebuggingAllowed", .bool false),
    ("BackgroundModeEnabled", .bool false),
    ("PromotionalTabsEnabled", .bool false),
    ("SpellCheckServiceEnabled", .bool false),
    ("UrlKeyedAnonymizedDataCollectionEnabled", .bool false),
    ("SafeBrowsingExtendedReportingEnabled", .bool false),
    ("DefaultGeolocationSetting", setting (if geo = .allow then 1 else settingBlock)),
    ("DefaultSensorsSetting", setting settingBlock),
    ("AudioCaptureAllowed", .bool (decide (mic = .allow))),
    ("VideoCaptureAllowed", .bool (decide (cam = .allow))),
    ("DefaultWebBluetoothGuardSetting", setting settingBlock),
    ("DefaultWebUsbGuardSetting", setting settingBlock),
    ("DefaultSerialGuardSetting", setting settingBlock),
    ("DefaultHidGuardSetting", setting settingBlock),
    ("DefaultNotificationsSetting", setting (contentSetting notif)),
    ("DefaultClipboardSetting", setting (contentSetting clipboard)),
    ("PromptForDownloadLocation", .bool true),
    ("DownloadRestrictions", setting 0),
    ("DefaultPopupsSetting", setting settingBlock),
    ("DefaultInsecureContentSetting", setting settingBlock),
    ("BlockThirdPartyCookies", .bool true)]

/-- The managed policies of a request, by file. -/
def renderManagedPolicies (req : BrowserLaunchRequest) : List (String × Json.Value) :=
  let effective := req.permissions.effective defaultOrigin
  let obj := Json.sortMembers (policy (effective .location) (effective .camera)
    (effective .microphone) (effective .notifications) (effective .clipboardRead))
  [(managedPolicyFile,
    .object (Json.insertMember "DefaultWebHidGuardSetting" (setting settingBlock) obj))]

def renderChromiumPolicy (req : BrowserLaunchRequest) : Result RenderedBundle :=
  match req.fingerprint.validate with
  | some reason => .error (.config ("invalid fingerprint policy: " ++ reason))
  | none =>
    let bundle : RenderedBundle :=
      { backend := .chromium
        managedPolicies := renderManagedPolicies req
        commandLine := renderCommandLine req
        preferences := [] }
    (bundle.assertSafe req.production).map fun _ => bundle

/-- What a request is accepted as. -/
def rendered (req : BrowserLaunchRequest) : RenderedBundle where
  backend := .chromium
  managedPolicies := renderManagedPolicies req
  commandLine := renderCommandLine req
  preferences := []

theorem renderChromiumPolicy_eq_ok {req : BrowserLaunchRequest} {b : RenderedBundle} :
    renderChromiumPolicy req = .ok b ↔ req.fingerprint.validate = none ∧
      (rendered req).assertSafe req.production = .ok () ∧ b = rendered req := by
  unfold renderChromiumPolicy
  cases req.fingerprint.validate with
  | some reason => simp
  | none =>
    show ((rendered req).assertSafe req.production).map (fun _ => rendered req) = .ok b ↔ _
    cases (rendered req).assertSafe req.production with
    | error e => simp [Except.map]
    | ok u => simp [Except.map, eq_comm]

/-! ### Switches -/

/-- The name of a switch is what stands before the first `=`. -/
def switchName (arg : String) : List Char := arg.toList.takeWhile (· ≠ '=')

/-- The value of a switch is what stands behind the first `=`. -/
def switchValue (arg : String) : String :=
  String.ofList ((arg.toList.dropWhile (· ≠ '=')).drop 1)

/-- Of the arguments with one name, the browser keeps the last. -/
def lastOccurrence (line : List String) (name : List Char) : Option String :=
  line.reverse.find? fun arg => switchName arg = name

theorem switchName_append {pre : String} (h : '=' ∈ pre.toList) (value : String) :
    switchName (pre ++ value) = switchName pre := by
  unfold switchName
  rw [String.toList_append]
  generalize pre.toList = cs at h ⊢
  induction cs with
  | nil => cases h
  | cons c cs ih =>
    by_cases hc : c = '='
    · simp [hc]
    · have hmem : '=' ∈ cs := (List.mem_cons.mp h).resolve_left (Ne.symm hc)
      simpa [hc] using ih hmem

theorem lastOccurrence_append_singleton (line : List String) (arg : String) (name : List Char) :
    lastOccurrence (line ++ [arg]) name =
      if switchName arg = name then some arg else lastOccurrence line name := by
  simp only [lastOccurrence, List.reverse_append, List.reverse_singleton, List.singleton_append,
    List.find?_cons]
  by_cases h : switchName arg = name <;> simp [h]

/-- With distinct names every argument is the one that is kept. -/
theorem lastOccurrence_of_nodup {line : List String} (h : (line.map switchName).Nodup)
    {arg : String} (harg : arg ∈ line) : lastOccurrence line (switchName arg) = some arg := by
  induction line using List.reverseRecOn with
  | nil => cases harg
  | append_singleton line last ih =>
    rw [List.map_append, List.map_singleton, List.nodup_append] at h
    obtain ⟨hline, -, hlast⟩ := h
    rw [lastOccurrence_append_singleton]
    rcases List.mem_append.mp harg with hin | hin
    · have hne : switchName last ≠ switchName arg :=
        (hlast _ (List.mem_map_of_mem hin) _ (List.mem_singleton_self _)).symm
      rw [if_neg hne]
      exact ih hline hin
    · rw [List.mem_singleton.mp hin, if_pos rfl]

/-- The names on a line, by what the fingerprint policy adds to it. -/
def switchNames (webgl webgpu strict : Bool) : List (List Char) :=
  (["--user-data-dir", "--proxy-server", "--proxy-bypass-list",
    "--force-webrtc-ip-handling-policy", "--disable-sync", "--disable-background-networking",
    "--disable-component-update", "--disable-domain-reliability", "--disable-breakpad",
    "--no-pings", "--no-default-browser-check", "--no-first-run", "--disable-first-run-ui",
    "--metrics-recording-only", "--disable-features", "--site-per-process", "--enable-features",
    "--lang", "--accept-lang"] ++
  (if webgl then ["--disable-webgl", "--disable-webgl2"] else []) ++
  (if webgpu then ["--disable-features", "--disable-webgpu"] else []) ++
  (if strict then ["--disable-3d-apis"] else [])).map String.toList

theorem map_switchName (req : BrowserLaunchRequest) :
    (renderCommandLine req).map switchName = switchNames
      (decide (req.fingerprint.webgl = .disabled)) (!req.fingerprint.webgpuEnabled)
      (decide (req.fingerprint.level = .strict)) := by
  have hdir : switchName ("--user-data-dir=" ++ req.userDataDir) = "--user-data-dir".toList :=
    switchName_append (by decide) _
  have hproxy : switchName ("--proxy-server=" ++ req.proxyEndpoint) = "--proxy-server".toList :=
    switchName_append (by decide) _
  have hlang : switchName ("--lang=" ++ req.fingerprint.primaryLanguage) = "--lang".toList :=
    switchName_append (by decide) _
  have haccept : switchName ("--accept-lang=" ++ req.fingerprint.primaryLanguage) =
      "--accept-lang".toList :=
    switchName_append (by decide) _
  unfold renderCommandLine switchNames
  dsimp only
  rw [List.map_append, List.map_append, List.map_append, List.map_append, List.map_append,
    List.map_append]
  congr 1
  · congr 1
    · congr 1
      · simp only [List.map_cons, List.map_nil, hdir, hproxy, hlang, haccept]
        rfl
      · by_cases h : req.fingerprint.webgl = .disabled <;> simp only [h] <;> rfl
    · cases req.fingerprint.webgpuEnabled <;> rfl
  · by_cases h : req.fingerprint.level = .strict <;> simp only [h] <;> rfl

/-- The names are distinct unless WebGPU is switched off. -/
theorem switchNames_nodup (webgl webgpu strict : Bool) :
    (switchNames webgl webgpu strict).Nodup ↔ webgpu = false := by
  cases webgpu with
  | false =>
    -- the longest line without the WebGPU switches has distinct names
    have hall : (switchNames true false true).Nodup := by decide +kernel
    have hsub : List.Sublist (switchNames webgl false strict) (switchNames true false true) := by
      refine List.Sublist.map _ (((List.Sublist.refl _).append ?_).append (.refl _) |>.append ?_)
      · cases webgl
        · exact List.nil_sublist _
        · exact .refl _
      · cases strict
        · exact List.nil_sublist _
        · exact .refl _
    exact iff_of_true (hall.sublist hsub) rfl
  | true =>
    have htwice : List.Sublist (["--disable-features", "--disable-features"].map String.toList)
        (switchNames webgl true strict) := by
      refine List.Sublist.map String.toList ?_
      exact (((List.singleton_sublist.mpr (by simp)).append (List.nil_sublist _)).append
        (List.singleton_sublist.mpr (by simp))).append (List.nil_sublist _)
    refine iff_of_false (fun h => ?_) (by simp)
    have hpair := h.sublist htwice
    simp at hpair

/-- Every argument of the line is the one kept of its name. -/
def TakesEffect (line : List String) : Prop :=
  ∀ arg ∈ line, lastOccurrence line (switchName arg) = some arg

/-- The switches of an accepted request are distinct, and all of them take effect, exactly when the
fingerprint policy leaves WebGPU on. -/
theorem switches_distinct_iff {req : BrowserLaunchRequest} {b : RenderedBundle}
    (h : renderChromiumPolicy req = .ok b) :
    (b.commandLine.map switchName).Nodup ∧ TakesEffect b.commandLine ↔
      req.fingerprint.webgpuEnabled = true := by
  have hnodup : (b.commandLine.map switchName).Nodup ↔ req.fingerprint.webgpuEnabled = true := by
    obtain ⟨-, -, rfl⟩ := renderChromiumPolicy_eq_ok.mp h
    show ((renderCommandLine req).map switchName).Nodup ↔ _
    rw [map_switchName, switchNames_nodup, Bool.not_eq_false']
  constructor
  · rintro ⟨hnames, -⟩
    exact hnodup.mp hnames
  · intro hgpu
    have hnames := hnodup.mpr hgpu
    exact ⟨hnames, fun arg harg => lastOccurrence_of_nodup hnames harg⟩

/-- A launch under a fingerprint policy, with nothing else out of the ordinary. -/
def launching (fp : FingerprintPolicy) : BrowserLaunchRequest where
  session := ⟨0⟩
  profile := ⟨0⟩
  userDataDir := "/home/user/.aegis/profile"
  fingerprint := fp
  permissions := .secureDefault
  proxyEndpoint := "socks5://10.152.152.10:9050"
  renderMode := .virtioGpu
  production := true

/-- A balanced policy that leaves WebGPU on. -/
def withWebgpu : FingerprintPolicy := { FingerprintPolicy.balanced with webgpuEnabled := true }

theorem launching_accepted {fp : FingerprintPolicy} (hfp : fp = .balanced ∨ fp = withWebgpu) :
    renderChromiumPolicy (launching fp) = .ok (rendered (launching fp)) := by
  refine renderChromiumPolicy_eq_ok.mpr ⟨?_, ?_, rfl⟩
  · rcases hfp with rfl | rfl <;> rfl
  · rcases hfp with rfl | rfl <;> decide +kernel

theorem switches_distinct_iff_webgpu :
    ((rendered (launching withWebgpu)).commandLine.map switchName).Nodup ∧
        TakesEffect (rendered (launching withWebgpu)).commandLine ↔
      withWebgpu.webgpuEnabled = true :=
  switches_distinct_iff (launching_accepted (.inr rfl))

/-- Under the default policy `--disable-features` stands twice, and the features of the first are
not disabled. -/
theorem balanced_features_cancelled :
    ∃ b, renderChromiumPolicy (launching .balanced) = .ok b ∧
      ¬ ((b.commandLine.map switchName).Nodup ∧ TakesEffect b.commandLine) ∧
      lastOccurrence b.commandLine "--disable-features".toList =
        some "--disable-features=WebGPU,WebGPUService" := by
  refine ⟨_, launching_accepted (.inl rfl), ?_, by decide +kernel⟩
  rintro ⟨hnames, -⟩
  have hline : (renderCommandLine (launching .balanced)).map switchName =
      switchNames false true false := map_switchName _
  rw [show (rendered (launching .balanced)).commandLine = renderCommandLine (launching .balanced)
    from rfl, hline, switchNames_nodup] at hnames
  cases hnames

/-! ### What the managed policies are made of -/

/-- The request with other overrides in its permission policy. -/
def overriding (req : BrowserLaunchRequest)
    (overrides : String → Option (Feature → Option PermissionState)) : BrowserLaunchRequest :=
  { req with permissions := { req.permissions with overrides } }

/-- The managed policy says the same of a feature in both states. -/
def SameClass : Feature → PermissionState → PermissionState → Prop
  | .location, s, t | .camera, s, t | .microphone, s, t => s = .allow ↔ t = .allow
  | .notifications, s, t | .clipboardRead, s, t =>
    (s ∈ [.allow, .confinedToVm, .limited] ↔ t ∈ [.allow, .confinedToVm, .limited]) ∧
      (s = .ask ↔ t = .ask)
  | _, _, _ => True

theorem contentSetting_eq_iff (s t : PermissionState) : contentSetting s = contentSetting t ↔
    (s ∈ [PermissionState.allow, .confinedToVm, .limited] ↔
      t ∈ [PermissionState.allow, .confinedToVm, .limited]) ∧ (s = .ask ↔ t = .ask) := by
  cases s <;> cases t <;> decide

theorem setting_inj {m n : ℕ} : setting m = setting n ↔ m = n := by
  simp [setting, Json.Number.ofNat]

/-- The whole document: the policy and the key that is added to it. -/
def document (geo cam mic notif clipboard : PermissionState) : List (String × Json.Value) :=
  policy geo cam mic notif clipboard ++ [("DefaultWebHidGuardSetting", setting settingBlock)]

theorem renderManagedPolicies_eq (req : BrowserLaunchRequest) :
    renderManagedPolicies req = [(managedPolicyFile, .object (Json.sortMembers (document
      (req.permissions.effective defaultOrigin .location)
      (req.permissions.effective defaultOrigin .camera)
      (req.permissions.effective defaultOrigin .microphone)
      (req.permissions.effective defaultOrigin .notifications)
      (req.permissions.effective defaultOrigin .clipboardRead))))] := by
  simp only [renderManagedPolicies, document, Json.sortMembers, List.foldl_append, List.foldl_cons,
    List.foldl_nil]

theorem document_nodup (geo cam mic notif clipboard : PermissionState) :
    (Json.keys (document geo cam mic notif clipboard)).Nodup := by
  show ["SyncDisabled", "MetricsReportingEnabled", "BrowserSignin", "RemoteDebuggingAllowed",
    "BackgroundModeEnabled", "PromotionalTabsEnabled", "SpellCheckServiceEnabled",
    "UrlKeyedAnonymizedDataCollectionEnabled", "SafeBrowsingExtendedReportingEnabled",
    "DefaultGeolocationSetting", "DefaultSensorsSetting", "AudioCaptureAllowed",
    "VideoCaptureAllowed", "DefaultWebBluetoothGuardSetting", "DefaultWebUsbGuardSetting",
    "DefaultSerialGuardSetting", "DefaultHidGuardSetting", "DefaultNotificationsSetting",
    "DefaultClipboardSetting", "PromptForDownloadLocation", "DownloadRestrictions",
    "DefaultPopupsSetting", "DefaultInsecureContentSetting", "BlockThirdPartyCookies",
    "DefaultWebHidGuardSetting"].Nodup
  decide +kernel

/-- Two documents are one exactly when each pair of states is of one class. -/
theorem document_eq_iff {geo cam mic notif clip geo' cam' mic' notif' clip' : PermissionState} :
    Json.sortMembers (document geo cam mic notif clip) =
        Json.sortMembers (document geo' cam' mic' notif' clip') ↔
      SameClass .location geo geo' ∧ SameClass .camera cam cam' ∧
        SameClass .microphone mic mic' ∧ SameClass .notifications notif notif' ∧
        SameClass .clipboardRead clip clip' := by
  constructor
  · intro h
    have hvalue {k : String} {v w : Json.Value} (hv : (k, v) ∈ document geo cam mic notif clip)
        (hw : (k, w) ∈ document geo' cam' mic' notif' clip') : v = w :=
      Json.value_eq_of_sortMembers_eq (document_nodup ..) (document_nodup ..) h hv hw
    have hgeo : setting (if geo = .allow then 1 else settingBlock) =
        setting (if geo' = .allow then 1 else settingBlock) :=
      hvalue (k := "DefaultGeolocationSetting") (by simp [document, policy])
        (by simp [document, policy])
    have hcam : Json.Value.bool (decide (cam = .allow)) = .bool (decide (cam' = .allow)) :=
      hvalue (k := "VideoCaptureAllowed") (by simp [document, policy]) (by simp [document, policy])
    have hmic : Json.Value.bool (decide (mic = .allow)) = .bool (decide (mic' = .allow)) :=
      hvalue (k := "AudioCaptureAllowed") (by simp [document, policy]) (by simp [document, policy])
    have hnotif : setting (contentSetting notif) = setting (contentSetting notif') :=
      hvalue (k := "DefaultNotificationsSetting") (by simp [document, policy])
        (by simp [document, policy])
    have hclip : setting (contentSetting clip) = setting (contentSetting clip') :=
      hvalue (k := "DefaultClipboardSetting") (by simp [document, policy])
        (by simp [document, policy])
    refine ⟨?_, ?_, ?_, ?_, ?_⟩
    · rw [setting_inj] at hgeo
      show geo = .allow ↔ geo' = .allow
      by_cases h₁ : geo = .allow <;> by_cases h₂ : geo' = .allow <;>
        simp [h₁, h₂, settingBlock] at hgeo ⊢
    · simpa [SameClass] using hcam
    · simpa [SameClass] using hmic
    · exact (contentSetting_eq_iff _ _).mp (setting_inj.mp hnotif)
    · exact (contentSetting_eq_iff _ _).mp (setting_inj.mp hclip)
  · rintro ⟨hgeo, hcam, hmic, hnotif, hclip⟩
    simp only [SameClass] at hgeo hcam hmic
    simp only [document, policy, hgeo, hcam, hmic, (contentSetting_eq_iff _ _).mpr hnotif,
      (contentSetting_eq_iff _ _).mpr hclip]

/-- Two sets of overrides give one managed policy exactly when, at the origin the defaults are
resolved at, they leave every feature the policy covers in one class. -/
theorem managedPolicies_overriding_iff (req : BrowserLaunchRequest)
    (o o' : String → Option (Feature → Option PermissionState)) :
    renderManagedPolicies (overriding req o) = renderManagedPolicies (overriding req o') ↔
      ∀ f, SameClass f ((overriding req o).permissions.effective defaultOrigin f)
        ((overriding req o').permissions.effective defaultOrigin f) := by
  rw [renderManagedPolicies_eq, renderManagedPolicies_eq]
  have hfile (v w : List (String × Json.Value)) :
      [(managedPolicyFile, Json.Value.object v)] = [(managedPolicyFile, .object w)] ↔ v = w := by
    simp
  rw [hfile, document_eq_iff]
  constructor
  · rintro ⟨hgeo, hcam, hmic, hnotif, hclip⟩ f
    cases f
    case location => exact hgeo
    case camera => exact hcam
    case microphone => exact hmic
    case notifications => exact hnotif
    case clipboardRead => exact hclip
    all_goals trivial
  · intro h
    exact ⟨h .location, h .camera, h .microphone, h .notifications, h .clipboardRead⟩

/-- Overrides for other origins leave the policy that of the defaults alone. -/
theorem managedPolicies_of_noSentinel (req : BrowserLaunchRequest)
    {o : String → Option (Feature → Option PermissionState)} (h : o defaultOrigin = none) :
    renderManagedPolicies (overriding req o) =
      renderManagedPolicies (overriding req fun _ => none) := by
  have heffective (f : Feature) : (overriding req o).permissions.effective defaultOrigin f =
      (overriding req fun _ => none).permissions.effective defaultOrigin f := by
    simp only [overriding, PermissionPolicy.effective, h]
  rw [renderManagedPolicies_eq, renderManagedPolicies_eq]
  simp only [heffective]

/-- One grant of the camera for the origin the defaults are resolved at. -/
def cameraAtSentinel : String → Option (Feature → Option PermissionState) :=
  Function.update (fun _ => none) defaultOrigin
    (some (Function.update (fun _ => none) .camera (some .allow)))

/-- That grant turns the capture policy on for every origin. -/
theorem cameraAtSentinel_changes :
    renderManagedPolicies (overriding (launching .balanced) cameraAtSentinel) ≠
      renderManagedPolicies (overriding (launching .balanced) fun _ => none) := by
  rw [renderManagedPolicies_eq, renderManagedPolicies_eq]
  intro h
  have hdoc := Json.Value.object.inj (Prod.mk.inj (List.cons.inj h).1).2
  exact absurd (document_eq_iff.mp hdoc).2.1 (by
    rw [SameClass]
    decide +kernel)

end Aegis.Launcher.Chromium
