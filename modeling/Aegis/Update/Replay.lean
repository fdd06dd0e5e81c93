import Aegis.Lib.Transition
import Aegis.Update.Client

/-! The versions that a run of update requests applies. -/
namespace Aegis
open Text Disk Transition

/-- A request to apply an update, with what the transport and the file system answer to it. -/
structure UpdateRequest where
  manifest : UpdateManifest
  fetch : ℕ → Result Bytes
  turn : ℕ → Turn

/-- The files, and the versions applied so far, newest first. -/
structure UpdateRun where
  files : Files
  applied : List Version

/-- The version the handler names as installed. -/
def handlerInfo : VersionInfo := ⟨⟨0, 0, 0⟩⟩

/-- The handler of `ApplyUpdate`: verify, then apply. -/
def applyUpdate (π : Primitives) (c : SignedUpdateClient) (r : UpdateRequest) (d : Files) :
    Result ApplyOutcome × Files :=
  match c.verify π r.manifest handlerInfo r.fetch with
  | .error e => (.error e, d)
  | .ok v =>
    let (outcome, d) := c.apply π v r.turn d
    (.ok outcome, d)

/-- The daemon keeps nothing of a request but the files; the list of versions only records what
happened. -/
def UpdateRun.step (π : Primitives) (c : SignedUpdateClient) (s : UpdateRun) (r : UpdateRequest) :
    Option UpdateRun :=
  match applyUpdate π c r s.files with
  | (.ok .applied, d) => some ⟨d, r.manifest.version :: s.applied⟩
  | (_, d) => some ⟨d, s.applied⟩

def UpdateRun.initial (s : UpdateRun) : Prop := s.applied = []

/-- Each version applied is newer than the one before it and than the running one. -/
def Rising (running : Version) : List Version → Prop
  | [] => True
  | v :: vs => running < v ∧ (∀ u ∈ vs.head?, u < v) ∧ Rising running vs

/-- The manifest is newer than the running version and the one applied last, or fails a check the
handler makes: its signature, or that it is newer than the version `0.0.0`. -/
def Timely (π : Primitives) (c : SignedUpdateClient) (running : Version) (s : UpdateRun)
    (r : UpdateRequest) : Prop :=
  (running < r.manifest.version ∧ ∀ u ∈ s.applied.head?, u < r.manifest.version) ∨
    c.verifySignature π r.manifest ≠ .ok () ∨
    r.manifest.version.isNewerThan handlerInfo.current = false

variable {π : Primitives} {c : SignedUpdateClient} {running : Version}

/-- What passes verification is signed, newer than the version named, and is the manifest's. -/
theorem verify_ok {m : UpdateManifest} {info : VersionInfo} {fetch : ℕ → Result Bytes}
    {v : VerifiedArtifact} (h : c.verify π m info fetch = .ok v) :
    c.verifySignature π m = .ok () ∧ m.version.isNewerThan info.current = true ∧
      v = ⟨m.version, m.artifacts⟩ := by
  unfold SignedUpdateClient.verify at h
  cases hs : c.verifySignature π m with
  | error e =>
    rw [hs] at h
    cases h
  | ok u =>
    rw [hs] at h
    cases hn : m.version.isNewerThan info.current with
    | false =>
      rw [hn] at h
      cases h
    | true =>
      refine ⟨rfl, rfl, ?_⟩
      simp only [hn, not_true_eq_false, if_false] at h
      cases ha : (m.artifacts.mapIdx fun i a =>
          SignedUpdateClient.checkArtifact π a (fetch i)).forM id with
      | error e =>
        rw [ha] at h
        cases h
      | ok u =>
        rw [ha] at h
        cases h
        rfl

theorem applyUpdate_applied {r : UpdateRequest} {d d' : Files}
    (h : applyUpdate π c r d = (.ok .applied, d')) :
    c.verifySignature π r.manifest = .ok () ∧
      r.manifest.version.isNewerThan handlerInfo.current = true := by
  unfold applyUpdate at h
  cases hv : c.verify π r.manifest handlerInfo r.fetch with
  | error e =>
    rw [hv] at h
    cases h
  | ok v =>
    obtain ⟨hs, hn, -⟩ := verify_ok hv
    exact ⟨hs, hn⟩

/-- One request adds its version or none. -/
theorem UpdateRun.step_applied {s s' : UpdateRun} {r : UpdateRequest}
    (h : s.step π c r = some s') :
    s'.applied = s.applied ∨ s'.applied = r.manifest.version :: s.applied ∧
      c.verifySignature π r.manifest = .ok () ∧
      r.manifest.version.isNewerThan handlerInfo.current = true := by
  unfold UpdateRun.step at h
  split at h
  case h_1 d hr =>
    cases h
    exact .inr ⟨rfl, applyUpdate_applied hr⟩
  case h_2 =>
    cases h
    exact .inl rfl

theorem Rising.step {s s' : UpdateRun} {r : UpdateRequest} (hs : Rising running s.applied)
    (ht : Timely π c running s r) (h : s.step π c r = some s') : Rising running s'.applied := by
  rcases UpdateRun.step_applied h with he | ⟨he, hsig, hnew⟩
  · rwa [he]
  · rw [he]
    rcases ht with ⟨hrun, hlast⟩ | hbad | hold
    · exact ⟨hrun, hlast, hs⟩
    · exact absurd hsig hbad
    · simp [hold] at hnew

/-- In a run of timely requests the applied versions rise. -/
theorem rising_of_reach {s : UpdateRun}
    (h : Reach (UpdateRun.step π c) UpdateRun.initial (Timely π c running) s) :
    Rising running s.applied := by
  induction h with
  | start hi =>
    rw [hi]
    trivial
  | next _ ht hstep ih => exact ih.step ht hstep

/-! Two releases under one key, the older one replayed. -/

def releaseKey : Bytes :=
  [215, 90, 152, 1, 130, 177, 10, 183, 213, 75, 254, 211, 201, 100, 7, 58, 14, 225, 114, 243,
    218, 166, 35, 37, 175, 2, 26, 104, 247, 7, 81, 26]

def signature200 : Bytes :=
  [222, 110, 128, 131, 49, 45, 80, 107, 129, 97, 19, 245, 215, 160, 18, 62, 252, 250, 154,
    108, 27, 233, 194, 18, 46, 254, 215, 223, 17, 222, 62, 211, 193, 228, 15, 172, 208, 15,
    32, 239, 51, 9, 14, 62, 255, 105, 22, 162, 112, 58, 6, 15, 121, 110, 8, 93, 103, 30, 246,
    255, 108, 93, 185, 5]

def signature100 : Bytes :=
  [12, 206, 189, 123, 96, 4, 91, 100, 107, 17, 167, 64, 70, 255, 140, 135, 181, 17, 59, 34,
    101, 166, 166, 130, 151, 247, 114, 42, 229, 200, 87, 183, 36, 194, 220, 64, 103, 255, 221,
    3, 154, 56, 249, 127, 168, 217, 172, 23, 127, 45, 240, 6, 136, 185, 136, 18, 56, 241, 117,
    66, 237, 70, 198, 14]

def release (version : Version) (signature : Bytes) : UpdateManifest :=
  ⟨1, version, none, .full, [], none, String.ofList (hexEncode signature)⟩

def release200 : UpdateManifest := release ⟨2, 0, 0⟩ signature200
def release100 : UpdateManifest := release ⟨1, 0, 0⟩ signature100

/-- The key accepts the two signatures for what they sign. -/
def releasePrimitives : Primitives where
  sha256 _ := []
  ed25519 key message signature :=
    key = releaseKey &&
      (message = signingBytes release200 && signature = signature200 ||
        message = signingBytes release100 && signature = signature100)

def releaseClient : SignedUpdateClient := ⟨releaseKey, none⟩

def releaseRequest (m : UpdateManifest) : UpdateRequest where
  manifest := m
  fetch _ := .error (.system "no entry")
  turn _ := ⟨true, true, true, .error (.system "no entry"), .whole, true, true, true⟩

/-- A signature in hexadecimal is read back and put to the key. -/
theorem verifySignature_hexEncode {m : UpdateManifest} {signature : Bytes}
    (hs : m.signature = String.ofList (hexEncode signature)) (hlength : signature.length = 64)
    (haccept : π.ed25519 c.verifyingKey (signingBytes m) signature = true) :
    c.verifySignature π m = .ok () := by
  have hdecode : hexDecode (trim m.signature).toList = some signature := by
    rw [hs, trim_hexEncode, String.toList_ofList, hexDecode_hexEncode]
  simp [SignedUpdateClient.verifySignature, hdecode, hlength, haccept]

/-- A signed manifest without artifacts, newer than `0.0.0`, is applied. -/
theorem UpdateRun.step_empty {s : UpdateRun} {r : UpdateRequest}
    (hs : c.verifySignature π r.manifest = .ok ()) (ha : r.manifest.artifacts = [])
    (hn : r.manifest.version.isNewerThan handlerInfo.current = true) :
    s.step π c r = some ⟨s.files, r.manifest.version :: s.applied⟩ := by
  have hv : c.verify π r.manifest handlerInfo r.fetch = .ok ⟨r.manifest.version, []⟩ := by
    simp only [SignedUpdateClient.verify, hs, hn, ha]
    rfl
  simp [UpdateRun.step, applyUpdate, hv, SignedUpdateClient.apply, SignedUpdateClient.installAll]

theorem release200_signed :
    releaseClient.verifySignature releasePrimitives release200 = .ok () :=
  verifySignature_hexEncode rfl rfl (by simp [releasePrimitives, releaseClient])

theorem release100_signed :
    releaseClient.verifySignature releasePrimitives release100 = .ok () :=
  verifySignature_hexEncode rfl rfl (by simp [releasePrimitives, releaseClient])

/-- Nothing is installed. -/
def unreleased : UpdateRun := ⟨fun _ => none, []⟩

theorem unreleased_initial : unreleased.initial := rfl

theorem unreleased_step :
    unreleased.step releasePrimitives releaseClient (releaseRequest release200) =
      some ⟨fun _ => none, [⟨2, 0, 0⟩]⟩ :=
  UpdateRun.step_empty release200_signed rfl (by decide)

/-- A first release over the running version `0.1.0`. -/
theorem rising_release200 : Rising ⟨0, 1, 0⟩ [⟨2, 0, 0⟩] := by
  have htimely : Timely releasePrimitives releaseClient ⟨0, 1, 0⟩ unreleased
      (releaseRequest release200) := .inl ⟨by decide, by simp [unreleased]⟩
  exact rising_of_reach (.next (.start unreleased_initial) htimely unreleased_step)

/-- The daemon installs `1.0.0` after `2.0.0`. -/
theorem replay_not_rising : ∃ s,
    Reach (UpdateRun.step releasePrimitives releaseClient) UpdateRun.initial anyStep s ∧
      ¬ Rising ⟨0, 1, 0⟩ s.applied := by
  have hreplay : UpdateRun.step releasePrimitives releaseClient ⟨fun _ => none, [⟨2, 0, 0⟩]⟩
      (releaseRequest release100) = some ⟨fun _ => none, [⟨1, 0, 0⟩, ⟨2, 0, 0⟩]⟩ :=
    UpdateRun.step_empty release100_signed rfl (by decide)
  refine ⟨_, .next (.next (.start unreleased_initial) trivial unreleased_step) trivial hreplay, ?_⟩
  rintro ⟨-, h, -⟩
  exact absurd (h ⟨2, 0, 0⟩ rfl) (by decide)

end Aegis
