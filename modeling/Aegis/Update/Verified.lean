import Aegis.Ipc.Serde
import Aegis.Update.Atomic
import Aegis.Update.Replay
import Aegis.Update.Signing

/-! What a verified manifest stands for: the bytes that are signed fix all of it but its signature,
and of what it declares the client compares the version and the digests. -/
namespace Aegis
open Json Text

/-! ### The signed bytes -/

/-- Two manifests say the same, whatever their signatures. -/
structure UpdateManifest.SameContent (m m' : UpdateManifest) : Prop where
  schema : m.schema = m'.schema
  version : m.version = m'.version
  deltaBase : m.deltaBase = m'.deltaBase
  kind : m.kind = m'.kind
  artifacts : m.artifacts = m'.artifacts
  sbom : m.sbom = m'.sbom

section Content

theorem natValue_injective : Function.Injective natValue := by
  intro a b h
  exact congrArg Number.whole (Value.number.inj h)

theorem ArtifactKind.name_injective : Function.Injective ArtifactKind.name := by
  intro a b h
  cases a <;> cases b <;> first | rfl | exact absurd h (by decide)

theorem UpdateKind.name_injective : Function.Injective UpdateKind.name := by
  intro a b h
  cases a <;> cases b <;> first | rfl | exact absurd h (by decide)

theorem Version.toValue_injective : Function.Injective Version.toValue := by
  intro v w h
  have hmembers := Value.object.inj h
  simp only [List.cons.injEq, Prod.mk.injEq, true_and, and_true] at hmembers
  obtain ⟨hmajor, hminor, hpatch⟩ := hmembers
  cases v
  cases w
  congr
  · exact UInt32.toNat_inj.mp (natValue_injective hmajor)
  · exact UInt32.toNat_inj.mp (natValue_injective hminor)
  · exact UInt32.toNat_inj.mp (natValue_injective hpatch)

theorem Artifact.toValue_injective : Function.Injective Artifact.toValue := by
  intro a b h
  have hmembers := Value.object.inj h
  simp only [List.cons.injEq, Prod.mk.injEq, true_and, and_true, Value.string.injEq] at hmembers
  obtain ⟨hkind, hlocation, hsha256, hsize⟩ := hmembers
  cases a
  cases b
  congr
  · exact ArtifactKind.name_injective hkind
  · exact UInt64.toNat_inj.mp (natValue_injective hsize)

/-- A missing value is told from every other, if none is written as null. -/
theorem optionValue_injective {α : Type} {f : α → Value} (hf : Function.Injective f)
    (hnull : ∀ a, f a ≠ .null) : Function.Injective (optionValue f) := by
  intro a b h
  cases a with
  | none =>
    cases b with
    | none => rfl
    | some b => exact absurd h.symm (hnull b)
  | some a =>
    cases b with
    | none => exact absurd h (hnull a)
    | some b => exact congrArg some (hf h)

/-- The printed members fix the manifest. -/
theorem UpdateManifest.sortedMembers_injective : Function.Injective sortedMembers := by
  intro m m' h
  unfold sortedMembers at h
  simp only [List.cons.injEq, Prod.mk.injEq, true_and, and_true, Value.string.injEq,
    Value.array.injEq] at h
  obtain ⟨hartifacts, hbase, hkind, hsbom, hschema, hsignature, hversion⟩ := h
  cases m
  cases m'
  congr
  · exact UInt32.toNat_inj.mp (natValue_injective hschema)
  · exact Version.toValue_injective hversion
  · exact optionValue_injective Version.toValue_injective (fun _ => nofun) hbase
  · exact UpdateKind.name_injective hkind
  · exact List.map_injective_iff.mpr Artifact.toValue_injective hartifacts
  · exact optionValue_injective (fun _ _ => Value.string.inj) (fun _ => nofun) hsbom

theorem UpdateManifest.plain_sortedMembers (m : UpdateManifest) :
    PlainValue (.object { m with signature := "" }.sortedMembers) :=
  m.every_sortedMembers (fun _ _ => trivial) (fun n => ⟨n, rfl⟩) fun _ _ => trivial

theorem UpdateManifest.sameContent_iff {m m' : UpdateManifest} :
    m.SameContent m' ↔ { m with signature := "" } = { m' with signature := "" } := by
  constructor
  · rintro ⟨hschema, hversion, hbase, hkind, hartifacts, hsbom⟩
    rw [hschema, hversion, hbase, hkind, hartifacts, hsbom]
  · intro h
    obtain ⟨hschema, hversion, hbase, hkind, hartifacts, hsbom, -⟩ := UpdateManifest.mk.inj h
    exact ⟨hschema, hversion, hbase, hkind, hartifacts, hsbom⟩

/-- The signed bytes tell manifests apart by their content. -/
theorem signingBytes_inj {m m' : UpdateManifest} :
    signingBytes m = signingBytes m' ↔ m.SameContent m' := by
  rw [UpdateManifest.sameContent_iff]
  constructor
  · intro h
    have hprinted := utf8_injective h
    rw [UpdateManifest.sortKeys_toValue, UpdateManifest.sortKeys_toValue] at hprinted
    have hmembers := compact_injective serdeStyle_readable m.plain_sortedMembers
      m'.plain_sortedMembers hprinted
    exact UpdateManifest.sortedMembers_injective (Value.object.inj hmembers)
  · intro h
    unfold signingBytes
    rw [h]

end Content

section Signature

variable {π : Primitives} {c : SignedUpdateClient} {m : UpdateManifest}

/-- The key accepts the signature of a manifest for the bytes that are signed. -/
def SignedUpdateClient.Signed (π : Primitives) (c : SignedUpdateClient) (m : UpdateManifest) :
    Prop :=
  ∃ signature, hexDecode (trim m.signature).toList = some signature ∧ signature.length = 64 ∧
    π.ed25519 c.verifyingKey (signingBytes m) signature = true

theorem verifySignature_eq_ok : c.verifySignature π m = .ok () ↔ c.Signed π m := by
  unfold SignedUpdateClient.verifySignature SignedUpdateClient.Signed
  cases hexDecode (trim m.signature).toList with
  | none => simp
  | some signature =>
    simp only [Option.some.injEq, exists_eq_left']
    split_ifs with hlength haccepted
    · simp [hlength]
    · simp [not_not.mp hlength, haccepted]
    · simp [haccepted]

end Signature

/-- The key accepts one signature for two messages. -/
def Primitives.Ambiguous (π : Primitives) (key : Bytes) : Prop :=
  ∃ message message' signature, message ≠ message' ∧ π.ed25519 key message signature = true ∧
    π.ed25519 key message' signature = true

/-- The signed bytes of two manifests are equal exactly when they agree in all fields but the
signature. A signature is valid for a manifest of other content only where the key accepts one for
two messages. -/
theorem signingBytes_bind (m m' : UpdateManifest) :
    (signingBytes m = signingBytes m' ↔ m.SameContent m') ∧
      ∀ π c, SignedUpdateClient.verifySignature π c m = .ok () →
        SignedUpdateClient.verifySignature π c { m' with signature := m.signature } = .ok () →
        m.SameContent m' ∨ π.Ambiguous c.verifyingKey := by
  refine ⟨signingBytes_inj, fun π c hm hm' => ?_⟩
  obtain ⟨signature, hdecode, -, haccepted⟩ := verifySignature_eq_ok.mp hm
  obtain ⟨_, hdecode', -, haccepted'⟩ := verifySignature_eq_ok.mp hm'
  obtain rfl := Option.some.inj (hdecode.symm.trans hdecode')
  rw [signingBytes_signature] at haccepted'
  by_cases hsame : signingBytes m = signingBytes m'
  · exact .inl (signingBytes_inj.mp hsame)
  · exact .inr ⟨_, _, _, hsame, haccepted, haccepted'⟩

/-- Two releases that the key signed are told apart. -/
theorem signingBytes_bind_release : signingBytes release200 ≠ signingBytes release100 := by
  intro h
  have hversion := ((signingBytes_bind release200 release100).1.mp h).version
  exact absurd hversion (by decide)

/-! ### What verification compares -/

/-- The bytes have the digest that an artifact declares in hexadecimal, of either case and with
white space around it. -/
def Artifact.HasDigest (π : Primitives) (a : Artifact) (bytes : Bytes) : Prop :=
  hexDecode (trim a.sha256).toList = some (π.sha256 bytes)

instance (π : Primitives) (a : Artifact) (bytes : Bytes) : Decidable (a.HasDigest π bytes) :=
  inferInstanceAs (Decidable (_ = _))

section Verify

variable (π : Primitives) (c : SignedUpdateClient) (m : UpdateManifest) (info : VersionInfo)
  (fetch : ℕ → Result Bytes)

/-- What a manifest and the artifacts it names should be for an update over `info`. -/
structure Exact : Prop where
  signed : c.Signed π m
  newer : info.current < m.version
  based : m.kind = .delta → m.deltaBase = some info.current
  artifacts : ∀ i a, m.artifacts[i]? = some a →
    ∃ bytes, fetch i = .ok bytes ∧ a.HasDigest π bytes ∧ bytes.length = a.size.toNat

/-- What the client checks of it. -/
structure Checked : Prop where
  signed : c.Signed π m
  newer : info.current < m.version
  artifacts : ∀ i a, m.artifacts[i]? = some a → ∃ bytes, fetch i = .ok bytes ∧ a.HasDigest π bytes

/-- A delta is one over the installed version, and what was fetched is of the declared sizes. -/
structure Fits : Prop where
  based : m.kind = .delta → m.deltaBase = some info.current
  sized : ∀ i a bytes, m.artifacts[i]? = some a → fetch i = .ok bytes →
    bytes.length = a.size.toNat

end Verify

section Verify

variable {π : Primitives} {c : SignedUpdateClient} {m : UpdateManifest} {info : VersionInfo}
  {fetch : ℕ → Result Bytes}

theorem sha256Hex_eq_wanted {a : Artifact} {bytes : Bytes} :
    π.sha256Hex bytes = a.wanted ↔ a.HasDigest π bytes := by
  unfold Primitives.sha256Hex Artifact.wanted asciiLowercase Artifact.HasDigest
  rw [hexDecode_eq_some]
  exact String.ofList_inj

theorem checkArtifact_eq_ok {a : Artifact} {fetched : Result Bytes} :
    SignedUpdateClient.checkArtifact π a fetched = .ok () ↔
      ∃ bytes, fetched = .ok bytes ∧ a.HasDigest π bytes := by
  cases fetched with
  | error e =>
    constructor
    · intro h
      cases h
    · rintro ⟨bytes, h, -⟩
      cases h
  | ok bytes =>
    unfold SignedUpdateClient.checkArtifact
    dsimp only [bind, Except.bind]
    simp only [Except.ok.injEq, exists_eq_left', ← sha256Hex_eq_wanted]
    by_cases hhash : π.sha256Hex bytes = a.wanted
    · rw [if_neg (not_not.mpr hhash)]
      exact ⟨fun _ => hhash, fun _ => rfl⟩
    · rw [if_pos hhash]
      exact ⟨nofun, fun h => absurd h hhash⟩

/-- A loop of checks succeeds when each of them does. -/
theorem forM_id_eq_ok (rs : List (Result Unit)) :
    rs.forM id = .ok () ↔ ∀ r ∈ rs, r = .ok () := by
  induction rs with
  | nil => exact ⟨fun _ => nofun, fun _ => rfl⟩
  | cons r rs ih =>
    rw [List.forall_mem_cons, ← ih]
    cases r with
    | error e => exact ⟨nofun, nofun⟩
    | ok u => exact ⟨fun h => ⟨rfl, h⟩, fun h => h.2⟩

theorem checkArtifacts_eq_ok : ((m.artifacts.mapIdx fun i a =>
    SignedUpdateClient.checkArtifact π a (fetch i)).forM id = .ok ()) ↔
      ∀ i a, m.artifacts[i]? = some a → ∃ bytes, fetch i = .ok bytes ∧ a.HasDigest π bytes := by
  rw [forM_id_eq_ok]
  constructor
  · intro h i a ha
    apply checkArtifact_eq_ok.mp
    apply h
    rw [List.mem_iff_getElem?]
    exact ⟨i, by rw [List.getElem?_mapIdx, ha]; rfl⟩
  · intro h r hr
    obtain ⟨i, hi⟩ := List.mem_iff_getElem?.mp hr
    rw [List.getElem?_mapIdx] at hi
    obtain ⟨a, ha, rfl⟩ := Option.map_eq_some_iff.mp hi
    exact checkArtifact_eq_ok.mpr (h i a ha)

/-- Verification succeeds for what passes the checks. -/
theorem verify_eq_ok_iff : (∃ v, c.verify π m info fetch = .ok v) ↔ Checked π c m info fetch := by
  constructor
  · rintro ⟨v, hv⟩
    obtain ⟨hsigned, hnewer, -⟩ := verify_ok hv
    refine ⟨verifySignature_eq_ok.mp hsigned, Version.isNewerThan_iff.mp hnewer, ?_⟩
    apply checkArtifacts_eq_ok.mp
    unfold SignedUpdateClient.verify at hv
    simp only [hsigned, hnewer, not_true_eq_false, if_false] at hv
    cases hchecks : (m.artifacts.mapIdx fun i a =>
        SignedUpdateClient.checkArtifact π a (fetch i)).forM id with
    | error e =>
      rw [hchecks] at hv
      cases hv
    | ok u => rfl
  · rintro ⟨hsigned, hnewer, hartifacts⟩
    refine ⟨⟨m.version, m.artifacts⟩, ?_⟩
    have hchecks := checkArtifacts_eq_ok.mpr hartifacts
    unfold SignedUpdateClient.verify
    simp only [verifySignature_eq_ok.mpr hsigned, Version.isNewerThan_iff.mpr hnewer, hchecks,
      not_true_eq_false, if_false]
    rfl

theorem exact_iff : Exact π c m info fetch ↔ Checked π c m info fetch ∧ Fits m info fetch := by
  constructor
  · rintro ⟨hsigned, hnewer, hbased, hartifacts⟩
    refine ⟨⟨hsigned, hnewer, fun i a ha => ?_⟩, hbased, fun i a bytes ha hbytes => ?_⟩
    · obtain ⟨bytes, hbytes, hdigest, -⟩ := hartifacts i a ha
      exact ⟨bytes, hbytes, hdigest⟩
    · obtain ⟨bytes', hbytes', -, hsize⟩ := hartifacts i a ha
      obtain rfl := Except.ok.inj (hbytes.symm.trans hbytes')
      exact hsize
  · rintro ⟨⟨hsigned, hnewer, hartifacts⟩, hbased, hsized⟩
    refine ⟨hsigned, hnewer, hbased, fun i a ha => ?_⟩
    obtain ⟨bytes, hbytes, hdigest⟩ := hartifacts i a ha
    exact ⟨bytes, hbytes, hdigest, hsized i a bytes ha hbytes⟩

end Verify

/-- Verification succeeds for just the updates it should, unless one passes all the checks that is a
delta over another version or whose artifacts are not of the declared sizes. -/
theorem verify_exact_iff (π : Primitives) (c : SignedUpdateClient) (m : UpdateManifest)
    (info : VersionInfo) (fetch : ℕ → Result Bytes) :
    ((∃ v, c.verify π m info fetch = .ok v) ↔ Exact π c m info fetch) ↔
      (Checked π c m info fetch → Fits m info fetch) := by
  rw [verify_eq_ok_iff, exact_iff]
  tauto

def deltaSignature : Bytes :=
  [12, 32, 86, 123, 73, 77, 176, 78, 184, 14, 6, 167, 108, 133, 176, 219, 211, 0, 23, 40, 170,
    214, 113, 114, 12, 140, 112, 18, 29, 93, 104, 112, 10, 12, 244, 119, 108, 250, 207, 42, 232,
    12, 78, 193, 148, 218, 177, 74, 249, 202, 56, 34, 46, 52, 105, 231, 179, 171, 245, 72, 222,
    149, 45, 5]

def imageSignature : Bytes :=
  [121, 121, 222, 233, 87, 194, 70, 77, 38, 60, 65, 176, 199, 128, 123, 199, 9, 213, 58, 106,
    201, 130, 54, 66, 131, 169, 49, 102, 115, 72, 170, 220, 80, 133, 241, 154, 120, 217, 116, 53,
    124, 125, 227, 240, 248, 191, 250, 199, 135, 210, 10, 38, 251, 225, 249, 196, 22, 120, 12, 84,
    29, 18, 138, 7]

/-- A delta over `1.5.0`. -/
def delta200 : UpdateManifest :=
  ⟨1, ⟨2, 0, 0⟩, some ⟨1, 5, 0⟩, .delta, [], none, String.ofList (hexEncode deltaSignature)⟩

/-- An image of seven bytes, declared with more. -/
def image200 : UpdateManifest :=
  ⟨1, ⟨2, 0, 0⟩, none, .full, [⟨.gatewayImage, "gateway.qcow2", gatewayHash, 4096⟩], none,
    String.ofList (hexEncode imageSignature)⟩

/-- The digest of the image, and the key accepts the two signatures for what they sign. -/
def deltaPrimitives : Primitives where
  sha256 := imagePrimitives.sha256
  ed25519 key message signature :=
    key = releaseKey &&
      (message = signingBytes delta200 && signature = deltaSignature ||
        message = signingBytes image200 && signature = imageSignature)

theorem delta200_signed : releaseClient.Signed deltaPrimitives delta200 :=
  verifySignature_eq_ok.mp
    (verifySignature_hexEncode rfl rfl (by simp [deltaPrimitives, releaseClient]))

theorem image200_signed : releaseClient.Signed deltaPrimitives image200 :=
  verifySignature_eq_ok.mp
    (verifySignature_hexEncode rfl rfl (by simp [deltaPrimitives, releaseClient]))

theorem delta200_checked :
    Checked deltaPrimitives releaseClient delta200 ⟨⟨1, 0, 0⟩⟩ fun _ => .ok gatewayBytes :=
  ⟨delta200_signed, by decide, nofun⟩

theorem image200_checked :
    Checked deltaPrimitives releaseClient image200 ⟨⟨1, 0, 0⟩⟩ fun _ => .ok gatewayBytes := by
  refine ⟨image200_signed, by decide, fun i a ha => ⟨gatewayBytes, rfl, ?_⟩⟩
  obtain rfl : a = ⟨.gatewayImage, "gateway.qcow2", gatewayHash, 4096⟩ :=
    List.mem_singleton.mp (List.mem_iff_getElem?.mpr ⟨i, ha⟩)
  decide +kernel

/-- A delta over another version than the installed one is verified, and so is an image of another
size than the declared one. -/
theorem delta_not_exact :
    (∃ v, releaseClient.verify deltaPrimitives delta200 ⟨⟨1, 0, 0⟩⟩
        (fun _ => .ok gatewayBytes) = .ok v) ∧
      ¬ Exact deltaPrimitives releaseClient delta200 ⟨⟨1, 0, 0⟩⟩ (fun _ => .ok gatewayBytes) ∧
      (∃ v, releaseClient.verify deltaPrimitives image200 ⟨⟨1, 0, 0⟩⟩
        (fun _ => .ok gatewayBytes) = .ok v) ∧
      ¬ Exact deltaPrimitives releaseClient image200 ⟨⟨1, 0, 0⟩⟩ fun _ => .ok gatewayBytes := by
  refine ⟨verify_eq_ok_iff.mpr delta200_checked, fun h => ?_,
    verify_eq_ok_iff.mpr image200_checked, fun h => ?_⟩
  · exact absurd (h.based rfl) (by decide)
  · have hsize := (exact_iff.mp h).2.sized 0 _ gatewayBytes rfl rfl
    exact absurd hsize (by decide +kernel)

end Aegis
