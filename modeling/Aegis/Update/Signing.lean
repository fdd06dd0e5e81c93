import Aegis.Update.Manifest
import Mathlib.Tactic.Tauto

/-! The bytes that the release tool signs, beside the bytes that the client checks. -/
namespace Aegis
open Json Text

/-- `jq` also escapes the character DEL. How it writes a number depends on its version. -/
def jqStyle (number : Number → List Char) : Style where
  escape c := if c.toNat = 0x7F then unicodeEscape c else (commonEscape c).getD [c]
  number := number

/-- `.signature = ""`, an error on anything that has no members. -/
def setSignature : Value → Option Value
  | .null => some (.object [("signature", .string "")])
  | .object ms => some (.object (insertMember "signature" (.string "") ms))
  | _ => none

/-- What `sign-manifest.sh` signs: the output of `jq -cS '.signature = ""'`, a line that a newline
ends. -/
def signedBytes (number : Number → List Char) (doc : Value) : Option Bytes :=
  (setSignature (sortKeys doc)).map fun v => utf8 (compact (jqStyle number) v ++ ['\n'])

theorem signedBytes_getLast? {number : Number → List Char} {doc : Value} {bs : Bytes}
    (h : signedBytes number doc = some bs) : bs.getLast? = some 10 := by
  obtain ⟨v, -, rfl⟩ := Option.map_eq_some_iff.mp h
  rw [utf8_append]
  exact List.getLast?_concat

theorem signingBytes_getLast? (m : UpdateManifest) : (signingBytes m).getLast? = some 125 := by
  obtain ⟨ms, hms⟩ : ∃ ms, sortKeys { m with signature := "" }.toValue = .object ms := ⟨_, rfl⟩
  unfold signingBytes
  rw [hms, compact, utf8_append]
  exact List.getLast?_concat

/-- The release tool signs other bytes than the client checks, whatever the document. -/
theorem signedBytes_ne (number : Number → List Char) (doc : Value) (m : UpdateManifest) :
    signedBytes number doc ≠ some (signingBytes m) := by
  intro h
  have hlast := signedBytes_getLast? h
  rw [signingBytes_getLast?] at hlast
  exact absurd hlast (by decide)

/-! ### Where the two differ in the newline only -/

theorem Version.sortKeys_toValue (v : Version) : sortKeys v.toValue = v.toValue := by
  have hsorted : Sorted [("major", natValue v.major.toNat), ("minor", natValue v.minor.toNat),
      ("patch", natValue v.patch.toNat)] :=
    sorted_iff.mpr (show ["major", "minor", "patch"].Pairwise (· < ·) by decide)
  exact congrArg Value.object hsorted.sortMembers_self

theorem Artifact.sortKeys_toValue (a : Artifact) : sortKeys a.toValue = a.toValue := by
  have hsorted : Sorted [("kind", Value.string a.kind.name), ("location", .string a.location),
      ("sha256", .string a.sha256), ("size", natValue a.size.toNat)] :=
    sorted_iff.mpr (show ["kind", "location", "sha256", "size"].Pairwise (· < ·) by decide)
  exact congrArg Value.object hsorted.sortMembers_self

/-- The manifest's members in the order they are printed. -/
def UpdateManifest.sortedMembers (m : UpdateManifest) : List (String × Value) :=
  [("artifacts", .array (m.artifacts.map Artifact.toValue)),
    ("delta_base", optionValue Version.toValue m.deltaBase), ("kind", .string m.kind.name),
    ("sbom", optionValue .string m.sbom), ("schema", natValue m.schema.toNat),
    ("signature", .string m.signature), ("version", m.version.toValue)]

theorem UpdateManifest.sorted_sortedMembers (m : UpdateManifest) : Sorted m.sortedMembers :=
  sorted_iff.mpr (show ["artifacts", "delta_base", "kind", "sbom", "schema", "signature",
    "version"].Pairwise (· < ·) by decide)

theorem UpdateManifest.sortKeys_toValue (m : UpdateManifest) :
    sortKeys m.toValue = .object m.sortedMembers := by
  have hartifacts : sortAll (m.artifacts.map Artifact.toValue) =
      m.artifacts.map Artifact.toValue := by
    rw [sortAll_eq_map, List.map_map]
    exact List.map_congr_left fun a _ => a.sortKeys_toValue
  have hbase : sortKeys (optionValue Version.toValue m.deltaBase) =
      optionValue Version.toValue m.deltaBase := by
    cases m.deltaBase with
    | none => rfl
    | some v => exact v.sortKeys_toValue
  have hsbom : sortKeys (optionValue .string m.sbom) = optionValue .string m.sbom := by
    cases m.sbom <;> rfl
  simp only [toValue, sortKeys, sortEach, hartifacts, hbase, hsbom, Version.sortKeys_toValue,
    natValue]
  refine congrArg Value.object (m.sorted_sortedMembers.sortMembers_of_mem_iff ?_ fun x => ?_)
  · exact (show ["schema", "version", "delta_base", "kind", "artifacts", "sbom",
      "signature"].Nodup by decide)
  · simp only [sortedMembers, natValue, List.mem_cons, List.not_mem_nil, or_false]
    tauto

/-- Emptying the signature of the printed members. -/
theorem UpdateManifest.setSignature_sortedMembers (m : UpdateManifest) :
    setSignature (.object m.sortedMembers) =
      some (.object { m with signature := "" }.sortedMembers) := by
  have hbefore : ∀ k ∈ keys (m.sortedMembers.take 5), k < "signature" :=
    show ∀ k ∈ ["artifacts", "delta_base", "kind", "sbom", "schema"], k < "signature" by decide
  exact congrArg (fun ms => some (Value.object ms)) (insertMember_append _ hbefore)

/-- The strings of a manifest that are free text. -/
def UpdateManifest.texts (m : UpdateManifest) : List String :=
  m.sbom.toList ++ m.artifacts.flatMap fun a => [a.location, a.sha256]

/-- Its keys and the names of kinds. -/
def fixedTexts : List String :=
  ["artifacts", "delta_base", "kind", "sbom", "schema", "signature", "version", "major", "minor",
    "patch", "location", "sha256", "size", "gateway-image", "browser-image", "app-package", "full",
    "delta", ""]

theorem ArtifactKind.name_mem (k : ArtifactKind) : k.name ∈ fixedTexts := by
  cases k <;> decide

theorem UpdateKind.name_mem (k : UpdateKind) : k.name ∈ fixedTexts := by
  cases k <;> decide

section Every

variable {P : String → Prop} {Q : Number → Prop} (hfixed : ∀ s ∈ fixedTexts, P s)
  (hnat : ∀ n, Q (.ofNat n))
include hfixed hnat

theorem Version.every_toValue (v : Version) : Every P Q v.toValue :=
  ⟨hfixed "major" (by decide), hnat _, hfixed "minor" (by decide), hnat _,
    hfixed "patch" (by decide), hnat _, trivial⟩

theorem Artifact.every_toValue (a : Artifact) (hlocation : P a.location) (hsha : P a.sha256) :
    Every P Q a.toValue :=
  ⟨hfixed "kind" (by decide), hfixed _ a.kind.name_mem, hfixed "location" (by decide), hlocation,
    hfixed "sha256" (by decide), hsha, hfixed "size" (by decide), hnat _, trivial⟩

/-- What holds of the fixed texts, the free ones and the integers holds throughout the printed
manifest. -/
theorem UpdateManifest.every_sortedMembers (m : UpdateManifest) (htexts : ∀ s ∈ m.texts, P s) :
    Every P Q (.object { m with signature := "" }.sortedMembers) := by
  have hartifacts : EveryItem P Q (m.artifacts.map Artifact.toValue) := by
    rw [everyItem_iff]
    intro v hv
    obtain ⟨a, ha, rfl⟩ := List.mem_map.mp hv
    have hfree : ∀ s ∈ [a.location, a.sha256], P s := fun s hs =>
      htexts s (List.mem_append_right _ (List.mem_flatMap.mpr ⟨a, ha, hs⟩))
    exact a.every_toValue hfixed hnat (hfree _ (by simp)) (hfree _ (by simp))
  have hbase : Every P Q (optionValue Version.toValue m.deltaBase) := by
    cases m.deltaBase with
    | none => trivial
    | some v => exact v.every_toValue hfixed hnat
  have hsbom : Every P Q (optionValue .string m.sbom) := by
    cases hs : m.sbom with
    | none => trivial
    | some s => exact htexts s (by simp [texts, hs])
  exact ⟨hfixed "artifacts" (by decide), hartifacts, hfixed "delta_base" (by decide), hbase,
    hfixed "kind" (by decide), hfixed _ m.kind.name_mem, hfixed "sbom" (by decide), hsbom,
    hfixed "schema" (by decide), hnat _, hfixed "signature" (by decide), hfixed "" (by decide),
    hfixed "version" (by decide), m.version.every_toValue hfixed hnat, trivial⟩

end Every

/-- Without the character that only `jq` escapes. -/
def delFree (s : String) : Bool := s.toList.all fun c => c.toNat ≠ 0x7F

theorem escape_of_delFree {number : Number → List Char} {s : String} (h : delFree s = true) :
    ∀ c ∈ s.toList, (jqStyle number).escape c = serdeStyle.escape c :=
  fun c hc => if_neg (of_decide_eq_true (List.all_eq_true.mp h c hc))

/-- A document that is the manifest up to the order of its members: what is signed is what is
checked and a newline, if `jq` prints integers as they are and no free text has a DEL. -/
theorem signedBytes_eq {number : Number → List Char} {doc : Value} {m : UpdateManifest}
    (hdoc : sortKeys doc = sortKeys m.toValue)
    (hnumber : ∀ n, number (.ofNat n) = Nat.toDigits 10 n)
    (htexts : ∀ s ∈ m.texts, delFree s = true) :
    signedBytes number doc = some (signingBytes m ++ [10]) := by
  have hsame : compact (jqStyle number) (.object { m with signature := "" }.sortedMembers) =
      compact serdeStyle (.object { m with signature := "" }.sortedMembers) := by
    have hfixed : ∀ s ∈ fixedTexts, delFree s = true := by decide +kernel
    exact compact_congr _ (m.every_sortedMembers (fun s hs => escape_of_delFree (hfixed s hs))
      hnumber fun s hs => escape_of_delFree (htexts s hs))
  unfold signedBytes signingBytes
  rw [hdoc, UpdateManifest.sortKeys_toValue, UpdateManifest.setSignature_sortedMembers,
    UpdateManifest.sortKeys_toValue, Option.map_some, utf8_append, hsame]
  rfl

/-- For every document of a manifest, the release tool signs other bytes than are checked. -/
theorem manifest_signedBytes_ne (number : Number → List Char) (doc : Value) :
    ∀ m, UpdateManifest.ofValue doc = some m →
      signedBytes number doc ≠ some (signingBytes m) :=
  fun m _ => signedBytes_ne number doc m

/-! The example of the release documentation. -/

/-- Integers below `10 ^ 17`, as every version of `jq` writes them. -/
def decimal (n : Number) : List Char := Nat.toDigits 10 n.whole

def exampleDoc : Value :=
  .object [("schema", natValue 1),
    ("version", .object [("major", natValue 1), ("minor", natValue 2), ("patch", natValue 0)]),
    ("delta_base", .null), ("kind", .string "full"),
    ("artifacts", .array [.object [("kind", .string "browser-image"),
      ("location", .string "browser-1.2.0.qcow2"), ("sha256", .string "00ff"),
      ("size", natValue 1234567)]]),
    ("sbom", .string "sbom-1.2.0.cdx.json"), ("signature", .string "")]

def exampleManifest : UpdateManifest where
  schema := 1
  version := ⟨1, 2, 0⟩
  deltaBase := none
  kind := .full
  artifacts := [⟨.browserImage, "browser-1.2.0.qcow2", "00ff", 1234567⟩]
  sbom := some "sbom-1.2.0.cdx.json"
  signature := ""

theorem example_deserialises : UpdateManifest.ofValue exampleDoc = some exampleManifest := by
  decide +kernel

theorem manifest_signedBytes_ne_example :
    signedBytes decimal exampleDoc ≠ some (signingBytes exampleManifest) :=
  manifest_signedBytes_ne decimal exampleDoc exampleManifest example_deserialises

/-- What is signed for the example has a newline more. -/
theorem example_signed_newline :
    UpdateManifest.ofValue exampleDoc = some exampleManifest ∧
      signedBytes decimal exampleDoc = some (signingBytes exampleManifest ++ [10]) ∧
      signedBytes decimal exampleDoc ≠ some (signingBytes exampleManifest) :=
  ⟨example_deserialises, signedBytes_eq rfl (fun _ => rfl) (by decide +kernel),
    signedBytes_ne decimal exampleDoc exampleManifest⟩

end Aegis
