import Aegis.Lib.Json
import Aegis.Core.Update

/-! The manifest as JSON: what deserialises to one, and the bytes its signature covers. -/
namespace Aegis
open Json Text

/-! Deserialisation. A structure is read from an object, in any order and with unknown members
passed over, or from an array of its fields in order. -/
namespace Deserialize

/-- The member of a key, which may occur once. -/
def member (k : String) (ms : List (String × Value)) : Option (Option Value) :=
  match ms.filter fun m => m.1 = k with
  | [] => some none
  | [m] => some (some m.2)
  | _ => none

section Fields

variable {α : Type}

def required (k : String) (f : Value → Option α) (ms : List (String × Value)) : Option α :=
  match member k ms with
  | some (some v) => f v
  | _ => none

/-- An optional field may be missing or null. -/
def nullable (f : Value → Option α) : Value → Option (Option α)
  | .null => some none
  | v => (f v).map some

def optional (k : String) (f : Value → Option α) (ms : List (String × Value)) :
    Option (Option α) :=
  match member k ms with
  | some (some v) => nullable f v
  | some none => some none
  | none => none

/-- A variant without data, by name or as an object that gives the name the value null. -/
def unitVariant (names : List (String × α)) : Value → Option α
  | .string s => names.lookup s
  | .object [(s, .null)] => names.lookup s
  | _ => none

end Fields

/-- A literal without fraction and exponent below `bound`. -/
def unsigned (bound : ℕ) : Value → Option ℕ
  | .number ⟨false, n, [], none⟩ => if n < bound then some n else none
  | _ => none

def u32 (v : Value) : Option UInt32 := (unsigned (2 ^ 32) v).map UInt32.ofNat
def u64 (v : Value) : Option UInt64 := (unsigned (2 ^ 64) v).map UInt64.ofNat

def string : Value → Option String
  | .string s => some s
  | _ => none

def list {α : Type} (f : Value → Option α) : Value → Option (List α)
  | .array vs => vs.mapM f
  | _ => none

end Deserialize

open Deserialize

def Version.ofValue : Value → Option Version
  | .object ms => do
    return ⟨← required "major" u32 ms, ← required "minor" u32 ms, ← required "patch" u32 ms⟩
  | .array [major, minor, patch] => do return ⟨← u32 major, ← u32 minor, ← u32 patch⟩
  | _ => none

def ArtifactKind.names : List (String × ArtifactKind) :=
  [("gateway-image", .gatewayImage), ("browser-image", .browserImage), ("app-package", .appPackage)]

def UpdateKind.names : List (String × UpdateKind) := [("full", .full), ("delta", .delta)]

def Artifact.ofValue : Value → Option Artifact
  | .object ms => do
    return {
      kind := ← required "kind" (unitVariant ArtifactKind.names) ms
      location := ← required "location" string ms
      sha256 := ← required "sha256" string ms
      size := ← required "size" u64 ms }
  | .array [kind, location, sha256, size] => do
    return ⟨← unitVariant ArtifactKind.names kind, ← string location, ← string sha256, ← u64 size⟩
  | _ => none

def UpdateManifest.ofValue : Value → Option UpdateManifest
  | .object ms => do
    return {
      schema := ← required "schema" u32 ms
      version := ← required "version" Version.ofValue ms
      deltaBase := ← optional "delta_base" Version.ofValue ms
      kind := ← required "kind" (unitVariant UpdateKind.names) ms
      artifacts := ← required "artifacts" (list Artifact.ofValue) ms
      sbom := ← optional "sbom" string ms
      signature := ← required "signature" string ms }
  | .array [schema, version, deltaBase, kind, artifacts, sbom, signature] => do
    return {
      schema := ← u32 schema
      version := ← Version.ofValue version
      deltaBase := ← nullable Version.ofValue deltaBase
      kind := ← unitVariant UpdateKind.names kind
      artifacts := ← list Artifact.ofValue artifacts
      sbom := ← nullable string sbom
      signature := ← string signature }
  | _ => none

/-! Serialisation, with the fields in the order of the declarations. -/

def natValue (n : ℕ) : Value := .number (.ofNat n)

def optionValue {α : Type} (f : α → Value) : Option α → Value
  | none => .null
  | some a => f a

def Version.toValue (v : Version) : Value :=
  .object [("major", natValue v.major.toNat), ("minor", natValue v.minor.toNat),
    ("patch", natValue v.patch.toNat)]

def ArtifactKind.name : ArtifactKind → String
  | gatewayImage => "gateway-image"
  | browserImage => "browser-image"
  | appPackage => "app-package"

def UpdateKind.name : UpdateKind → String
  | full => "full"
  | delta => "delta"

def Artifact.toValue (a : Artifact) : Value :=
  .object [("kind", .string a.kind.name), ("location", .string a.location),
    ("sha256", .string a.sha256), ("size", natValue a.size.toNat)]

def UpdateManifest.toValue (m : UpdateManifest) : Value :=
  .object [("schema", natValue m.schema.toNat), ("version", m.version.toValue),
    ("delta_base", optionValue Version.toValue m.deltaBase), ("kind", .string m.kind.name),
    ("artifacts", .array (m.artifacts.map Artifact.toValue)),
    ("sbom", optionValue .string m.sbom), ("signature", .string m.signature)]

/-- `\u` and four hexadecimal digits. -/
def unicodeEscape (c : Char) : List Char :=
  '\\' :: 'u' :: (List.range 4).map fun i => Nat.digitChar (c.toNat / 16 ^ (3 - i) % 16)

/-- The escapes both printers of JSON have in common. -/
def commonEscape (c : Char) : Option (List Char) :=
  if c = '"' ∨ c = '\\' then some ['\\', c]
  else if c.toNat = 8 then some ['\\', 'b']
  else if c.toNat = 9 then some ['\\', 't']
  else if c.toNat = 10 then some ['\\', 'n']
  else if c.toNat = 12 then some ['\\', 'f']
  else if c.toNat = 13 then some ['\\', 'r']
  else if c.toNat < 0x20 then some (unicodeEscape c)
  else none

/-- `serde_json`, which meets no other numbers than integers here. -/
def serdeStyle : Style where
  escape c := (commonEscape c).getD [c]
  number n := Nat.toDigits 10 n.whole

/-- The canonical bytes a signature is computed over: the manifest with an empty signature, as
compact JSON with sorted keys. -/
def signingBytes (m : UpdateManifest) : Bytes :=
  utf8 (compact serdeStyle (sortKeys { m with signature := "" }.toValue))

theorem signingBytes_signature (m : UpdateManifest) (s : String) :
    signingBytes { m with signature := s } = signingBytes m := rfl

end Aegis
