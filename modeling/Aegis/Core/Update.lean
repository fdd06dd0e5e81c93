import Aegis.Core.Base
import Aegis.Lib.Text
import Mathlib.Data.Prod.Lex

/-! Versions, artifacts and the signed update manifest. -/
namespace Aegis

/-- A simple, totally ordered semantic version. -/
structure Version where
  major : UInt32
  minor : UInt32
  patch : UInt32
  deriving DecidableEq

namespace Version

/-- The components in the order they are compared. -/
def components (v : Version) : ℕ ×ₗ ℕ ×ₗ ℕ :=
  toLex (v.major.toNat, toLex (v.minor.toNat, v.patch.toNat))

theorem components_injective : Function.Injective components := by
  rintro ⟨a, b, c⟩ ⟨a', b', c'⟩ h
  have hp : (a.toNat, b.toNat, c.toNat) = (a'.toNat, b'.toNat, c'.toNat) := h
  simpa [UInt32.toNat_inj] using hp

instance : LinearOrder Version := LinearOrder.lift' components components_injective

def isNewerThan (self other : Version) : Bool := decide (other < self)

@[simp] theorem isNewerThan_iff {self other : Version} :
    self.isNewerThan other = true ↔ other < self := decide_eq_true_iff

def display (v : Version) : String :=
  toString v.major.toNat ++ "." ++ toString v.minor.toNat ++ "." ++ toString v.patch.toNat

/-- The next component of the version text `s`, and the pieces behind it. -/
def component (s : String) : List (List Char) → Result (UInt32 × List (List Char))
  | [] => .error (.config ("invalid version: " ++ s))
  | piece :: pieces =>
    match Text.parseUnsigned (2 ^ 32) piece with
    | some n => .ok (UInt32.ofNat n, pieces)
    | none => .error (.config ("invalid version component in: " ++ s))

def fromStr (s : String) : Result Version := do
  let (major, it) ← component s (Text.splitn '.' 3 (Text.trim s).toList)
  let (minor, it) ← component s it
  let (patch, _) ← component s it
  return ⟨major, minor, patch⟩

theorem component_toDigits (s : String) (n : UInt32) (pieces : List (List Char)) :
    component s (Nat.toDigits 10 n.toNat :: pieces) = .ok (n, pieces) := by
  rw [component, Text.parseUnsigned_toDigits n.toNat_lt]
  simp

/-- A version is read as it is displayed. -/
theorem fromStr_display (v : Version) : fromStr v.display = .ok v := by
  have hdigit : ∀ n, ∀ c ∈ Nat.toDigits 10 n, c.isDigit = true :=
    fun n c hc => Nat.isDigit_of_mem_toDigits (by decide) (by decide) hc
  have hdot : ∀ n, '.' ∉ Nat.toDigits 10 n := fun n h => absurd (hdigit n '.' h) (by decide)
  have htext : v.display.toList = Nat.toDigits 10 v.major.toNat ++
      '.' :: (Nat.toDigits 10 v.minor.toNat ++ '.' :: Nat.toDigits 10 v.patch.toNat) := by
    simp [display]
  have htrim : Text.trim v.display = v.display := by
    apply Text.trim_of_forall
    rw [htext]
    intro c hc
    have hcase : c = '.' ∨ c.isDigit = true := by
      rcases List.mem_append.mp hc with h | h
      · exact .inr (hdigit _ c h)
      · rcases List.mem_cons.mp h with rfl | h
        · exact .inl rfl
        · rcases List.mem_append.mp h with h | h
          · exact .inr (hdigit _ c h)
          · rcases List.mem_cons.mp h with rfl | h
            · exact .inl rfl
            · exact .inr (hdigit _ c h)
    rcases hcase with rfl | h
    · rfl
    · exact Text.isWhitespace_of_isDigit h
  have hpieces : Text.splitn '.' 3 v.display.toList = [Nat.toDigits 10 v.major.toNat,
      Nat.toDigits 10 v.minor.toNat, Nat.toDigits 10 v.patch.toNat] := by
    rw [htext, Text.splitn_append_cons (hdot _), Text.splitn_append_cons (hdot _), Text.splitn]
  have hok : ∀ (n : UInt32) (pieces : List (List Char))
      (f : UInt32 × List (List Char) → Result Version),
      (component v.display (Nat.toDigits 10 n.toNat :: pieces) >>= f) = f (n, pieces) := by
    intro n pieces f
    rw [component_toDigits]
    rfl
  simp only [fromStr, htrim, hpieces, hok]
  rfl

end Version

inductive ArtifactKind where
  | gatewayImage
  | browserImage
  | appPackage
  deriving DecidableEq

/-- One artifact described by a manifest. -/
structure Artifact where
  kind : ArtifactKind
  location : String
  sha256 : String
  size : UInt64
  deriving DecidableEq

inductive UpdateKind where
  | full
  | delta
  deriving DecidableEq

/-- The signed update manifest. -/
structure UpdateManifest where
  schema : UInt32
  version : Version
  deltaBase : Option Version
  kind : UpdateKind
  artifacts : List Artifact
  sbom : Option String
  signature : String
  deriving DecidableEq

/-- What verification of a manifest and its artifacts yields. -/
structure VerifiedArtifact where
  version : Version
  artifacts : List Artifact

inductive ApplyOutcome where
  | applied
  | rolledBack
  deriving DecidableEq

/-- The version a client presents as installed. -/
structure VersionInfo where
  current : Version

end Aegis
