import Mathlib.Data.BitVec

/-! Identifiers and the error taxonomy shared by every component. -/
namespace Aegis

/-- A UUID is its 128 bits. -/
abbrev Uuid := BitVec 128

namespace Uuid

/-- The 32 lowercase hexadecimal digits, most significant first. -/
def digits (u : Uuid) : List Char :=
  (List.range 32).map fun i => Nat.digitChar (u.toNat / 16 ^ (31 - i) % 16)

def simple (u : Uuid) : String := String.ofList u.digits

/-- The hyphenated form `8-4-4-4-12`, which is also how an identifier is displayed. -/
def display (u : Uuid) : String :=
  let d := u.digits
  String.ofList (d.take 8 ++ '-' :: (d.drop 8).take 4 ++ '-' :: (d.drop 12).take 4 ++
    '-' :: (d.drop 16).take 4 ++ '-' :: d.drop 20)

def slug (pre : String) (u : Uuid) : String := pre ++ "-" ++ String.ofList (u.digits.take 8)

end Uuid

/-- A browsing profile. -/
structure ProfileId where
  uuid : Uuid
  deriving DecidableEq

/-- A virtual machine, gateway or browser. -/
structure VmId where
  uuid : Uuid
  deriving DecidableEq

/-- One private-browsing session. -/
structure SessionId where
  uuid : Uuid
  deriving DecidableEq

/-- A per-boot instance identifier, never derived from host state. -/
structure InstanceId where
  uuid : Uuid
  deriving DecidableEq

def ProfileId.slug (i : ProfileId) : String := i.uuid.slug "prof"
def VmId.slug (i : VmId) : String := i.uuid.slug "vm"
def SessionId.slug (i : SessionId) : String := i.uuid.slug "sess"
def InstanceId.slug (i : InstanceId) : String := i.uuid.slug "inst"

/-- How the system must react to a failure. -/
inductive FailureClass where
  | networkContainment
  | isolation
  | cryptography
  | integrity
  | configuration
  | precondition
  | system
  | internal
  deriving DecidableEq

namespace FailureClass

def requiresKillswitch : FailureClass → Bool
  | networkContainment | isolation => true
  | _ => false

def isRetryable : FailureClass → Bool
  | precondition | system => true
  | _ => false

def display : FailureClass → String
  | networkContainment => "network-containment"
  | isolation => "isolation"
  | cryptography => "cryptography"
  | integrity => "integrity"
  | configuration => "configuration"
  | precondition => "precondition"
  | system => "system"
  | internal => "internal"

end FailureClass

/-- The workspace-wide error type; the payloads are the texts the source formats. -/
inductive Error where
  | networkContainment (reason : String)
  | isolation (reason : String)
  | preflight (check detail : String)
  | crypto (reason : String)
  | integrity (reason : String)
  | config (reason : String)
  | precondition (reason : String)
  | notFound (reason : String)
  | busy (reason : String)
  | unsupported (reason : String)
  | system (reason : String)
  | internal (reason : String)
  deriving DecidableEq

namespace Error

def failureClass : Error → FailureClass
  | networkContainment _ | preflight _ _ => .networkContainment
  | isolation _ => .isolation
  | crypto _ => .cryptography
  | integrity _ => .integrity
  | config _ => .configuration
  | precondition _ | notFound _ | busy _ => .precondition
  | unsupported _ | system _ => .system
  | internal _ => .internal

def requiresKillswitch (e : Error) : Bool := e.failureClass.requiresKillswitch

/-- The text an error is shown with. -/
def display : Error → String
  | networkContainment r => "network containment failure: " ++ r
  | isolation r => "isolation failure: " ++ r
  | preflight c d => "preflight check '" ++ c ++ "' failed: " ++ d
  | crypto r => "cryptography failure: " ++ r
  | integrity r => "integrity failure: " ++ r
  | config r => "invalid configuration: " ++ r
  | precondition r => "precondition not met: " ++ r
  | notFound r => "not found: " ++ r
  | busy r => "resource busy: " ++ r
  | unsupported r => "unsupported: " ++ r
  | system r => "system error: " ++ r
  | internal r => "internal error: " ++ r

/-- The kill switch is required exactly for containment, preflight and isolation errors. -/
theorem requiresKillswitch_iff (e : Error) : e.requiresKillswitch = true ↔
    (∃ r, e = networkContainment r) ∨ (∃ c d, e = preflight c d) ∨ ∃ r, e = isolation r := by
  cases e <;> simp [requiresKillswitch, failureClass, FailureClass.requiresKillswitch]

end Error

/-- The error an `std::io::Error` converts to. -/
def Error.io (text : String) : Error := .system ("io: " ++ text)

/-- Fallible results, `aegis_core::Result`. -/
abbrev Result := Except Error

/-- A call in progress; calls interleave at their await points. -/
abbrev TaskId := ℕ

end Aegis
