import Aegis.Core.Base

/-! Virtual machines: the isolation policy and the provision request. -/
namespace Aegis

inductive VmRole where
  | gateway
  | browser
  deriving DecidableEq

inductive GpuBackend where
  | virtioGpu
  | software
  deriving DecidableEq

structure DiskLayer where
  backingImage : String
  overlayPath : String
  destroyOnClose : Bool
  readOnlyRoot : Bool
  deriving DecidableEq

/-- Each field is a guarantee the controller upholds. -/
structure IsolationPolicy where
  noSharedClipboard : Bool
  noDragAndDrop : Bool
  noSharedFolders : Bool
  noHostDiskAutomount : Bool
  noUsbPassthrough : Bool
  noPciPassthrough : Bool
  noCameraMicrophone : Bool
  noHostSshAgent : Bool
  noDesktopIntegrationTools : Bool
  readOnlyRoot : Bool
  randomInstanceId : Bool
  freshNetworkDevice : Bool
  deriving DecidableEq

namespace IsolationPolicy

def hardened : IsolationPolicy :=
  ⟨true, true, true, true, true, true, true, true, true, true, true, true⟩

/-- The guarantees in the order they are checked, with the text of a violation. -/
def checks (p : IsolationPolicy) : List (Bool × String) :=
  [(p.noSharedClipboard, "shared clipboard must be disabled"),
    (p.noDragAndDrop, "drag-and-drop must be disabled"),
    (p.noSharedFolders, "shared folders must be disabled"),
    (p.noHostDiskAutomount, "host disk automount must be disabled"),
    (p.noUsbPassthrough, "USB passthrough must be disabled"),
    (p.noPciPassthrough, "PCI/GPU passthrough must be disabled"),
    (p.noCameraMicrophone, "camera/microphone must be disabled"),
    (p.noHostSshAgent, "host SSH agent forwarding must be disabled"),
    (p.noDesktopIntegrationTools, "desktop integration tools must be absent"),
    (p.readOnlyRoot, "root filesystem must be read-only"),
    (p.randomInstanceId, "instance id must be locally randomized"),
    (p.freshNetworkDevice, "a fresh virtual NIC must be used")]

/-- The first violated guarantee. -/
def validate (p : IsolationPolicy) : Option String :=
  (p.checks.find? fun c => !c.1).map Prod.snd

/-- Only the fully hardened policy passes. -/
theorem validate_eq_none {p : IsolationPolicy} : p.validate = none ↔ p = hardened := by
  obtain ⟨a, b, c, d, e, f, g, h, i, j, k, l⟩ := p
  simp [validate, checks, hardened, List.find?_eq_none]

end IsolationPolicy

structure VmResources where
  vcpus : BitVec 32
  memoryMib : BitVec 32
  deriving DecidableEq

def VmResources.gateway : VmResources := ⟨1, 512⟩
def VmResources.browser : VmResources := ⟨2, 4096⟩

structure VmProvisionRequest where
  instanceId : InstanceId
  role : VmRole
  resources : VmResources
  disk : DiskLayer
  gpu : GpuBackend
  isolation : IsolationPolicy
  isolatedNetwork : String
  deriving DecidableEq

/-- The invariants a request must meet before anything is provisioned. -/
def VmProvisionRequest.validate (r : VmProvisionRequest) : Result Unit :=
  match r.isolation.validate with
  | some reason => .error (.isolation reason)
  | none =>
    if r.role = .browser ∧ !r.disk.readOnlyRoot then
      .error (.isolation "browser VM must have a read-only root filesystem")
    else .ok ()

end Aegis
