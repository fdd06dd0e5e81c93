import Aegis.Core.Vm
import Aegis.Lib.Text

/-! The VM controller: the VMs it tracks, and what it reports of a VM it destroyed. -/
namespace Aegis.Vm

/-- The captured result of an external command; there is no status when a signal killed it. -/
structure CommandOutput where
  status : Option ℤ
  stdout : String
  stderr : String
  deriving DecidableEq

def CommandOutput.success (o : CommandOutput) : Bool := o.status = some 0

/-- A VM the controller provisioned. -/
structure Entry where
  domainName : String
  overlayPath : String
  destroyOnClose : Bool
  deriving DecidableEq

/-- What `provision` remembers of a request it served. -/
def Entry.ofRequest (req : VmProvisionRequest) : Entry where
  domainName := req.instanceId.slug
  overlayPath := req.disk.overlayPath
  destroyOnClose := req.disk.destroyOnClose

/-- Turn a command that exited with a failure into an error. -/
def runChecked (r : Result CommandOutput) (what : String) : Result CommandOutput :=
  match r with
  | .error e => .error e
  | .ok out =>
    if !out.success then
      .error (.system (what ++ " failed (exit " ++ ((out.status.map toString).getD "signal") ++
        "): " ++ Text.trim out.stderr))
    else .ok out

/-- What the commands of one `provision` come to, in the order they are made, with the id that is
drawn: `qemu-img create`, writing the domain XML, `virsh define`. -/
structure ProvisionOutcomes where
  createOverlay : Result CommandOutput
  writeXml : Result Unit
  define : Result CommandOutput
  id : VmId

/-- `provision`: the request is validated before anything is touched. -/
def provision (req : VmProvisionRequest) (o : ProvisionOutcomes) : Result (VmId × Entry) :=
  match req.validate with
  | .error e => .error e
  | .ok () =>
    match runChecked o.createOverlay "qemu-img create overlay" with
    | .error e => .error e
    | .ok _ =>
      match o.writeXml with
      | .error e => .error e
      | .ok () =>
        match runChecked o.define "virsh define domain" with
        | .error e => .error e
        | .ok _ => .ok (o.id, .ofRequest req)

/-- A provisioned VM is remembered as it was requested. -/
theorem provision_eq_ok {req : VmProvisionRequest} {o : ProvisionOutcomes} {id : VmId} {e : Entry}
    (h : provision req o = .ok (id, e)) : e = .ofRequest req := by
  unfold provision at h
  split at h
  · cases h
  · split at h
    · cases h
    · split at h
      · cases h
      · split at h <;> cases h
        rfl

structure DestroyReport where
  id : VmId
  overlayShredded : Bool
  domainUndefined : Bool
  deriving DecidableEq

/-- Whether the teardown left no writable residue. -/
def DestroyReport.isClean (r : DestroyReport) : Bool := r.overlayShredded && r.domainUndefined

/-- What the commands and the file operations of one `destroy` come to, in the order they are
made: `virsh destroy`, `virsh undefine`, the overlay's existence, `shred -u -z`, its existence,
`remove_file`, its existence. -/
structure DestroyOutcomes where
  powerOff : Result CommandOutput
  undefine : Result CommandOutput
  overlayExists : Bool
  shred : Result CommandOutput
  overlayLeft : Bool
  remove : Result Unit
  overlayRemains : Bool

/-- Best-effort removal of the overlay: whether the file is gone afterwards. Only the checks of
its existence count, whatever `shred` and `remove_file` returned. -/
def shredOverlay (overlayPath : String) (o : DestroyOutcomes) : Bool :=
  if overlayPath = "" then true
  else if !o.overlayExists then true
  else !o.overlayRemains

/-- `virsh undefine` ran and exited with success. -/
def DestroyOutcomes.domainUndefined (o : DestroyOutcomes) : Bool :=
  match o.undefine with
  | .ok out => out.success
  | .error _ => false

/-- `destroy`: the forced power-off is best-effort, the other outcomes are reported. -/
def destroy (entry : Option Entry) (id : VmId) (o : DestroyOutcomes) : Result DestroyReport :=
  match entry with
  | none => .error (.notFound ("VM " ++ id.slug ++ " is not tracked"))
  | some e => .ok
    { id := id
      overlayShredded := if e.destroyOnClose then shredOverlay e.overlayPath o else true
      domainUndefined := o.domainUndefined }

/-- The domain was undefined and the overlay is gone. -/
def DestroyOutcomes.Clean (o : DestroyOutcomes) : Prop :=
  o.domainUndefined = true ∧ (o.overlayExists = false ∨ o.overlayRemains = false)

instance (o : DestroyOutcomes) : Decidable o.Clean :=
  inferInstanceAs (Decidable (_ ∧ (_ ∨ _)))

/-- A VM with an overlay that is destroyed with it. -/
structure Entry.Disposable (e : Entry) : Prop where
  overlay : e.overlayPath ≠ ""
  destroyed : e.destroyOnClose = true

theorem shredOverlay_eq_true {path : String} (h : path ≠ "") (o : DestroyOutcomes) :
    shredOverlay path o = true ↔ o.overlayExists = false ∨ o.overlayRemains = false := by
  unfold shredOverlay
  rw [if_neg h]
  cases o.overlayExists <;> simp

/-- The report on a disposable VM is clean exactly for clean outcomes. -/
theorem destroy_isClean {e : Entry} (h : e.Disposable) (id : VmId) (o : DestroyOutcomes) :
    (∃ r, destroy (some e) id o = .ok r ∧ r.isClean = true) ↔ o.Clean := by
  have hreport (r : DestroyReport) (hr : destroy (some e) id o = .ok r) :
      r.isClean = true ↔ o.Clean := by
    obtain rfl := Except.ok.inj hr
    simp only [DestroyReport.isClean, h.destroyed, if_true, Bool.and_eq_true,
      shredOverlay_eq_true h.overlay, DestroyOutcomes.Clean]
    exact and_comm
  constructor
  · rintro ⟨r, hr, hclean⟩
    exact (hreport r hr).mp hclean
  · intro hclean
    exact ⟨_, rfl, (hreport _ rfl).mpr hclean⟩

end Aegis.Vm
