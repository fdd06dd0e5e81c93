import Aegis.Vm.Host

/-! What a VM leaves behind on the host: after a teardown that reports to be clean, and after a
provision that fails. -/
namespace Aegis.Vm

open Provisioning

/-! ### Teardown -/

namespace Circumstances

variable (o : Circumstances)

/-- An overlay is still there after its removal: the first look does not find it, or `shred` fails
before its effect, and then `remove_file` does or the second look does not find the overlay. -/
def Spares (path : String) : Prop :=
  o.looks 0 = false ∨
    (o.attempt (.shred path)).through = false ∧
      (o.looks 1 = false ∨ (o.attempt (.removeFile path)).through = false)

instance (path : String) : Decidable (o.Spares path) :=
  inferInstanceAs (Decidable (_ ∨ _ ∧ (_ ∨ _)))

/-- The removal of the overlay says that it is still there: neither the first look nor the last
one failed to find it. -/
def Notices : Prop := o.looks 0 = true ∧ o.looks 2 = true

instance : Decidable o.Notices := inferInstanceAs (Decidable (_ ∧ _))

end Circumstances

/-- What the removal of an overlay leaves, and what it reports. -/
structure Shredded (o : Circumstances) (path : String) (w : World) (gone : Bool) (w' : World) :
    Prop where
  table : w'.table = w.table
  domains : w'.host.domains = w.host.domains
  files : w'.host.files path = if o.Spares path then w.host.files path else none
  gone : gone = true ↔ w.host.files path = none ∨ ¬ (o.Spares path ∧ o.Notices)

theorem shredded (o : Circumstances) (path : String) (w : World) (l : List Action) :
    let out := (LibvirtController.shredOverlay path).run o.answer (w, ⟨0, l⟩)
    Shredded o path w out.1 out.2.1 := by
  unfold LibvirtController.shredOverlay
  split_ifs with hpath
  · subst hpath
    exact ⟨rfl, rfl, by simp [w.host.unnamed], by simp [w.host.unnamed]⟩
  simp only [Program.run_bind, Circumstances.run_pathExists]
  cases hfile : w.host.files path with
  | none =>
    simp only [Option.isSome_none, Bool.and_false, Bool.not_false, if_true, Program.run_pure]
    exact ⟨rfl, rfl, by simp [hfile], by simp [hfile]⟩
  | some f =>
    cases hfirst : o.looks 0 with
    | false =>
      simp only [Bool.false_and, Bool.not_false, if_true, Program.run_pure]
      exact ⟨rfl, rfl, by simp [hfile, Circumstances.Spares, hfirst], by
        simp [hfile, Circumstances.Notices, hfirst]⟩
    | true =>
      simp only [Option.isSome_some, Bool.true_and, Bool.not_true, Bool.false_eq_true, if_false,
        Program.run_bind, Circumstances.run_act, Circumstances.run_pathExists, zero_add]
      have hfiles : (w.host.after (o.attempt (.shred path)) (.shred path)).files path =
          if (o.attempt (.shred path)).through then none else w.host.files path :=
        Host.files_after_unlink rfl
      have hdomains : (w.host.after (o.attempt (.shred path)) (.shred path)).domains =
          w.host.domains := Host.domains_after_unlink rfl
      generalize w.host.after (o.attempt (.shred path)) (.shred path) = h at hfiles hdomains ⊢
      have hfiles' : (h.after (o.attempt (.removeFile path)) (.removeFile path)).files path =
          if (o.attempt (.removeFile path)).through then none else h.files path :=
        Host.files_after_unlink rfl
      have hdomains' : (h.after (o.attempt (.removeFile path)) (.removeFile path)).domains =
          h.domains := Host.domains_after_unlink rfl
      have hspares : o.Spares path ↔ (o.attempt (.shred path)).through = false ∧
          (o.looks 1 = false ∨ (o.attempt (.removeFile path)).through = false) := by
        simp [Circumstances.Spares, hfirst]
      cases hshred : (o.attempt (.shred path)).through with
      | true =>
        rw [if_pos hshred] at hfiles
        simp only [hfiles, Option.isSome_none, Bool.and_false, Bool.false_eq_true, if_false,
          Program.run_bind, Circumstances.run_pathExists, Program.run_pure]
        exact ⟨rfl, hdomains, by simp [hfiles, hspares, hshred], by simp [hspares, hshred]⟩
      | false =>
        rw [if_neg (by simp [hshred]), hfile] at hfiles
        cases hsecond : o.looks 1 with
        | false =>
          simp only [Bool.false_and, Bool.false_eq_true, if_false, Program.run_bind,
            Circumstances.run_pathExists, Program.run_pure, hfiles]
          exact ⟨rfl, hdomains, by simp [hfiles, hfile, hspares, hshred, hsecond], by
            simp [hfile, hspares, hshred, hsecond, Circumstances.Notices, hfirst]⟩
        | true =>
          simp only [hfiles, Option.isSome_some, Bool.and_self, if_true, Program.run_bind,
            Circumstances.run_act, Circumstances.run_pathExists, Program.run_pure, hfiles']
          refine ⟨rfl, hdomains'.trans hdomains, ?_, ?_⟩
          · rw [hfiles', hfiles, hfile]
            cases hremove : (o.attempt (.removeFile path)).through <;>
              simp [hspares, hshred, hsecond, hremove]
          · cases hremove : (o.attempt (.removeFile path)).through <;>
              simp [hfile, hspares, hshred, hsecond, hremove, Circumstances.Notices, hfirst]

/-- A clean report is true: the domain neither runs nor is it defined, and an overlay that was to
go is not there. -/
def Truthful (w : World) (o : Circumstances) (id : VmId) : Prop :=
  ∀ e r, w.table id = some e → (w.destroy o id).1 = .ok r → r.isClean = true →
    (w.destroy o id).2.host.running e.handle.domainName = false ∧
      (w.destroy o id).2.host.defined e.handle.domainName = false ∧
      (e.destroyOnClose = true → (w.destroy o id).2.host.files e.overlayPath = none)

namespace Tracked

variable (e : Tracked) (w : World) (o : Circumstances)

/-- The VM's domain runs, and `virsh destroy` fails before its effect. -/
def StaysOn : Prop :=
  w.host.running e.handle.domainName = true ∧
    (o.attempt (.powerOff e.handle.domainName)).through = false

/-- The VM's domain is defined, and `virsh undefine` succeeds. -/
def Undefines : Prop :=
  w.host.defined e.handle.domainName = true ∧
    (o.attempt (.undefine e.handle.domainName)).succeeds = true

/-- An overlay that was to go is spared. -/
def LeavesOverlay : Prop :=
  e.destroyOnClose = true ∧ w.host.files e.overlayPath ≠ none ∧ o.Spares e.overlayPath

end Tracked

/-- The two commands that take the domain down. -/
theorem undefines_iff (e : Tracked) (w : World) (o : Circumstances) :
    ((w.host.after (o.attempt (.powerOff e.handle.domainName))
      (.powerOff e.handle.domainName)).reply (o.attempt (.undefine e.handle.domainName))
        (.undefine e.handle.domainName)).isOk = true ↔ e.Undefines w o := by
  rw [Host.isOk_reply, Host.isSome_effect_undefine, Host.defined_after_powerOff]
  exact and_comm

theorem domains_undefined {e : Tracked} {w : World} {o : Circumstances} (h : e.Undefines w o) :
    ((w.host.after (o.attempt (.powerOff e.handle.domainName))
      (.powerOff e.handle.domainName)).after (o.attempt (.undefine e.handle.domainName))
        (.undefine e.handle.domainName)).domains e.handle.domainName = none ↔
      ¬ e.StaysOn w o := by
  rw [Host.domains_after_undefine (Attempt.through_of_succeeds h.2)
    (Host.defined_after_powerOff.trans h.1), Host.running_after_powerOff]
  simp [Tracked.StaysOn]

/-- The files are those that there were. -/
theorem files_undefined (h : Host) (a b : Attempt) (n m : String) :
    ((h.after a (.powerOff n)).after b (.undefine m)).files = h.files := by
  rw [Host.files_after_undefine, Host.files_after_powerOff]

theorem destroy_spec {w : World} {id : VmId} {e : Tracked} (h : w.table id = some e)
    (o : Circumstances) :
    ∃ r, (w.destroy o id).1 = .ok r ∧
      (r.domainUndefined = true ↔ e.Undefines w o) ∧
      (r.overlayShredded = true ↔ ¬ (e.LeavesOverlay w o ∧ o.Notices)) ∧
      (e.Undefines w o → ((w.destroy o id).2.host.domains e.handle.domainName = none ↔
        ¬ e.StaysOn w o)) ∧
      (e.destroyOnClose = true → ((w.destroy o id).2.host.files e.overlayPath = none ↔
        ¬ e.LeavesOverlay w o)) := by
  unfold World.destroy LibvirtController.destroy
  simp only [Program.run_bind, Circumstances.run_get, h, Circumstances.run_act]
  have hundefines := undefines_iff e w o
  have hdomains := domains_undefined (e := e) (w := w) (o := o)
  have hfiles := files_undefined w.host (o.attempt (.powerOff e.handle.domainName))
    (o.attempt (.undefine e.handle.domainName)) e.handle.domainName e.handle.domainName
  generalize w.host.after (o.attempt (.powerOff e.handle.domainName))
    (.powerOff e.handle.domainName) = h₁ at hundefines hdomains hfiles ⊢
  generalize h₁.after (o.attempt (.undefine e.handle.domainName))
    (.undefine e.handle.domainName) = h₂ at hdomains hfiles ⊢
  cases hclose : e.destroyOnClose with
  | false =>
    simp only [Bool.false_eq_true, if_false]
    exact ⟨_, rfl, hundefines, by simp [Tracked.LeavesOverlay, hclose], hdomains, nofun⟩
  | true =>
    have hshred := shredded o e.overlayPath ⟨h₂, w.table⟩
    simp only [if_true, Program.run_bind, Circumstances.run_setDestroyed, Program.run_pure]
    have hleaves : h₂.files e.overlayPath ≠ none ∧ o.Spares e.overlayPath ↔
        e.LeavesOverlay w o := by
      rw [hfiles]
      exact (and_iff_right hclose).symm
    refine ⟨_, rfl, hundefines, ?_, ?_, fun _ => ?_⟩
    · rw [(hshred _).gone, ← hleaves]
      tauto
    · rw [(hshred _).domains]
      exact hdomains
    · rw [(hshred _).files, ← hleaves]
      by_cases hspares : o.Spares e.overlayPath <;> simp [hspares]

/-- A clean report is true unless the domain was undefined as it ran, or the overlay was left and
a look missed it. -/
theorem destroy_truthful_iff (w : World) (o : Circumstances) (id : VmId) :
    Truthful w o id ↔ ∀ e, w.table id = some e →
      ¬ e.Undefines w o ∨ (e.LeavesOverlay w o ∧ o.Notices) ∨
        (¬ e.StaysOn w o ∧ ¬ e.LeavesOverlay w o) := by
  unfold Truthful
  constructor
  · intro htrue e he
    obtain ⟨r, hr, hundefined, hshredded, hdomains, hfiles⟩ := destroy_spec he o
    by_cases hun : e.Undefines w o
    · by_cases hclean : e.LeavesOverlay w o ∧ o.Notices
      · exact .inr (.inl hclean)
      · obtain ⟨hrun, hdef, hfile⟩ := htrue e r he hr (by
          unfold DestroyReport.isClean
          rw [hundefined.mpr hun, hshredded.mpr hclean]
          rfl)
        refine .inr (.inr ⟨(hdomains hun).mp ((Host.domains_eq_none _).mpr ⟨hrun, hdef⟩), ?_⟩)
        intro hleaves
        exact (hfiles hleaves.1).mp (hfile hleaves.1) hleaves
    · exact .inl hun
  · intro hcond e r he hr hclean
    obtain ⟨r', hr', hundefined, hshredded, hdomains, hfiles⟩ := destroy_spec he o
    obtain rfl : r = r' := Except.ok.inj (hr.symm.trans hr')
    unfold DestroyReport.isClean at hclean
    rw [Bool.and_eq_true, hundefined, hshredded] at hclean
    obtain ⟨hnotice, hun⟩ := hclean
    rcases hcond e he with hno | hboth | ⟨hoff, hgone⟩
    · exact absurd hun hno
    · exact absurd hboth hnotice
    · obtain ⟨hrun, hdef⟩ := (Host.domains_eq_none _).mp ((hdomains hun).mpr hoff)
      exact ⟨hrun, hdef, fun hclose => (hfiles hclose).mpr hgone⟩

/-- A host where the domain of the instance `0` runs on its overlay. -/
def runningHost : Host where
  domains name := if name = "inst-00000000" then some ⟨0, .running⟩ else none
  files path :=
    if path = "/run/aegis/inst-00000000-overlay.qcow2" then some (.overlay "/base.qcow2") else none
  unnamed := rfl

/-- The VM of that instance. -/
def runningVm : Tracked where
  handle := ⟨⟨1⟩, ⟨0⟩, .browser, "inst-00000000", .running⟩
  overlayPath := "/run/aegis/inst-00000000-overlay.qcow2"
  destroyOnClose := true

/-- Only the power-off fails: the hypervisor's process cannot be killed. -/
def powerOffFails : Circumstances where
  attempt
    | .powerOff _ => .failed (.exited ⟨some 1, "",
        "error: Failed to terminate process 4242 with SIGKILL: Device or resource busy"⟩ rfl) false
    | _ => .carriedOut
  looks _ := true

/-- The report is clean, and the domain runs on. -/
theorem powerOffFails_not_truthful :
    ¬ ∀ (w : World) (o : Circumstances) (id : VmId), Truthful w o id := by
  intro h
  let w : World := ⟨runningHost, fun _ => some runningVm⟩
  have htable : w.table ⟨1⟩ = some runningVm := rfl
  obtain ⟨r, hr, hundefined, hshredded, hdomains, -⟩ := destroy_spec htable powerOffFails
  have hun : runningVm.Undefines w powerOffFails := ⟨by decide, rfl⟩
  have hgone : ¬ runningVm.LeavesOverlay w powerOffFails := by
    rintro ⟨-, -, hspares⟩
    exact absurd hspares (by decide)
  have hclean : r.isClean = true := by
    unfold DestroyReport.isClean
    rw [hundefined.mpr hun, hshredded.mpr fun hl => hgone hl.1]
    rfl
  obtain ⟨hrun, hdef, -⟩ := h w powerOffFails ⟨1⟩ runningVm r rfl hr hclean
  exact (hdomains hun).mp ((Host.domains_eq_none _).mpr ⟨hrun, hdef⟩) ⟨by decide, rfl⟩

/-! ### Provision -/

/-- A provision that fails leaves no overlay that it created, no domain that it defined, and the
table as it was. -/
def Atomic (w : World) (o : Circumstances) (tempDir : String) (req : VmProvisionRequest)
    (id : VmId) : Prop :=
  ∀ e, (w.provision o tempDir req id).1 = .error e →
    ¬ (create req ∈ (w.provision o tempDir req id).2.2 ∧
      ∃ backing, (w.provision o tempDir req id).2.1.host.files req.disk.overlayPath =
        some (.overlay backing)) ∧
    ¬ (defining req tempDir ∈ (w.provision o tempDir req id).2.2 ∧
      (w.provision o tempDir req id).2.1.host.defined (domainName req) = true) ∧
    (w.provision o tempDir req id).2.1.table = w.table

theorem runChecked_output_error (why : Failure) (what : String) :
    ∃ e, runChecked (output (.error why)) what = .error e := by
  cases why with
  | exited out hout =>
    unfold output runChecked
    simp only [hout, Bool.not_false, if_true]
    exact ⟨_, rfl⟩
  | notRun e => exact ⟨e, rfl⟩

theorem runChecked_output_ok (what : String) :
    runChecked (output (.ok ())) what = .ok ⟨some 0, "", ""⟩ := rfl

section Stages

variable {w : World} {o : Circumstances} {tempDir : String} {req : VmProvisionRequest} {id : VmId}

theorem provision_invalid {e : Error} (h : req.validate = .error e) :
    w.provision o tempDir req id = (.error e, w, []) := by
  unfold World.provision LibvirtController.provision
  rw [h]
  rfl

variable (tempDir id) in
/-- `qemu-img create` fails. -/
theorem provision_uncreated (h : req.validate = .ok ()) {why : Failure}
    (hcreate : w.host.reply (o.attempt (create req)) (create req) = .error why) :
    ∃ e, w.provision o tempDir req id = (.error e, { w with host := createdHost w o req },
      w.host.taken (o.attempt (create req)) (create req)) := by
  obtain ⟨e, he⟩ := runChecked_output_error why "qemu-img create overlay"
  refine ⟨e, ?_⟩
  unfold create at hcreate
  unfold World.provision LibvirtController.provision
  simp only [h, Program.run_bind, Circumstances.run_act, hcreate, he]
  rfl

variable (id) in
/-- The domain XML cannot be written. -/
theorem provision_unwritten (h : req.validate = .ok ())
    (hcreate : w.host.reply (o.attempt (create req)) (create req) = .ok ()) {why : Failure}
    (hwrite : (createdHost w o req).reply (o.attempt (writing req tempDir)) (writing req tempDir) =
      .error why) :
    ∃ e, w.provision o tempDir req id = (.error e, { w with host := writtenHost w o tempDir req },
      w.host.taken (o.attempt (create req)) (create req) ++
        (createdHost w o req).taken (o.attempt (writing req tempDir)) (writing req tempDir)) := by
  refine ⟨.system ("failed to write domain XML: " ++ why.text), ?_⟩
  unfold createdHost create writing at hwrite
  unfold create at hcreate
  unfold World.provision LibvirtController.provision LibvirtController.writeTempXml
  simp only [h, Program.run_bind, Circumstances.run_act, hcreate, runChecked_output_ok]
  simp only [LibvirtController.definition] at hwrite ⊢
  simp only [hwrite, Program.run_pure]
  rfl

variable (id) in
/-- `virsh define` fails. -/
theorem provision_undefined (h : req.validate = .ok ())
    (hcreate : w.host.reply (o.attempt (create req)) (create req) = .ok ())
    (hwrite : (createdHost w o req).reply (o.attempt (writing req tempDir)) (writing req tempDir) =
      .ok ()) {why : Failure}
    (hdefine : (writtenHost w o tempDir req).reply (o.attempt (defining req tempDir))
      (defining req tempDir) = .error why) :
    ∃ e, w.provision o tempDir req id = (.error e, { w with host := cleanedHost w o tempDir req },
      w.host.taken (o.attempt (create req)) (create req) ++
        (createdHost w o req).taken (o.attempt (writing req tempDir)) (writing req tempDir) ++
        (writtenHost w o tempDir req).taken (o.attempt (defining req tempDir))
          (defining req tempDir) ++
        (definedHost w o tempDir req).taken
          (o.attempt (.removeFile (LibvirtController.xmlPath tempDir (domainName req))))
          (.removeFile (LibvirtController.xmlPath tempDir (domainName req)))) := by
  obtain ⟨e, he⟩ := runChecked_output_error why "virsh define domain"
  refine ⟨e, ?_⟩
  unfold writtenHost createdHost create writing defining at hdefine
  unfold createdHost create writing at hwrite
  unfold create at hcreate
  unfold World.provision LibvirtController.provision LibvirtController.writeTempXml
  simp only [h, Program.run_bind, Circumstances.run_act, hcreate, runChecked_output_ok]
  simp only [LibvirtController.definition] at hwrite hdefine ⊢
  simp only [hwrite, hdefine, he, Program.run_bind, Program.run_pure, Circumstances.run_act]
  rfl

theorem provision_defined (h : req.validate = .ok ())
    (hcreate : w.host.reply (o.attempt (create req)) (create req) = .ok ())
    (hwrite : (createdHost w o req).reply (o.attempt (writing req tempDir)) (writing req tempDir) =
      .ok ())
    (hdefine : (writtenHost w o tempDir req).reply (o.attempt (defining req tempDir))
      (defining req tempDir) = .ok ()) :
    (w.provision o tempDir req id).1 = .ok (LibvirtController.tracked req id).handle := by
  unfold writtenHost createdHost create writing defining at hdefine
  unfold createdHost create writing at hwrite
  unfold create at hcreate
  unfold World.provision LibvirtController.provision LibvirtController.writeTempXml
  simp only [h, Program.run_bind, Circumstances.run_act, hcreate, runChecked_output_ok]
  simp only [LibvirtController.definition] at hwrite hdefine ⊢
  simp only [hwrite, hdefine, Program.run_bind, Program.run_pure, Circumstances.run_act,
    runChecked_output_ok]

/-! The files and the domains at each of these steps. -/

theorem xmlPath_ne_empty (name : String) : LibvirtController.xmlPath tempDir name ≠ "" := by
  apply Text.joinPath_ne_empty
  intro h
  have := congrArg String.length h
  simp at this

theorem isSome_effect_create :
    (w.host.effect (create req)).isSome = true ↔ req.disk.overlayPath ≠ "" :=
  Host.isSome_write

theorem isSome_effect_writing (h : Host) : (h.effect (writing req tempDir)).isSome = true :=
  Host.isSome_write.mpr (xmlPath_ne_empty _)

theorem files_createdHost (h : w.host.Takes (o.attempt (create req)) (create req)) :
    (createdHost w o req).files req.disk.overlayPath = some (.overlay req.disk.backingImage) := by
  unfold createdHost
  have hwrite : w.host.effect (create req) =
      w.host.write req.disk.overlayPath (.overlay req.disk.backingImage) := rfl
  rw [Host.files_after_write hwrite h, Function.update_self]

theorem domains_writtenHost : (writtenHost w o tempDir req).domains = w.host.domains := by
  have hcreate : w.host.effect (create req) =
      w.host.write req.disk.overlayPath (.overlay req.disk.backingImage) := rfl
  have hwrite : (createdHost w o req).effect (writing req tempDir) =
      (createdHost w o req).write (LibvirtController.xmlPath tempDir (domainName req))
        (.domainXml (LibvirtController.definition req)) := rfl
  exact (Host.domains_after_write hwrite).trans (Host.domains_after_write hcreate)

theorem files_writtenHost : (writtenHost w o tempDir req).files =
    if (o.attempt (writing req tempDir)).through then
      Function.update (createdHost w o req).files
        (LibvirtController.xmlPath tempDir (domainName req))
        (some (.domainXml (LibvirtController.definition req)))
    else (createdHost w o req).files := by
  unfold writtenHost
  split_ifs with hthrough
  · exact Host.files_after_write rfl ⟨hthrough, isSome_effect_writing _⟩
  · unfold Host.after
    rw [if_neg hthrough]

theorem files_definedHost :
    (definedHost w o tempDir req).files = (writtenHost w o tempDir req).files :=
  Host.files_after_define

theorem domains_cleanedHost :
    (cleanedHost w o tempDir req).domains = (definedHost w o tempDir req).domains :=
  Host.domains_after_unlink rfl

theorem files_cleanedHost (h : req.disk.overlayPath ≠
    LibvirtController.xmlPath tempDir (domainName req)) :
    (cleanedHost w o tempDir req).files req.disk.overlayPath =
      (definedHost w o tempDir req).files req.disk.overlayPath :=
  Host.files_after_unlink_of_ne rfl h

/-- What there was of the overlay is gone when the XML was written to its path. -/
theorem cleanedHost_not_overlay (h : req.disk.overlayPath =
    LibvirtController.xmlPath tempDir (domainName req))
    (hwrite : (o.attempt (writing req tempDir)).through = true) (backing : String) :
    (cleanedHost w o tempDir req).files req.disk.overlayPath ≠ some (.overlay backing) := by
  unfold cleanedHost
  rw [h, Host.files_after_unlink rfl, files_definedHost, files_writtenHost, if_pos hwrite,
    Function.update_self]
  split_ifs <;> nofun

/-- The domain XML as it was written, where `virsh define` reads it. -/
theorem xml_writtenHost (hwrite : (o.attempt (writing req tempDir)).through = true) :
    (writtenHost w o tempDir req).files (LibvirtController.xmlPath tempDir (domainName req)) =
      some (.domainXml (LibvirtController.definition req)) := by
  rw [files_writtenHost, if_pos hwrite, Function.update_self]

theorem admits_writtenHost : (writtenHost w o tempDir req).Admits
    (LibvirtController.definition req) ↔ w.host.Admits (LibvirtController.definition req) := by
  unfold Host.Admits
  rw [domains_writtenHost]

variable (w o tempDir req)

/-- Nothing is created: the request is refused, or `qemu-img create` fails before its effect. -/
def Untouched : Prop :=
  req.validate ≠ .ok () ∨ ¬ w.host.Takes (o.attempt (create req)) (create req)

/-- Every step succeeds. -/
def Completes : Prop :=
  req.validate = .ok () ∧ req.disk.overlayPath ≠ "" ∧
    (o.attempt (create req)).succeeds = true ∧ (o.attempt (writing req tempDir)).succeeds = true ∧
    (o.attempt (defining req tempDir)).succeeds = true ∧
    w.host.Admits (LibvirtController.definition req)

/-- The overlay was to be where the temporary XML goes and is overwritten with it, and `virsh
define` does not fail after its effect. -/
def Overwritten : Prop :=
  req.disk.overlayPath = LibvirtController.xmlPath tempDir (domainName req) ∧
    (o.attempt (create req)).succeeds = true ∧ (o.attempt (writing req tempDir)).through = true ∧
    ¬ ((o.attempt (writing req tempDir)).succeeds = true ∧
      (o.attempt (defining req tempDir)).through = true ∧
      (o.attempt (defining req tempDir)).succeeds = false ∧
      w.host.Admits (LibvirtController.definition req))

variable {w o tempDir req}

theorem atomic_uncreated (h : req.validate = .ok ())
    (hcreate : w.host.reply (o.attempt (create req)) (create req) ≠ .ok ()) :
    Atomic w o tempDir req id ↔ ¬ w.host.Takes (o.attempt (create req)) (create req) := by
  obtain ⟨why, hwhy⟩ := Host.exists_reply_eq_error hcreate
  obtain ⟨e, he⟩ := provision_uncreated tempDir id h hwhy
  unfold Atomic
  rw [he]
  constructor
  · intro hatomic htakes
    refine (hatomic e rfl).1 ⟨Host.mem_taken.mpr ⟨rfl, htakes⟩, _, files_createdHost htakes⟩
  · intro hno e' _
    refine ⟨fun hleft => hno (Host.mem_taken.mp hleft.1).2, fun hleft => ?_, rfl⟩
    exact hno (Host.mem_taken.mp hleft.1).2

theorem atomic_unwritten (h : req.validate = .ok ())
    (hcreate : w.host.reply (o.attempt (create req)) (create req) = .ok ())
    (hwrite : (o.attempt (writing req tempDir)).succeeds = false) :
    Atomic w o tempDir req id ↔
      req.disk.overlayPath = LibvirtController.xmlPath tempDir (domainName req) ∧
        (o.attempt (writing req tempDir)).through = true := by
  have htakes : w.host.Takes (o.attempt (create req)) (create req) := Host.takes_of_reply hcreate
  obtain ⟨why, hwhy⟩ := Host.exists_reply_eq_error (h := createdHost w o req)
    (a := o.attempt (writing req tempDir)) (x := writing req tempDir) (by
      intro hok
      rw [(Host.reply_eq_ok.mp hok).1] at hwrite
      cases hwrite)
  obtain ⟨e, he⟩ := provision_unwritten id h hcreate hwhy
  unfold Atomic
  rw [he]
  constructor
  · intro hatomic
    by_contra hcontra
    refine (hatomic e rfl).1 ⟨List.mem_append_left _ (Host.mem_taken.mpr ⟨rfl, htakes⟩),
      req.disk.backingImage, ?_⟩
    show (writtenHost w o tempDir req).files req.disk.overlayPath = _
    rw [files_writtenHost]
    split_ifs with hthrough
    · rw [Function.update_of_ne fun hpath => hcontra ⟨hpath, hthrough⟩]
      exact files_createdHost htakes
    · exact files_createdHost htakes
  · rintro ⟨hpath, hthrough⟩ e' _
    refine ⟨?_, ?_, rfl⟩
    · rintro ⟨-, backing, hfile⟩
      change (writtenHost w o tempDir req).files req.disk.overlayPath = _ at hfile
      rw [hpath, xml_writtenHost hthrough] at hfile
      cases hfile
    · rintro ⟨hmem, -⟩
      rcases List.mem_append.mp hmem with hmem | hmem <;> cases (Host.mem_taken.mp hmem).1

theorem atomic_undefined (h : req.validate = .ok ())
    (hcreate : w.host.reply (o.attempt (create req)) (create req) = .ok ())
    (hwrite : (o.attempt (writing req tempDir)).succeeds = true)
    (hdefine : (writtenHost w o tempDir req).reply (o.attempt (defining req tempDir))
      (defining req tempDir) ≠ .ok ()) :
    Atomic w o tempDir req id ↔
      req.disk.overlayPath = LibvirtController.xmlPath tempDir (domainName req) ∧
        ¬ (writtenHost w o tempDir req).Takes (o.attempt (defining req tempDir))
          (defining req tempDir) := by
  have htakes : w.host.Takes (o.attempt (create req)) (create req) := Host.takes_of_reply hcreate
  have hthrough := Attempt.through_of_succeeds hwrite
  obtain ⟨why, hwhy⟩ := Host.exists_reply_eq_error hdefine
  obtain ⟨e, he⟩ := provision_undefined id h hcreate
    (Host.reply_eq_ok.mpr ⟨hwrite, isSome_effect_writing _⟩) hwhy
  unfold Atomic
  rw [he]
  constructor
  · intro hatomic
    obtain ⟨hoverlay, hdomain, -⟩ := hatomic e rfl
    constructor
    · by_contra hpath
      refine hoverlay ⟨by simp [Host.mem_taken, htakes], req.disk.backingImage, ?_⟩
      show (cleanedHost w o tempDir req).files req.disk.overlayPath = _
      rw [files_cleanedHost hpath, files_definedHost, files_writtenHost, if_pos hthrough,
        Function.update_of_ne hpath, files_createdHost htakes]
    · intro hdef
      refine hdomain ⟨by simp [Host.mem_taken, hdef], ?_⟩
      show (cleanedHost w o tempDir req).defined (domainName req) = true
      unfold Host.defined
      rw [domains_cleanedHost]
      exact Host.defined_after_define (xml_writtenHost hthrough) hdef
  · rintro ⟨hpath, hdef⟩ e' _
    refine ⟨?_, ?_, rfl⟩
    · rintro ⟨-, backing, hfile⟩
      exact cleanedHost_not_overlay hpath hthrough backing hfile
    · rintro ⟨hmem, -⟩
      simp only [List.mem_append, Host.mem_taken] at hmem
      rcases hmem with ((⟨heq, -⟩ | ⟨heq, -⟩) | ⟨-, hdef'⟩) | ⟨heq, -⟩
      · cases heq
      · cases heq
      · exact hdef hdef'
      · cases heq

end Stages

/-- A provision is atomic exactly when nothing is created, when every step succeeds, or when the
overlay was overwritten with the temporary XML: nothing is undone. -/
theorem provision_atomic_iff (w : World) (o : Circumstances) (tempDir : String)
    (req : VmProvisionRequest) (id : VmId) :
    Atomic w o tempDir req id ↔
      Untouched w o req ∨ Completes w o tempDir req ∨ Overwritten w o tempDir req := by
  cases hvalid : req.validate with
  | error e =>
    refine iff_of_true ?_ (.inl (.inl (by rw [hvalid]; nofun)))
    intro e' _
    rw [provision_invalid hvalid]
    exact ⟨nofun, nofun, rfl⟩
  | ok u =>
    by_cases hcreate : w.host.reply (o.attempt (create req)) (create req) = .ok ()
    · have htakes := Host.takes_of_reply hcreate
      obtain ⟨hcreated, hpath⟩ := Host.reply_eq_ok.mp hcreate
      have huntouched : ¬ Untouched w o req := by
        rintro (hno | hno)
        · exact hno hvalid
        · exact hno htakes
      rw [or_iff_right huntouched]
      by_cases hwrite : (o.attempt (writing req tempDir)).succeeds = true
      · have hthrough := Attempt.through_of_succeeds hwrite
        have hadmits : ((writtenHost w o tempDir req).effect (defining req tempDir)).isSome = true ↔
            w.host.Admits (LibvirtController.definition req) :=
          (Host.isSome_effect_define (xml_writtenHost hthrough)).trans admits_writtenHost
        by_cases hdefine : (writtenHost w o tempDir req).reply (o.attempt (defining req tempDir))
          (defining req tempDir) = .ok ()
        · obtain ⟨hdefined, hok⟩ := Host.reply_eq_ok.mp hdefine
          refine iff_of_true ?_ (.inl ⟨hvalid, isSome_effect_create.mp hpath, hcreated, hwrite,
            hdefined, hadmits.mp hok⟩)
          intro e he
          rw [provision_defined hvalid hcreate
            (Host.reply_eq_ok.mpr ⟨hwrite, isSome_effect_writing _⟩) hdefine] at he
          cases he
        · rw [atomic_undefined hvalid hcreate hwrite hdefine]
          have hrefused : (o.attempt (defining req tempDir)).succeeds = true →
              ¬ w.host.Admits (LibvirtController.definition req) := fun hs ha =>
            hdefine (Host.reply_eq_ok.mpr ⟨hs, hadmits.mpr ha⟩)
          constructor
          · rintro ⟨hsame, hno⟩
            exact .inr ⟨hsame, hcreated, hthrough, fun hleft =>
              hno ⟨hleft.2.1, hadmits.mpr hleft.2.2.2⟩⟩
          · rintro (⟨-, -, -, -, hs, ha⟩ | ⟨hsame, -, -, hno⟩)
            · exact absurd ha (hrefused hs)
            · refine ⟨hsame, fun ht => hno ⟨hwrite, ht.1, ?_, hadmits.mp ht.2⟩⟩
              exact Bool.eq_false_iff.mpr fun hs => hrefused hs (hadmits.mp ht.2)
      · rw [atomic_unwritten hvalid hcreate (Bool.eq_false_iff.mpr hwrite)]
        constructor
        · rintro ⟨hsame, hthrough⟩
          exact .inr ⟨hsame, hcreated, hthrough, fun hleft => hwrite hleft.1⟩
        · rintro (⟨-, -, -, hs, -, -⟩ | ⟨hsame, -, hthrough, -⟩)
          · exact absurd hs hwrite
          · exact ⟨hsame, hthrough⟩
    · rw [atomic_uncreated hvalid hcreate]
      have hrefused (hs : (o.attempt (create req)).succeeds = true) :
          req.disk.overlayPath = "" := by
        by_contra hpath
        exact hcreate (Host.reply_eq_ok.mpr ⟨hs, isSome_effect_create.mpr hpath⟩)
      constructor
      · exact fun hno => .inl (.inr hno)
      · rintro ((hno | hno) | ⟨-, hpath, hs, -⟩ | ⟨hsame, hs, -⟩)
        · exact absurd hvalid hno
        · exact hno
        · exact absurd (hrefused hs) hpath
        · exact absurd (hsame.symm.trans (hrefused hs)) (xmlPath_ne_empty _)

/-- A browser VM, as it is requested. -/
def browserRequest : VmProvisionRequest where
  instanceId := ⟨0⟩
  role := .browser
  resources := .browser
  disk := ⟨"/base.qcow2", "/run/aegis/inst-00000000-overlay.qcow2", true, true⟩
  gpu := .virtioGpu
  isolation := .hardened
  isolatedNetwork := "aegis-net"

/-- Only the temporary XML cannot be written. -/
def diskFull : Circumstances where
  attempt
    | .writeXml _ _ => .failed (.notRun (.io "No space left on device (os error 28)")) false
    | _ => .carriedOut
  looks _ := true

/-- The provision fails and its overlay stays. -/
theorem diskFull_not_atomic : ¬ ∀ (w : World) (o : Circumstances) (tempDir : String)
    (req : VmProvisionRequest) (id : VmId), Atomic w o tempDir req id := by
  intro h
  let w : World := ⟨⟨fun _ => none, fun _ => none, rfl⟩, fun _ => none⟩
  have hatomic := h w diskFull "/tmp" browserRequest ⟨1⟩
  rw [atomic_unwritten rfl rfl rfl] at hatomic
  exact absurd hatomic.2 (by decide)

end Aegis.Vm
