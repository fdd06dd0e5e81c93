import Aegis.Vm.Controller
import Aegis.Vm.Domain
import Aegis.Lib.Program

/-! The host that the VM controller drives: libvirt's domains and the files on its disk, what the
external commands do to them, and `provision` and `destroy` as the commands that they issue. -/
namespace Aegis.Vm

inductive VmState where
  | defined
  | starting
  | running
  | stopping
  | stopped
  | destroyed
  | failed
  deriving DecidableEq

structure VmHandle where
  id : VmId
  instanceId : InstanceId
  role : VmRole
  domainName : String
  state : VmState
  deriving DecidableEq

/-- A VM in the controller's table. -/
structure Tracked where
  handle : VmHandle
  overlayPath : String
  destroyOnClose : Bool
  deriving DecidableEq

namespace Tracked

/-- What a teardown goes by. -/
def entry (t : Tracked) : Entry := ⟨t.handle.domainName, t.overlayPath, t.destroyOnClose⟩

def setDestroyed (t : Tracked) : Tracked :=
  { t with handle := { t.handle with state := .destroyed } }

end Tracked

/-- What `virsh define` takes a domain for, of all that its XML says. -/
structure Definition where
  name : String
  uuid : Uuid
  deriving DecidableEq

inductive File where
  | overlay (backing : String)
  | domainXml (d : Definition)
  | other
  deriving DecidableEq

/-- A domain that libvirt knows is defined or it runs. -/
inductive DomainState where
  /-- defined, but not running -/
  | shutOff
  /-- defined and running -/
  | running
  /-- running, but no longer defined -/
  | transient
  deriving DecidableEq

namespace DomainState

def isRunning : DomainState → Bool
  | shutOff => false
  | running | transient => true

def isDefined : DomainState → Bool
  | shutOff | running => true
  | transient => false

end DomainState

structure Domain where
  uuid : Uuid
  state : DomainState
  deriving DecidableEq

/-- The domains by their names and the files by their paths; no file has the empty path. -/
structure Host where
  domains : String → Option Domain
  files : String → Option File
  unnamed : files "" = none

namespace Host

variable (h : Host)

def running (name : String) : Bool := (h.domains name).any (·.state.isRunning)

def defined (name : String) : Bool := (h.domains name).any (·.state.isDefined)

theorem domains_eq_none {name : String} :
    h.domains name = none ↔ h.running name = false ∧ h.defined name = false := by
  unfold running defined
  cases h.domains name with
  | none => simp
  | some x => cases x with | mk uuid state => cases state <;> simp [DomainState.isRunning,
      DomainState.isDefined]

/-- A file is written, whatever the path held. -/
def write (path : String) (f : File) : Option Host :=
  if hpath : path = "" then none
  else some
    { h with
      files := Function.update h.files path (some f)
      unnamed := by rw [Function.update_of_ne (Ne.symm hpath)]; exact h.unnamed }

/-- A file is removed, which there has to be. -/
def unlink (path : String) : Option Host :=
  if h.files path = none then none
  else some
    { h with
      files := Function.update h.files path none
      unnamed := by
        by_cases hpath : "" = path
        · rw [hpath, Function.update_self]
        · rw [Function.update_of_ne hpath]; exact h.unnamed }

def setDomain (name : String) (x : Option Domain) : Host :=
  { h with domains := Function.update h.domains name x }

end Host

/-- What the controller does outside itself: `qemu-img create`, writing the domain XML,
`virsh define`, removing a file, `virsh destroy`, `virsh undefine` and `shred -u -z`. -/
inductive Action where
  | createOverlay (backing overlay : String)
  | writeXml (path : String) (d : Definition)
  | define (path : String)
  | removeFile (path : String)
  | powerOff (name : String)
  | undefine (name : String)
  | shred (path : String)
  deriving DecidableEq

/-- The effect of an action, where the tool or the operating system does not refuse it. A domain
is not defined over one of the same name and another UUID; undefining a domain that runs leaves
it running, and powering off one that is not defined removes it. -/
def Host.effect (h : Host) : Action → Option Host
  | .createOverlay backing overlay => h.write overlay (.overlay backing)
  | .writeXml path d => h.write path (.domainXml d)
  | .define path =>
    match h.files path with
    | some (.domainXml d) =>
      match h.domains d.name with
      | none => some (h.setDomain d.name (some ⟨d.uuid, .shutOff⟩))
      | some x =>
        if x.uuid = d.uuid then
          some (h.setDomain d.name
            (some ⟨d.uuid, if x.state.isRunning then .running else .shutOff⟩))
        else none
    | _ => none
  | .removeFile path | .shred path => h.unlink path
  | .powerOff name =>
    match h.domains name with
    | some ⟨uuid, .running⟩ => some (h.setDomain name (some ⟨uuid, .shutOff⟩))
    | some ⟨_, .transient⟩ => some (h.setDomain name none)
    | _ => none
  | .undefine name =>
    match h.domains name with
    | some ⟨_, .shutOff⟩ => some (h.setDomain name none)
    | some ⟨uuid, .running⟩ => some (h.setDomain name (some ⟨uuid, .transient⟩))
    | _ => none

/-- How an external command or a file operation fails. -/
inductive Failure where
  | exited (out : CommandOutput) (h : out.success = false)
  | notRun (e : Error)

namespace Failure

/-- What the tools answer where they refuse. -/
def refused : Failure := .exited ⟨some 1, "", ""⟩ rfl

def text : Failure → String
  | exited out _ => out.stderr
  | notRun e => e.display

end Failure

/-- What comes of an action: it is carried out, if it is not refused, or it fails, before or after
it had its effect. -/
inductive Attempt where
  | carriedOut
  | failed (why : Failure) (through : Bool)

namespace Attempt

/-- The action has its effect. -/
def through : Attempt → Bool
  | carriedOut => true
  | failed _ b => b

/-- The action is reported as done. -/
def succeeds : Attempt → Bool
  | carriedOut => true
  | failed _ _ => false

theorem through_of_succeeds {a : Attempt} (h : a.succeeds = true) : a.through = true := by
  cases a with
  | carriedOut => rfl
  | failed why b => cases h

end Attempt

namespace Host

/-- The action takes effect. -/
def Takes (h : Host) (a : Attempt) (x : Action) : Prop := a.through = true ∧ (h.effect x).isSome

instance (h : Host) (a : Attempt) (x : Action) : Decidable (h.Takes a x) :=
  inferInstanceAs (Decidable (_ ∧ _))

/-- The action, if it takes effect. -/
def taken (h : Host) (a : Attempt) (x : Action) : List Action := if h.Takes a x then [x] else []

def after (h : Host) (a : Attempt) (x : Action) : Host :=
  if a.through then (h.effect x).getD h else h

def reply (h : Host) (a : Attempt) (x : Action) : Except Failure Unit :=
  match a with
  | .failed why _ => .error why
  | .carriedOut => if (h.effect x).isSome then .ok () else .error .refused

theorem reply_eq_ok {h : Host} {a : Attempt} {x : Action} :
    h.reply a x = .ok () ↔ a.succeeds = true ∧ (h.effect x).isSome := by
  cases a with
  | carriedOut => unfold reply; split_ifs with hx <;> simp [Attempt.succeeds, hx]
  | failed why b => simp [reply, Attempt.succeeds]

end Host

/-! ### What the actions change -/

namespace Host

variable {h : Host} {path : String}

theorem getD_unlink_files : ((h.unlink path).getD h).files path = none := by
  unfold unlink
  split_ifs with hpath
  · exact hpath
  · exact Function.update_self path none h.files

theorem getD_unlink_domains : ((h.unlink path).getD h).domains = h.domains := by
  unfold unlink
  split_ifs <;> rfl

variable {a : Attempt} {x : Action}

/-- A file is gone after its removal, if that has its effect. -/
theorem files_after_unlink (hx : h.effect x = h.unlink path) :
    (h.after a x).files path = if a.through then none else h.files path := by
  unfold after
  rw [hx]
  split_ifs
  · exact getD_unlink_files
  · rfl

theorem files_after_unlink_of_ne {p : String} (hx : h.effect x = h.unlink path) (hp : p ≠ path) :
    (h.after a x).files p = h.files p := by
  unfold after
  rw [hx]
  unfold unlink
  split_ifs
  · rfl
  · exact Function.update_of_ne hp none h.files
  · rfl

theorem domains_after_unlink (hx : h.effect x = h.unlink path) :
    (h.after a x).domains = h.domains := by
  unfold after
  rw [hx]
  split_ifs
  · exact getD_unlink_domains
  · rfl

theorem isSome_write {f : File} : (h.write path f).isSome = true ↔ path ≠ "" := by
  unfold write
  split_ifs with hpath <;> simp [hpath]

theorem files_after_write {f : File} (hx : h.effect x = h.write path f) (ht : h.Takes a x) :
    (h.after a x).files = Function.update h.files path (some f) := by
  have hpath : path ≠ "" := isSome_write.mp (hx ▸ ht.2)
  unfold after write at *
  rw [if_pos ht.1, hx, dif_neg hpath]
  rfl

theorem files_after_write_of_ne {f : File} {p : String} (hx : h.effect x = h.write path f)
    (hp : p ≠ path) : (h.after a x).files p = h.files p := by
  unfold after
  rw [hx]
  unfold write
  split_ifs
  · rfl
  · exact Function.update_of_ne hp (some f) h.files
  · rfl

theorem domains_after_write {f : File} (hx : h.effect x = h.write path f) :
    (h.after a x).domains = h.domains := by
  unfold after
  rw [hx]
  unfold write
  split_ifs <;> rfl

theorem mem_taken {y : Action} : y ∈ h.taken a x ↔ y = x ∧ h.Takes a x := by
  unfold taken
  split_ifs with ht <;> simp [ht]

theorem takes_of_reply (hr : h.reply a x = .ok ()) : h.Takes a x :=
  ⟨Attempt.through_of_succeeds (reply_eq_ok.mp hr).1, (reply_eq_ok.mp hr).2⟩

theorem after_of_not_takes (ht : ¬ h.Takes a x) : h.after a x = h := by
  unfold after
  split_ifs with hthrough
  · have hnone : h.effect x = none := by
      rw [← Option.not_isSome_iff_eq_none]
      exact fun hsome => ht ⟨hthrough, hsome⟩
    rw [hnone]
    rfl
  · rfl

theorem exists_reply_eq_error (hr : h.reply a x ≠ .ok ()) : ∃ why, h.reply a x = .error why := by
  cases hreply : h.reply a x with
  | error why => exact ⟨why, rfl⟩
  | ok u => exact absurd hreply hr

variable {name : String}

theorem files_after_define : (h.after a (.define path)).files = h.files := by
  unfold after effect
  split_ifs
  · cases hf : h.files path with
    | none => simp [hf]
    | some f =>
      cases f with
      | overlay backing => simp [hf]
      | other => simp [hf]
      | domainXml d =>
        cases hx : h.domains d.name with
        | none => simp [hf, hx, setDomain]
        | some x => simp only [hf, hx]; split_ifs <;> rfl
  · rfl

/-- No domain of the same name has another UUID. -/
def Admits (h : Host) (d : Definition) : Prop := ∀ x, h.domains d.name = some x → x.uuid = d.uuid

theorem isSome_effect_define {d : Definition} (hfile : h.files path = some (.domainXml d)) :
    (h.effect (.define path)).isSome = true ↔ h.Admits d := by
  unfold effect Admits
  simp only [hfile]
  cases hx : h.domains d.name with
  | none => simp
  | some x => by_cases hu : x.uuid = d.uuid <;> simp [hu]

theorem defined_after_define {d : Definition} (hfile : h.files path = some (.domainXml d))
    (ht : h.Takes a (.define path)) : (h.after a (.define path)).defined d.name = true := by
  have hadmits := (isSome_effect_define hfile).mp ht.2
  unfold after effect defined
  rw [if_pos ht.1]
  simp only [hfile]
  cases hx : h.domains d.name with
  | none => simp [setDomain, DomainState.isDefined]
  | some x =>
    simp only [if_pos (hadmits x hx)]
    cases hrun : x.state.isRunning <;> simp [setDomain, DomainState.isDefined]

theorem isOk_reply :
    (h.reply a x).isOk = true ↔ a.succeeds = true ∧ (h.effect x).isSome = true := by
  rw [← reply_eq_ok]
  cases h.reply a x with
  | error why => exact ⟨nofun, nofun⟩
  | ok u => exact ⟨fun _ => rfl, fun _ => rfl⟩

theorem files_after_powerOff : (h.after a (.powerOff name)).files = h.files := by
  unfold after effect
  split_ifs
  · cases hx : h.domains name with
    | none => simp [hx]
    | some x =>
      obtain ⟨uuid, state⟩ := x
      cases state <;> simp [hx, setDomain]
  · rfl

theorem files_after_undefine : (h.after a (.undefine name)).files = h.files := by
  unfold after effect
  split_ifs
  · cases hx : h.domains name with
    | none => simp [hx]
    | some x =>
      obtain ⟨uuid, state⟩ := x
      cases state <;> simp [hx, setDomain]
  · rfl

/-- A domain is powered off where it runs, and stays defined where it is. -/
theorem running_after_powerOff :
    (h.after a (.powerOff name)).running name = (h.running name && !a.through) := by
  unfold after effect running
  cases a.through with
  | false => simp
  | true =>
    cases hx : h.domains name with
    | none => simp [hx]
    | some x =>
      obtain ⟨uuid, state⟩ := x
      cases state <;> simp [hx, setDomain, DomainState.isRunning]

theorem defined_after_powerOff :
    (h.after a (.powerOff name)).defined name = h.defined name := by
  unfold after effect defined
  cases a.through with
  | false => rfl
  | true =>
    cases hx : h.domains name with
    | none => simp [hx]
    | some x =>
      obtain ⟨uuid, state⟩ := x
      cases state <;> simp [hx, setDomain, DomainState.isDefined]

/-- `virsh undefine` refuses a domain that is not defined. -/
theorem isSome_effect_undefine : (h.effect (.undefine name)).isSome = h.defined name := by
  unfold effect defined
  cases hx : h.domains name with
  | none => simp [hx]
  | some x =>
    obtain ⟨uuid, state⟩ := x
    cases state <;> simp [hx, DomainState.isDefined]

/-- Undefining a domain leaves it where it runs. -/
theorem domains_after_undefine (ha : a.through = true) (hdefined : h.defined name = true) :
    (h.after a (.undefine name)).domains name = none ↔ h.running name = false := by
  unfold after effect running
  unfold defined at hdefined
  rw [if_pos ha]
  cases hx : h.domains name with
  | none => simp [hx] at hdefined
  | some x =>
    obtain ⟨uuid, state⟩ := x
    cases state <;> simp [hx, setDomain, DomainState.isRunning, DomainState.isDefined] at hdefined ⊢

end Host

/-! ### The controller's calls -/

/-- The host, and the VMs that the controller tracks. -/
structure World where
  host : Host
  table : VmId → Option Tracked

/-- What a call of the controller does step by step: it acts on the host, looks whether there is a
file, and reads and writes its table. -/
inductive Command where
  | act (x : Action)
  | pathExists (path : String)
  | get (id : VmId)
  | insert (id : VmId) (t : Tracked)
  | setDestroyed (id : VmId)

def Command.Reply : Command → Type
  | .act _ => Except Failure Unit
  | .pathExists _ => Bool
  | .get _ => Option Tracked
  | .insert _ _ | .setDestroyed _ => Unit

/-- A look that fails finds no file. -/
def World.answer (w : World) (a : Attempt) : (c : Command) → c.Reply × World
  | .act x => (w.host.reply a x, { w with host := w.host.after a x })
  | .pathExists path => (a.succeeds && (w.host.files path).isSome, w)
  | .get id => (w.table id, w)
  | .insert id t => ((), { w with table := Function.update w.table id (some t) })
  | .setDestroyed id =>
    ((), { w with table := Function.update w.table id ((w.table id).map Tracked.setDestroyed) })

/-- A call of the controller. -/
abbrev Procedure (α : Type) := Program Command.Reply α

namespace Procedure

def act (x : Action) : Procedure (Except Failure Unit) := Program.command (Command.act x)

def pathExists (path : String) : Procedure Bool := Program.command (Command.pathExists path)

def get (id : VmId) : Procedure (Option Tracked) := Program.command (Command.get id)

def insert (id : VmId) (t : Tracked) : Procedure Unit := Program.command (Command.insert id t)

def setDestroyed (id : VmId) : Procedure Unit := Program.command (Command.setDestroyed id)

end Procedure

/-- The output of a tool that was run. -/
def output : Except Failure Unit → Result CommandOutput
  | .ok () => .ok ⟨some 0, "", ""⟩
  | .error (.exited out _) => .ok out
  | .error (.notRun e) => .error e

namespace LibvirtController

open Procedure

/-- The temporary file of a domain's XML, with the name made safe for its stem. -/
def xmlPath (tempDir name : String) : String :=
  Text.joinPath tempDir ("aegis-" ++
    String.ofList (name.toList.map fun c => if c.isAlphanum ∨ c = '-' then c else '-') ++ ".xml")

def writeTempXml (tempDir : String) (d : Definition) : Procedure (Result String) := do
  match ← act (.writeXml (xmlPath tempDir d.name) d) with
  | .error why => pure (.error (.system ("failed to write domain XML: " ++ why.text)))
  | .ok () => pure (.ok (xmlPath tempDir d.name))

/-- What the rendered XML defines. -/
def definition (req : VmProvisionRequest) : Definition := ⟨domainName req, req.instanceId.uuid⟩

/-- What is tracked of a VM that was provisioned. -/
def tracked (req : VmProvisionRequest) (id : VmId) : Tracked where
  handle := ⟨id, req.instanceId, req.role, domainName req, .defined⟩
  overlayPath := req.disk.overlayPath
  destroyOnClose := req.disk.destroyOnClose

def provision (tempDir : String) (req : VmProvisionRequest) (id : VmId) :
    Procedure (Result VmHandle) := do
  match req.validate with
  | .error e => pure (.error e)
  | .ok () =>
    let created ← act (.createOverlay req.disk.backingImage req.disk.overlayPath)
    match runChecked (output created) "qemu-img create overlay" with
    | .error e => pure (.error e)
    | .ok _ =>
      match ← writeTempXml tempDir (definition req) with
      | .error e => pure (.error e)
      | .ok path =>
        let defined ← act (.define path)
        -- the temporary file goes, whether the domain was defined or not
        let _ ← act (.removeFile path)
        match runChecked (output defined) "virsh define domain" with
        | .error e => pure (.error e)
        | .ok _ =>
          insert id (tracked req id)
          pure (.ok (tracked req id).handle)

/-- Best-effort removal of the overlay: whether the file is gone afterwards. -/
def shredOverlay (path : String) : Procedure Bool := do
  if path = "" then pure true
  else if !(← pathExists path) then pure true
  else
    let _ ← act (.shred path)
    if ← pathExists path then
      let _ ← act (.removeFile path)
    let left ← pathExists path
    pure !left

def destroy (id : VmId) : Procedure (Result DestroyReport) := do
  match ← get id with
  | none => pure (.error (.notFound ("VM " ++ id.slug ++ " is not tracked")))
  | some e =>
    -- a domain that is shut off already makes this fail
    let _ ← act (.powerOff e.handle.domainName)
    let undefined ← act (.undefine e.handle.domainName)
    let shredded ← if e.destroyOnClose then shredOverlay e.overlayPath else pure true
    setDestroyed id
    pure (.ok ⟨id, shredded, undefined.isOk⟩)

end LibvirtController

/-- What comes of everything that one call does: of its actions, none of which it makes twice, and
of its looks at a path, whether the first, the second and so on can tell what is there. -/
structure Circumstances where
  attempt : Action → Attempt
  looks : ℕ → Bool

/-- What a call has done so far: how often it looked, and the actions that took effect. -/
structure Trace where
  looks : ℕ
  effects : List Action

def Trace.note (t : Trace) (h : Host) (a : Attempt) : Command → Trace
  | .act x => { t with effects := t.effects ++ h.taken a x }
  | .pathExists _ => { t with looks := t.looks + 1 }
  | _ => t

namespace Circumstances

variable (o : Circumstances)

/-- The attempt that a command meets. -/
def attemptAt (t : Trace) : Command → Attempt
  | .act x => o.attempt x
  | .pathExists _ => if o.looks t.looks then .carriedOut else .failed .refused false
  | _ => .carriedOut

/-- The world answers each command by the attempt that it meets. -/
def answer (s : World × Trace) (c : Command) : c.Reply × (World × Trace) :=
  let a := o.attemptAt s.2 c
  ((s.1.answer a c).1, (s.1.answer a c).2, s.2.note s.1.host a c)

variable (w : World) (t : Trace)

@[simp]
theorem run_act (x : Action) : (Procedure.act x).run o.answer (w, t) =
    (w.host.reply (o.attempt x) x, { w with host := w.host.after (o.attempt x) x },
      { t with effects := t.effects ++ w.host.taken (o.attempt x) x }) := rfl

@[simp]
theorem run_pathExists (path : String) : (Procedure.pathExists path).run o.answer (w, t) =
    (o.looks t.looks && (w.host.files path).isSome, w, { t with looks := t.looks + 1 }) := by
  show ((o.attemptAt t (.pathExists path)).succeeds && _, w, _) = _
  unfold attemptAt
  cases o.looks t.looks <;> rfl

@[simp]
theorem run_get (id : VmId) : (Procedure.get id).run o.answer (w, t) = (w.table id, w, t) := rfl

@[simp]
theorem run_insert (id : VmId) (v : Tracked) : (Procedure.insert id v).run o.answer (w, t) =
    ((), { w with table := Function.update w.table id (some v) }, t) := rfl

@[simp]
theorem run_setDestroyed (id : VmId) (s : World × Trace) :
    (Procedure.setDestroyed id).run o.answer s = ((), ⟨s.1.host,
      Function.update s.1.table id ((s.1.table id).map Tracked.setDestroyed)⟩, s.2) := rfl

end Circumstances

/-! ### Calls, one by one -/

/-- Destroy a VM in a world that answers as the circumstances have it. -/
def World.destroy (w : World) (o : Circumstances) (id : VmId) : Result DestroyReport × World :=
  let out := (LibvirtController.destroy id).run o.answer (w, ⟨0, []⟩)
  (out.1, out.2.1)

/-- Provision a VM in a world that answers as the circumstances have it: the result, the world
afterwards and the actions that took effect. -/
def World.provision (w : World) (o : Circumstances) (tempDir : String) (req : VmProvisionRequest)
    (id : VmId) : Result VmHandle × World × List Action :=
  let out := (LibvirtController.provision tempDir req id).run o.answer (w, ⟨0, []⟩)
  (out.1, out.2.1, out.2.2.effects)

namespace Provisioning

open LibvirtController

variable (req : VmProvisionRequest) (tempDir : String)

/-- The actions of a provision, in the order they are made. -/
def create : Action := .createOverlay req.disk.backingImage req.disk.overlayPath

def writing : Action := .writeXml (xmlPath tempDir (domainName req)) (definition req)

def defining : Action := .define (xmlPath tempDir (domainName req))

end Provisioning

open Provisioning

section Stages

variable (w : World) (o : Circumstances) (tempDir : String) (req : VmProvisionRequest)

/-- The host as the provision leaves it after each of its steps. -/
def createdHost : Host := w.host.after (o.attempt (create req)) (create req)

def writtenHost : Host :=
  (createdHost w o req).after (o.attempt (writing req tempDir)) (writing req tempDir)

def definedHost : Host :=
  (writtenHost w o tempDir req).after (o.attempt (defining req tempDir)) (defining req tempDir)

def cleanedHost : Host :=
  (definedHost w o tempDir req).after
    (o.attempt (.removeFile (LibvirtController.xmlPath tempDir (domainName req))))
    (.removeFile (LibvirtController.xmlPath tempDir (domainName req)))

end Stages

/-- What the commands of a provision come to. -/
def provisionOutcomes (w : World) (o : Circumstances) (tempDir : String) (req : VmProvisionRequest)
    (id : VmId) : ProvisionOutcomes where
  createOverlay := output (w.host.reply (o.attempt (create req)) (create req))
  writeXml := ((createdHost w o req).reply (o.attempt (writing req tempDir))
    (writing req tempDir)).mapError fun why =>
      .system ("failed to write domain XML: " ++ why.text)
  define := output ((writtenHost w o tempDir req).reply (o.attempt (defining req tempDir))
    (defining req tempDir))
  id := id

/-- The commands of `provision` return what the function of their outcomes does. -/
theorem provision_eq (w : World) (o : Circumstances) (tempDir : String) (req : VmProvisionRequest)
    (id : VmId) :
    (w.provision o tempDir req id).1.map (fun v => (v.id, Entry.ofRequest req)) =
      provision req (provisionOutcomes w o tempDir req id) := by
  unfold provision provisionOutcomes World.provision LibvirtController.provision
    LibvirtController.writeTempXml writtenHost createdHost create writing defining
    LibvirtController.definition
  cases req.validate with
  | error e => rfl
  | ok u =>
    simp only [Program.run_bind, Circumstances.run_act]
    cases runChecked (output (w.host.reply (o.attempt (.createOverlay req.disk.backingImage
      req.disk.overlayPath)) (.createOverlay req.disk.backingImage req.disk.overlayPath)))
      "qemu-img create overlay" with
    | error e => rfl
    | ok out =>
      simp only [Program.run_bind, Circumstances.run_act]
      generalize w.host.after _ _ = h₁
      cases h₁.reply (o.attempt (.writeXml (LibvirtController.xmlPath tempDir (domainName req))
        ⟨domainName req, req.instanceId.uuid⟩)) (.writeXml (LibvirtController.xmlPath tempDir
          (domainName req)) ⟨domainName req, req.instanceId.uuid⟩) with
      | error why => rfl
      | ok u =>
        simp only [Program.run_bind, Program.run_pure, Circumstances.run_act, Except.mapError]
        generalize h₁.after _ _ = h₂
        cases runChecked (output (h₂.reply (o.attempt (.define (LibvirtController.xmlPath tempDir
          (domainName req)))) (.define (LibvirtController.xmlPath tempDir (domainName req)))))
          "virsh define domain" with
        | error e => rfl
        | ok out => rfl
section Outcomes

variable (o : Circumstances) (h : Host) (name path : String)

/-- The host as a teardown leaves it after `virsh destroy`, and after `virsh undefine`. -/
def poweredOffHost : Host := h.after (o.attempt (.powerOff name)) (.powerOff name)

def undefinedHost : Host :=
  (poweredOffHost o h name).after (o.attempt (.undefine name)) (.undefine name)

/-- The host as the removal of an overlay leaves it after `shred`, and at its end. -/
def shredHost : Host := h.after (o.attempt (.shred path)) (.shred path)

def overlayLeft : Bool := o.looks 1 && ((shredHost o h path).files path).isSome

def removedHost : Host :=
  if overlayLeft o h path then
    (shredHost o h path).after (o.attempt (.removeFile path)) (.removeFile path)
  else shredHost o h path

/-- What the commands of a teardown come to. -/
def destroyOutcomes : DestroyOutcomes where
  powerOff := output (h.reply (o.attempt (.powerOff name)) (.powerOff name))
  undefine := output ((poweredOffHost o h name).reply (o.attempt (.undefine name))
    (.undefine name))
  overlayExists := o.looks 0 && ((undefinedHost o h name).files path).isSome
  shred := output ((undefinedHost o h name).reply (o.attempt (.shred path)) (.shred path))
  overlayLeft := overlayLeft o (undefinedHost o h name) path
  remove := ((shredHost o (undefinedHost o h name) path).reply (o.attempt (.removeFile path))
    (.removeFile path)).mapError fun why => .io why.text
  overlayRemains := o.looks 2 &&
    ((removedHost o (undefinedHost o h name) path).files path).isSome

theorem shredOverlay_eq (table : VmId → Option Tracked) (l : List Action) :
    ((LibvirtController.shredOverlay path).run o.answer
      (⟨undefinedHost o h name, table⟩, ⟨0, l⟩)).1 =
      shredOverlay path (destroyOutcomes o h name path) := by
  unfold LibvirtController.shredOverlay shredOverlay destroyOutcomes
  generalize undefinedHost o h name = h₂
  by_cases hpath : path = ""
  · rw [if_pos hpath, if_pos hpath]
    rfl
  rw [if_neg hpath, if_neg hpath]
  simp only [Program.run_bind, Circumstances.run_pathExists]
  cases o.looks 0 && (h₂.files path).isSome with
  | false => rfl
  | true =>
    simp only [Bool.not_true, Bool.false_eq_true, if_false, Program.run_bind,
      Circumstances.run_act, Circumstances.run_pathExists, zero_add]
    unfold removedHost overlayLeft shredHost
    cases o.looks 1 && ((h₂.after (o.attempt (.shred path)) (.shred path)).files path).isSome with
    | false =>
      simp only [Bool.false_eq_true, if_false, Program.run_bind, Circumstances.run_pathExists,
        Program.run_pure]
    | true =>
      simp only [if_true, Program.run_bind, Circumstances.run_act, Circumstances.run_pathExists,
        Program.run_pure]

end Outcomes

theorem domainUndefined_output {d : DestroyOutcomes} {r : Except Failure Unit}
    (h : d.undefine = output r) : d.domainUndefined = r.isOk := by
  unfold DestroyOutcomes.domainUndefined
  rw [h]
  rcases r with ⟨⟨out, hout⟩ | e⟩ | u
  · exact hout
  · rfl
  · rfl

theorem destroy_untracked {w : World} {id : VmId} (h : w.table id = none) (o : Circumstances)
    (d : DestroyOutcomes) : (w.destroy o id).1 = destroy none id d := by
  unfold World.destroy LibvirtController.destroy
  simp only [Program.run_bind, Circumstances.run_get, h]
  rfl

/-- The commands of `destroy` report what the function of their outcomes does. -/
theorem destroy_eq {w : World} {id : VmId} {e : Tracked} (h : w.table id = some e)
    (o : Circumstances) : (w.destroy o id).1 =
      destroy (some e.entry) id (destroyOutcomes o w.host e.handle.domainName e.overlayPath) := by
  have hshred := shredOverlay_eq o w.host e.handle.domainName e.overlayPath w.table
  have hundefined := domainUndefined_output
    (d := destroyOutcomes o w.host e.handle.domainName e.overlayPath) rfl
  unfold World.destroy LibvirtController.destroy destroy
  unfold undefinedHost poweredOffHost at hshred
  unfold poweredOffHost at hundefined
  simp only [Program.run_bind, Circumstances.run_get, h, Circumstances.run_act]
  rw [hundefined]
  cases hclose : e.destroyOnClose with
  | false =>
    simp only [Tracked.entry, hclose, Bool.false_eq_true, if_false]
    rfl
  | true =>
    simp only [Tracked.entry, hclose, if_true, Program.run_bind, Program.run_pure, hshred]

end Aegis.Vm
