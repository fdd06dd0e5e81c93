import Aegis.Vm.Host
import Aegis.Orchestrator.Session
import Aegis.Lib.Transition
import Mathlib.Data.List.Pairwise

/-! The calls of the VM controller as the orchestrator makes them, which interleave between their
commands: what keeps the domains and the overlays of the VMs that are alive apart. -/
namespace Aegis.Vm

open Orchestrator (Wiring)
open Transition

/-- A call of the controller. An instance id is drawn with the request, the VM's id in the call. -/
inductive Job where
  | provision (role : VmRole) (inst : InstanceId) (id : VmId)
  | destroy (id : VmId)

namespace Job

/-- The VM that a call is about. -/
def vm : Job → VmId
  | provision _ _ id => id
  | destroy id => id

def procedure (w : Wiring) (tempDir : String) : Job → Procedure Unit
  | provision role inst id => do
    let _ ← LibvirtController.provision tempDir (w.provisionRequest role inst) id
  | destroy id => do
    let _ ← LibvirtController.destroy id

end Job

/-- A call with what is left of it. -/
structure Call where
  job : Job
  rest : Procedure Unit

/-- The world that the controller works in, and every call that was made. -/
structure Fleet where
  world : World
  calls : List Call

inductive Label where
  | call (j : Job)
  | advance (i : ℕ) (a : Attempt)
  | turn (name : String) (on : Bool)

/-- The ids that a call drew. -/
def Call.drew (c : Call) : Option (InstanceId × VmId) :=
  match c.job with
  | .provision _ inst id => some (inst, id)
  | .destroy _ => none

/-- No id is drawn twice. -/
def Job.Fresh (s : Fleet) : Job → Prop
  | .provision _ inst id => ∀ c ∈ s.calls, ∀ p ∈ c.drew, p.1 ≠ inst ∧ p.2 ≠ id
  | .destroy _ => True

instance (s : Fleet) : DecidablePred (Job.Fresh s)
  | .provision _ inst id =>
    inferInstanceAs (Decidable (∀ c ∈ s.calls, ∀ p ∈ c.drew, p.1 ≠ inst ∧ p.2 ≠ id))
  | .destroy _ => inferInstanceAs (Decidable True)

/-- A domain is started or it stops, by other calls or by itself. -/
def Host.turn (h : Host) (name : String) (on : Bool) : Host :=
  match h.domains name with
  | some ⟨uuid, .shutOff⟩ => if on then h.setDomain name (some ⟨uuid, .running⟩) else h
  | some ⟨uuid, .running⟩ => if on then h else h.setDomain name (some ⟨uuid, .shutOff⟩)
  | some ⟨_, .transient⟩ => if on then h else h.setDomain name none
  | none => h

namespace Fleet

variable (w : Wiring) (tempDir : String)

/-- A call is made, or it issues its next command, or a domain starts or stops. -/
def step (s : Fleet) : Label → Option Fleet
  | .call j =>
    if j.Fresh s then some { s with calls := s.calls ++ [⟨j, j.procedure w tempDir⟩] } else none
  | .advance i a =>
    match s.calls[i]? with
    | some ⟨job, .issue c next⟩ =>
      some ⟨(s.world.answer a c).2, s.calls.set i ⟨job, next (s.world.answer a c).1⟩⟩
    | _ => none
  | .turn name on => some { s with world := { s.world with host := s.world.host.turn name on } }

/-- A controller that was just made, on any host. -/
def start (h : Host) : Fleet := ⟨⟨h, fun _ => none⟩, []⟩

/-- A VM that was provisioned and not yet destroyed. -/
def Live (s : Fleet) (id : VmId) (t : Tracked) : Prop :=
  s.world.table id = some t ∧ t.handle.state ≠ .destroyed

/-- No two live VMs have one domain name or one overlay. -/
def Distinct (s : Fleet) : Prop :=
  ∀ id id' t t', id ≠ id' → s.Live id t → s.Live id' t' →
    t.handle.domainName ≠ t'.handle.domainName ∧ t.overlayPath ≠ t'.overlayPath

end Fleet

/-- An action is on the VM's domain or on its overlay. -/
def Action.Touches (x : Action) (h : Host) (t : Tracked) : Prop :=
  match x with
  | .createOverlay _ p | .writeXml p _ | .removeFile p | .shred p => p = t.overlayPath
  | .define p => ∃ d, h.files p = some (.domainXml d) ∧ d.name = t.handle.domainName
  | .powerOff n | .undefine n => n = t.handle.domainName

namespace Fleet

variable (w : Wiring) (tempDir : String)

/-- A step takes no effect on the domain or the overlay of a live VM that it is not about. -/
def Harmless (s : Fleet) (l : Label) : Prop :=
  ∀ i a job x next, l = .advance i a → s.calls[i]? = some ⟨job, .issue (.act x) next⟩ →
    s.world.host.Takes a x → ∀ id t, s.Live id t → id ≠ job.vm → ¬ x.Touches s.world.host t

/-- A step is harmless, and after it no two live VMs share a name or an overlay. -/
def KeepsApart (s : Fleet) (l : Label) : Prop :=
  s.Harmless l ∧ ∀ s', s.step w tempDir l = some s' → s'.Distinct

/-- The first eight hexadecimal digits of two instance ids are the same. -/
def SameDigits (i j : InstanceId) : Prop := i.uuid.digits.take 8 = j.uuid.digits.take 8

end Fleet

/-- What a call works on: what is to be tracked of the VM, or what is. -/
def Job.own (w : Wiring) (table : VmId → Option Tracked) : Job → Option Tracked
  | .provision role inst id => some (LibvirtController.tracked (w.provisionRequest role inst) id)
  | .destroy id => table id

namespace Fleet

variable (w : Wiring) (tempDir : String)

/-- A command that tracks a VM, or takes effect on the VM's own domain or its own overlay. -/
def Decisive (h : Host) (a : Attempt) (t : Tracked) : Command → Prop
  | .act x => h.Takes a x ∧ x.Touches h t
  | .insert _ _ => True
  | _ => False

/-- Where a decisive command is issued, no other live VM is of an instance whose id begins with the
same eight digits. -/
def Alone (s : Fleet) (l : Label) : Prop :=
  ∀ i a job c next own, l = .advance i a → s.calls[i]? = some ⟨job, .issue c next⟩ →
    job.own w s.world.table = some own → Decisive s.world.host a own c →
    ∀ id t, s.Live id t → id ≠ job.vm → ¬ SameDigits own.handle.instanceId t.handle.instanceId

end Fleet

/-! ### Names and paths -/

namespace Fleet

theorem slug_toList (i : InstanceId) : i.slug.toList = "inst-".toList ++ i.uuid.digits.take 8 := by
  simp [InstanceId.slug, Uuid.slug]

/-- A slug tells instances apart by their first eight digits only. -/
theorem slug_eq_iff {i j : InstanceId} : i.slug = j.slug ↔ SameDigits i j := by
  rw [← String.toList_inj, slug_toList, slug_toList]
  exact List.append_right_inj _

theorem slug_relative (i : InstanceId) (suffix : String) :
    ¬ "/".toList <+: (i.slug ++ suffix).toList := by
  rw [String.toList_append, slug_toList]
  exact fun h => absurd (List.cons_prefix_cons.mp h).1 (by decide)

/-- A slug is safe for a file's stem. -/
theorem slug_safe (i : InstanceId) :
    i.slug.toList.map (fun c => if c.isAlphanum ∨ c = '-' then c else '-') = i.slug.toList := by
  have hall : ∀ c ∈ i.slug.toList, (if c.isAlphanum ∨ c = '-' then c else '-') = c := by
    intro c hc
    rw [slug_toList] at hc
    rcases List.mem_append.mp hc with hc | hc
    · have hinst : "inst-".toList.all (fun c => decide (c.isAlphanum ∨ c = '-')) = true := by decide
      exact if_pos (of_decide_eq_true (List.all_eq_true.mp hinst c hc))
    · obtain ⟨k, -, rfl⟩ := List.mem_map.mp (List.mem_of_mem_take hc)
      have hdigit : ∀ n : Fin 16, (if (Nat.digitChar n).isAlphanum ∨ Nat.digitChar n = '-'
          then Nat.digitChar n else '-') = Nat.digitChar n := by decide
      exact hdigit ⟨_, Nat.mod_lt _ (by decide)⟩
  exact (List.map_congr_left hall).trans (List.map_id _)

variable {w : Wiring} {tempDir : String} {i j : InstanceId}

theorem xmlPath_slug : LibvirtController.xmlPath tempDir i.slug =
    Text.joinPath tempDir ("aegis-" ++ i.slug ++ ".xml") := by
  unfold LibvirtController.xmlPath
  rw [slug_safe, String.ofList_toList]

theorem xmlPath_inj (h : LibvirtController.xmlPath tempDir i.slug =
    LibvirtController.xmlPath tempDir j.slug) : i.slug = j.slug := by
  have hrel (k : InstanceId) : ¬ "/".toList <+: ("aegis-" ++ k.slug ++ ".xml").toList := by
    rw [String.toList_append, String.toList_append]
    exact fun hpre => absurd (List.cons_prefix_cons.mp hpre).1 (by decide)
  rw [xmlPath_slug, xmlPath_slug] at h
  have he := congrArg String.toList (Text.joinPath_inj (hrel i) (hrel j) h)
  apply String.toList_inj.mp
  simpa using he

variable (w) in
/-- The overlay of an instance. -/
def overlayOf (i : InstanceId) : String :=
  Text.joinPath w.config.runtimeDir (i.slug ++ "-overlay.qcow2")

theorem overlayOf_inj (h : overlayOf w i = overlayOf w j) : i.slug = j.slug := by
  have he := congrArg String.toList
    (Text.joinPath_inj (slug_relative i _) (slug_relative j _) h)
  apply String.toList_inj.mp
  simpa using he

/-- No overlay is where a temporary XML goes. -/
theorem overlayOf_ne_xmlPath : overlayOf w i ≠ LibvirtController.xmlPath tempDir j.slug := by
  intro h
  have hlast := congrArg (fun s : String => s.toList.getLast?) h
  simp only [overlayOf, xmlPath_slug] at hlast
  rw [Text.getLast?_joinPath _ (by simp), Text.getLast?_joinPath _ (by simp)] at hlast
  simp only [String.toList_append] at hlast
  rw [List.getLast?_append_of_ne_nil _ (by decide),
    List.getLast?_append_of_ne_nil _ (by decide)] at hlast
  exact absurd hlast (by decide)

/-- A VM whose domain and overlay are named after its instance. -/
structure Formed (w : Wiring) (t : Tracked) : Prop where
  name : t.handle.domainName = t.handle.instanceId.slug
  overlay : t.overlayPath = overlayOf w t.handle.instanceId

theorem formed_tracked (w : Wiring) (role : VmRole) (i : InstanceId) (id : VmId) :
    Formed w (LibvirtController.tracked (w.provisionRequest role i) id) := ⟨rfl, rfl⟩

section Formed

variable {t t' : Tracked}

theorem Formed.name_eq_iff (h : Formed w t) (h' : Formed w t') :
    t.handle.domainName = t'.handle.domainName ↔
      SameDigits t.handle.instanceId t'.handle.instanceId := by
  rw [h.name, h'.name, slug_eq_iff]

theorem Formed.overlay_eq_iff (h : Formed w t) (h' : Formed w t') :
    t.overlayPath = t'.overlayPath ↔ SameDigits t.handle.instanceId t'.handle.instanceId := by
  rw [h.overlay, h'.overlay]
  constructor
  · intro he
    exact slug_eq_iff.mp (overlayOf_inj he)
  · intro hsame
    unfold overlayOf
    rw [slug_eq_iff.mpr hsame]

theorem Formed.apart (h : Formed w t) (h' : Formed w t')
    (hno : ¬ SameDigits t.handle.instanceId t'.handle.instanceId) :
    t.handle.domainName ≠ t'.handle.domainName ∧ t.overlayPath ≠ t'.overlayPath :=
  ⟨fun he => hno ((h.name_eq_iff h').mp he), fun he => hno ((h.overlay_eq_iff h').mp he)⟩

/-- What touches one of two VMs of the same eight digits touches the other. -/
theorem Formed.touches_iff (h : Formed w t) (h' : Formed w t')
    (hsame : SameDigits t.handle.instanceId t'.handle.instanceId) (x : Action) (host : Host) :
    x.Touches host t ↔ x.Touches host t' := by
  unfold Action.Touches
  rw [(h.name_eq_iff h').mpr hsame, (h.overlay_eq_iff h').mpr hsame]

end Formed

end Fleet

/-- An action is on the VM's own domain, its own overlay or its own temporary XML, and where it
defines a domain it is by that VM's name. -/
def Action.Within (tempDir : String) (h : Host) (t : Tracked) : Action → Prop
  | .createOverlay _ p | .shred p => p = t.overlayPath
  | .writeXml p d =>
    p = LibvirtController.xmlPath tempDir t.handle.domainName ∧ d.name = t.handle.domainName
  | .removeFile p =>
    p = t.overlayPath ∨ p = LibvirtController.xmlPath tempDir t.handle.domainName
  | .define p => p = LibvirtController.xmlPath tempDir t.handle.domainName ∧
      ∀ f, h.files p = some f → ∃ d, f = .domainXml d ∧ d.name = t.handle.domainName
  | .powerOff n | .undefine n => n = t.handle.domainName

namespace Fleet

variable {w : Wiring} {tempDir : String}

/-- An action on what is a VM's own touches no VM of other eight digits. -/
theorem sameDigits_of_touches {t t' : Tracked} (h : Formed w t) (h' : Formed w t') {x : Action}
    {host : Host} (hx : x.Within tempDir host t) (ht : x.Touches host t') :
    SameDigits t.handle.instanceId t'.handle.instanceId := by
  have hxml : t'.overlayPath ≠ LibvirtController.xmlPath tempDir t.handle.domainName := by
    rw [h'.overlay, h.name]
    exact overlayOf_ne_xmlPath
  cases x with
  | createOverlay backing p => exact (h.overlay_eq_iff h').mp (hx.symm.trans ht)
  | shred p => exact (h.overlay_eq_iff h').mp (hx.symm.trans ht)
  | writeXml p d => exact absurd (ht.symm.trans hx.1) hxml
  | removeFile p =>
    rcases hx with hx | hx
    · exact (h.overlay_eq_iff h').mp (hx.symm.trans ht)
    · exact absurd (ht.symm.trans hx) hxml
  | define p =>
    obtain ⟨d, hfile, hname⟩ := ht
    obtain ⟨d', hd, hname'⟩ := hx.2 _ hfile
    cases hd
    exact (h.name_eq_iff h').mp (hname'.symm.trans hname)
  | powerOff n => exact (h.name_eq_iff h').mp (hx.symm.trans ht)
  | undefine n => exact (h.name_eq_iff h').mp (hx.symm.trans ht)

end Fleet

/-! ### What a call keeps to, whatever the others do -/

namespace Fleet

variable (w : Wiring) (tempDir : String)

/-- What the other calls, and the domains themselves, do to the world between two commands of a
call. -/
structure Rely (job : Job) (u v : World) : Prop where
  /-- A temporary XML stays as it is, or what there is defines the domain that it is named for. -/
  xml : ∀ i : InstanceId,
    v.host.files (LibvirtController.xmlPath tempDir i.slug) =
      u.host.files (LibvirtController.xmlPath tempDir i.slug) ∨
    ∀ f, v.host.files (LibvirtController.xmlPath tempDir i.slug) = some f →
      ∃ d, f = .domainXml d ∧ d.name = i.slug
  /-- A VM that is tracked is at most marked as destroyed. -/
  tracked : ∀ id t, u.table id = some t →
    v.table id = some t ∨ v.table id = some t.setDestroyed
  /-- The VM that a call provisions is tracked by that call only. -/
  fresh : ∀ role i id, job = .provision role i id → u.table id = none → v.table id = none

variable {tempDir} in
theorem Rely.refl (job : Job) (u : World) : Rely tempDir job u u :=
  ⟨fun _ => .inl rfl, fun _ _ h => .inl h, fun _ _ _ _ h => h⟩

variable {tempDir} in
theorem Rely.trans (job : Job) (u v x : World) (h : Rely tempDir job u v)
    (h' : Rely tempDir job v x) : Rely tempDir job u x where
  xml i := by
    rcases h'.xml i with hsame | hnamed
    · rw [hsame]
      exact h.xml i
    · exact .inr hnamed
  tracked id t ht := by
    rcases h.tracked id t ht with hv | hv
    · exact h'.tracked id t hv
    · rcases h'.tracked id _ hv with hx | hx
      · exact .inr hx
      · exact .inr hx
  fresh role i id hjob hu := h'.fresh role i id hjob (h.fresh role i id hjob hu)

/-- The commands of a call: its actions are within what is its VM's own, and it tracks its own VM
once. -/
def Allowed (job : Job) (u : World) : Command → Prop
  | .act x => ∃ t, job.own w u.table = some t ∧ x.Within tempDir u.host t
  | .insert id t => ∃ role i, job = .provision role i id ∧ u.table id = none ∧
      t = LibvirtController.tracked (w.provisionRequest role i) id
  | _ => True

/-- The world answers a command in one way or another. -/
def Answers (u : World) (c : Command) (r : c.Reply) (v : World) : Prop := ∃ a, u.answer a c = (r, v)

def CallSafe {α : Type} (job : Job) (p : Procedure α) (u : World) : Prop :=
  p.Safe Answers (Rely tempDir job) (Allowed w tempDir job) u

/-- A temporary XML that was written reads as it was written. -/
theorem files_of_written {u v : World} {p : String} {d : Definition}
    (h : Answers u (.act (.writeXml p d)) (.ok ()) v) : v.host.files p = some (.domainXml d) := by
  obtain ⟨a, ha⟩ := h
  obtain ⟨hreply, rfl⟩ := Prod.mk.inj ha
  show (u.host.after a (.writeXml p d)).files p = _
  rw [Host.files_after_write rfl (Host.takes_of_reply hreply), Function.update_self]

variable {tempDir} in
/-- An action tracks no VM. -/
theorem Rely.fresh_act {role : VmRole} {i : InstanceId} {id : VmId} {u v v' : World} {x : Action}
    {r : Except Failure Unit} (h : Rely tempDir (.provision role i id) u v)
    (hu : u.table id = none) (ha : Answers v (.act x) r v') : v'.table id = none := by
  obtain ⟨a, ha⟩ := ha
  obtain rfl := (Prod.mk.inj ha).2
  exact h.fresh role i id rfl hu

theorem safe_provision (role : VmRole) (i : InstanceId) (id : VmId) {u : World}
    (hu : u.table id = none) :
    CallSafe w tempDir (.provision role i id)
      ((Job.provision role i id).procedure w tempDir) u := by
  refine Program.Safe.bind ?_ fun _ _ => trivial
  unfold LibvirtController.provision
  rw [Wiring.provisionRequest_validate]
  refine Program.safe_command_bind.mpr fun u₁ h₁ => ⟨⟨_, rfl, rfl⟩, ?_⟩
  rintro r v₁ ⟨a₁, ha₁⟩
  cases runChecked (output r) "qemu-img create overlay" with
  | error e => trivial
  | ok out =>
    unfold LibvirtController.writeTempXml
    simp only [bind_assoc]
    refine Program.safe_command_bind.mpr fun u₂ h₂ => ⟨⟨_, rfl, rfl, rfl⟩, ?_⟩
    rintro (why | _) v₂ hv₂
    · trivial
    · refine Program.safe_command_bind.mpr fun u₃ h₃ => ⟨⟨_, rfl, rfl, ?_⟩, ?_⟩
      · intro f hf
        rcases h₃.xml i with hsame | hnamed
        · obtain rfl : _ = f := Option.some.inj ((hsame.trans (files_of_written hv₂)).symm.trans hf)
          exact ⟨_, rfl, rfl⟩
        · exact hnamed f hf
      · rintro r v₃ ⟨a₃, ha₃⟩
        refine Program.safe_command_bind.mpr fun u₄ h₄ => ⟨⟨_, rfl, .inr rfl⟩, ?_⟩
        rintro r' v₄ ⟨a₄, ha₄⟩
        cases runChecked (output r) "virsh define domain" with
        | error e => trivial
        | ok out =>
          refine Program.safe_command_bind.mpr fun u₅ h₅ => ⟨⟨role, i, rfl, ?_, rfl⟩, ?_⟩
          · have hv₂' := h₂.fresh_act (h₁.fresh_act hu ⟨a₁, ha₁⟩) hv₂
            have hv₄ := h₄.fresh_act (h₃.fresh_act hv₂' ⟨a₃, ha₃⟩) ⟨a₄, ha₄⟩
            exact h₅.fresh role i id rfl hv₄
          · intros
            trivial

/-- A VM is tracked, destroyed or not. -/
def Tracks (u : World) (id : VmId) (e : Tracked) : Prop :=
  u.table id = some e ∨ u.table id = some e.setDestroyed

section Destroy

variable {w tempDir} {id : VmId} {e : Tracked} {u v : World}

theorem Tracks.rely (h : Tracks u id e) (hv : Rely tempDir (.destroy id) u v) : Tracks v id e := by
  rcases h with h | h
  · exact hv.tracked id e h
  · rcases hv.tracked id _ h with h' | h'
    · exact .inr h'
    · exact .inr h'

theorem Tracks.act (h : Tracks u id e) {x : Action} {r : Except Failure Unit}
    (ha : Answers u (.act x) r v) : Tracks v id e := by
  obtain ⟨a, ha⟩ := ha
  obtain rfl := (Prod.mk.inj ha).2
  exact h

theorem Tracks.pathExists (h : Tracks u id e) {p : String} {r : Bool}
    (ha : Answers u (.pathExists p) r v) : Tracks v id e := by
  obtain ⟨a, ha⟩ := ha
  obtain rfl := (Prod.mk.inj ha).2
  exact h

/-- What a teardown does is within what is its VM's own. -/
theorem Tracks.allowed (h : Tracks u id e) {x : Action} (hx : x.Within tempDir u.host e) :
    Allowed w tempDir (.destroy id) u (.act x) := by
  rcases h with h | h
  · exact ⟨e, h, hx⟩
  · exact ⟨e.setDestroyed, h, by cases x <;> exact hx⟩

theorem safe_shredOverlay (h : Tracks u id e) :
    CallSafe w tempDir (.destroy id) (LibvirtController.shredOverlay e.overlayPath) u := by
  unfold LibvirtController.shredOverlay
  split_ifs with hpath
  · trivial
  refine Program.safe_command_bind.mpr fun u₁ h₁ => ⟨trivial, ?_⟩
  rintro (_ | _) v₁ hv₁
  · trivial
  have ht₁ := (h.rely h₁).pathExists hv₁
  refine Program.safe_command_bind.mpr fun u₂ h₂ => ⟨(ht₁.rely h₂).allowed rfl, ?_⟩
  intro r v₂ hv₂
  have ht₂ := (ht₁.rely h₂).act hv₂
  refine Program.safe_command_bind.mpr fun u₃ h₃ => ⟨trivial, ?_⟩
  rintro (_ | _) v₃ hv₃
  · exact Program.safe_command_bind.mpr fun _ _ => ⟨trivial, fun _ _ _ => trivial⟩
  have ht₃ := (ht₂.rely h₃).pathExists hv₃
  refine Program.safe_command_bind.mpr fun u₄ h₄ => ⟨(ht₃.rely h₄).allowed (.inl rfl), ?_⟩
  intro r v₄ hv₄
  exact Program.safe_command_bind.mpr fun _ _ => ⟨trivial, fun _ _ _ => trivial⟩

variable (w tempDir id u)

theorem safe_destroy :
    CallSafe w tempDir (.destroy id) ((Job.destroy id).procedure w tempDir) u := by
  refine Program.Safe.bind ?_ fun _ _ => trivial
  unfold LibvirtController.destroy
  refine Program.safe_command_bind.mpr fun u₁ h₁ => ⟨trivial, ?_⟩
  rintro (_ | e) v₁ ⟨a₁, ha₁⟩
  · trivial
  have ht₁ : Tracks v₁ id e := by
    obtain ⟨he, rfl⟩ := Prod.mk.inj ha₁
    exact .inl he
  refine Program.safe_command_bind.mpr fun u₂ h₂ => ⟨(ht₁.rely h₂).allowed rfl, ?_⟩
  intro r v₂ hv₂
  have ht₂ := (ht₁.rely h₂).act hv₂
  refine Program.safe_command_bind.mpr fun u₃ h₃ => ⟨(ht₂.rely h₃).allowed rfl, ?_⟩
  intro r' v₃ hv₃
  have ht₃ := (ht₂.rely h₃).act hv₃
  dsimp only
  split_ifs
  · refine Program.Safe.bind (safe_shredOverlay ht₃) ?_
    intro shredded u₄
    exact Program.safe_command_bind.mpr fun _ _ => ⟨trivial, fun _ _ _ => trivial⟩
  · exact Program.safe_command_bind.mpr fun _ _ => ⟨trivial, fun _ _ _ => trivial⟩

end Destroy

/-- Every call is safe where it is made, if it tracks a VM that is not tracked yet. -/
theorem safe_procedure (j : Job) (u : World)
    (h : ∀ role i id, j = .provision role i id → u.table id = none) :
    CallSafe w tempDir j (j.procedure w tempDir) u := by
  cases j with
  | provision role i id => exact safe_provision w tempDir role i id (h role i id rfl)
  | destroy id => exact safe_destroy w tempDir id u

/-! ### What a command of one call is to the others -/

/-- The action writes or removes the file. -/
def Writes (x : Action) (p : String) : Prop :=
  match x with
  | .createOverlay _ q | .writeXml q _ | .removeFile q | .shred q => q = p
  | .define _ | .powerOff _ | .undefine _ => False

theorem files_after_of_not_writes {h : Host} {a : Attempt} {x : Action} {p : String}
    (hx : ¬ Writes x p) : (h.after a x).files p = h.files p := by
  cases x with
  | createOverlay backing q =>
    have hwrite : h.effect (.createOverlay backing q) = h.write q (.overlay backing) := rfl
    exact Host.files_after_write_of_ne hwrite (Ne.symm hx)
  | writeXml q d =>
    have hwrite : h.effect (.writeXml q d) = h.write q (.domainXml d) := rfl
    exact Host.files_after_write_of_ne hwrite (Ne.symm hx)
  | removeFile q =>
    have hunlink : h.effect (.removeFile q) = h.unlink q := rfl
    exact Host.files_after_unlink_of_ne hunlink (Ne.symm hx)
  | shred q =>
    have hunlink : h.effect (.shred q) = h.unlink q := rfl
    exact Host.files_after_unlink_of_ne hunlink (Ne.symm hx)
  | define q => rw [Host.files_after_define]
  | powerOff n => rw [Host.files_after_powerOff]
  | undefine n => rw [Host.files_after_undefine]

variable {w tempDir}

theorem own_formed {u : World} (h : ∀ id t, u.table id = some t → Formed w t) {job : Job}
    {t : Tracked} (ht : job.own w u.table = some t) : Formed w t := by
  cases job with
  | provision role i id =>
    obtain rfl := Option.some.inj ht
    exact formed_tracked w role i id
  | destroy id => exact h id t ht

/-- An action within what is a VM's own leaves every temporary XML as it is, or removed, or named
for the domain that it defines. -/
theorem xml_after {t : Tracked} (h : Formed w t) {host : Host} {a : Attempt} {x : Action}
    (hx : x.Within tempDir host t) (i : InstanceId) :
    (host.after a x).files (LibvirtController.xmlPath tempDir i.slug) =
      host.files (LibvirtController.xmlPath tempDir i.slug) ∨
    ∀ f, (host.after a x).files (LibvirtController.xmlPath tempDir i.slug) = some f →
      ∃ d, f = .domainXml d ∧ d.name = i.slug := by
  by_cases hw : Writes x (LibvirtController.xmlPath tempDir i.slug)
  · cases x with
    | createOverlay backing p =>
      exact absurd (h.overlay.symm.trans (hx.symm.trans hw)) overlayOf_ne_xmlPath
    | shred p => exact absurd (h.overlay.symm.trans (hx.symm.trans hw)) overlayOf_ne_xmlPath
    | removeFile p =>
      obtain rfl : p = _ := hw
      rw [Host.files_after_unlink rfl]
      split_ifs
      · exact .inr nofun
      · exact .inl rfl
    | writeXml p d =>
      obtain rfl : p = _ := hw
      by_cases ht : host.Takes a (.writeXml (LibvirtController.xmlPath tempDir i.slug) d)
      · refine .inr fun f hf => ⟨d, ?_, ?_⟩
        · rw [Host.files_after_write rfl ht, Function.update_self] at hf
          exact (Option.some.inj hf).symm
        · rw [hx.2, h.name]
          have hpath := hx.1
          rw [h.name] at hpath
          exact (xmlPath_inj hpath).symm
      · rw [Host.after_of_not_takes ht]
        exact .inl rfl
    | define p => exact hw.elim
    | powerOff n => exact hw.elim
    | undefine n => exact hw.elim
  · exact .inl (files_after_of_not_writes hw)

/-- What a call is allowed to do is within what the others rely on. -/
theorem rely_of_allowed {job job' : Job} {u v : World} {c : Command} {r : c.Reply}
    (hformed : ∀ id t, u.table id = some t → Formed w t) (hc : Allowed w tempDir job u c)
    (hother : ∀ role i id role' i', job = .provision role i id → job' ≠ .provision role' i' id)
    (ha : Answers u c r v) : Rely tempDir job' u v := by
  obtain ⟨a, ha⟩ := ha
  obtain rfl := (Prod.mk.inj ha).2
  cases c with
  | act x =>
    obtain ⟨t, hown, hx⟩ := hc
    exact ⟨xml_after (own_formed hformed hown) hx, fun _ _ h => .inl h, fun _ _ _ _ h => h⟩
  | pathExists p => exact Rely.refl job' u
  | get id => exact Rely.refl job' u
  | insert id t =>
    obtain ⟨role, i, rfl, hnone, -⟩ := hc
    refine ⟨fun _ => .inl rfl, fun id' t' ht' => .inl ?_, fun role' i' id' hjob' hnone' => ?_⟩
    · have hne : id' ≠ id := by
        rintro rfl
        rw [hnone] at ht'
        cases ht'
      exact (Function.update_of_ne hne _ _).trans ht'
    · have hne : id' ≠ id := by
        rintro rfl
        exact hother role i id' role' i' rfl hjob'
      exact (Function.update_of_ne hne _ _).trans hnone'
  | setDestroyed id =>
    refine ⟨fun _ => .inl rfl, fun id' t' ht' => ?_, fun role' i' id' hjob' hnone' => ?_⟩
    · by_cases hid : id' = id
      · subst hid
        exact .inr ((Function.update_self _ _ _).trans (by rw [ht']; rfl))
      · exact .inl ((Function.update_of_ne hid _ _).trans ht')
    · by_cases hid : id' = id
      · subst hid
        exact (Function.update_self _ _ _).trans (by rw [hnone']; rfl)
      · exact (Function.update_of_ne hid _ _).trans hnone'

/-- What is tracked after a command was tracked before it, perhaps not as destroyed, or the command
tracks it. -/
theorem table_after {u : World} {c : Command} {a : Attempt} {id : VmId} {t : Tracked}
    (ht : (u.answer a c).2.table id = some t) :
    u.table id = some t ∨ (∃ t', u.table id = some t' ∧ t = t'.setDestroyed) ∨
      c = .insert id t := by
  cases c with
  | act x => exact .inl ht
  | pathExists p => exact .inl ht
  | get id' => exact .inl ht
  | insert id' t' =>
    change Function.update u.table id' _ id = some t at ht
    by_cases hid : id = id'
    · subst hid
      rw [Function.update_self] at ht
      exact .inr (.inr (congrArg (Command.insert id) (Option.some.inj ht)))
    · rw [Function.update_of_ne hid] at ht
      exact .inl ht
  | setDestroyed id' =>
    change Function.update u.table id' _ id = some t at ht
    by_cases hid : id = id'
    · subst hid
      rw [Function.update_self] at ht
      obtain ⟨t', ht', rfl⟩ := Option.map_eq_some_iff.mp ht
      exact .inr (.inl ⟨t', ht', rfl⟩)
    · rw [Function.update_of_ne hid] at ht
      exact .inl ht

section After

variable {job : Job} {u : World} {c : Command} {a : Attempt} {id : VmId} {t : Tracked}

theorem formed_after (hformed : ∀ id t, u.table id = some t → Formed w t)
    (hc : Allowed w tempDir job u c) (ht : (u.answer a c).2.table id = some t) : Formed w t := by
  rcases table_after ht with hu | ⟨t', hu, rfl⟩ | rfl
  · exact hformed id t hu
  · exact ⟨(hformed id t' hu).name, (hformed id t' hu).overlay⟩
  · obtain ⟨role, i, -, -, rfl⟩ := hc
    exact formed_tracked w role i id

theorem known_after (hc : Allowed w tempDir job u c)
    (ht : (u.answer a c).2.table id = some t) :
    (∃ t', u.table id = some t' ∧ t'.handle.instanceId = t.handle.instanceId) ∨
      ∃ role, job = .provision role t.handle.instanceId id := by
  rcases table_after ht with hu | ⟨t', hu, rfl⟩ | rfl
  · exact .inl ⟨t, hu, rfl⟩
  · exact .inl ⟨t', hu, rfl⟩
  · obtain ⟨role, i, hjob, -, rfl⟩ := hc
    exact .inr ⟨role, hjob⟩

end After

/-- A domain that starts or stops is no concern of a call. -/
theorem rely_turn (job : Job) (u : World) (name : String) (on : Bool) :
    Rely tempDir job u { u with host := u.host.turn name on } := by
  have hfiles : (u.host.turn name on).files = u.host.files := by
    unfold Host.turn
    split <;> (try split) <;> rfl
  exact ⟨fun i => .inl (by rw [hfiles]), fun _ _ h => .inl h, fun _ _ _ _ h => h⟩

/-! ### The invariant -/

/-- The calls that were made. -/
def jobs (s : Fleet) : List Job := s.calls.map Call.job

variable (w tempDir) in
/-- What is tracked is named after its instance, every call is safe, and a VM is tracked by the one
call that provisions it. -/
structure Sound (s : Fleet) : Prop where
  formed : ∀ id t, s.world.table id = some t → Formed w t
  safe : ∀ (k : ℕ) (c : Call), s.calls[k]? = some c → CallSafe w tempDir c.job c.rest s.world
  drawn : ∀ (k k' : ℕ) role i role' i' id, s.jobs[k]? = some (Job.provision role i id) →
    s.jobs[k']? = some (Job.provision role' i' id) → k = k'
  known : ∀ id t, s.world.table id = some t →
    ∃ role, Job.provision role t.handle.instanceId id ∈ s.jobs

theorem sound_start (h : Host) : (start h).Sound w tempDir where
  formed id t ht := by cases ht
  safe k c hc := by cases hc
  drawn k k' role i role' i' id hk := by cases hk
  known id t ht := by cases ht

theorem jobs_set {s : Fleet} {k : ℕ} {c : Call} (h : s.calls[k]? = some c) (rest : Procedure Unit)
    (u : World) : jobs ⟨u, s.calls.set k ⟨c.job, rest⟩⟩ = s.jobs := by
  obtain ⟨hlt, rfl⟩ := List.getElem?_eq_some_iff.mp h
  unfold jobs
  rw [List.map_set]
  have hlt' : k < (s.calls.map Call.job).length := by simpa using hlt
  have hjob : s.calls[k].job = (s.calls.map Call.job).get ⟨k, hlt'⟩ := by simp
  rw [hjob]
  exact List.set_getElem_self _

/-- The call at an index, among the calls that were made. -/
theorem job_of_call {s : Fleet} {k : ℕ} {c : Call} (h : s.calls[k]? = some c) :
    s.jobs[k]? = some c.job := by
  unfold jobs
  rw [List.getElem?_map, h]
  rfl

/-- What is found in a list with one more element at its end. -/
theorem getElem?_concat_cases {α : Type} {xs : List α} {x y : α} {k : ℕ}
    (h : (xs ++ [x])[k]? = some y) :
    (k < xs.length ∧ xs[k]? = some y) ∨ (k = xs.length ∧ x = y) := by
  rw [List.getElem?_append] at h
  split_ifs at h with hlt
  · exact .inl ⟨hlt, h⟩
  · right
    obtain ⟨hk, hy⟩ := List.getElem?_eq_some_iff.mp h
    rw [List.length_singleton] at hk
    refine ⟨by omega, ?_⟩
    rw [← hy, List.getElem_singleton]

theorem Sound.call {s : Fleet} (hs : s.Sound w tempDir) {j : Job} (hj : j.Fresh s) :
    Sound w tempDir { s with calls := s.calls ++ [⟨j, j.procedure w tempDir⟩] } := by
  have hnew (role i id) (he : j = .provision role i id) {k : ℕ} {role' i'} :
      s.jobs[k]? ≠ some (.provision role' i' id) := by
    subst he
    intro hk
    unfold jobs at hk
    rw [List.getElem?_map] at hk
    obtain ⟨c, hc, hjob⟩ := Option.map_eq_some_iff.mp hk
    refine (hj c (List.mem_of_getElem? hc) (i', id) ?_).2 rfl
    unfold Call.drew
    rw [hjob]
    rfl
  have hjobs : jobs { s with calls := s.calls ++ [⟨j, j.procedure w tempDir⟩] } =
      s.jobs ++ [j] := by
    unfold jobs
    rw [List.map_append]
    rfl
  refine ⟨hs.formed, fun k c hc => ?_, ?_, fun id t ht => ?_⟩
  · rcases getElem?_concat_cases hc with ⟨-, hc⟩ | ⟨-, rfl⟩
    · exact hs.safe k c hc
    · refine safe_procedure w tempDir j s.world fun role i id he => ?_
      cases hid : s.world.table id with
      | none => rfl
      | some t =>
        obtain ⟨role', hmem⟩ := hs.known id t hid
        obtain ⟨k', hk'⟩ := List.mem_iff_getElem?.mp hmem
        exact absurd hk' (hnew role i id he)
  · intro k k' role i role' i' id hk hk'
    rw [hjobs] at hk hk'
    rcases getElem?_concat_cases hk with ⟨hlt, hk⟩ | ⟨rfl, he⟩ <;>
      rcases getElem?_concat_cases hk' with ⟨hlt', hk'⟩ | ⟨rfl, he'⟩
    · exact hs.drawn k k' role i role' i' id hk hk'
    · exact absurd hk (hnew role' i' id he')
    · exact absurd hk' (hnew role i id he)
    · rfl
  · obtain ⟨role, hmem⟩ := hs.known id t ht
    exact ⟨role, hjobs ▸ List.mem_append_left _ hmem⟩

theorem Sound.advance {s : Fleet} (hs : s.Sound w tempDir) {k : ℕ} {job : Job} {c : Command}
    {next : c.Reply → Procedure Unit} (hk : s.calls[k]? = some ⟨job, .issue c next⟩) (a : Attempt) :
    Sound w tempDir
      ⟨(s.world.answer a c).2, s.calls.set k ⟨job, next (s.world.answer a c).1⟩⟩ := by
  have hsafe := hs.safe k _ hk
  have hallowed := hsafe.allowed (Rely.refl job)
  have hjobs := jobs_set hk (next (s.world.answer a c).1) (s.world.answer a c).2
  have hjob := job_of_call hk
  refine ⟨fun id t => formed_after hs.formed hallowed, fun k' c' hk' => ?_, ?_, fun id t ht => ?_⟩
  · change (s.calls.set k _)[k']? = some c' at hk'
    rw [List.getElem?_set] at hk'
    split_ifs at hk' with hkk hlt
    · cases hk'
      exact hsafe.answered (Rely.refl job) ⟨a, rfl⟩
    · refine (hs.safe k' c' hk').of_rely (Rely.trans c'.job) ?_
      refine rely_of_allowed hs.formed hallowed ?_ ⟨a, rfl⟩
      intro role i id role' i' he he'
      have hjob' := job_of_call hk'
      rw [he] at hjob
      rw [he'] at hjob'
      exact hkk (hs.drawn k k' role i role' i' id hjob hjob')
  · rw [hjobs]
    exact hs.drawn
  · rw [hjobs]
    rcases known_after hallowed ht with ⟨t', ht', hinst⟩ | ⟨role, rfl⟩
    · exact hinst ▸ hs.known id t' ht'
    · exact ⟨role, List.mem_of_getElem? hjob⟩

theorem Sound.turn {s : Fleet} (hs : s.Sound w tempDir) (name : String) (on : Bool) :
    Sound w tempDir { s with world := { s.world with host := s.world.host.turn name on } } where
  formed := hs.formed
  safe k c hc := (hs.safe k c hc).of_rely (Rely.trans c.job) (rely_turn c.job s.world name on)
  drawn := hs.drawn
  known := hs.known

theorem step_advance {s : Fleet} {k : ℕ} {job : Job} {c : Command}
    {next : c.Reply → Procedure Unit} (hk : s.calls[k]? = some ⟨job, .issue c next⟩) (a : Attempt) :
    s.step w tempDir (.advance k a) =
      some ⟨(s.world.answer a c).2, s.calls.set k ⟨job, next (s.world.answer a c).1⟩⟩ := by
  simp only [step, hk]

/-- A call that advances has a command to issue. -/
theorem exists_of_advance {s s' : Fleet} {k : ℕ} {a : Attempt}
    (h : s.step w tempDir (.advance k a) = some s') :
    ∃ job c next, s.calls[k]? = some ⟨job, .issue c next⟩ := by
  simp only [step] at h
  split at h
  · next job c next hk => exact ⟨job, c, next, hk⟩
  · cases h

theorem Sound.step {s s' : Fleet} {l : Label} (hs : s.Sound w tempDir)
    (h : s.step w tempDir l = some s') : s'.Sound w tempDir := by
  cases l with
  | call j =>
    simp only [Fleet.step] at h
    obtain ⟨hj, he⟩ := Option.ite_none_right_eq_some.mp h
    cases he
    exact hs.call hj
  | turn name on =>
    cases h
    exact hs.turn name on
  | advance k a =>
    obtain ⟨job, c, next, hk⟩ := exists_of_advance h
    rw [step_advance hk] at h
    cases h
    exact hs.advance hk a

/-! ### One step, and a run -/

section OneStep

variable {s : Fleet} {a : Attempt} {calls : List Call}

/-- A VM comes to life where it is tracked, and nowhere else. -/
theorem live_after {c : Command} {id : VmId} {t : Tracked}
    (h : Live ⟨(s.world.answer a c).2, calls⟩ id t) : s.Live id t ∨ c = .insert id t := by
  rcases table_after h.1 with hu | ⟨t', -, rfl⟩ | hc
  · exact .inl ⟨hu, h.2⟩
  · exact absurd rfl h.2
  · exact .inr hc

theorem distinct_after {c : Command} (hd : s.Distinct) (hc : ∀ id t, c ≠ .insert id t) :
    Distinct ⟨(s.world.answer a c).2, calls⟩ := by
  intro id id' t t' hne ht ht'
  exact hd id id' t t' hne ((live_after ht).resolve_right (hc id t))
    ((live_after ht').resolve_right (hc id' t'))

/-- A VM that comes to life shares nothing exactly where its first eight digits are its own. -/
theorem distinct_insert (hs : s.Sound w tempDir) (hd : s.Distinct) {role : VmRole} {i : InstanceId}
    {id : VmId} {t : Tracked} (ht : t = LibvirtController.tracked (w.provisionRequest role i) id) :
    Distinct ⟨(s.world.answer a (.insert id t)).2, calls⟩ ↔
      ∀ id' t', s.Live id' t' → id' ≠ id →
        ¬ SameDigits t.handle.instanceId t'.handle.instanceId := by
  have hformed : Formed w t := ht ▸ formed_tracked w role i id
  have hnew : Live ⟨(s.world.answer a (.insert id t)).2, calls⟩ id t := by
    refine ⟨Function.update_self _ _ _, ?_⟩
    subst ht
    nofun
  have hold {id' t'} (hlive : s.Live id' t') (hne : id' ≠ id) :
      Live ⟨(s.world.answer a (.insert id t)).2, calls⟩ id' t' :=
    ⟨(Function.update_of_ne hne _ _).trans hlive.1, hlive.2⟩
  constructor
  · intro hdist id' t' hlive hne hsame
    exact (hdist id id' t t' (Ne.symm hne) hnew (hold hlive hne)).1
      ((hformed.name_eq_iff (hs.formed id' t' hlive.1)).mpr hsame)
  · intro hown id₁ id₂ t₁ t₂ hne h₁ h₂
    rcases live_after h₁ with h₁ | he₁ <;> rcases live_after h₂ with h₂ | he₂
    · exact hd id₁ id₂ t₁ t₂ hne h₁ h₂
    · cases he₂
      obtain ⟨hname, hoverlay⟩ := hformed.apart (hs.formed id₁ t₁ h₁.1) (hown id₁ t₁ h₁ hne)
      exact ⟨hname.symm, hoverlay.symm⟩
    · cases he₁
      exact hformed.apart (hs.formed id₂ t₂ h₂.1) (hown id₂ t₂ h₂ hne.symm)
    · cases he₁
      cases he₂
      exact absurd rfl hne

/-- Before a command that is decisive a VM of the same digits would be touched, or shared with. -/
theorem alone_of_keepsApart (hs : s.Sound w tempDir) (hd : s.Distinct) {l : Label}
    (h : s.KeepsApart w tempDir l) : s.Alone w l := by
  obtain ⟨hharmless, hdist⟩ := h
  intro k a job c next own hl hk hown hdecisive id t hlive hne hsame
  subst hl
  have hallowed := (hs.safe k _ hk).allowed (Rely.refl job)
  have hformed := own_formed hs.formed hown
  cases c with
  | act x =>
    refine hharmless k a job x next rfl hk hdecisive.1 id t hlive hne ?_
    exact (hformed.touches_iff (hs.formed id t hlive.1) hsame x s.world.host).mp hdecisive.2
  | insert id' t' =>
    obtain ⟨role, i, rfl, -, ht'⟩ := hallowed
    obtain rfl : t' = own := ht'.trans (Option.some.inj hown)
    exact (distinct_insert hs hd ht').mp (hdist _ (step_advance hk a)) id t hlive hne hsame
  | pathExists p => exact hdecisive
  | get id' => exact hdecisive
  | setDestroyed id' => exact hdecisive

theorem harmless_of_alone (hs : s.Sound w tempDir) {l : Label} (h : s.Alone w l) :
    s.Harmless l := by
  intro k a job x next hl hk htakes id t hlive hne htouch
  obtain ⟨own, hown, hx⟩ := (hs.safe k _ hk).allowed (Rely.refl job)
  have hformed := own_formed hs.formed hown
  have hformed' := hs.formed id t hlive.1
  have hsame := sameDigits_of_touches hformed hformed' hx htouch
  exact h k a job (.act x) next own hl hk hown
    ⟨htakes, (hformed.touches_iff hformed' hsame x s.world.host).mpr htouch⟩ id t hlive hne hsame

theorem distinct_of_alone (hs : s.Sound w tempDir) (hd : s.Distinct) {l : Label}
    (h : s.Alone w l) {s' : Fleet} (hstep : s.step w tempDir l = some s') : s'.Distinct := by
  cases l with
  | call j =>
    simp only [step] at hstep
    obtain ⟨-, he⟩ := Option.ite_none_right_eq_some.mp hstep
    cases he
    exact hd
  | turn name on =>
    cases hstep
    exact hd
  | advance k a =>
    obtain ⟨job, c, next, hk⟩ := exists_of_advance hstep
    rw [step_advance hk] at hstep
    cases hstep
    cases c with
    | act x => exact distinct_after hd nofun
    | pathExists p => exact distinct_after hd nofun
    | get id => exact distinct_after hd nofun
    | setDestroyed id => exact distinct_after hd nofun
    | insert id t =>
      obtain ⟨role, i, rfl, -, ht⟩ := (hs.safe k _ hk).allowed (Rely.refl job)
      refine (distinct_insert hs hd ht).mpr fun id' t' hlive hne => ?_
      exact h k a _ _ next t rfl hk (congrArg some ht.symm) trivial id' t' hlive hne

end OneStep

theorem distinct_start (h : Host) : (start h).Distinct := by
  intro id id' t t' _ ht
  cases ht.1

variable (w tempDir) in
/-- In a run of provision and destroy calls, whose commands interleave, no live VM shares its name
or its overlay with another or loses it to one, exactly where every decisive command finds no other
live VM of an instance whose id begins with the same eight digits. -/
theorem keepsApart_iff (h : Host) (ls : List Label) :
    Steps (step w tempDir) (KeepsApart w tempDir) (start h) ls ↔
      Steps (step w tempDir) (Alone w) (start h) ls := by
  refine steps_iff (fun s => s.Sound w tempDir ∧ s.Distinct) ?_ ?_
    ⟨sound_start h, distinct_start h⟩ ls
  · rintro s l ⟨hs, hd⟩
    constructor
    · exact alone_of_keepsApart hs hd
    · intro halone
      exact ⟨harmless_of_alone hs halone, fun s' hstep => distinct_of_alone hs hd halone hstep⟩
  · rintro s l s' ⟨hs, -⟩ hkeeps hstep
    exact ⟨hs.step hstep, hkeeps.2 s' hstep⟩

/-! Where the instances that are drawn differ in their first eight digits, every run is fine. -/

/-- The instance that a call draws. -/
def instanceOf : Job → Option InstanceId
  | .provision _ i _ => some i
  | .destroy _ => none

def jobOf : Label → Option Job
  | .call j => some j
  | _ => none

def DigitsApart (j j' : Job) : Prop :=
  ∀ i ∈ instanceOf j, ∀ i' ∈ instanceOf j', ¬ SameDigits i i'

instance : Std.Symm DigitsApart :=
  ⟨fun _ _ h i hi i' hi' hsame => h i' hi' i hi hsame.symm⟩

/-- No two of the calls draw instances of the same eight digits. -/
def DigitsDiffer (js : List Job) : Prop := js.Pairwise DigitsApart

theorem Sound.own_drawn {s : Fleet} (hs : s.Sound w tempDir) {k : ℕ} {c : Call}
    (hk : s.calls[k]? = some c) {own : Tracked} (hown : c.job.own w s.world.table = some own) :
    ∃ role, Job.provision role own.handle.instanceId c.job.vm ∈ s.jobs := by
  have hjob := job_of_call hk
  cases hc : c.job with
  | provision role i id =>
    rw [hc] at hown hjob
    cases hown
    exact ⟨role, List.mem_of_getElem? hjob⟩
  | destroy id =>
    rw [hc] at hown
    exact hs.known id own hown

theorem alone_of_digits {s : Fleet} (hs : s.Sound w tempDir) (hd : DigitsDiffer s.jobs)
    (l : Label) : s.Alone w l := by
  intro k a job c next own _ hk hown _ id t hlive hne hsame
  obtain ⟨role, hmem⟩ := hs.own_drawn hk hown
  obtain ⟨role', hmem'⟩ := hs.known id t hlive.1
  have hjobs : Job.provision role own.handle.instanceId job.vm ≠
      Job.provision role' t.handle.instanceId id := by
    intro he
    exact hne (Job.provision.inj he).2.2.symm
  exact List.Pairwise.forall hd hmem hmem' hjobs _ rfl _ rfl hsame

theorem jobs_step {s s' : Fleet} {l : Label} (h : s.step w tempDir l = some s') :
    s'.jobs = s.jobs ++ (jobOf l).toList := by
  cases l with
  | call j =>
    simp only [step] at h
    obtain ⟨-, he⟩ := Option.ite_none_right_eq_some.mp h
    cases he
    unfold jobs
    rw [List.map_append]
    rfl
  | turn name on =>
    cases h
    exact (List.append_nil _).symm
  | advance k a =>
    obtain ⟨job, c, next, hk⟩ := exists_of_advance h
    rw [step_advance hk] at h
    cases h
    rw [jobs_set hk]
    exact (List.append_nil _).symm

theorem keepsApart_of_jobs {s : Fleet} (hs : s.Sound w tempDir) (hd : s.Distinct) (ls : List Label)
    (hdiff : DigitsDiffer (s.jobs ++ ls.filterMap jobOf)) :
    Steps (step w tempDir) (KeepsApart w tempDir) s ls := by
  induction ls generalizing s with
  | nil => trivial
  | cons l ls ih =>
    have halone := alone_of_digits hs (hdiff.sublist (List.sublist_append_left _ _)) l
    have hapart : s.KeepsApart w tempDir l := ⟨harmless_of_alone hs halone, fun s' hstep =>
      distinct_of_alone hs hd halone hstep⟩
    refine ⟨hapart, fun s' hstep => ih (hs.step hstep) (hapart.2 s' hstep) ?_⟩
    rw [jobs_step hstep]
    cases hl : jobOf l with
    | none =>
      rw [List.filterMap_cons_none hl] at hdiff
      simpa using hdiff
    | some j =>
      rw [List.filterMap_cons_some hl] at hdiff
      simpa using hdiff

variable (w tempDir) in
/-- Runs that draw no two instances of the same eight digits keep their VMs apart. -/
theorem keepsApart_of_digits (h : Host) {ls : List Label}
    (hdiff : DigitsDiffer (ls.filterMap jobOf)) :
    Steps (step w tempDir) (KeepsApart w tempDir) (start h) ls :=
  keepsApart_of_jobs (sound_start h) (distinct_start h) ls hdiff

/-- A daemon with its usual directories. -/
def wiring : Wiring where
  config := ⟨"aegis", none, "/var/lib/aegis/images", "/run/aegis"⟩
  hostBrowser := false
  hostBrowserFirefox := false
  aegisHostProxy := none

/-- Two random ids that differ in their last digit only. -/
def firstInstance : InstanceId := ⟨0x1a2b3c4d5e6f40718293a4b5c6d7e8f0#128⟩

def secondInstance : InstanceId := ⟨0x1a2b3c4d5e6f40718293a4b5c6d7e8f1#128⟩

def firstVm : VmId := ⟨0x0f1e2d3c4b5a46978899aabbccddeeff#128⟩

def secondVm : VmId := ⟨0x8a7b6c5d4e3f42109182736455463728#128⟩

/-- The VM of the first instance is provisioned, and that of the second one is about to be. -/
def twoProvisions : List Label :=
  .call (.provision .browser firstInstance firstVm) ::
    List.replicate 5 (.advance 0 .carriedOut) ++
    [.call (.provision .browser secondInstance secondVm)]

/-- The second call is about to create an overlay where the first one's VM has its own. -/
def clashes (s : Fleet) : Bool :=
  match (s.calls[1]? : Option Call), s.world.table firstVm with
  | some ⟨job, .issue (.act (.createOverlay backing p)) _⟩, some t =>
    decide (s.world.host.Takes .carriedOut (.createOverlay backing p) ∧ p = t.overlayPath ∧
      t.handle.state ≠ .destroyed ∧ firstVm ≠ job.vm)
  | _, _ => false

def emptyHost : Host := ⟨fun _ => none, fun _ => none, rfl⟩

theorem twoProvisions_clash :
    (exec (step wiring "/tmp") (start emptyHost) twoProvisions).any clashes = true := by
  decide +kernel

/-- The overlay of a live VM is overwritten. -/
theorem twoProvisions_not_apart : ¬ ∀ (w : Wiring) (tempDir : String) (h : Host)
    (ls : List Label), Steps (step w tempDir) (KeepsApart w tempDir) (start h) ls := by
  intro hall
  have hsteps := hall wiring "/tmp" emptyHost (twoProvisions ++ [.advance 1 .carriedOut])
  obtain ⟨s, hs, hclash⟩ := (Option.any_eq_true _ _).mp twoProvisions_clash
  have hharmless := (hsteps.of_append hs).1
  unfold clashes at hclash
  split at hclash
  · next job backing p next t hcall htable =>
    obtain ⟨htakes, hpath, hlive, hother⟩ := of_decide_eq_true hclash
    exact hharmless 1 .carriedOut job _ next rfl hcall htakes firstVm t ⟨htable, hlive⟩ hother hpath
  · cases hclash

end Fleet

end Aegis.Vm
