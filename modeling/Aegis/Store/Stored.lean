import Aegis.Store.Repository

/-! What the stored specs satisfy, over every run of the repository: a property that every created
spec has and every patch keeps. Its instances are the fingerprint rules and the hard-blocked
device classes. -/
namespace Aegis.Store
open Transition

variable {Q : ProfileSpec → Prop} {s s' : Repository}

/-- Every spec that is stored or about to be stored satisfies `Q`, and every patch about to be
applied keeps it. -/
structure Shelf.Stores (Q : ProfileSpec → Prop) (s : Shelf) : Prop where
  stored : ∀ p d profile, s.dir p = some d → d.metadata = some (.stored profile) → Q profile.spec
  called : ∀ t c spec, s.calls t = some c → c.spec = some spec → Q spec
  patched : ∀ t c patch, s.calls t = some c → c.patch = some patch →
    ∀ spec, Q spec → Q (patch.set spec)

/-- A request creates only specs that satisfy `Q`, and patches keep it. -/
def RepoRequest.Respects (Q : ProfileSpec → Prop) : RepoRequest → Prop
  | create spec => Q spec
  | update _ patch => ∀ spec, Q spec → Q (patch.set spec)
  | _ => True

namespace Shelf

variable {k k' : Shelf} {lock lock' : LockSystem} {op : ShelfOp} {t : TaskId}

theorem readMeta_ok {id : ProfileId} {profile : StoredProfile}
    (h : k.readMeta id none = .ok profile) :
    ∃ d, k.dir id = some d ∧ d.metadata = some (.stored profile) := by
  unfold readMeta at h
  split at h <;> cases h
  next hd => exact Option.bind_eq_some_iff.mp hd

theorem storedSpec_eq {id : ProfileId} {spec : ProfileSpec} : k.storedSpec id = some spec ↔
    ∃ d profile, k.dir id = some d ∧ d.metadata = some (.stored profile) ∧
      profile.spec = spec := by
  constructor
  · intro h
    unfold storedSpec at h
    split at h <;> cases h
    next profile hr =>
      obtain ⟨d, hd, hm⟩ := readMeta_ok hr
      exact ⟨d, profile, hd, hm, rfl⟩
  · rintro ⟨d, profile, hd, hm, rfl⟩
    simp [storedSpec, readMeta, hd, hm]

/-- The metadata a step leaves was there before, or is what the call was about to store. -/
theorem Acts.stored {c : RepoCall} {root : AList fun _ : ProfileId => ProfileDir}
    (h : Acts lock k t op c root lock') {p : ProfileId} {d : ProfileDir} {profile : StoredProfile}
    (hd : root.lookup p = some d) (hm : d.metadata = some (.stored profile)) :
    (∃ d, k.dir p = some d ∧ d.metadata = some (.stored profile)) ∨
      ∃ refresh, p = profile.id ∧ op = .file t none ∧
        k.calls t = some (.replacing profile refresh) := by
  -- the metadata of a directory that replaces another one is the old one's
  have hset {id : ProfileId} {e : ProfileDir} (hd : (k.root.insert id e).lookup p = some d)
      (he : e.metadata = some (.stored profile) →
        ∃ d, k.dir id = some d ∧ d.metadata = some (.stored profile)) :
      ∃ d, k.dir p = some d ∧ d.metadata = some (.stored profile) := by
    rcases lookup_insert_cases hd with ⟨rfl, rfl⟩ | ⟨-, hd⟩
    · exact he hm
    · exact ⟨d, hd, hm⟩
  have hold {id : ProfileId} (h : ((k.dir id).getD .empty).metadata = some (.stored profile)) :
      ∃ d, k.dir id = some d ∧ d.metadata = some (.stored profile) := by
    cases hk : k.dir id with
    | none => rw [hk] at h; cases h
    | some d => rw [hk] at h; exact ⟨d, rfl, h⟩
  cases h with
  | made h => exact .inl (hset hd hold)
  | wrote h => exact .inl (hset hd hold)
  | @renamed stored refresh e c h =>
    rcases lookup_insert_cases hd with ⟨rfl, rfl⟩ | ⟨-, hd⟩
    · cases hm
      exact .inr ⟨refresh, rfl, rfl, h⟩
    · exact .inl ⟨d, hd, hm⟩
  | @overwrote id f fs op n c h =>
    rcases k.overwrite_root lock id f n with hr | ⟨e, he, hr⟩
    · rw [hr] at hd
      exact .inl ⟨d, hd, hm⟩
    · rw [hr] at hd
      exact .inl (hset hd fun h => ⟨e, he, ProfileDir.metadata_zero h⟩)
  | @unlinked id f h =>
    rcases k.unlink_root lock id f with hr | ⟨e, he, hr⟩
    · rw [hr] at hd
      exact .inl ⟨d, hd, hm⟩
    · rw [hr] at hd
      exact .inl (hset hd fun h => ⟨e, he, ProfileDir.metadata_unlink h⟩)
  | @removed id h he =>
    by_cases hp : p = id
    · rw [hp, AList.lookup_erase] at hd
      cases hd
    · rw [AList.lookup_erase_ne hp] at hd
      exact .inl ⟨d, hd, hm⟩
  | _ => exact .inl ⟨d, hd, hm⟩

/-- A call about to store a spec was asked to create it, was about to store it before, or has
patched or touched a stored one. -/
theorem Acts.called {c : RepoCall} {root : AList fun _ : ProfileId => ProfileDir}
    {spec : ProfileSpec} (h : Acts lock k t op c root lock') (hc : c.spec = some spec) :
    (∃ u, op = .call u (.create spec)) ∨ (∃ d, k.calls t = some d ∧ d.spec = some spec) ∨
      (∃ p patch d profile, k.calls t = some (.patching p patch) ∧ k.dir p = some d ∧
        d.metadata = some (.stored profile) ∧ spec = patch.set profile.spec) ∨
      ∃ p d profile, k.dir p = some d ∧ d.metadata = some (.stored profile) ∧
        spec = profile.spec := by
  cases h with
  | quiet hq hl =>
    rw [RepoCall.spec_of_quiet hq] at hc
    cases hc
  | @asked req =>
    cases req <;> cases hc
    exact .inl ⟨t, rfl⟩
  | @guarded id req h =>
    cases req <;> cases hc
    exact .inr (.inl ⟨_, h, rfl⟩)
  | stated h => exact .inr (.inl ⟨_, h, hc⟩)
  | made h => exact .inr (.inl ⟨_, h, hc⟩)
  | patched h hr ha =>
    obtain ⟨d, hd, hm⟩ := readMeta_ok hr
    cases hc
    exact .inr (.inr (.inl ⟨_, _, d, _, h, hd, hm, ProfilePatch.apply_eq_ok ha⟩))
  | touched h hr =>
    obtain ⟨d, hd, hm⟩ := readMeta_ok hr
    cases hc
    exact .inr (.inr (.inr ⟨_, d, _, hd, hm, rfl⟩))
  | wrote h => exact .inr (.inl ⟨_, h, hc⟩)
  | renamed h hd hq hl =>
    rw [RepoCall.spec_of_quiet hq] at hc
    cases hc
  | overwrote h hq hl =>
    rcases hq with rfl | hq
    · cases hc
    · rw [RepoCall.spec_of_quiet hq] at hc
      cases hc
  | _ => cases hc

theorem Acts.patching {c : RepoCall} {root : AList fun _ : ProfileId => ProfileDir}
    {patch : ProfilePatch} (h : Acts lock k t op c root lock') (hc : c.patch = some patch) :
    (∃ u id, op = .call u (.update id patch)) ∨ ∃ d, k.calls t = some d ∧ d.patch = some patch := by
  cases h with
  | quiet hq hl =>
    rw [RepoCall.patch_of_quiet hq] at hc
    cases hc
  | @asked req =>
    cases req <;> cases hc
    exact .inl ⟨t, _, rfl⟩
  | @guarded id req h =>
    cases req <;> cases hc
    exact .inr ⟨_, h, rfl⟩
  | renamed h hd hq hl =>
    rw [RepoCall.patch_of_quiet hq] at hc
    cases hc
  | overwrote h hq hl =>
    rcases hq with rfl | hq
    · cases hc
    · rw [RepoCall.patch_of_quiet hq] at hc
      cases hc
  | _ => cases hc

theorem Stores.step (h : k.Stores Q)
    (hok : ∀ t req, op = .call t req → req.Respects Q)
    (hs : k.step lock op = some (k', lock')) : k'.Stores Q := by
  obtain ⟨t, c, hacts, hcalls⟩ := step_leaves hs
  constructor
  case stored =>
    intro p d profile hd hm
    rcases hacts.stored hd hm with ⟨e, he, hm⟩ | ⟨refresh, -, -, hc⟩
    · exact h.stored p e profile he hm
    · exact h.called t _ profile.spec hc rfl
  case called =>
    intro u d spec hu hspec
    rw [hcalls, Function.update_apply] at hu
    split_ifs at hu with hut
    · cases hu
      rcases hacts.called hspec with ⟨v, rfl⟩ | ⟨e, he, hspec⟩ |
        ⟨p, patch, e, profile, hp, he, hm, rfl⟩ | ⟨p, e, profile, he, hm, rfl⟩
      · exact hok v _ rfl
      · exact h.called t e spec he hspec
      · exact h.patched t _ patch hp rfl _ (h.stored p e profile he hm)
      · exact h.stored p e profile he hm
    · exact h.called u d spec hu hspec
  case patched =>
    intro u d patch hu hpatch
    rw [hcalls, Function.update_apply] at hu
    split_ifs at hu with hut
    · cases hu
      rcases hacts.patching hpatch with ⟨v, id, rfl⟩ | ⟨e, he, hpatch⟩
      · exact hok v _ rfl
      · exact h.patched t e patch he hpatch
    · exact h.patched u d patch hu hpatch

end Shelf

namespace Repository

/-- Every request of the repository's clients respects `Q`. -/
def Respects (Q : ProfileSpec → Prop) (_ : Repository) (op : RepoOp) : Prop :=
  ∀ t req, op = .shelf (.call t req) → req.Respects Q

theorem stores_of_reach (hr : Reach step (· = initial) (Respects Q) s) : s.shelf.Stores Q := by
  induction hr with
  | start hi =>
    subst hi
    constructor <;> simp [initial, Shelf.dir]
  | @next s s' op _ hok hs h =>
    cases op with
    | shelf op =>
      obtain ⟨⟨k, lock⟩, hk, rfl⟩ := Option.map_eq_some_iff.mp hs
      exact h.step (fun t req hop => hok t req (hop ▸ rfl)) hk
    | lock op =>
      simp only [step] at hs
      split_ifs at hs
      obtain ⟨lock, -, rfl⟩ := Option.map_eq_some_iff.mp hs
      exact h

/-- The profile is stored. -/
def Holds (s : Repository) (profile : StoredProfile) : Prop :=
  ∃ p d, s.shelf.dir p = some d ∧ d.metadata = some (.stored profile)

theorem spec_of_reach {profile : StoredProfile}
    (hr : Reach step (· = initial) (Respects Q) s) (hp : s.Holds profile) : Q profile.spec := by
  obtain ⟨p, d, hd, hm⟩ := hp
  exact (stores_of_reach hr).stored p d profile hd hm

/-! ### Fingerprint overrides -/

/-- No profile is created with a fingerprint override that breaks a rule of every level. -/
def CreatesSafe (_ : Repository) (op : RepoOp) : Prop :=
  ∀ t spec fp, op = .shelf (.call t (.create spec)) → spec.fingerprint = some fp → fp.NonNegotiable

/-- No patch reaches the override. -/
theorem CreatesSafe.respects {op : RepoOp} (h : s.CreatesSafe op) :
    s.Respects (fun spec => ∀ fp, spec.fingerprint = some fp → fp.NonNegotiable) op := by
  rintro t req rfl
  cases req with
  | create spec => exact fun fp hfp => h t spec fp rfl hfp
  | update id patch => exact fun spec hspec => hspec
  | _ => trivial

/-- The policy a stored profile comes to passes the check and keeps every documented rule, as
long as overrides are created safe. -/
theorem nonNegotiable_of_reach {profile : StoredProfile}
    (hr : Reach step (· = initial) CreatesSafe s) (hp : s.Holds profile) :
    profile.spec.resolvedFingerprint.validate = none ∧
      profile.spec.resolvedFingerprint.NonNegotiable := by
  have hover := spec_of_reach (hr.mono fun _ _ => CreatesSafe.respects) hp
  have hsafe : profile.spec.resolvedFingerprint.NonNegotiable := by
    unfold ProfileSpec.resolvedFingerprint
    cases hfp : profile.spec.fingerprint with
    | none => exact profile.spec.protection.policy_nonNegotiable
    | some fp => exact hover fp hfp
  exact ⟨(FingerprintPolicy.nonNegotiable_iff.mp hsafe).1, hsafe⟩

/-- Task 0 creates profile 0 undisturbed. -/
def createRun (spec : ProfileSpec) : List RepoOp :=
  [.shelf (.call 0 (.create spec)), .shelf (.guard 0 ⟨0⟩), .shelf (.file 0 none),
    .shelf (.make 0 0 none), .shelf (.file 0 none), .shelf (.file 0 none)]

/-- The profile that is stored then. -/
def created (spec : ProfileSpec) : StoredProfile := ⟨⟨⟨0⟩, spec⟩, 0, none, 0, false⟩

theorem createRun_holds {spec : ProfileSpec} (hv : spec.validate = .ok ()) :
    ∃ s, exec step initial (createRun spec) = some s ∧ s.Holds (created spec) := by
  have hbegin : step initial (.shelf (.call 0 (.create spec))) = some
      ⟨initial.shelf.setCall 0 (.guarding (.create spec)), .initial, []⟩ := by
    simp only [step, Shelf.step, Shelf.begin, hv]
    rfl
  simp only [createRun, exec, hbegin, Option.bind_some]
  exact ⟨_, rfl, ⟨0⟩, ⟨some (.stored (created spec)), some .intact⟩, rfl, rfl⟩

/-- A run that creates a profile, where a side condition admits the request. -/
theorem createRun_reach (ok : Repository → RepoOp → Prop) {spec : ProfileSpec}
    (hv : spec.validate = .ok ()) (hok : ∀ op ∈ createRun spec, ∀ s, ok s op) :
    ∃ s, Reach step (· = initial) ok s ∧ s.Holds (created spec) := by
  obtain ⟨s, hs, hp⟩ := createRun_holds hv
  have h₀ : Reach step (· = initial) ok initial := .start rfl
  exact ⟨s, h₀.execAll hok hs, hp⟩

theorem createRun_asks {spec spec' : ProfileSpec} {t : TaskId}
    (h : .shelf (.call t (.create spec')) ∈ createRun spec) : spec' = spec := by
  simp only [createRun, List.mem_cons, RepoOp.shelf.injEq, ShelfOp.call.injEq,
    RepoRequest.create.injEq, reduceCtorEq, List.not_mem_nil, or_false] at h
  exact h.2

def overridingSpec (fp : FingerprintPolicy) : ProfileSpec :=
  { ProfileSpec.ephemeral "work" with fingerprint := some fp }

theorem overridingSpec_validate (fp : FingerprintPolicy) :
    (overridingSpec fp).validate = .ok () :=
  ProfileSpec.validate_eq_ok.mpr (by decide : Text.trim "work" ≠ "")

/-- The Balanced policy without its device block. -/
def openDevices : FingerprintPolicy := { FingerprintPolicy.balanced with blockDeviceApis := false }

/-- The Strict preset as an override is stored and keeps the rules. -/
theorem nonNegotiable_created : ∃ s : Repository, ∃ profile, s.Holds profile ∧
    profile.spec.fingerprint = some .strict ∧ profile.spec.resolvedFingerprint.validate = none ∧
      profile.spec.resolvedFingerprint.NonNegotiable := by
  obtain ⟨s, hr, hp⟩ := createRun_reach CreatesSafe (overridingSpec_validate .strict) <| by
    rintro op hop - t spec fp rfl hfp
    obtain rfl := createRun_asks hop
    cases hfp
    exact ProtectionLevel.strict.policy_nonNegotiable
  exact ⟨s, _, hp, rfl, nonNegotiable_of_reach hr hp⟩

/-- Nothing checks the override: a profile that unblocks the device APIs is stored. -/
theorem openDevices_stored : ∃ s, Reach step (· = initial) anyStep s ∧
    ∃ profile, s.Holds profile ∧ profile.spec.resolvedFingerprint.validate ≠ none ∧
      ¬ profile.spec.resolvedFingerprint.NonNegotiable := by
  obtain ⟨s, hr, hp⟩ := createRun_reach anyStep (overridingSpec_validate openDevices)
    fun _ _ _ => trivial
  have hv : openDevices.validate ≠ none := by decide
  exact ⟨s, hr, _, hp, hv, fun h => hv (FingerprintPolicy.nonNegotiable_iff.mp h).1⟩

/-! ### Hard-blocked device classes -/

/-- No profile is created, and none is patched, with a permission policy that has another entry
than `block` for a hard-blocked device class. -/
structure BlocksDevices (_ : Repository) (op : RepoOp) : Prop where
  create : ∀ t spec, op = .shelf (.call t (.create spec)) → spec.permissions.BlocksDevices
  update : ∀ t id patch p, op = .shelf (.call t (.update id patch)) →
    patch.permissions = some p → p.BlocksDevices

theorem BlocksDevices.respects {op : RepoOp} (h : s.BlocksDevices op) :
    s.Respects (fun spec => spec.permissions.BlocksDevices) op := by
  rintro t req rfl
  cases req with
  | create spec => exact h.create t spec rfl
  | update id patch =>
    intro spec hspec
    unfold ProfilePatch.set
    cases hp : patch.permissions with
    | none => exact hspec
    | some p => exact h.update t id patch p rfl hp
  | _ => trivial

/-- A hard-blocked device class is blocked at every origin of every stored profile, as long as
the policies that arrive whole have no other entry for it. -/
theorem effective_of_reach {profile : StoredProfile}
    (hr : Reach step (· = initial) BlocksDevices s) (hp : s.Holds profile) (origin : String)
    {f : Feature} (hf : f.isHardBlocked = true) :
    profile.spec.permissions.effective origin f = .block := by
  have hblocks := spec_of_reach (hr.mono fun _ _ => BlocksDevices.respects) hp
  exact hblocks.effective origin hf

/-- The default policy with USB allowed at one origin. -/
def usbAllowed : PermissionPolicy :=
  { PermissionPolicy.secureDefault with
    overrides := Function.update (fun _ => none) "https://x"
      (some fun f => if f = .usb then some .allow else none) }

def permittingSpec (p : PermissionPolicy) : ProfileSpec :=
  { ProfileSpec.ephemeral "work" with permissions := p }

theorem permittingSpec_validate (p : PermissionPolicy) : (permittingSpec p).validate = .ok () :=
  ProfileSpec.validate_eq_ok.mpr (by decide : Text.trim "work" ≠ "")

theorem effective_created : ∃ s : Repository, ∃ profile, s.Holds profile ∧
    profile.spec.permissions.effective "https://x" .usb = .block := by
  obtain ⟨s, hr, hp⟩ := createRun_reach BlocksDevices (permittingSpec_validate .secureDefault) <| by
    refine fun op hop _ => ⟨?_, ?_⟩
    · rintro t spec rfl
      obtain rfl := createRun_asks hop
      exact PermissionPolicy.blocksDevices_secureDefault
    · rintro t id patch p rfl hp
      simp [createRun] at hop
  exact ⟨s, _, hp, effective_of_reach hr hp "https://x" rfl⟩

/-- A policy that arrives whole may allow what a grant would refuse. -/
theorem usbAllowed_stored : ∃ s, Reach step (· = initial) anyStep s ∧
    ∃ profile, s.Holds profile ∧ Feature.usb.isHardBlocked = true ∧
      profile.spec.permissions.effective "https://x" .usb ≠ .block := by
  obtain ⟨s, hr, hp⟩ := createRun_reach anyStep (permittingSpec_validate usbAllowed)
    fun _ _ _ => trivial
  have hallow : usbAllowed.effective "https://x" .usb = .allow := rfl
  refine ⟨s, hr, _, hp, rfl, fun h => ?_⟩
  cases hallow.symm.trans h

end Repository

end Aegis.Store
