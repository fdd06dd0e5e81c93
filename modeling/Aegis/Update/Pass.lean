import Aegis.Update.Client
import Mathlib.Tactic.SplitIfs
import Mathlib.Tactic.Tauto

/-! What installing one artifact does, in closed form, and the paths it can touch. -/
namespace Aegis
open Text Disk Files

/-! The three names of a target differ. -/

theorem suffixedPath_ne {s : FileName} (hs : s ≠ []) (t : Path) : suffixedPath s t ≠ t := by
  intro h
  have hp := congrArg (fun p => p.parts) h
  unfold suffixedPath Path.withFileName at hp
  cases hn : t.fileName with
  | none =>
    simp only [hn, Option.isSome_none, Bool.false_eq_true, if_false, Path.join] at hp
    exact absurd (congrArg List.length hp) (by simp)
  | some n =>
    obtain ⟨hlast, -⟩ := Option.filter_eq_some_iff.mp hn
    obtain ⟨ps, hps⟩ := List.getLast?_eq_some_iff.mp hlast
    simp [hn, hps, hs] at hp

theorem suffixedPath_injective (t : Path) : Function.Injective fun s => suffixedPath s t := by
  intro s s' h
  have hp := congrArg (fun p => p.parts) h
  unfold suffixedPath Path.withFileName at hp
  by_cases hn : t.fileName.isSome <;> simpa [hn, Path.join] using hp

theorem backupPathFor_ne (t : Path) : backupPathFor t ≠ t := suffixedPath_ne (by decide) t

theorem tmpPathFor_ne (t : Path) : tmpPathFor t ≠ t := suffixedPath_ne (by decide) t

theorem tmpPathFor_ne_backup (t : Path) : tmpPathFor t ≠ backupPathFor t :=
  (suffixedPath_injective t).ne (by decide)

/-- Every path the installation of an artifact can touch. -/
def SignedUpdateClient.names (c : SignedUpdateClient) (a : Artifact) : List Path :=
  match c.installPath a with
  | .ok t => [t, backupPathFor t, tmpPathFor t]
  | .error _ => []

/-! Installing and undoing see and change only these paths. -/

section Overlay

variable {S : List Path} {d e : Files} {t : Path}

namespace Turn

variable (τ : Turn)

theorem moveAway_overlay (ht : t ∈ S) (hb : backupPathFor t ∈ S) :
    τ.moveAway t (overlay S d e) = (τ.moveAway t d).map fun r => (overlay S r.1 e, r.2) := by
  unfold moveAway
  rw [overlay_of_mem ht, rename_overlay ht hb]
  split_ifs
  · cases d.rename t (backupPathFor t) <;> rfl
  · rfl
  · rfl

theorem writeTemp_overlay (ht : t ∈ S) (bytes : Bytes) :
    τ.writeTemp t bytes (overlay S d e) =
      (overlay S (τ.writeTemp t bytes d).1 e, (τ.writeTemp t bytes d).2) := by
  unfold writeTemp
  cases τ.write with
  | refused => rfl
  | cut n =>
    simp only [write_overlay ht]
    cases d.write t (bytes.take n) <;> rfl
  | whole =>
    simp only [write_overlay ht]
    cases d.write t bytes <;> rfl

theorem moveIn_overlay (ht : t ∈ S) (hm : tmpPathFor t ∈ S) :
    τ.moveIn t (overlay S d e) = (overlay S (τ.moveIn t d).1 e, (τ.moveIn t d).2) := by
  unfold moveIn
  rw [rename_overlay hm ht]
  split_ifs
  · cases d.rename (tmpPathFor t) t <;> rfl
  · rfl

theorem place_overlay (π : Primitives) (a : Artifact) (ht : t ∈ S) (hm : tmpPathFor t ∈ S) :
    τ.place π a t (overlay S d e) = (overlay S (τ.place π a t d).1 e, (τ.place π a t d).2) := by
  unfold place
  cases τ.fetch with
  | error _ => rfl
  | ok bytes =>
    simp only [writeTemp_overlay τ hm]
    split_ifs
    · rfl
    · rcases τ.writeTemp (tmpPathFor t) bytes d with ⟨d', _ | _⟩
      · rfl
      · exact moveIn_overlay τ ht hm

end Turn

variable {π : Primitives} {c : SignedUpdateClient} {x : Artifact × Turn}

theorem installArtifact_overlay (h : ∀ p ∈ c.names x.1, p ∈ S) :
    c.installArtifact π x (overlay S d e) =
      { c.installArtifact π x d with files := overlay S (c.installArtifact π x d).files e } := by
  unfold SignedUpdateClient.installArtifact
  unfold SignedUpdateClient.names at h
  cases hi : c.installPath x.1 with
  | error _ => rfl
  | ok t =>
    simp only [hi, List.mem_cons, List.not_mem_nil, or_false, forall_eq_or_imp, forall_eq] at h
    obtain ⟨ht, hb, hm⟩ := h
    simp only [Turn.moveAway_overlay x.2 ht hb]
    split_ifs
    · rfl
    · cases x.2.moveAway t d with
      | none => rfl
      | some r => simp [Turn.place_overlay x.2 π x.1 ht hm]

theorem undo_overlay {r : Backup × Turn} (ht : r.1.target ∈ S) (hb : ∀ b ∈ r.1.backup, b ∈ S) :
    undo (overlay S d e) r = overlay S (undo d r) e := by
  have hremove : ((overlay S d e).removeFile r.1.target).getD (overlay S d e) =
      overlay S ((d.removeFile r.1.target).getD d) e := by
    rw [removeFile_overlay ht]
    cases d.removeFile r.1.target <;> rfl
  have hrename : ∀ (b : Path) (d : Files), b ∈ S →
      ((overlay S d e).rename b r.1.target).getD (overlay S d e) =
        overlay S ((d.rename b r.1.target).getD d) e := by
    intro b d hb
    rw [rename_overlay hb ht]
    cases d.rename b r.1.target <;> rfl
  unfold undo
  rw [hremove]
  cases hr : r.1.backup with
  | none => split_ifs <;> rfl
  | some b =>
    rw [hr] at hb
    split_ifs <;> exact hrename b _ (hb b rfl)

end Overlay

/-! ### One pass -/

namespace Turn

/-- The file at the target is found. -/
def sees (τ : Turn) (t : Path) (d : Files) : Bool := τ.tryExists && (d t).isSome

/-- The directory is there and what was found moves away, so that a record is kept. -/
def starts (τ : Turn) (t : Path) (d : Files) : Bool :=
  (t.parent.isNone || τ.createDir) &&
    (!τ.sees t d || τ.backUp && (d t).all fun n => n.replaces (d (backupPathFor t)))

/-- The bytes that were fetched, if they have the declared hash. -/
def delivered (π : Primitives) (τ : Turn) (a : Artifact) : Option Bytes :=
  match τ.fetch with
  | .ok bytes => if π.sha256Hex bytes = a.wanted then some bytes else none
  | .error _ => none

/-- What the write of the temporary file leaves in it. -/
def temporary (π : Primitives) (τ : Turn) (a : Artifact) (t : Path) (d : Files) : Option Bytes :=
  if isDir (d (tmpPathFor t)) then none
  else
    match τ.write with
    | .refused => none
    | .cut n => (τ.delivered π a).map (List.take n)
    | .whole => τ.delivered π a

/-- Once started, the artifact gets into place. -/
def finishes (π : Primitives) (τ : Turn) (a : Artifact) (t : Path) (d : Files) : Bool :=
  match τ.write with
  | .whole => (τ.temporary π a t d).isSome && τ.install && (τ.sees t d || !isDir (d t))
  | _ => false

def afterMove (τ : Turn) (t : Path) (d : Files) : Files :=
  if τ.sees t d then (d.set t none).set (backupPathFor t) (d t) else d

def afterPlace (π : Primitives) (τ : Turn) (a : Artifact) (t : Path) (d : Files) : Files :=
  match τ.temporary π a t d with
  | none => τ.afterMove t d
  | some bytes =>
    if τ.finishes π a t d then
      ((τ.afterMove t d).set (tmpPathFor t) none).set t (some (.file bytes))
    else (τ.afterMove t d).set (tmpPathFor t) (some (.file bytes))

variable (π : Primitives) (τ : Turn) (a : Artifact) (t : Path) (d : Files)

theorem moveAway_eq : τ.moveAway t d =
    if !τ.sees t d || τ.backUp && (d t).all fun n => n.replaces (d (backupPathFor t)) then
      some (τ.afterMove t d, if τ.sees t d then some (backupPathFor t) else none)
    else none := by
  unfold moveAway afterMove sees rename
  cases hd : d t with
  | none => simp
  | some n =>
    cases τ.tryExists <;> cases τ.backUp <;> simp [(backupPathFor_ne t).symm]

theorem afterMove_target : τ.afterMove t d t = if τ.sees t d then none else d t := by
  unfold afterMove
  split_ifs
  · rw [set_of_ne (backupPathFor_ne t).symm, set_self]
  · rfl

theorem afterMove_backup :
    τ.afterMove t d (backupPathFor t) = if τ.sees t d then d t else d (backupPathFor t) := by
  unfold afterMove
  split_ifs
  · exact set_self ..
  · rfl

theorem afterMove_tmp : τ.afterMove t d (tmpPathFor t) = d (tmpPathFor t) := by
  unfold afterMove
  split_ifs
  · rw [set_of_ne (tmpPathFor_ne_backup t), set_of_ne (tmpPathFor_ne t)]
  · rfl

theorem moveIn_eq (bytes : Bytes) :
    τ.moveIn t ((τ.afterMove t d).set (tmpPathFor t) (some (.file bytes))) =
      if τ.install && (τ.sees t d || !isDir (d t)) then
        (((τ.afterMove t d).set (tmpPathFor t) none).set t (some (.file bytes)), true)
      else ((τ.afterMove t d).set (tmpPathFor t) (some (.file bytes)), false) := by
  have hfree : (Node.file bytes).replaces (τ.afterMove t d t) = (τ.sees t d || !isDir (d t)) := by
    rw [Node.file_replaces, afterMove_target]
    cases τ.sees t d <;> rfl
  unfold moveIn rename
  rw [set_self, set_of_ne (tmpPathFor_ne t).symm, set_set]
  simp only [tmpPathFor_ne t, if_false, hfree]
  cases τ.install <;> cases τ.sees t d || !isDir (d t) <;> rfl

theorem place_eq : τ.place π a t (τ.afterMove t d) =
    (τ.afterPlace π a t d, τ.finishes π a t d) := by
  have hnone : τ.delivered π a = none → τ.temporary π a t d = none := by
    intro h
    unfold temporary
    rw [h]
    split_ifs
    · rfl
    · cases τ.write <;> rfl
  have hstay : τ.temporary π a t d = none →
      (τ.afterMove t d, false) = (τ.afterPlace π a t d, τ.finishes π a t d) := by
    intro h
    unfold afterPlace finishes
    rw [h]
    cases τ.write <;> rfl
  unfold place
  cases hf : τ.fetch with
  | error _ => exact hstay (hnone (by simp [delivered, hf]))
  | ok bytes =>
    by_cases hh : π.sha256Hex bytes = a.wanted
    · have hdel : τ.delivered π a = some bytes := by simp [delivered, hf, hh]
      simp only [hh, ne_eq, not_true_eq_false, if_false]
      unfold writeTemp
      simp only [write_eq, afterMove_tmp]
      by_cases hdir : isDir (d (tmpPathFor t))
      · have htemp : τ.temporary π a t d = none := if_pos hdir
        rw [← hstay htemp]
        cases τ.write <;> simp [hdir]
      · cases hw : τ.write with
        | refused => exact hstay (by simp [temporary, hdir, hw])
        | cut n => simp [afterPlace, finishes, temporary, hdir, hw, hdel]
        | whole =>
          have htemp : τ.temporary π a t d = some bytes := by simp [temporary, hdir, hw, hdel]
          have hfin : τ.finishes π a t d = (τ.install && (τ.sees t d || !isDir (d t))) := by
            simp [finishes, htemp, hw]
          simp only [hdir, Bool.false_eq_true, if_false, moveIn_eq, afterPlace, htemp, hfin]
          split_ifs with hm
          · rw [hm]
          · rw [Bool.not_eq_true] at hm
            rw [hm]
    · simp only [ne_eq, hh, not_false_eq_true, if_true]
      exact hstay (hnone (by simp [delivered, hf, hh]))

end Turn

variable {π : Primitives} {c : SignedUpdateClient} {x : Artifact × Turn} {t : Path} {d : Files}

theorem installArtifact_of_not_starts (hi : c.installPath x.1 = .ok t)
    (hs : x.2.starts t d = false) : c.installArtifact π x d = ⟨d, none, false⟩ := by
  unfold SignedUpdateClient.installArtifact
  simp only [hi, Turn.moveAway_eq]
  unfold Turn.starts at hs
  cases hp : t.parent.isSome && !x.2.createDir with
  | true => rfl
  | false =>
    have hdir : (t.parent.isNone || x.2.createDir) = true := by
      cases hparent : t.parent <;> simp_all
    rw [hdir, Bool.true_and] at hs
    simp [hs]

theorem installArtifact_of_starts (hi : c.installPath x.1 = .ok t)
    (hs : x.2.starts t d = true) : c.installArtifact π x d =
      ⟨x.2.afterPlace π x.1 t d,
        some ⟨t, if x.2.sees t d then some (backupPathFor t) else none, x.2.finishes π x.1 t d⟩,
        x.2.finishes π x.1 t d⟩ := by
  obtain ⟨hdir, hmove⟩ := Bool.and_eq_true_iff.mp hs
  unfold SignedUpdateClient.installArtifact
  have hparent : (t.parent.isSome && !x.2.createDir) = false := by
    cases hparent : t.parent <;> simp_all
  simp only [hi, hparent, Turn.moveAway_eq, hmove, if_true, Bool.false_eq_true, if_false,
    Turn.place_eq]

theorem installArtifact_of_error {e : Error} (hi : c.installPath x.1 = .error e) :
    c.installArtifact π x d = ⟨d, none, false⟩ := by
  unfold SignedUpdateClient.installArtifact
  rw [hi]

theorem forall_names {P : Path → Prop} {a : Artifact} (hi : c.installPath a = .ok t) :
    (∀ p ∈ c.names a, P p) ↔ P t ∧ P (backupPathFor t) ∧ P (tmpPathFor t) := by
  simp [SignedUpdateClient.names, hi]

end Aegis
