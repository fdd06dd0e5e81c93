import Aegis.Update.Pass
import Mathlib.Data.List.Pairwise
import Mathlib.Tactic.SplitIfs

/-! When applying an update is all or nothing. -/
namespace Aegis
open Text Disk Files

variable {π : Primitives} {c : SignedUpdateClient} {x : Artifact × Turn} {t : Path} {d : Files}

/-! ### The condition -/

namespace SignedUpdateClient

/-- From the files `d`, the artifact gets into place. -/
def completes (π : Primitives) (c : SignedUpdateClient) (x : Artifact × Turn) (d : Files) :
    Bool :=
  match c.installPath x.1 with
  | .ok t => x.2.starts t d && x.2.finishes π x.1 t d
  | .error _ => false

/-- An artifact that got into place can be taken back: its temporary name was free, and either
the previous file was moved to a free name and can return, or there was none and the new file can
be removed. A file that was there and not found is kept only where the new one has its content
and stays. -/
def restored (π : Primitives) (c : SignedUpdateClient) (x : Artifact × Turn) (d : Files) : Bool :=
  match c.installPath x.1 with
  | .ok t =>
    (d (tmpPathFor t)).isNone &&
      if x.2.sees t d then (d (backupPathFor t)).isNone && (x.2.removeNew || !isDir (d t))
      else if x.2.removeNew then (d t).isNone
      else decide (d t = (x.2.temporary π x.1 t d).map .file)
  | .error _ => true

/-- The artifact that fails took no other file's name and leaves no temporary file, unless one
with this content was there. -/
def leavesNothing (π : Primitives) (c : SignedUpdateClient) (x : Artifact × Turn) (d : Files) :
    Bool :=
  match c.installPath x.1 with
  | .ok t =>
    !x.2.starts t d || (!x.2.sees t d || (d (backupPathFor t)).isNone) &&
      (x.2.temporary π x.1 t d).all fun bytes => decide (d (tmpPathFor t) = some (.file bytes))
  | .error _ => true

/-- The installed artifact cost no other file: its temporary name was free, and so was its backup
name where it was used, unless the same is there afterwards. -/
def sparesOthers (c : SignedUpdateClient) (x : Artifact × Turn) (d : Files) : Bool :=
  match c.installPath x.1 with
  | .ok t =>
    (d (tmpPathFor t)).isNone &&
      (!x.2.sees t d || (d (backupPathFor t)).isNone ||
        decide (d (backupPathFor t) = d t) && (!x.2.removeBackup || isDir (d t)))
  | .error _ => true

/-- Everything up to the artifact that fails can be taken back. -/
def clearToRollBack (π : Primitives) (c : SignedUpdateClient) (d : Files) :
    List (Artifact × Turn) → Bool
  | [] => true
  | x :: xs =>
    if c.completes π x d then c.restored π x d && clearToRollBack π c d xs
    else c.leavesNothing π x d

end SignedUpdateClient

open SignedUpdateClient

theorem installArtifact_done : (c.installArtifact π x d).done = c.completes π x d := by
  unfold completes
  cases hi : c.installPath x.1 with
  | error e => rw [installArtifact_of_error hi]
  | ok t =>
    cases hs : x.2.starts t d with
    | false => simp [installArtifact_of_not_starts hi hs, hs]
    | true => simp [installArtifact_of_starts hi hs, hs]

theorem Turn.temporary_of_finishes {τ : Turn} {a : Artifact} (h : τ.finishes π a t d = true) :
    ∃ bytes, τ.temporary π a t d = some bytes ∧ π.sha256Hex bytes = a.wanted := by
  unfold Turn.finishes at h
  cases hw : τ.write <;> simp [hw] at h
  obtain ⟨bytes, htemp⟩ := Option.isSome_iff_exists.mp h.1.1
  refine ⟨bytes, htemp, ?_⟩
  unfold Turn.temporary Turn.delivered at htemp
  cases hfetch : τ.fetch with
  | error _ => simp [hw, hfetch] at htemp
  | ok got =>
    by_cases hgot : π.sha256Hex got = a.wanted
    · simp [hw, hfetch, hgot] at htemp
      rw [← htemp.2, hgot]
    · simp [hw, hfetch, hgot] at htemp

/-- An artifact in place and then undone leaves its paths as they were exactly if it can be taken
back. -/
theorem undo_completed (h : c.completes π x d = true) : ∃ r,
    (c.installArtifact π x d).record = some r ∧
      ((∀ p ∈ c.names x.1, undo (c.installArtifact π x d).files (r, x.2) p = d p) ↔
        c.restored π x d = true) := by
  unfold completes at h
  cases hi : c.installPath x.1 with
  | error e => simp [hi] at h
  | ok t =>
    simp only [hi, Bool.and_eq_true] at h
    obtain ⟨hs, hf⟩ := h
    obtain ⟨bytes, htemp, -⟩ := Turn.temporary_of_finishes hf
    rw [installArtifact_of_starts hi hs]
    refine ⟨_, rfl, ?_⟩
    rw [forall_names hi]
    simp only [hf]
    generalize hfiles : x.2.afterPlace π x.1 t d = f
    simp only [Turn.afterPlace, htemp, hf, if_true] at hfiles
    have hft : f t = some (.file bytes) := by rw [← hfiles, set_self]
    have hfm : f (tmpPathFor t) = none := by rw [← hfiles, set_of_ne (tmpPathFor_ne t), set_self]
    have hfb : f (backupPathFor t) = if x.2.sees t d then d t else d (backupPathFor t) := by
      rw [← hfiles, set_of_ne (backupPathFor_ne t), set_of_ne (tmpPathFor_ne_backup t).symm,
        Turn.afterMove_backup]
    have hremove : (f.removeFile t).getD f = f.set t none := by simp [removeFile, hft]
    obtain ⟨g, hg⟩ : ∃ g, g = if x.2.removeNew then f.set t none else f := ⟨_, rfl⟩
    have hgt : g t = if x.2.removeNew then none else some (.file bytes) := by
      rw [hg]
      split_ifs
      · exact set_self ..
      · exact hft
    have hother : ∀ p, p ≠ t → g p = f p := by
      intro p hp
      rw [hg]
      split_ifs
      · exact set_of_ne hp ..
      · rfl
    have hgb := hother _ (backupPathFor_ne t)
    have hgm := hother _ (tmpPathFor_ne t)
    unfold undo restored
    simp only [hi, hremove, htemp, Bool.true_and, ← hg]
    cases hsee : x.2.sees t d with
    | false =>
      simp only [hsee, Bool.false_eq_true, if_false] at hfb ⊢
      rw [hgt, hgb, hfb, hgm, hfm]
      cases x.2.removeNew <;>
        simp only [Bool.false_eq_true, if_false, if_true, true_and, Bool.and_eq_true,
          Option.isNone_iff_eq_none, decide_eq_true_eq, Option.map_some] <;>
        exact ⟨fun h => ⟨h.2.symm, h.1.symm⟩, fun h => ⟨h.2.symm, h.1.symm⟩⟩
    | true =>
      obtain ⟨n, hn⟩ := Option.isSome_iff_exists.mp (Bool.and_eq_true_iff.mp hsee).2
      simp only [hsee, if_true] at hfb ⊢
      have hfits : n.replaces (g t) = (x.2.removeNew || !isDir (d t)) := by
        rw [hgt, hn]
        cases x.2.removeNew
        · exact Node.replaces_file n bytes
        · rfl
      unfold rename
      simp only [hgb, hfb, hn, backupPathFor_ne t, if_false, hfits]
      split_ifs with hr
      · simp only [Option.getD_some, set_self, set_of_ne (backupPathFor_ne t),
          set_of_ne (tmpPathFor_ne t), set_of_ne (tmpPathFor_ne_backup t), hgm, hfm]
        simp only [true_and, Bool.and_eq_true, Option.isNone_iff_eq_none]
        exact ⟨fun h => ⟨h.2.symm, h.1.symm, hr⟩, fun h => ⟨h.2.1.symm, h.1.symm⟩⟩
      · -- the new file stays in the way of a directory
        obtain ⟨hrn, hdir⟩ : x.2.removeNew = false ∧ isDir (some n) = true := by simpa using hr
        have hne : some (Node.file bytes) ≠ some n := by
          rintro h
          rw [← h] at hdir
          cases hdir
        rw [Option.getD_none, hgt]
        simp [hrn, hdir, hne]

/-- Undo in reverse order, as nested calls. -/
def undoAll (records : List (Backup × Turn)) (d : Files) : Files :=
  records.foldr (fun r d => undo d r) d

/-- The artifact that fails leaves its paths as they were exactly under the condition above. -/
theorem undo_failed (h : c.completes π x d = false) :
    (∀ p ∈ c.names x.1, undoAll ((c.installArtifact π x d).record.toList.map fun r => (r, x.2))
      (c.installArtifact π x d).files p = d p) ↔ c.leavesNothing π x d = true := by
  unfold completes at h
  unfold leavesNothing
  cases hi : c.installPath x.1 with
  | error e => simp [installArtifact_of_error hi, undoAll]
  | ok t =>
    cases hs : x.2.starts t d with
    | false => simp [installArtifact_of_not_starts hi hs, undoAll, hs]
    | true =>
      have hf : x.2.finishes π x.1 t d = false := by simpa [hi, hs] using h
      rw [installArtifact_of_starts hi hs, forall_names hi]
      simp only [hf, hs, Bool.not_true, Bool.false_or]
      generalize hfiles : x.2.afterPlace π x.1 t d = f
      simp only [Turn.afterPlace, hf, Bool.false_eq_true, if_false] at hfiles
      have hother : ∀ p, p ≠ tmpPathFor t → f p = x.2.afterMove t d p := by
        intro p hp
        rw [← hfiles]
        cases x.2.temporary π x.1 t d with
        | none => rfl
        | some bytes => exact set_of_ne hp ..
      have hfm : f (tmpPathFor t) = d (tmpPathFor t) ↔ ((x.2.temporary π x.1 t d).all
          fun bytes => decide (d (tmpPathFor t) = some (.file bytes))) = true := by
        rw [← hfiles]
        cases x.2.temporary π x.1 t d with
        | none => simp [Turn.afterMove_tmp]
        | some bytes => simp [eq_comm]
      have hft := (hother t (tmpPathFor_ne t).symm).trans (Turn.afterMove_target x.2 t d)
      have hfb := (hother _ (tmpPathFor_ne_backup t).symm).trans (Turn.afterMove_backup x.2 t d)
      simp only [undoAll, Option.toList_some, List.map_cons, List.map_nil, List.foldr_cons,
        List.foldr_nil, Bool.and_eq_true, ← hfm]
      cases hsee : x.2.sees t d with
      | false =>
        simp only [hsee, Bool.false_eq_true, if_false] at hft hfb
        simp [undo, hft, hfb]
      | true =>
        obtain ⟨n, hn⟩ := Option.isSome_iff_exists.mp (Bool.and_eq_true_iff.mp hsee).2
        simp only [hsee, if_true] at hft hfb
        have hundo : undo f (⟨t, some (backupPathFor t), false⟩, x.2) =
            (f.set (backupPathFor t) none).set t (some n) := by
          simp [undo, rename, hft, hfb, hn, backupPathFor_ne t, Node.replaces]
        simp only [if_true, hundo, set_self, set_of_ne (backupPathFor_ne t),
          set_of_ne (tmpPathFor_ne t), set_of_ne (tmpPathFor_ne_backup t), hn, true_and,
          Bool.not_true, Bool.false_or, Option.isNone_iff_eq_none]
        rw [eq_comm]

/-! ### One artifact after another -/

/-- Two installations touch no common path. -/
def Apart (c : SignedUpdateClient) (x y : Artifact × Turn) : Prop :=
  ∀ p ∈ c.names x.1, p ∉ c.names y.1

instance (c : SignedUpdateClient) (x y : Artifact × Turn) : Decidable (Apart c x y) :=
  inferInstanceAs (Decidable (∀ p ∈ c.names x.1, p ∉ c.names y.1))

instance (c : SignedUpdateClient) : Std.Symm (Apart c) where
  symm _ _ h p hy hx := h p hx hy

variable {p : Path} {e : Files} {xs : List (Artifact × Turn)}

/-- Where the files are the same on an artifact's paths, its installation does the same there and
nothing elsewhere. -/
theorem installArtifact_local (h : ∀ p ∈ c.names x.1, e p = d p) :
    c.installArtifact π x e = { c.installArtifact π x d with
      files := overlay (c.names x.1) (c.installArtifact π x d).files e } := by
  have ho : c.installArtifact π x (overlay (c.names x.1) d e) = _ :=
    installArtifact_overlay fun _ h => h
  rwa [overlay_of_agree h] at ho

theorem installArtifact_frame (hp : p ∉ c.names x.1) :
    (c.installArtifact π x d).files p = d p := by
  have h : c.installArtifact π x d = _ := installArtifact_local fun _ _ => rfl
  rw [h]
  exact overlay_of_notMem hp

theorem record_names {r : Backup} (h : (c.installArtifact π x d).record = some r) :
    r.target ∈ c.names x.1 ∧ ∀ b ∈ r.backup, b ∈ c.names x.1 := by
  cases hi : c.installPath x.1 with
  | error e => simp [installArtifact_of_error hi] at h
  | ok t =>
    cases hs : x.2.starts t d with
    | false => simp [installArtifact_of_not_starts hi hs] at h
    | true =>
      rw [installArtifact_of_starts hi hs] at h
      cases h
      simp only [names, hi]
      refine ⟨by simp, fun b hb => ?_⟩
      split_ifs at hb
      · cases hb
        simp
      · cases hb

theorem undo_frame {r : Backup} (h : (c.installArtifact π x d).record = some r)
    (hp : p ∉ c.names x.1) : undo e (r, x.2) p = e p := by
  obtain ⟨ht, hb⟩ := record_names h
  have ho := undo_overlay (S := c.names x.1) (d := e) (e := e) (r := (r, x.2)) ht hb
  rw [overlay_self] at ho
  rw [ho]
  exact overlay_of_notMem hp

theorem installAll_cons_completed (h : c.completes π x d = true) :
    c.installAll π (x :: xs) d =
      let rest := c.installAll π xs (c.installArtifact π x d).files
      (rest.1, ((c.installArtifact π x d).record.toList.map fun r => (r, x.2)) ++ rest.2.1,
        rest.2.2) := by
  simp only [installAll, installArtifact_done, h, if_true]

theorem installAll_cons_failed (h : c.completes π x d = false) :
    c.installAll π (x :: xs) d = ((c.installArtifact π x d).files,
      (c.installArtifact π x d).record.toList.map fun r => (r, x.2), false) := by
  simp only [installAll, installArtifact_done, h, Bool.false_eq_true, if_false]

/-- Installing artifacts and undoing them again changes none but their paths. -/
theorem undoAll_frame (h : ∀ x ∈ xs, p ∉ c.names x.1) :
    undoAll (c.installAll π xs d).2.1 (c.installAll π xs d).1 p = d p := by
  induction xs generalizing d with
  | nil => rfl
  | cons x xs ih =>
    have hx := h x (by simp)
    have hrecords : ∀ e, undoAll ((c.installArtifact π x d).record.toList.map fun r => (r, x.2)) e p
        = e p := by
      intro e
      cases hr : (c.installArtifact π x d).record with
      | none => rfl
      | some r => exact undo_frame hr hx
    cases hc : c.completes π x d with
    | true =>
      rw [installAll_cons_completed hc]
      simp only [undoAll, List.foldr_append] at hrecords ih ⊢
      rw [hrecords, ih fun y hy => h y (by simp [hy]), installArtifact_frame hx]
    | false =>
      rw [installAll_cons_failed hc, hrecords]
      exact installArtifact_frame hx

/-! The condition on an artifact depends on the paths of the artifact only. -/

section Congr

variable (h : ∀ p ∈ c.names x.1, e p = d p)
include h

theorem completes_congr : c.completes π x e = c.completes π x d := by
  rw [← installArtifact_done, installArtifact_local h, installArtifact_done]

theorem restored_congr : c.restored π x e = c.restored π x d := by
  unfold restored
  cases hi : c.installPath x.1 with
  | error _ => rfl
  | ok t =>
    obtain ⟨ht, hb, hm⟩ := (forall_names hi).mp h
    rw [Bool.eq_iff_iff]
    simp only [Turn.sees, Turn.temporary, ht, hb, hm, Bool.and_eq_true]
    split_ifs <;> simp only [decide_eq_true_eq]

theorem leavesNothing_congr : c.leavesNothing π x e = c.leavesNothing π x d := by
  unfold leavesNothing
  cases hi : c.installPath x.1 with
  | error _ => rfl
  | ok t =>
    obtain ⟨ht, hb, hm⟩ := (forall_names hi).mp h
    simp only [Turn.sees, Turn.starts, Turn.temporary, ht, hb, hm]

end Congr

theorem clearToRollBack_congr (h : ∀ x ∈ xs, ∀ p ∈ c.names x.1, e p = d p) :
    c.clearToRollBack π e xs = c.clearToRollBack π d xs := by
  induction xs with
  | nil => rfl
  | cons x xs ih =>
    have hx := h x (by simp)
    unfold clearToRollBack
    rw [completes_congr hx, restored_congr hx, leavesNothing_congr hx,
      ih fun y hy => h y (by simp [hy])]

/-- After a failure everything is as before exactly if all can be taken back. -/
theorem undoAll_iff (hap : xs.Pairwise (Apart c)) (hfail : (c.installAll π xs d).2.2 = false) :
    (∀ p, undoAll (c.installAll π xs d).2.1 (c.installAll π xs d).1 p = d p) ↔
      c.clearToRollBack π d xs = true := by
  induction xs generalizing d with
  | nil => simp [installAll] at hfail
  | cons x xs ih =>
    obtain ⟨hx, hap⟩ := List.pairwise_cons.mp hap
    unfold clearToRollBack
    cases hc : c.completes π x d with
    | false =>
      rw [installAll_cons_failed hc, if_neg Bool.false_ne_true, ← undo_failed hc]
      refine ⟨fun h p _ => h p, fun h p => ?_⟩
      by_cases hp : p ∈ c.names x.1
      · exact h p hp
      · have hframe : undoAll (c.installAll π [x] d).2.1 (c.installAll π [x] d).1 p = d p :=
          undoAll_frame (by simpa using hp)
        rwa [installAll_cons_failed hc] at hframe
    | true =>
      obtain ⟨r, hr, hundo⟩ := undo_completed hc
      have hframe : ∀ p ∉ c.names x.1, (c.installArtifact π x d).files p = d p :=
        fun p hp => installArtifact_frame hp
      rw [installAll_cons_completed hc] at hfail ⊢
      rw [if_pos rfl, Bool.and_eq_true, ← hundo, hr]
      generalize (c.installArtifact π x d).files = d₁ at *
      have hrest : ∀ p ∈ c.names x.1,
          undoAll (c.installAll π xs d₁).2.1 (c.installAll π xs d₁).1 p = d₁ p :=
        fun p hp => undoAll_frame fun y hy => hx y hy p hp
      have hcongr : c.clearToRollBack π d₁ xs = c.clearToRollBack π d xs :=
        clearToRollBack_congr fun y hy p hp => hframe p fun hpx => hx y hy p hpx hp
      rw [← hcongr, ← ih hap hfail]
      simp only [undoAll, Option.toList_some, List.map_cons, List.map_nil, List.cons_append,
        List.nil_append, List.foldr_cons] at hrest ⊢
      generalize (c.installAll π xs d₁).2.1.foldr (fun r d => undo d r)
        (c.installAll π xs d₁).1 = e at *
      have hlocal : undo e (r, x.2) = overlay (c.names x.1) (undo d₁ (r, x.2)) e := by
        obtain ⟨ht, hb⟩ := record_names hr
        rw [← undo_overlay (r := (r, x.2)) ht hb, overlay_of_agree hrest]
      rw [hlocal]
      constructor
      · intro h
        refine ⟨fun p hp => by rw [← h p, overlay_of_mem hp], fun p => ?_⟩
        by_cases hp : p ∈ c.names x.1
        · exact hrest p hp
        · rw [hframe p hp, ← h p, overlay_of_notMem hp]
      · rintro ⟨hx, hxs⟩ p
        by_cases hp : p ∈ c.names x.1
        · rw [overlay_of_mem hp, hx p hp]
        · rw [overlay_of_notMem hp, hxs p, hframe p hp]

/-! ### Success -/

theorem installAll_done_iff (hap : xs.Pairwise (Apart c)) :
    (c.installAll π xs d).2.2 = true ↔ ∀ x ∈ xs, c.completes π x d = true := by
  induction xs generalizing d with
  | nil => simp [installAll]
  | cons x xs ih =>
    obtain ⟨hx, hap⟩ := List.pairwise_cons.mp hap
    cases hc : c.completes π x d with
    | false => simp [installAll_cons_failed hc, hc]
    | true =>
      have hcongr : ∀ y ∈ xs,
          c.completes π y (c.installArtifact π x d).files = c.completes π y d :=
        fun y hy => completes_congr fun p hp => installArtifact_frame fun hpx => hx y hy p hpx hp
      rw [installAll_cons_completed hc]
      simp only [ih hap, List.forall_mem_cons, hc, true_and]
      exact forall₂_congr fun y hy => by rw [hcongr y hy]

theorem installArtifact_congr (h : ∀ p ∈ c.names x.1, e p = d p) :
    (c.installArtifact π x e).record = (c.installArtifact π x d).record ∧
      ∀ p ∈ c.names x.1, (c.installArtifact π x e).files p = (c.installArtifact π x d).files p := by
  rw [installArtifact_local h]
  exact ⟨rfl, fun p hp => overlay_of_mem hp⟩

theorem installAll_frame (h : ∀ x ∈ xs, p ∉ c.names x.1) : (c.installAll π xs d).1 p = d p := by
  induction xs generalizing d with
  | nil => rfl
  | cons x xs ih =>
    have hx := h x (by simp)
    cases hc : c.completes π x d with
    | true =>
      rw [installAll_cons_completed hc]
      exact (ih fun y hy => h y (by simp [hy])).trans (installArtifact_frame hx)
    | false =>
      rw [installAll_cons_failed hc]
      exact installArtifact_frame hx

/-- Once all are in place, each artifact's paths are as if it were the only one. -/
theorem installAll_files (hap : xs.Pairwise (Apart c))
    (hall : ∀ x ∈ xs, c.completes π x d = true) :
    ∀ x ∈ xs, ∀ p ∈ c.names x.1,
      (c.installAll π xs d).1 p = (c.installArtifact π x d).files p := by
  induction xs generalizing d with
  | nil => simp
  | cons x xs ih =>
    obtain ⟨hx, hap⟩ := List.pairwise_cons.mp hap
    have hagree : ∀ y ∈ xs, ∀ p ∈ c.names y.1, (c.installArtifact π x d).files p = d p :=
      fun y hy p hp => installArtifact_frame fun hpx => hx y hy p hpx hp
    rw [installAll_cons_completed (hall x (by simp))]
    intro y hy p hp
    rcases List.mem_cons.mp hy with rfl | hy
    · exact installAll_frame fun z hz => hx z hz p hp
    · refine (ih hap (fun z hz => ?_) y hy p hp).trans
        ((installArtifact_congr (hagree y hy)).2 p hp)
      rw [completes_congr (hagree z hz)]
      exact hall z (by simp [hz])

theorem installAll_records (hap : xs.Pairwise (Apart c))
    (hall : ∀ x ∈ xs, c.completes π x d = true) (r : Backup × Turn) :
    r ∈ (c.installAll π xs d).2.1 ↔
      ∃ x ∈ xs, (c.installArtifact π x d).record = some r.1 ∧ x.2 = r.2 := by
  induction xs generalizing d with
  | nil => simp [installAll]
  | cons x xs ih =>
    obtain ⟨hx, hap⟩ := List.pairwise_cons.mp hap
    have hagree : ∀ y ∈ xs, ∀ p ∈ c.names y.1, (c.installArtifact π x d).files p = d p :=
      fun y hy p hp => installArtifact_frame fun hpx => hx y hy p hpx hp
    have hrest : ∀ y ∈ xs, c.completes π y (c.installArtifact π x d).files = true := by
      intro y hy
      rw [completes_congr (hagree y hy)]
      exact hall y (by simp [hy])
    rw [installAll_cons_completed (hall x (by simp))]
    simp only [List.mem_append, ih hap hrest, List.mem_map, Option.mem_toList,
      List.exists_mem_cons_iff]
    refine or_congr ?_ ?_
    · constructor
      · rintro ⟨r, hr, rfl⟩
        exact ⟨hr, rfl⟩
      · rintro ⟨hr, hτ⟩
        exact ⟨r.1, hr, by rw [hτ]⟩
    · refine exists_congr fun y => and_congr_right fun hy => ?_
      rw [(installArtifact_congr (hagree y hy)).1]

theorem dropBackup_apply (r : Backup × Turn) (d : Files) (p : Path) :
    dropBackup d r p =
      if (r.1.backup = some p ∧ r.2.removeBackup = true) ∧ isDir (d p) = false then none
      else d p := by
  unfold dropBackup
  cases hb : r.1.backup with
  | none => simp
  | some b =>
    cases r.2.removeBackup with
    | false => simp
    | true =>
      simp only [if_true, removeFile_getD, and_true, Option.some.injEq, eq_comm (a := b)]

/-- What is left at a path once the backups are dropped. -/
theorem dropBackups_apply (records : List (Backup × Turn)) (d : Files) (p : Path) :
    records.foldl dropBackup d p =
      if (∃ r ∈ records, r.1.backup = some p ∧ r.2.removeBackup = true) ∧ isDir (d p) = false
      then none else d p := by
  induction records generalizing d with
  | nil => simp
  | cons r records ih =>
    rw [List.foldl_cons, ih, dropBackup_apply]
    by_cases hdir : isDir (d p) = false
    · by_cases hr : r.1.backup = some p ∧ r.2.removeBackup = true
      · simp [hr, hdir]
      · have hkeep : ¬((r.1.backup = some p ∧ r.2.removeBackup = true) ∧ isDir (d p) = false) :=
          fun h => hr h.1
        rw [if_neg hkeep]
        simp only [List.exists_mem_cons_iff, hr, false_or]
    · simp [hdir]

/-- The files a success leaves. -/
def tidied (π : Primitives) (c : SignedUpdateClient) (xs : List (Artifact × Turn)) (d : Files) :
    Files :=
  (c.installAll π xs d).2.1.foldl dropBackup (c.installAll π xs d).1

section Success

variable (hap : xs.Pairwise (Apart c)) (hall : ∀ x ∈ xs, c.completes π x d = true)
include hap

theorem eq_of_names {y : Artifact × Turn} (hx : x ∈ xs) (hy : y ∈ xs) (hpx : p ∈ c.names x.1)
    (hpy : p ∈ c.names y.1) : y = x := by
  by_contra hne
  exact hap.forall hy hx hne p hpy hpx

include hall

/-- No other artifact's backup is dropped at the paths of an artifact. -/
theorem tidied_apply (hx : x ∈ xs) (hp : p ∈ c.names x.1) : tidied π c xs d p =
    if (∃ r, (c.installArtifact π x d).record = some r ∧ r.backup = some p ∧
        x.2.removeBackup = true) ∧ isDir ((c.installArtifact π x d).files p) = false then none
    else (c.installArtifact π x d).files p := by
  unfold tidied
  rw [dropBackups_apply, installAll_files hap hall x hx p hp]
  have hown : (∃ r ∈ (c.installAll π xs d).2.1, r.1.backup = some p ∧ r.2.removeBackup = true) ↔
      ∃ r, (c.installArtifact π x d).record = some r ∧ r.backup = some p ∧
        x.2.removeBackup = true := by
    constructor
    · rintro ⟨r, hr, hb, hτ⟩
      obtain ⟨y, hy, hrec, hyr⟩ := (installAll_records hap hall r).mp hr
      obtain rfl := eq_of_names hap hx hy hp ((record_names hrec).2 p hb)
      exact ⟨r.1, hrec, hb, hyr ▸ hτ⟩
    · rintro ⟨r, hr, hb, hτ⟩
      exact ⟨(r, x.2), (installAll_records hap hall _).mpr ⟨x, hx, hr, rfl⟩, hb, hτ⟩
  simp only [hown]

theorem tidied_frame (hp : ∀ x ∈ xs, p ∉ c.names x.1) : tidied π c xs d p = d p := by
  unfold tidied
  rw [dropBackups_apply, if_neg, installAll_frame hp]
  rintro ⟨⟨r, hr, hb, -⟩, -⟩
  obtain ⟨y, hy, hrec, -⟩ := (installAll_records hap hall r).mp hr
  exact hp y hy ((record_names hrec).2 p hb)

theorem tidied_at (hx : x ∈ xs) (hi : c.installPath x.1 = .ok t) :
    (∃ bytes, tidied π c xs d t = some (.file bytes) ∧ π.sha256Hex bytes = x.1.wanted) ∧
      tidied π c xs d (tmpPathFor t) = none ∧
      tidied π c xs d (backupPathFor t) =
        if x.2.sees t d then if x.2.removeBackup && !isDir (d t) then none else d t
        else d (backupPathFor t) := by
  have hc := hall x hx
  simp only [completes, hi, Bool.and_eq_true] at hc
  obtain ⟨hs, hf⟩ := hc
  obtain ⟨bytes, htemp, hhash⟩ := Turn.temporary_of_finishes hf
  have hat := fun p hp => tidied_apply (p := p) hap hall hx hp
  rw [forall_names hi, installArtifact_of_starts hi hs] at hat
  obtain ⟨ht, hb, hm⟩ := hat
  simp only [Turn.afterPlace, htemp, hf, if_true, set_self, set_of_ne (backupPathFor_ne t),
    set_of_ne (tmpPathFor_ne t), set_of_ne (tmpPathFor_ne_backup t).symm,
    Turn.afterMove_backup, Option.some.injEq, exists_eq_left'] at ht hb hm
  rw [ite_self] at hm
  refine ⟨⟨bytes, ?_, hhash⟩, hm, ?_⟩
  · rw [ht, if_neg]
    rintro ⟨⟨hb, -⟩, -⟩
    split_ifs at hb
    exact backupPathFor_ne t (Option.some.inj hb)
  · rw [hb]
    cases x.2.sees t d <;> simp

/-- After a success the files that are no target are as before exactly if each artifact spared
them. -/
theorem tidied_iff :
    (∀ p n, (∀ x ∈ xs, c.installPath x.1 ≠ .ok p) → d p = some n → tidied π c xs d p = some n) ↔
      ∀ x ∈ xs, c.sparesOthers x d = true := by
  constructor
  · intro h x hx
    unfold sparesOthers
    cases hi : c.installPath x.1 with
    | error e => rfl
    | ok t =>
      obtain ⟨-, hm, hb⟩ := tidied_at hap hall hx hi
      have hnot : ∀ p ∈ c.names x.1, p ≠ t → ∀ y ∈ xs, c.installPath y.1 ≠ .ok p := by
        intro p hp hne y hy hyp
        obtain rfl := eq_of_names hap hx hy hp (by simp [names, hyp])
        exact hne (Except.ok.inj (hyp.symm.trans hi))
      have hkeep := fun p hp hne n => h p n (hnot p hp hne)
      have hkm := hkeep (tmpPathFor t) (by simp [names, hi]) (tmpPathFor_ne t)
      have hkb := hkeep (backupPathFor t) (by simp [names, hi]) (backupPathFor_ne t)
      rw [hm] at hkm
      rw [hb] at hkb
      have hfree : d (tmpPathFor t) = none := by
        cases hd : d (tmpPathFor t) with
        | none => rfl
        | some n => exact absurd (hkm n hd) (by simp)
      cases hd : d (backupPathFor t) with
      | none => simp [hfree, hd]
      | some n =>
        have hn := hkb n hd
        cases hsee : x.2.sees t d with
        | false => simp [hfree, hsee]
        | true =>
          rw [hsee, if_pos rfl] at hn
          split_ifs at hn with hdrop
          have hstays : x.2.removeBackup = false ∨ isDir (some n) = true := by
            rw [← hn]
            cases hrb : x.2.removeBackup <;> simp_all
          simpa [hfree, hd, hn, hsee] using hstays
  · intro h p n hp hn
    by_cases hmem : ∃ x ∈ xs, p ∈ c.names x.1
    · obtain ⟨x, hx, hpx⟩ := hmem
      have hs := h x hx
      cases hi : c.installPath x.1 with
      | error e => simp [names, hi] at hpx
      | ok t =>
        obtain ⟨-, hm, hb⟩ := tidied_at hap hall hx hi
        simp only [sparesOthers, hi, Bool.and_eq_true, Option.isNone_iff_eq_none] at hs
        simp only [names, hi, List.mem_cons, List.not_mem_nil, or_false] at hpx
        rcases hpx with rfl | rfl | rfl
        · exact absurd hi (hp x hx)
        · rw [hb]
          cases hsee : x.2.sees t d with
          | false => exact hn
          | true =>
            obtain ⟨hsame, hstays⟩ : some n = d t ∧
                (x.2.removeBackup = false ∨ isDir (d t) = true) := by
              simpa [hsee, hn] using hs.2
            rw [if_pos rfl, if_neg, hsame]
            rcases hstays with hrb | hdir
            · simp [hrb]
            · simp [hdir]
        · rw [hs.1] at hn
          cases hn
    · rw [tidied_frame hap hall fun x hx hpx => hmem ⟨x, hx, hpx⟩, hn]

end Success

/-! ### The whole of `apply` -/

/-- The artifacts up to the first one that does not get into place. -/
def reached (π : Primitives) (c : SignedUpdateClient) (d : Files) :
    List (Artifact × Turn) → List (Artifact × Turn)
  | [] => []
  | x :: xs => if c.completes π x d then x :: reached π c d xs else [x]

/-- What success or rollback needs, as the one or the other is due. -/
def clear (π : Primitives) (c : SignedUpdateClient) (d : Files) (xs : List (Artifact × Turn)) :
    Bool :=
  if xs.all fun x => c.completes π x d then xs.all fun x => c.sparesOthers x d
  else c.clearToRollBack π d xs

theorem reached_of_forall (h : ∀ x ∈ xs, c.completes π x d = true) : reached π c d xs = xs := by
  induction xs with
  | nil => rfl
  | cons x xs ih =>
    rw [reached, if_pos (h x (by simp)), ih fun y hy => h y (by simp [hy])]

theorem clearToRollBack_reached :
    c.clearToRollBack π d (reached π c d xs) = c.clearToRollBack π d xs := by
  induction xs with
  | nil => rfl
  | cons x xs ih => cases hc : c.completes π x d <;> simp [reached, clearToRollBack, hc, ih]

theorem exists_reached (h : ∃ x ∈ xs, c.completes π x d = false) :
    ∃ x ∈ reached π c d xs, c.completes π x d = false := by
  induction xs with
  | nil => simp at h
  | cons x xs ih =>
    cases hc : c.completes π x d with
    | false => exact ⟨x, by simp [reached, hc], hc⟩
    | true =>
      obtain ⟨y, hy, hyc⟩ := ih (by simpa [hc] using h)
      exact ⟨y, by simp [reached, hc, hy], hyc⟩

/-- What lies behind the first failure plays no part. -/
theorem installAll_reached (hap : (reached π c d xs).Pairwise (Apart c))
    (hagree : ∀ x ∈ reached π c d xs, ∀ p ∈ c.names x.1, e p = d p) :
    c.installAll π xs e = c.installAll π (reached π c d xs) e := by
  induction xs generalizing e with
  | nil => rfl
  | cons x xs ih =>
    cases hc : c.completes π x d with
    | false =>
      have hreached : reached π c d (x :: xs) = [x] := by simp [reached, hc]
      rw [hreached] at hagree ⊢
      have he : c.completes π x e = false := by rw [completes_congr (hagree x (by simp)), hc]
      rw [installAll_cons_failed he, installAll_cons_failed he]
    | true =>
      have hreached : reached π c d (x :: xs) = x :: reached π c d xs := by simp [reached, hc]
      rw [hreached] at hap hagree ⊢
      obtain ⟨hx, hap⟩ := List.pairwise_cons.mp hap
      have he : c.completes π x e = true := by rw [completes_congr (hagree x (by simp)), hc]
      rw [installAll_cons_completed he, installAll_cons_completed he, ih hap]
      intro y hy p hp
      rw [installArtifact_frame fun hpx => hx y hy p hpx hp, hagree y (by simp [hy]) p hp]

/-- After a rollback every path is as before. After a success every artifact's target holds bytes
of the declared hash, and the files that are no target are as before. -/
def AllOrNothing (π : Primitives) (c : SignedUpdateClient) (v : VerifiedArtifact) (d : Files) :
    ApplyOutcome × Files → Prop
  | (.rolledBack, e) => ∀ p, e p = d p
  | (.applied, e) =>
    (∀ a ∈ v.artifacts, ∃ t bytes, c.installPath a = .ok t ∧ e t = some (.file bytes) ∧
      π.sha256Hex bytes = a.wanted) ∧
    ∀ p n, (∀ a ∈ v.artifacts, c.installPath a ≠ .ok p) → d p = some n → e p = some n

theorem allOrNothing_iff {v : VerifiedArtifact} {turn : ℕ → Turn}
    (hap : (reached π c d (v.artifacts.mapIdx fun i a => (a, turn i))).Pairwise (Apart c)) :
    AllOrNothing π c v d (c.apply π v turn d) ↔
      clear π c d (v.artifacts.mapIdx fun i a => (a, turn i)) = true := by
  generalize hxs : (v.artifacts.mapIdx fun i a => (a, turn i)) = xs at hap
  have hmem : ∀ P : Artifact → Prop, (∀ a ∈ v.artifacts, P a) ↔ ∀ x ∈ xs, P x.1 := by
    intro P
    rw [← hxs]
    constructor
    · intro h x hx
      obtain ⟨i, hi, rfl⟩ := List.mem_mapIdx.mp hx
      exact h _ (List.getElem_mem hi)
    · intro h a ha
      obtain ⟨i, hi, rfl⟩ := List.getElem_of_mem ha
      exact h (v.artifacts[i], turn i) (List.mem_mapIdx.mpr ⟨i, hi, rfl⟩)
  unfold apply clear
  rw [hxs]
  by_cases hall : ∀ x ∈ xs, c.completes π x d = true
  · rw [reached_of_forall hall] at hap
    have hdone := (installAll_done_iff hap).mpr hall
    have htargets : ∀ x ∈ xs, ∃ t bytes, c.installPath x.1 = .ok t ∧
        tidied π c xs d t = some (.file bytes) ∧ π.sha256Hex bytes = x.1.wanted := by
      intro x hx
      cases hi : c.installPath x.1 with
      | error e => simpa [completes, hi] using hall x hx
      | ok t =>
        obtain ⟨⟨bytes, hbytes, hhash⟩, -⟩ := tidied_at hap hall hx hi
        exact ⟨t, bytes, rfl, hbytes, hhash⟩
    have hspared := tidied_iff hap hall
    rw [if_pos (List.all_eq_true.mpr hall), List.all_eq_true, ← hspared]
    unfold tidied at htargets ⊢
    rcases hr : c.installAll π xs d with ⟨f, records, done⟩
    simp only [hr] at hdone htargets ⊢
    subst hdone
    simp only [AllOrNothing, hmem]
    exact and_iff_right htargets
  · have hsome : ∃ x ∈ xs, c.completes π x d = false := by simpa using hall
    have hfail : (c.installAll π (reached π c d xs) d).2.2 = false := by
      obtain ⟨x, hx, hc⟩ := exists_reached hsome
      rw [← Bool.not_eq_true, installAll_done_iff hap]
      exact fun h => by simp [h x hx] at hc
    have hback := undoAll_iff hap hfail
    rw [if_neg (by simpa using hsome), ← clearToRollBack_reached, ← hback,
      installAll_reached hap fun _ _ _ _ => rfl]
    unfold undoAll
    rcases hr : c.installAll π (reached π c d xs) d with ⟨f, records, done⟩
    simp only [hr] at hfail ⊢
    subst hfail
    simp only [AllOrNothing, List.foldl_reverse]

def gatewayBytes : Bytes := utf8 "gateway".toList
def browserBytes : Bytes := utf8 "browser".toList

def gatewayHash : String := "4ea5ee68fea05586106890ded5733820bb77d919cda27bc4b8139b7cd33b8889"
def browserHash : String := "d4c3e8a11256ab82a4fc72560eb4a2b0e87bad820c290dd9b03616de240aa6db"

/-- The digests of the two images. -/
def imagePrimitives : Primitives where
  sha256 bytes :=
    if bytes = gatewayBytes then
      [78, 165, 238, 104, 254, 160, 85, 134, 16, 104, 144, 222, 213, 115, 56, 32, 187, 119, 217, 25,
        205, 162, 123, 196, 184, 19, 155, 124, 211, 59, 136, 137]
    else
      [212, 195, 232, 161, 18, 86, 171, 130, 164, 252, 114, 86, 14, 180, 162, 176, 232, 123, 173,
        130, 12, 41, 13, 217, 176, 54, 22, 222, 36, 10, 166, 219]
  ed25519 _ _ _ := true

/-- The images at two locations, installed without a fault. -/
def imageRelease (gateway browser : String) : VerifiedArtifact where
  version := ⟨2, 0, 0⟩
  artifacts := [⟨.gatewayImage, gateway, gatewayHash, 7⟩, ⟨.browserImage, browser, browserHash, 7⟩]

def faultless (fetch : Result Bytes) : Turn :=
  ⟨true, true, true, fetch, .whole, true, true, true⟩

def imagesDir : Path := Path.parse "/images"

def imagesClient : SignedUpdateClient := ⟨[], none⟩

/-- Each image was installed before. -/
def imagesBefore : Files := fun p =>
  if p = imagesDir.join "gateway.qcow2".toList ∨ p = imagesDir.join "browser.qcow2".toList then
    some (.file [1])
  else none

/-- The second image cannot be fetched any more. -/
def browserGone (i : ℕ) : Turn :=
  faultless (if i = 0 then .ok gatewayBytes else .error (.system "no entry"))

/-- Both images are served. -/
def bothServed (i : ℕ) : Turn := faultless (.ok (if i = 0 then gatewayBytes else browserBytes))

end Aegis
