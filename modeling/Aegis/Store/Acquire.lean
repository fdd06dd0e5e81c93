import Aegis.Store.Exclusion
import Aegis.Store.Isolation

/-! An acquire that fails: what it leaves of the lock. -/
namespace Aegis.Store.FileProfileStore
open Text FileTree FileTree.Run

variable {s : FileProfileStore} {id : ProfileId} {token : LockToken} {w : World} {t t' : Tree}

/-- The lock is as it was: the lock file holds the same, the leases that could release it still can,
and a profile that could be locked still can, whatever the later calls meet. -/
structure LockKept (s : FileProfileStore) (id : ProfileId) (t t' : Tree) : Prop where
  held : t'.bytesAt (s.lockPath id) = t.bytesAt (s.lockPath id)
  releasable : ∀ (lease : ProfileLease) (faults : List (Option Fault)), lease.profile = id →
    (eval (s.releaseLock lease) ⟨t, faults⟩).1 = .ok () →
      (eval (s.releaseLock lease) ⟨t', faults⟩).1 = .ok ()
  lockable : ∀ (token : LockToken) (faults : List (Option Fault)) (lease : ProfileLease),
    (eval (s.acquireLock id token) ⟨t, faults⟩).1 = .ok lease →
      (eval (s.acquireLock id token) ⟨t', faults⟩).1 = .ok lease

/-- The call gets as far as making the lock file. -/
structure Makes (s : FileProfileStore) (id : ProfileId) (w : World) : Prop where
  reached : w.fault 0 = none ∧ w.fault 1 = none
  present : ∃ n, (w.tree.resolve (s.profileDir id)).bind w.tree.nodeAt = .ok n
  free : ∃ made, w.tree.makeNew (s.lockPath id) = .ok made

/-- The lock file is made, and then writing the token to it fails, or flushing it. -/
def CutShort (s : FileProfileStore) (id : ProfileId) (w : World) : Prop :=
  s.Makes id w ∧ (w.fault 2 ≠ none ∨ w.fault 3 ≠ none)

/-! ### What it does -/

/-- The token goes into the lock file. -/
def writeToken (id : ProfileId) (token : LockToken) (q : Path) : Run Error ProfileLease := do
  raise (writeAll q 0 (tokenBytes token))
  raise checkpoint
  return ⟨id, token⟩

theorem eval_writeToken {q : Path} (id : ProfileId) (token : LockToken) (hq : q ≠ [])
    (hw : w.tree = t.put q (.file [])) :
    ((eval (writeToken id token q) w).1 = .ok ⟨id, token⟩ ∧ w.fault 0 = none ∧ w.fault 1 = none) ∨
      ∃ e bytes, (eval (writeToken id token q) w).1 = .error e ∧
        (eval (writeToken id token q) w).2.tree = t.put q (.file bytes) ∧
          (w.fault 0 ≠ none ∨ w.fault 1 ≠ none) := by
  unfold writeToken raise
  rw [eval_bind, eval_adapt, writeAll, eval_fallible_met]
  cases hwrite : w.fault 0 with
  | some e =>
    refine .inr ⟨_, (tokenBytes token).take e.progress, rfl, ?_, .inl (by simp)⟩
    show w.tree.spliceAt q 0 ((tokenBytes token).take e.progress) = _
    rw [hw, Tree.spliceAt_new hq]
  | none =>
    simp only [Except.mapError]
    rw [eval_bind, eval_adapt, checkpoint, eval_query_met, World.fault_next, hw,
      Tree.spliceAt_new hq]
    cases hflush : w.fault 1 with
    | some e => exact .inr ⟨_, tokenBytes token, rfl, rfl, .inr (by simp)⟩
    | none => exact .inl ⟨rfl, trivial, rfl⟩

theorem eval_acquireLock_made (h : s.Makes id w) (token : LockToken) : ∃ q, q ≠ [] ∧
    w.tree.makeNew (s.lockPath id) = .ok (q, w.tree.put q (.file [])) ∧
    eval (s.acquireLock id token) w =
      eval (writeToken id token q) ((w.next w.tree).next (w.tree.put q (.file []))) := by
  obtain ⟨⟨hfirst, hsecond⟩, ⟨n, hdir⟩, ⟨⟨q, u⟩, hmade⟩⟩ := h
  obtain ⟨-, hnone, rfl⟩ := Tree.makeNew_eq_ok.mp hmade
  refine ⟨q, ?_, hmade, ?_⟩
  · rintro rfl
    simp at hnone
  · unfold acquireLock
    rw [eval_bind, eval_attempt, metadata, eval_query_met]
    simp only [hfirst, hdir]
    rw [eval_bind, eval_attempt, openNew, change, eval_fallible_met]
    simp only [World.fault_next, World.next_tree, hsecond, hmade]
    rfl

/-- A call that makes no lock file fails and leaves the tree as it is. -/
theorem eval_acquireLock_unmade (h : ¬ s.Makes id w) (token : LockToken) :
    ∃ e, (eval (s.acquireLock id token) w).1 = .error e ∧
      (eval (s.acquireLock id token) w).2.tree = w.tree := by
  unfold acquireLock
  rw [eval_bind, eval_attempt, metadata, eval_query_met]
  cases hfirst : w.fault 0 with
  | some e => exact ⟨_, rfl, rfl⟩
  | none =>
    cases hdir : (w.tree.resolve (s.profileDir id)).bind w.tree.nodeAt with
    | error e => exact ⟨_, rfl, rfl⟩
    | ok n =>
      simp only
      rw [eval_bind, eval_attempt, openNew, change, eval_fallible_met]
      simp only [World.fault_next, World.next_tree]
      cases hsecond : w.fault 1 with
      | some e => exact ⟨_, rfl, rfl⟩
      | none =>
        cases hmade : w.tree.makeNew (s.lockPath id) with
        | error e => cases e <;> exact ⟨_, rfl, rfl⟩
        | ok made => exact absurd ⟨⟨hfirst, hsecond⟩, ⟨n, hdir⟩, ⟨made, hmade⟩⟩ h

/-- A call that fails leaves the tree as it is, unless it is cut short; then the lock file stays. -/
theorem failed_acquireLock {e : Error} (h : (eval (s.acquireLock id token) w).1 = .error e) :
    ¬ s.CutShort id w ∧ (eval (s.acquireLock id token) w).2.tree = w.tree ∨
    s.CutShort id w ∧ ∃ q bytes,
      w.tree.makeNew (s.lockPath id) = .ok (q, w.tree.put q (.file [])) ∧
      (eval (s.acquireLock id token) w).2.tree = w.tree.put q (.file bytes) := by
  by_cases hmakes : s.Makes id w
  · obtain ⟨q, hq, hmade, heval⟩ := eval_acquireLock_made hmakes token
    rw [heval] at h ⊢
    have htoken := eval_writeToken id token hq
      (w := (w.next w.tree).next (w.tree.put q (.file []))) (t := w.tree) rfl
    simp only [World.fault_next] at htoken
    rcases htoken with ⟨hok, -⟩ | ⟨e', bytes, -, htree, hcut⟩
    · rw [hok] at h
      cases h
    · exact .inr ⟨⟨hmakes, hcut⟩, q, bytes, hmade, htree⟩
  · obtain ⟨-, -, htree⟩ := eval_acquireLock_unmade hmakes token
    exact .inl ⟨fun hcut => hmakes hcut.1, htree⟩

/-- The profile is locked while its lock file is there. -/
theorem acquireLock_taken (h : w.tree.makeNew (s.lockPath id) = .error .alreadyExists)
    (lease : ProfileLease) : (eval (s.acquireLock id token) w).1 ≠ .ok lease := by
  have hmakes : ¬ s.Makes id w := by
    rintro ⟨-, -, made, hmade⟩
    cases h.symm.trans hmade
  obtain ⟨e, herr, -⟩ := eval_acquireLock_unmade hmakes token
  rw [herr]
  nofun

/-- The profile could be locked where the lock file could be made. -/
theorem acquireLock_free (h : s.Makes id w) (token : LockToken) :
    (eval (s.acquireLock id token) ⟨w.tree, []⟩).1 = .ok ⟨id, token⟩ := by
  have hmakes : s.Makes id ⟨w.tree, []⟩ := ⟨⟨rfl, rfl⟩, h.present, h.free⟩
  obtain ⟨q, hq, -, heval⟩ := eval_acquireLock_made hmakes token
  rw [heval]
  rcases eval_writeToken id token hq (t := w.tree)
    (w := ⟨w.tree.put q (.file []), []⟩) rfl with ⟨hok, -⟩ | ⟨e, bytes, -, -, hcut | hcut⟩
  · exact hok
  · exact absurd rfl hcut
  · exact absurd rfl hcut

/-! ### What it leaves -/

/-- An acquire that fails leaves the lock as it was exactly if it is not cut short between making
the lock file and having the token in it. -/
theorem failed_acquire_keeps_iff {e : Error}
    (h : (eval (s.acquireLock id token) w).1 = .error e) :
    s.LockKept id w.tree (eval (s.acquireLock id token) w).2.tree ↔ ¬ s.CutShort id w := by
  rcases failed_acquireLock h with ⟨hcut, htree⟩ | ⟨hcut, q, bytes, hmade, htree⟩
  · rw [htree]
    exact iff_of_true ⟨rfl, fun _ _ _ hok => hok, fun _ _ _ hok => hok⟩ hcut
  · rw [htree]
    refine iff_of_false (fun hkept => ?_) (not_not.mpr hcut)
    -- the profile could be locked, and the file that stays is in the way
    have hok := hkept.lockable token [] _ (acquireLock_free hcut.1 token)
    exact acquireLock_taken (Tree.makeNew_again hmade) _ hok

/-! ### A locked profile and a full disk -/

def aToken : LockToken := LockSystem.repeated 'a'

/-- A store with one profile, which is not locked. -/
def unlocked : Tree := (atTop.empty.stock ⟨7⟩ (toVec (workProfile ⟨7⟩))).tree

/-- The profile locked. -/
def locked : Tree := unlocked.put (atTop.lockPath ⟨7⟩) (.file (tokenBytes aToken))

theorem locked_busy : (eval (atTop.acquireLock ⟨7⟩ (LockSystem.repeated 'b')) ⟨locked, []⟩).1 =
    .error (.busy ("profile " ++ Uuid.display 7 ++ " is already locked")) := rfl

/-- A profile that is locked stays so. -/
theorem failed_acquire_keeps_iff_locked : atTop.LockKept ⟨7⟩ locked
    (eval (atTop.acquireLock ⟨7⟩ (LockSystem.repeated 'b')) ⟨locked, []⟩).2.tree := by
  refine (failed_acquire_keeps_iff locked_busy).mpr ?_
  rintro ⟨-, hwrite | hflush⟩
  · exact hwrite rfl
  · exact hflush rfl

/-- The disk is full when the token is to be written. -/
def fullDisk : World := ⟨unlocked, [none, none, some ⟨"No space left on device (os error 28)", 0⟩]⟩

theorem fullDisk_cutShort : atTop.CutShort ⟨7⟩ fullDisk :=
  ⟨⟨⟨rfl, rfl⟩, ⟨.dir, rfl⟩, ⟨_, rfl⟩⟩, .inl nofun⟩

theorem fullDisk_failed : (eval (atTop.acquireLock ⟨7⟩ aToken) fullDisk).1 =
    .error (.io "No space left on device (os error 28)") := rfl

/-- The call reports a full disk, and the profile, which nobody got a lease of, is locked for every
later call. -/
theorem fullDisk_locks : (eval (atTop.acquireLock ⟨7⟩ aToken) fullDisk).1 =
      .error (.io "No space left on device (os error 28)") ∧
    ¬ atTop.LockKept ⟨7⟩ unlocked (eval (atTop.acquireLock ⟨7⟩ aToken) fullDisk).2.tree ∧
    ∀ token faults lease, (eval (atTop.acquireLock ⟨7⟩ token)
      ⟨(eval (atTop.acquireLock ⟨7⟩ aToken) fullDisk).2.tree, faults⟩).1 ≠ .ok lease := by
  have htaken : ∀ token faults lease, (eval (atTop.acquireLock ⟨7⟩ token)
      ⟨(eval (atTop.acquireLock ⟨7⟩ aToken) fullDisk).2.tree, faults⟩).1 ≠ .ok lease := by
    intro token faults lease
    rcases failed_acquireLock fullDisk_failed with ⟨hnot, -⟩ | ⟨-, q, bytes, hmade, htree⟩
    · exact absurd fullDisk_cutShort hnot
    · rw [htree]
      exact acquireLock_taken (Tree.makeNew_again hmade) lease
  refine ⟨fullDisk_failed, ?_, htaken⟩
  intro hkept
  exact htaken aToken [] _ (hkept.lockable aToken [] _
    (acquireLock_free fullDisk_cutShort.1 aToken))

end Aegis.Store.FileProfileStore
