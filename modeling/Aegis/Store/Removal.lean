import Aegis.Store.Exclusion

/-! What one release removes, whatever the other calls do: the file with its own token, as long
as no lock file is created once it has read that token. -/
namespace Aegis.Store.LockSystem

variable {s s' : LockSystem} {t u : TaskId}

/-- A lock file is written once, through the handle it was created with. -/
structure Written (s : LockSystem) : Prop where
  files : ∀ p f, s.files p = some f → f.inode < s.nextInode
  calls : ∀ t l i, s.calls t = some (.acquireWrite l i) → i < s.nextInode
  unique : ∀ t u k l i, s.calls t = some (.acquireWrite k i) →
    s.calls u = some (.acquireWrite l i) → t = u
  empty : ∀ t l p f, s.calls t = some (.acquireWrite l f.inode) → s.files p = some f → f.bytes = []

/-- What the release of `t` is about to remove is gone, or is the file of its own lease. -/
def RemovesOwn (s : LockSystem) (t : TaskId) : Prop :=
  ∀ c l, s.calls t = some c → c.removing = some l →
    s.files l.profile = none ∨ ∃ i, s.files l.profile = some ⟨i, l.token.text⟩

/-- No lock file is created while the release of `t` has yet to remove the file it has read its
own token in. -/
def CreatesApart (s : LockSystem) (t : TaskId) (op : LockOp) : Prop :=
  ∀ u p token, op = .create u none → s.calls u = some (.acquireCreate p token) →
    s.files p = none → ∀ c l, s.calls t = some c → c.removing = some l → l.profile ≠ p

theorem Written.setCall (h : s.Written) {c : LockCall} (hc : ∀ l i, c ≠ .acquireWrite l i) :
    (s.setCall t c).Written where
  files := h.files
  calls u l i hu := by
    rw [setCall_calls] at hu
    split_ifs at hu
    · exact absurd (Option.some.inj hu) (hc l i)
    · exact h.calls u l i hu
  unique u v k l i := by grind [h.unique u v k l i]
  empty u l p f := by grind [h.empty u l p f]

/-- The inode of a new lock file is the inode of no other handle. -/
theorem Written.create (h : s.Written) (p : ProfileId) (token : LockToken) :
    Written { (s.setFile p (some ⟨s.nextInode, []⟩)).setCall t
      (.acquireWrite ⟨p, token⟩ s.nextInode) with nextInode := s.nextInode + 1 } where
  files q f hf := by
    simp only [setCall_files, setFile_files] at hf
    split_ifs at hf
    · cases hf
      exact Nat.lt_succ_self _
    · exact Nat.lt_succ_of_lt (h.files q f hf)
  calls u l i hu := by
    simp only [setCall_calls, setFile_calls] at hu
    split_ifs at hu
    · cases hu
      exact Nat.lt_succ_self _
    · exact Nat.lt_succ_of_lt (h.calls u l i hu)
  unique u v k l i hu hv := by
    simp only [setCall_calls, setFile_calls] at hu hv
    split_ifs at hu hv with hut hvt hvt
    · rw [hut, hvt]
    · cases hu
      exact absurd (h.calls v l _ hv) (lt_irrefl _)
    · cases hv
      exact absurd (h.calls u k _ hu) (lt_irrefl _)
    · exact h.unique u v k l i hu hv
  empty u l q f hu hf := by
    simp only [setCall_calls, setFile_calls, setCall_files, setFile_files] at hu hf
    split_ifs at hu hf
    · cases hf
      rfl
    · have hi := (LockCall.acquireWrite.inj (Option.some.inj hu)).2
      exact absurd (h.files q f hf) (by omega)
    · cases hf
      exact absurd (h.calls u l _ hu) (lt_irrefl _)
    · exact h.empty u l q f hu hf

theorem Written.writeFile (h : s.Written) {l : ProfileLease} {i : ℕ} {c : LockCall}
    (hc : s.calls t = some (.acquireWrite l i)) (hd : ∀ k j, c ≠ .acquireWrite k j)
    (bytes : List Char) : ((s.writeFile l.profile i bytes).setCall t c).Written := by
  have hset : ((s.setFile l.profile (some ⟨i, bytes⟩)).setCall t c).Written := by
    constructor
    case files =>
      intro q f hf
      simp only [setCall_files, setFile_files] at hf
      split_ifs at hf
      · cases hf
        exact h.calls t l i hc
      · exact h.files q f hf
    case calls =>
      intro u k j hu
      simp only [setCall_calls, setFile_calls] at hu
      split_ifs at hu
      · exact absurd (Option.some.inj hu) (hd k j)
      · exact h.calls u k j hu
    case unique => grind [h.unique]
    case empty =>
      intro u k q f hu hf
      simp only [setCall_calls, setFile_calls, setCall_files, setFile_files] at hu hf
      split_ifs at hu hf with hut hq hq
      · exact absurd (Option.some.inj hu) (hd _ _)
      · exact absurd (Option.some.inj hu) (hd _ _)
      · cases hf
        exact absurd (h.unique u t k l _ hu hc) hut
      · exact h.empty u k q f hu hf
  unfold LockSystem.writeFile
  split
  · split_ifs
    · exact hset
    · exact h.setCall hd
  · exact h.setCall hd

theorem Written.step {op : LockOp} (h : s.Written) (hs : s.step op = some s') : s'.Written := by
  cases op with
  | acquire u p =>
    simp only [LockSystem.step] at hs
    split_ifs at hs
    cases hs
    exact h.setCall (by simp)
  | release u l =>
    simp only [LockSystem.step] at hs
    split_ifs at hs
    cases hs
    have hup : (s.giveUp l).Written := ⟨h.files, h.calls, h.unique, h.empty⟩
    exact hup.setCall (by simp)
  | stat u present token =>
    simp only [LockSystem.step] at hs
    split at hs
    · unfold LockSystem.acquireStat at hs
      split_ifs at hs <;> cases hs
      · exact h.setCall (by simp)
      · have hdraw : (s.draw token).Written := ⟨h.files, h.calls, h.unique, h.empty⟩
        exact hdraw.setCall (by simp)
    · cases hs
  | create u io =>
    simp only [LockSystem.step] at hs
    split at hs <;> cases hs
    unfold LockSystem.acquireCreate
    split
    · exact h.setCall (by simp)
    · exact h.setCall (by simp)
    · exact h.create _ _
  | write u cut =>
    simp only [LockSystem.step] at hs
    split at hs <;> cases hs
    next l i hc =>
    unfold LockSystem.acquireWrite
    split
    · exact h.writeFile hc (by simp) _
    · have hw := h.writeFile (c := .acquired (.ok l)) hc (by simp) l.token.text
      exact ⟨hw.files, hw.calls, hw.unique, hw.empty⟩
  | read u io =>
    simp only [LockSystem.step] at hs
    split at hs <;> cases hs
    unfold LockSystem.releaseRead
    split <;> exact h.setCall (by simp)
  | compare u =>
    simp only [LockSystem.step] at hs
    split at hs <;> cases hs
    unfold LockSystem.releaseCompare
    split_ifs <;> exact h.setCall (by simp)
  | remove u io =>
    simp only [LockSystem.step] at hs
    split at hs <;> cases hs
    next l hc =>
    unfold LockSystem.releaseRemove
    split
    · exact h.setCall (by simp)
    · exact h.setCall (by simp)
    · have hgone : (s.setFile l.profile none).Written := by
        refine ⟨fun p f hf => h.files p f ?_, h.calls, h.unique, fun v k p f hv hf =>
          h.empty v k p f hv ?_⟩ <;> grind
      exact hgone.setCall (by simp)

/-- Writing through a handle leaves a file alone that carries a token. -/
theorem Written.writeFile_files (h : s.Written) {l k : ProfileLease} {i : ℕ}
    (hc : s.calls t = some (.acquireWrite l i))
    (hf : s.files k.profile = none ∨ ∃ j, s.files k.profile = some ⟨j, k.token.text⟩)
    (bytes : List Char) : (s.writeFile l.profile i bytes).files k.profile = s.files k.profile := by
  unfold LockSystem.writeFile
  split
  next f hfile =>
    split_ifs with hi
    · rw [setFile_files, if_neg]
      intro he
      rw [he, hfile] at hf
      rcases hf with hn | ⟨j, hj⟩
      · cases hn
      · cases hj
        have hempty : k.token.text = [] := h.empty t l l.profile ⟨j, k.token.text⟩ (hi ▸ hc) hfile
        have hlen := k.token.length_text
        rw [hempty] at hlen
        cases hlen
    · rfl
  · rfl

/-- A call that advances changes what the release of `t` is about to remove only if it is its
own. -/
theorem RemovesOwn.setCall (h : s.RemovesOwn t) {c : LockCall}
    (hc : u = t → ∀ l, c.removing = some l →
      s.files l.profile = none ∨ ∃ i, s.files l.profile = some ⟨i, l.token.text⟩) :
    (s.setCall u c).RemovesOwn t := by
  intro d l hd hl
  rw [setCall_calls] at hd
  split_ifs at hd with htu
  · cases hd
    exact hc htu.symm l hl
  · exact h d l hd hl

/-- The files change, but not the one that the release of `t` is about to remove. -/
theorem RemovesOwn.files (h : s.RemovesOwn t) {k : LockSystem} (hcalls : k.calls = s.calls)
    (hfiles : ∀ c l, s.calls t = some c → c.removing = some l →
      k.files l.profile = s.files l.profile ∨ k.files l.profile = none) : k.RemovesOwn t := by
  intro c l hc hl
  rw [hcalls] at hc
  rcases hfiles c l hc hl with he | he
  · rw [he]
    exact h c l hc hl
  · exact .inl he

/-- Whatever the other calls do, `t` removes its own lock file or none. -/
theorem RemovesOwn.step {op : LockOp} (h : s.RemovesOwn t) (hw : s.Written)
    (hok : s.CreatesApart t op) (hs : s.step op = some s') : s'.RemovesOwn t := by
  have hquiet {c : LockCall} (hc : c.removing = none) (u : TaskId) :
      u = t → ∀ l, c.removing = some l →
      s.files l.profile = none ∨ ∃ i, s.files l.profile = some ⟨i, l.token.text⟩ := by
    rintro - l hl
    rw [hc] at hl
    cases hl
  cases op with
  | acquire u p =>
    simp only [LockSystem.step] at hs
    split_ifs at hs
    cases hs
    exact h.setCall (hquiet rfl u)
  | release u l =>
    simp only [LockSystem.step] at hs
    split_ifs at hs
    cases hs
    have hup : (s.giveUp l).RemovesOwn t := h
    exact hup.setCall (hquiet rfl u)
  | stat u present token =>
    simp only [LockSystem.step] at hs
    split at hs
    · unfold LockSystem.acquireStat at hs
      split_ifs at hs <;> cases hs
      · exact h.setCall (hquiet rfl u)
      · have hdraw : (s.draw token).RemovesOwn t := h
        exact hdraw.setCall (hquiet rfl u)
    · cases hs
  | create u io =>
    simp only [LockSystem.step] at hs
    split at hs <;> cases hs
    next p token hc =>
    unfold LockSystem.acquireCreate
    split
    · exact h.setCall (hquiet rfl u)
    · exact h.setCall (hquiet rfl u)
    next hfile =>
      have hset : (s.setFile p (some ⟨s.nextInode, []⟩)).RemovesOwn t := by
        refine h.files rfl fun c l hct hl => .inl ?_
        rw [setFile_files, if_neg (hok u p token rfl hc hfile c l hct hl)]
      exact hset.setCall fun _ l hl => by cases hl
  | write u cut =>
    simp only [LockSystem.step] at hs
    split at hs <;> cases hs
    next l i hc =>
    have hwrite (bytes : List Char) : (s.writeFile l.profile i bytes).RemovesOwn t := by
      refine h.files ?_ fun c k hct hk => .inl ?_
      · obtain ⟨f, hf⟩ := s.exists_writeFile l.profile i bytes
        rw [hf]
        rfl
      · exact hw.writeFile_files hc (h c k hct hk) bytes
    unfold LockSystem.acquireWrite
    split
    · exact (hwrite _).setCall fun _ l hl => by cases hl
    · have hset := (hwrite l.token.text).setCall (u := u) (c := .acquired (.ok l))
        fun _ l hl => by cases hl
      exact hset
  | read u io =>
    simp only [LockSystem.step] at hs
    split at hs <;> cases hs
    next l hc =>
    unfold LockSystem.releaseRead
    split
    · exact h.setCall (hquiet rfl u)
    · exact h.setCall (hquiet rfl u)
    next f hf =>
      refine h.setCall fun _ k hk => ?_
      simp only [LockCall.removing, Option.ite_none_right_eq_some, Option.some.injEq] at hk
      obtain ⟨hbytes, rfl⟩ := hk
      exact .inr ⟨f.inode, by rw [hf, ← hbytes]⟩
  | compare u =>
    simp only [LockSystem.step] at hs
    split at hs <;> cases hs
    next l held hc =>
    unfold LockSystem.releaseCompare
    split_ifs with hheld
    · exact h.setCall (hquiet rfl u)
    · refine h.setCall ?_
      rintro rfl k ⟨⟩
      exact h _ l hc (by simpa [LockCall.removing] using hheld)
  | remove u io =>
    simp only [LockSystem.step] at hs
    split at hs <;> cases hs
    next l hc =>
    unfold LockSystem.releaseRemove
    split
    · exact h.setCall (hquiet rfl u)
    · exact h.setCall (hquiet rfl u)
    · have hgone : (s.setFile l.profile none).RemovesOwn t := by
        refine h.files rfl fun c k _ _ => ?_
        rw [setFile_files]
        split_ifs
        · exact .inr rfl
        · exact .inl rfl
      exact hgone.setCall fun _ l hl => by cases hl

theorem written_initial : initial.Written := by
  constructor <;> simp [initial]

end Aegis.Store.LockSystem
