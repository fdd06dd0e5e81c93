import Aegis.Store.Exclusion
import Aegis.Store.Stored

/-! Who owns a locked profile: what a lease that was not given back keeps in place, as long as no
delete shreds a profile that is locked and no lock file is created beside a release of an older
one. -/
namespace Aegis.Store
open Transition

/-! ### What a step of the lock does -/

/-- A call that acquires nothing, hands out nothing and has read no token. -/
def LockCall.inert : LockCall → Bool
  | acquired (.error _) | releaseRead _ | releaseRemove _ | released _ => true
  | _ => false

namespace LockSystem

variable {s s' : LockSystem} {op : LockOp} {t : TaskId}

/-- What an operation of the call of `t` leaves: its next step, the lock files and the leases
handed out. -/
inductive Does (s : LockSystem) (t : TaskId) :
    LockOp → LockCall → (ProfileId → Option LockFile) → List ProfileLease → Prop
  | moved {op : LockOp} {c : LockCall} (hfrees : s.frees op = []) (hc : c.inert = true) :
      Does s t op c s.files s.issued
  | began {p : ProfileId} : Does s t (.acquire t p) (.acquireStat p) s.files s.issued
  | drew {p : ProfileId} {present : Bool} {token : LockToken}
      (h : s.calls t = some (.acquireStat p)) :
      Does s t (.stat t present token) (.acquireCreate p token) s.files s.issued
  | created {p : ProfileId} {token : LockToken} (h : s.calls t = some (.acquireCreate p token))
      (hf : s.files p = none) :
      Does s t (.create t none) (.acquireWrite ⟨p, token⟩ s.nextInode)
        (s.setFile p (some ⟨s.nextInode, []⟩)).files s.issued
  | wrote {l : ProfileLease} {i : ℕ} {f : Option LockFile}
      (h : s.calls t = some (.acquireWrite l i))
      (hf : s.writeFile l.profile i l.token.text = s.setFile l.profile f) :
      Does s t (.write t none) (.acquired (.ok l)) (s.setFile l.profile f).files (l :: s.issued)
  | cut {l : ProfileLease} {i n : ℕ} {e : String} {f : Option LockFile}
      (h : s.calls t = some (.acquireWrite l i))
      (hf : s.writeFile l.profile i (l.token.text.take n) = s.setFile l.profile f) :
      Does s t (.write t (some (n, e))) (.acquired (.error (.io e)))
        (s.setFile l.profile f).files s.issued
  | read {l : ProfileLease} {f : LockFile} (h : s.calls t = some (.releaseRead l))
      (hf : s.files l.profile = some f) :
      Does s t (.read t none) (.releaseCompare l f.bytes) s.files s.issued
  | removed {l : ProfileLease} {f : LockFile} (h : s.calls t = some (.releaseRemove l))
      (hf : s.files l.profile = some f) :
      Does s t (.remove t none) (.released (.ok ())) (s.setFile l.profile none).files s.issued

/-- The step leaves what `Does` says, and no other call moves. -/
structure Leaves (s : LockSystem) (op : LockOp) (s' : LockSystem) (t : TaskId) (c : LockCall) :
    Prop where
  does : Does s t op c s'.files s'.issued
  calls : s'.calls = Function.update s.calls t (some c)
  drawn : ∀ token ∈ s'.drawn, token ∈ s.drawn ∨ ∃ present, op = .stat t present token
  unreleased : ∀ l ∈ s'.unreleased, l ∈ s.unreleased ∨ ∃ i, s.calls t = some (.acquireWrite l i)

theorem leaves_setCall {c : LockCall} (hfrees : s.frees op = []) (hc : c.inert = true) :
    Leaves s op (s.setCall t c) t c :=
  ⟨.moved hfrees hc, rfl, fun _ => .inl, fun _ => .inl⟩

theorem step_leaves (hs : s.step op = some s') : ∃ t c, Leaves s op s' t c := by
  cases op with
  | acquire t p =>
    simp only [step] at hs
    split_ifs at hs
    cases hs
    exact ⟨t, _, .began, rfl, fun _ => .inl, fun _ => .inl⟩
  | release t l =>
    simp only [step] at hs
    split_ifs at hs
    cases hs
    exact ⟨t, _, .moved rfl rfl, rfl, fun _ => .inl,
      fun k hk => .inl (List.mem_filter.mp hk).1⟩
  | stat t present token =>
    simp only [step] at hs
    split at hs
    next h =>
      unfold acquireStat at hs
      split_ifs at hs <;> cases hs
      · exact ⟨t, _, leaves_setCall rfl rfl⟩
      · refine ⟨t, _, .drew h, rfl, fun u hu => ?_, fun _ => .inl⟩
        rcases List.mem_cons.mp hu with rfl | hu
        · exact .inr ⟨present, rfl⟩
        · exact .inl hu
    · cases hs
  | create t io =>
    simp only [step] at hs
    split at hs <;> cases hs
    next h =>
      unfold acquireCreate
      split
      · exact ⟨t, _, leaves_setCall rfl rfl⟩
      · exact ⟨t, _, leaves_setCall rfl rfl⟩
      next hf => exact ⟨t, _, .created h hf, rfl, fun _ => .inl, fun _ => .inl⟩
  | write t cut =>
    simp only [step] at hs
    split at hs <;> cases hs
    next l i h =>
      unfold acquireWrite
      split
      next n e =>
        obtain ⟨f, hf⟩ := s.exists_writeFile l.profile i (l.token.text.take n)
        rw [hf]
        exact ⟨t, _, .cut h hf, rfl, fun _ => .inl, fun _ => .inl⟩
      next =>
        obtain ⟨f, hf⟩ := s.exists_writeFile l.profile i l.token.text
        rw [hf]
        refine ⟨t, _, .wrote h hf, rfl, fun _ => .inl, fun k hk => ?_⟩
        rcases List.mem_cons.mp hk with rfl | hk
        · exact .inr ⟨i, h⟩
        · exact .inl hk
  | read t io =>
    simp only [step] at hs
    split at hs <;> cases hs
    next l h =>
      unfold releaseRead
      split
      · exact ⟨t, _, leaves_setCall rfl rfl⟩
      · exact ⟨t, _, leaves_setCall rfl rfl⟩
      next f hf => exact ⟨t, _, .read h hf, rfl, fun _ => .inl, fun _ => .inl⟩
  | compare t =>
    simp only [step] at hs
    split at hs <;> cases hs
    unfold releaseCompare
    split_ifs <;> exact ⟨t, _, leaves_setCall rfl rfl⟩
  | remove t io =>
    simp only [step] at hs
    split at hs <;> cases hs
    next l h =>
      unfold releaseRemove
      split
      · exact ⟨t, _, leaves_setCall rfl rfl⟩
      next hf => exact ⟨t, _, leaves_setCall (by simp [frees, h, hf]) rfl⟩
      next f hf => exact ⟨t, _, .removed h hf, rfl, fun _ => .inl, fun _ => .inl⟩

variable {c : LockCall} {files : ProfileId → Option LockFile} {issued : List ProfileLease}

theorem Does.grows {l : ProfileLease} (h : Does s t op c files issued) (hl : l ∈ s.issued) :
    l ∈ issued := by
  cases h with
  | wrote hc hf => exact List.mem_cons_of_mem _ hl
  | _ => exact hl

/-- A lease is handed out by the acquisition that wrote its token. -/
theorem Does.handed {l : ProfileLease} (h : Does s t op c files issued) (hl : l ∈ issued) :
    l ∈ s.issued ∨ ∃ i, s.calls t = some (.acquireWrite l i) := by
  cases h with
  | wrote hc hf =>
    rcases List.mem_cons.mp hl with rfl | hl
    · exact .inr ⟨_, hc⟩
    · exact .inl hl
  | _ => exact .inl hl

theorem Does.creates {l : ProfileLease} {i : ℕ}
    (h : Does s t op (.acquireWrite l i) files issued) : ∃ token, op = .create t none ∧
      s.calls t = some (.acquireCreate l.profile token) ∧ token = l.token := by
  cases h with
  | moved hfrees hc => cases hc
  | created hc hf => exact ⟨_, rfl, hc, rfl⟩

end LockSystem

/-! ### What a step of the other calls takes from a profile -/

/-- What `d` holds, `d'` holds as well. -/
structure ProfileDir.Keeps (d d' : ProfileDir) : Prop where
  metadata : (∃ profile, d.metadata = some (.stored profile)) →
    ∃ profile, d'.metadata = some (.stored profile)
  data : d.data = some .intact → d'.data = some .intact

theorem ProfileDir.Keeps.refl (d : ProfileDir) : d.Keeps d := ⟨id, id⟩

theorem ProfileDir.Keeps.trans {d d' d'' : ProfileDir} (h : d.Keeps d') (h' : d'.Keeps d'') :
    d.Keeps d'' :=
  ⟨fun hm => h'.metadata (h.metadata hm), fun hd => h'.data (h.data hd)⟩

namespace Shelf

variable {lock lock' : LockSystem} {k k' : Shelf} {op : ShelfOp} {t : TaskId} {p : ProfileId}

/-- A call is shredding the profile. -/
def Shreds (k : Shelf) (p : ProfileId) : Prop := ∃ t c, k.calls t = some c ∧ c.shreds = some p

variable {c : RepoCall} {root : AList fun _ : ProfileId => ProfileDir}

/-- A profile that no call shreds keeps its directory, and what is in it. -/
theorem Acts.keeps (h : Acts lock k t op c root lock') (hp : ¬ k.Shreds p) {d : ProfileDir}
    (hd : k.dir p = some d) : ∃ d', root.lookup p = some d' ∧ d.Keeps d' := by
  have hset {id : ProfileId} {e : ProfileDir} (he : ∀ d, k.dir id = some d → d.Keeps e) :
      ∃ d', (k.root.insert id e).lookup p = some d' ∧ d.Keeps d' := by
    by_cases hid : p = id
    · subst hid
      exact ⟨e, AList.lookup_insert .., he d hd⟩
    · rw [AList.lookup_insert_ne hid]
      exact ⟨d, hd, .refl d⟩
  have hother {id : ProfileId} (hc : ∃ d, k.calls t = some d ∧ d.shreds = some id) : p ≠ id := by
    rintro rfl
    obtain ⟨d, hd, hs⟩ := hc
    exact hp ⟨t, d, hd, hs⟩
  cases h with
  | made h =>
    refine hset fun e he => ?_
    rw [he]
    exact ⟨id, fun _ => rfl⟩
  | wrote h =>
    refine hset fun e he => ?_
    rw [he]
    exact .refl e
  | renamed h he =>
    refine hset fun e' he' => ?_
    rw [he] at he'
    cases he'
    exact ⟨fun _ => ⟨_, rfl⟩, id⟩
  | @overwrote id f fs op n c h =>
    have hid := hother ⟨_, h, rfl⟩
    rcases k.overwrite_root lock id f n with hr | ⟨e, he, hr⟩
    · rw [hr]
      exact ⟨d, hd, .refl d⟩
    · rw [hr, AList.lookup_insert_ne hid]
      exact ⟨d, hd, .refl d⟩
  | @unlinked id f h =>
    have hid := hother ⟨_, h, rfl⟩
    rcases k.unlink_root lock id f with hr | ⟨e, he, hr⟩
    · rw [hr]
      exact ⟨d, hd, .refl d⟩
    · rw [hr, AList.lookup_insert_ne hid]
      exact ⟨d, hd, .refl d⟩
  | @removed id h =>
    rw [AList.lookup_erase_ne (hother ⟨_, h, rfl⟩)]
    exact ⟨d, hd, .refl d⟩
  | _ => exact ⟨d, hd, .refl d⟩

/-- The stored spec of a profile that no call shreds stays as long as no metadata with another
one replaces it. -/
theorem storedSpec_of_step {spec : ProfileSpec} (hs : k.step lock op = some (k', lock'))
    (hp : ¬ k.Shreds p) (hw : ∀ u profile refresh, op = .file u none →
      k.calls u = some (.replacing profile refresh) → profile.id = p → profile.spec = spec)
    (hk : k.storedSpec p = some spec) : k'.storedSpec p = some spec := by
  obtain ⟨t, c, hacts, -⟩ := step_leaves hs
  obtain ⟨d, profile, hd, hm, rfl⟩ := storedSpec_eq.mp hk
  obtain ⟨d', hd', hkeeps⟩ := hacts.keeps hp hd
  obtain ⟨profile', hm'⟩ := hkeeps.metadata ⟨profile, hm⟩
  refine storedSpec_eq.mpr ⟨d', profile', hd', hm', ?_⟩
  rcases hacts.stored hd' hm' with ⟨e, he, hme⟩ | ⟨refresh, rfl, rfl, hc⟩
  · rw [hd] at he
    cases he
    rw [hm] at hme
    cases hme
    rfl
  · exact hw t profile' refresh rfl hc rfl

/-- The lock file of a profile goes before its directory does. -/
theorem Acts.directory (h : Acts lock k t op c root lock') (hp : root.lookup p = none) :
    k.dir p = none ∨ lock.files p = none := by
  have hset {id : ProfileId} {e : ProfileDir} (h : (k.root.insert id e).lookup p = none) :
      k.dir p = none := by
    by_cases hid : p = id
    · rw [hid, AList.lookup_insert] at h
      cases h
    · rwa [AList.lookup_insert_ne hid] at h
  cases h with
  | made h => exact .inl (hset hp)
  | wrote h => exact .inl (hset hp)
  | renamed h he => exact .inl (hset hp)
  | @overwrote id f fs op n c h =>
    rcases k.overwrite_root lock id f n with hr | ⟨e, he, hr⟩
    · rw [hr] at hp
      exact .inl hp
    · rw [hr] at hp
      exact .inl (hset hp)
  | @unlinked id f h =>
    rcases k.unlink_root lock id f with hr | ⟨e, he, hr⟩
    · rw [hr] at hp
      exact .inl hp
    · rw [hr] at hp
      exact .inl (hset hp)
  | @removed id h he =>
    by_cases hid : p = id
    · subst hid
      refine .inr ?_
      cases hf : lock.files p with
      | none => rfl
      | some f => simp [hf, ProfileDir.entries] at he
    · rw [AList.lookup_erase_ne hid] at hp
      exact .inl hp
  | _ => exact .inl hp

/-- The lock files a step touches are those of a profile it shreds: overwritten, or removed. -/
theorem Acts.lockFile (h : Acts lock k t op c root lock') : lock' = lock ∨
    ∃ q f, (∃ d, k.calls t = some d ∧ d.shreds = some q) ∧ lock' = lock.setFile q f ∧
      (f = none ∨ ∃ g n, lock.files q = some g ∧ f = some (g.zero n)) := by
  cases h with
  | @overwrote id f fs op n c h =>
    cases f with
    | lock =>
      refine .inr ⟨id, _, ⟨_, h, rfl⟩, rfl, ?_⟩
      cases hg : lock.files id with
      | none => exact .inl rfl
      | some g => exact .inr ⟨g, n, rfl, rfl⟩
    | _ =>
      refine .inl ?_
      unfold overwrite
      cases k.dir id <;> rfl
  | @unlinked id f h =>
    cases f with
    | lock => exact .inr ⟨id, none, ⟨_, h, rfl⟩, rfl, .inl rfl⟩
    | _ =>
      refine .inl ?_
      unfold unlink
      cases k.dir id <;> rfl
  | _ => exact .inl rfl

/-- A delete begins to shred the profile it has looked up. -/
def BeginsShred (k : Shelf) (p : ProfileId) (op : ShelfOp) : Prop :=
  ∃ t, op = .file t none ∧ k.calls t = some (.deleteStat p) ∧ (k.dir p).isSome

theorem Acts.shreds (h : Acts lock k t op c root lock') (hc : c.shreds = some p) :
    k.Shreds p ∨ k.BeginsShred p op := by
  cases h with
  | quiet hq hl =>
    rw [RepoCall.shreds_of_quiet hq] at hc
    cases hc
  | @guarded id req h => cases req <;> cases hc
  | renamed h hd hq hl =>
    rw [RepoCall.shreds_of_quiet hq] at hc
    cases hc
  | found h hd =>
    cases hc
    exact .inr ⟨t, rfl, h, hd⟩
  | walked h => exact .inl ⟨t, _, h, hc⟩
  | overwrote h hq hl =>
    rcases hq with rfl | hq
    · exact .inl ⟨t, _, h, hc⟩
    · rw [RepoCall.shreds_of_quiet hq] at hc
      cases hc
  | emptied h => exact .inl ⟨t, _, h, hc⟩
  | unlinked h => exact .inl ⟨t, _, h, hc⟩
  | _ => cases hc

end Shelf

/-! ### What an unreleased lease keeps -/

namespace Repository

variable {s s' : Repository} {op : RepoOp} {l : ProfileLease}

/-- Nobody holds the profile: its leases are all freed, and no acquisition writes its lock
file. -/
structure Unheld (s : Repository) (p : ProfileId) : Prop where
  freed : ∀ l ∈ s.lock.issued, l.profile = p → l ∈ s.freed
  writing : ∀ t l i, s.lock.calls t = some (.acquireWrite l i) → l.profile ≠ p

/-- Every lease that was not freed has its lock file, in the directory of its profile; a release
that reads it finds its own token; and what is shredded is held by nobody. -/
structure Held (s : Repository) : Prop where
  ledger : s.lock.Ledger
  exclusive : s.lock.Exclusive
  hex : ∀ token ∈ s.lock.drawn, '\x00' ∉ token.text
  file : ∀ l ∈ s.lock.issued, l ∉ s.freed → ∃ i, s.lock.files l.profile = some ⟨i, l.token.text⟩
  freed : ∀ l ∈ s.freed, l ∈ s.lock.issued ∧ l ∉ s.lock.unreleased ∧
    ∀ i, s.lock.files l.profile ≠ some ⟨i, l.token.text⟩
  directory : ∀ p f, s.lock.files p = some f → s.shelf.dir p ≠ none
  compare : ∀ t l held, s.lock.calls t = some (.releaseCompare l held) → l ∉ s.freed →
    held = l.token.text
  shredding : ∀ p, s.shelf.Shreds p → s.Unheld p

/-- The three ways in which a step takes a lock from its holder do not happen: no lock file is
created beside a release of an older one, or while its profile is shredded, and no delete begins
to shred a profile that is held. -/
structure Careful (s : Repository) (op : RepoOp) : Prop where
  alone : ∀ k, op = .lock k → s.lock.CreatesAlone k
  creates : ∀ t p token, op = .lock (.create t none) →
    s.lock.calls t = some (.acquireCreate p token) → ¬ s.shelf.Shreds p
  deletes : ∀ k p, op = .shelf k → s.shelf.BeginsShred p k → s.Unheld p

theorem bytes_of_zero {g : LockFile} {n : Option ℕ} {text : List Char} (ht : '\x00' ∉ text)
    (h : (g.zero n).bytes = text) : g.bytes = text := by
  unfold LockFile.zero at h
  cases hk : min (n.getD g.bytes.length) g.bytes.length with
  | zero => simpa [hk] using h
  | succ k =>
    simp only [hk, List.replicate_succ, List.cons_append] at h
    exact absurd (h ▸ List.mem_cons_self) ht

/-- Overwriting or removing the lock file of a profile that nobody holds. -/
theorem Held.setFile {q : ProfileId} {f : Option LockFile} (h : s.Held) (hq : s.Unheld q)
    (hf : f = none ∨ ∃ g n, s.lock.files q = some g ∧ f = some (g.zero n)) :
    Held { s with lock := s.lock.setFile q f } := by
  have hnul (l : ProfileLease) (hl : l ∈ s.lock.issued) : '\x00' ∉ l.token.text :=
    h.hex l.token (h.ledger.issued l hl)
  have hfreed (l : ProfileLease) (hl : l ∈ s.lock.issued) (hnot : l ∉ s.freed) :
      l.profile ≠ q := fun hp => hnot (hq.freed l hl hp)
  have hunreleased (l : ProfileLease) (hl : l ∈ s.lock.unreleased) : l.profile ≠ q :=
    hfreed l (h.ledger.unreleased l hl) fun hm => (h.freed l hm).2.1 hl
  constructor
  case ledger => exact h.ledger.setFile q f
  case exclusive =>
    constructor
    case writing =>
      intro t l i hc
      rw [LockSystem.setFile_files, if_neg (hq.writing t l i hc)]
      exact h.exclusive.writing t l i hc
    case writing_unique => exact h.exclusive.writing_unique
    case held =>
      intro l hl
      rw [LockSystem.setFile_files, if_neg (hunreleased l hl)]
      exact h.exclusive.held l hl
    case removing =>
      intro t c l hc hl
      rw [LockSystem.setFile_files]
      split_ifs with hp
      · -- the lease is freed, so the file it was in is gone
        have hissued : l ∈ s.lock.issued := by
          refine (h.ledger.releasing t c l hc ?_).1
          cases c <;> simp_all [LockCall.removing, LockCall.releasing]
        have hgone := (h.freed l (hq.freed l hissued hp)).2.2
        rcases hf with rfl | ⟨g, n, hg, rfl⟩
        · exact .inl rfl
        · rcases h.exclusive.removing t c l hc hl with hn | ⟨i, hi⟩
          · rw [hp, hg] at hn
            cases hn
          · exact absurd hi (hgone i)
      · exact h.exclusive.removing t c l hc hl
  case hex => exact h.hex
  case file =>
    intro l hl hnot
    obtain ⟨i, hi⟩ := h.file l hl hnot
    exact ⟨i, by rw [LockSystem.setFile_files, if_neg (hfreed l hl hnot), hi]⟩
  case freed =>
    intro l hl
    obtain ⟨hissued, hun, hgone⟩ := h.freed l hl
    refine ⟨hissued, hun, fun i hi => ?_⟩
    rw [LockSystem.setFile_files] at hi
    split_ifs at hi with hp
    · rcases hf with rfl | ⟨g, n, hg, rfl⟩
      · cases hi
      · have hbytes : g.bytes = l.token.text :=
          bytes_of_zero (hnul l hissued) (congrArg LockFile.bytes (Option.some.inj hi))
        refine hgone g.inode ?_
        rw [hp, hg, ← hbytes]
    · exact hgone i hi
  case directory =>
    intro p g hg
    rw [LockSystem.setFile_files] at hg
    split_ifs at hg with hp
    · subst hp
      rcases hf with rfl | ⟨e, n, he, rfl⟩
      · cases hg
      · exact h.directory p e he
    · exact h.directory p g hg
  case compare => exact h.compare
  case shredding => exact fun p hp => ⟨(h.shredding p hp).freed, (h.shredding p hp).writing⟩

theorem Held.shelfStep {k : Shelf} {lock : LockSystem} {kop : ShelfOp} (h : s.Held)
    (hok : s.Careful (.shelf kop)) (hs : s.shelf.step s.lock kop = some (k, lock)) :
    Held ⟨k, lock, s.freed⟩ := by
  obtain ⟨t, c, hacts, hcalls⟩ := Shelf.step_leaves hs
  have hshredding (p : ProfileId) (hp : k.Shreds p) : s.Unheld p := by
    obtain ⟨u, d, hd, hdp⟩ := hp
    rw [hcalls, Function.update_apply] at hd
    split_ifs at hd with hut
    · cases hd
      rcases hacts.shreds hdp with hp | hp
      · exact h.shredding p hp
      · exact hok.deletes kop p rfl hp
    · exact h.shredding p ⟨u, d, hd, hdp⟩
  have hdirectory (p : ProfileId) (f : LockFile) (hf : s.lock.files p = some f) :
      k.dir p ≠ none := by
    intro hp
    rcases hacts.directory hp with hn | hn
    · exact h.directory p f hf hn
    · rw [hn] at hf
      cases hf
  -- a profile whose lock file is touched is shredded, so nobody holds it
  have hlock : Held { s with lock := lock } ∧ lock.issued = s.lock.issued ∧
      lock.calls = s.lock.calls ∧ ∀ p, lock.files p ≠ none → s.lock.files p ≠ none := by
    rcases hacts.lockFile with rfl | ⟨q, f, ⟨d, hd, hq⟩, rfl, hf⟩
    · exact ⟨h, rfl, rfl, fun _ => id⟩
    · refine ⟨h.setFile (h.shredding q ⟨t, d, hd, hq⟩) hf, rfl, rfl, fun p hp => ?_⟩
      rw [LockSystem.setFile_files] at hp
      split_ifs at hp with hpq
      · subst hpq
        rcases hf with rfl | ⟨g, n, hg, rfl⟩
        · exact absurd rfl hp
        · rw [hg]
          exact Option.some_ne_none g
      · exact hp
  obtain ⟨hheld, hissued, hlockCalls, hfiles⟩ := hlock
  constructor
  case ledger => exact hheld.ledger
  case exclusive => exact hheld.exclusive
  case hex => exact hheld.hex
  case file => exact hheld.file
  case freed => exact hheld.freed
  case directory =>
    intro p f hf
    obtain ⟨g, hg⟩ := Option.ne_none_iff_exists'.mp (hfiles p (by rw [hf]; exact nofun))
    exact hdirectory p g hg
  case compare => exact hheld.compare
  case shredding =>
    intro p hp
    obtain ⟨hfreed, hwriting⟩ := hshredding p hp
    exact ⟨hissued ▸ hfreed, hlockCalls ▸ hwriting⟩

section LockStep

variable {kop : LockOp} {t : TaskId} {c : LockCall} {l₀ : ProfileLease} {i : ℕ}
  {files : ProfileId → Option LockFile} {issued : List ProfileLease}

/-- The handle of an acquisition names the lock file. -/
theorem Held.names (h : s.Held) (hc : s.lock.calls t = some (.acquireWrite l₀ i))
    {bytes : List Char} {f : Option LockFile}
    (hf : s.lock.writeFile l₀.profile i bytes = s.lock.setFile l₀.profile f) :
    f = some ⟨i, bytes⟩ := by
  rw [LockSystem.writeFile_of_names (h.exclusive.writing t l₀ i hc)] at hf
  have := congrFun (congrArg LockSystem.files hf) l₀.profile
  simpa using this.symm

/-- The lock file an acquisition writes is that of no lease. -/
theorem Held.apart (h : s.Held) (hc : s.lock.calls t = some (.acquireWrite l₀ i))
    (hl : l ∈ s.lock.issued) (hnot : l ∉ s.freed) : l.profile ≠ l₀.profile := by
  intro hp
  obtain ⟨j, hj⟩ := h.file l hl hnot
  rw [hp, h.exclusive.writing t l₀ i hc] at hj
  exact l.token.text_ne_nil (congrArg LockFile.bytes (Option.some.inj hj)).symm

theorem Held.fresh (h : s.Held) (hc : s.lock.calls t = some (.acquireWrite l₀ i))
    (hl : l ∈ s.lock.issued) : l.token.text ≠ l₀.token.text := by
  intro ht
  exact (h.ledger.acquiring t _ l₀ hc rfl).2 l hl (LockToken.eq_of_text ht)

theorem Held.file_of_does (h : s.Held) (hd : s.lock.Does t kop c files issued)
    (hl : l ∈ issued) (hnot : l ∉ s.lock.frees kop ++ s.freed) :
    ∃ i, files l.profile = some ⟨i, l.token.text⟩ := by
  have hnot' : l ∉ s.freed := fun hm => hnot (List.mem_append_right _ hm)
  cases hd with
  | moved hfrees hc => exact h.file l hl hnot'
  | began => exact h.file l hl hnot'
  | drew hc => exact h.file l hl hnot'
  | @created p token hc hf =>
    obtain ⟨j, hj⟩ := h.file l hl hnot'
    have hp : l.profile ≠ p := by
      rintro rfl
      rw [hf] at hj
      cases hj
    exact ⟨j, by rw [LockSystem.setFile_files, if_neg hp, hj]⟩
  | @wrote l₀ i f hc hf =>
    rw [h.names hc hf]
    rcases List.mem_cons.mp hl with rfl | hl
    · exact ⟨i, by rw [LockSystem.setFile_files, if_pos rfl]⟩
    · obtain ⟨j, hj⟩ := h.file l hl hnot'
      exact ⟨j, by rw [LockSystem.setFile_files, if_neg (h.apart hc hl hnot'), hj]⟩
  | @cut l₀ i n e f hc hf =>
    obtain ⟨j, hj⟩ := h.file l hl hnot'
    exact ⟨j, by rw [LockSystem.setFile_files, if_neg (h.apart hc hl hnot'), hj]⟩
  | read hc hf => exact h.file l hl hnot'
  | @removed l₀ f hc hf =>
    obtain ⟨j, hj⟩ := h.file l hl hnot'
    have hp : l.profile ≠ l₀.profile := by
      intro hp
      -- the removed file carries one token only
      rcases h.exclusive.removing t _ l₀ hc rfl with hn | ⟨i, hi⟩
      · rw [hf] at hn
        cases hn
      · rw [hp, hi] at hj
        have htext := congrArg LockFile.bytes (Option.some.inj hj)
        obtain rfl := ProfileLease.eq_of_text hp htext.symm
        exact hnot (by simp [LockSystem.frees, hc, hf])
    exact ⟨j, by rw [LockSystem.setFile_files, if_neg hp, hj]⟩

/-- The lock file of a freed lease does not come back. -/
theorem Held.gone_of_does (h : s.Held) (hd : s.lock.Does t kop c files issued)
    (hl : l ∈ s.freed) : files l.profile ≠ some ⟨i, l.token.text⟩ := by
  obtain ⟨hissued, -, hgone⟩ := h.freed l hl
  intro hi
  cases hd with
  | moved hfrees hc => exact hgone i hi
  | began => exact hgone i hi
  | drew hc => exact hgone i hi
  | created hc hf =>
    rw [LockSystem.setFile_files] at hi
    split_ifs at hi with hp
    · exact l.token.text_ne_nil (congrArg LockFile.bytes (Option.some.inj hi)).symm
    · exact hgone i hi
  | wrote hc hf =>
    rw [h.names hc hf, LockSystem.setFile_files] at hi
    split_ifs at hi with hp
    · exact h.fresh hc hissued (congrArg LockFile.bytes (Option.some.inj hi)).symm
    · exact hgone i hi
  | @cut l₀ _ n e f hc hf =>
    rw [h.names hc hf, LockSystem.setFile_files] at hi
    split_ifs at hi with hp
    · have htake : l₀.token.text.take n = l.token.text :=
        congrArg LockFile.bytes (Option.some.inj hi)
      have hlen := congrArg List.length htake
      rw [List.length_take, l₀.token.length_text, l.token.length_text] at hlen
      rw [List.take_of_length_le (by rw [l₀.token.length_text]; omega)] at htake
      exact h.fresh hc hissued htake.symm
    · exact hgone i hi
  | read hc hf => exact hgone i hi
  | removed hc hf =>
    rw [LockSystem.setFile_files] at hi
    split_ifs at hi with hp
    exact hgone i hi

theorem Held.freed_of_does (h : s.Held) (hd : s.lock.Does t kop c files issued)
    (hl : l ∈ s.lock.frees kop ++ s.freed) :
    l ∈ s.lock.issued ∧ l ∉ s.lock.unreleased ∧ files l.profile ≠ some ⟨i, l.token.text⟩ := by
  rcases List.mem_append.mp hl with hnew | hold
  · cases hd with
    | moved hfrees hc => rw [hfrees] at hnew; cases hnew
    | began => cases hnew
    | drew hc => cases hnew
    | created hc hf => cases hnew
    | wrote hc hf => cases hnew
    | cut hc hf => cases hnew
    | read hc hf => cases hnew
    | removed hc hf =>
      simp only [LockSystem.frees, hc, hf, Option.isSome_some, if_true, List.mem_singleton] at hnew
      subst hnew
      obtain ⟨hissued, hun⟩ := h.ledger.releasing t _ l hc rfl
      exact ⟨hissued, hun, by simp⟩
  · exact ⟨(h.freed l hold).1, (h.freed l hold).2.1, h.gone_of_does hd hold⟩

theorem Held.directory_of_does (h : s.Held) (hm : s.shelf.meets s.lock kop = true)
    (hd : s.lock.Does t kop c files issued) {p : ProfileId} {f : LockFile}
    (hf : files p = some f) : s.shelf.dir p ≠ none := by
  cases hd with
  | moved hfrees hc => exact h.directory p f hf
  | began => exact h.directory p f hf
  | drew hc => exact h.directory p f hf
  | @created q token hc hn =>
    rw [LockSystem.setFile_files] at hf
    split_ifs at hf with hp
    · simp only [Shelf.meets, hc] at hm
      rw [hp]
      exact Option.isSome_iff_ne_none.mp hm
    · exact h.directory p f hf
  | wrote hc hg =>
    rw [LockSystem.setFile_files] at hf
    split_ifs at hf with hp
    · exact h.directory p _ (hp ▸ h.exclusive.writing t _ _ hc)
    · exact h.directory p f hf
  | cut hc hg =>
    rw [LockSystem.setFile_files] at hf
    split_ifs at hf with hp
    · exact h.directory p _ (hp ▸ h.exclusive.writing t _ _ hc)
    · exact h.directory p f hf
  | read hc hg => exact h.directory p f hf
  | removed hc hg =>
    rw [LockSystem.setFile_files] at hf
    split_ifs at hf
    exact h.directory p f hf

/-- A release that reads the lock file of a lease finds its token. -/
theorem Held.compare_of_does (h : s.Held) {held : List Char}
    (hd : s.lock.Does t kop (.releaseCompare l held) files issued) (hnot : l ∉ s.freed) :
    held = l.token.text := by
  cases hd with
  | moved hfrees hc => cases hc
  | read hc hf =>
    obtain ⟨j, hj⟩ := h.file l (h.ledger.releasing t _ l hc rfl).1 hnot
    rw [hf] at hj
    exact congrArg LockFile.bytes (Option.some.inj hj)

theorem Held.lockStep {lock : LockSystem} (h : s.Held) (hok : s.Careful (.lock kop))
    (hm : s.shelf.meets s.lock kop = true) (hs : s.lock.step kop = some lock) :
    Held ⟨s.shelf, lock, s.lock.frees kop ++ s.freed⟩ := by
  obtain ⟨t, c, hl⟩ := LockSystem.step_leaves hs
  constructor
  case ledger => exact h.ledger.step hs
  case exclusive => exact h.exclusive.step h.ledger (hok.alone kop rfl) hs
  case hex =>
    intro token ht hnul
    rcases hl.drawn token ht with ht | ⟨present, rfl⟩
    · exact h.hex token ht hnul
    · simp only [Shelf.meets, Bool.and_eq_true] at hm
      have := List.all_eq_true.mp hm.1 _ hnul
      simp at this
  case file => exact fun l hl' hnot => h.file_of_does hl.does hl' hnot
  case freed =>
    intro l hf
    have hissued := (h.freed_of_does (i := 0) hl.does hf).1
    refine ⟨hl.does.grows hissued, fun hun => ?_, fun i => (h.freed_of_does hl.does hf).2.2⟩
    rcases hl.unreleased l hun with hun | ⟨i, hc⟩
    · exact (h.freed_of_does (i := 0) hl.does hf).2.1 hun
    · exact h.fresh hc hissued rfl
  case directory => exact fun p f hf => h.directory_of_does hm hl.does hf
  case compare =>
    intro u l held hu hnot
    have hnot' : l ∉ s.freed := fun hm => hnot (List.mem_append_right _ hm)
    rw [hl.calls, Function.update_apply] at hu
    split_ifs at hu with hut
    · cases hu
      exact h.compare_of_does hl.does hnot'
    · exact h.compare u l held hu hnot'
  case shredding =>
    intro p hp
    obtain ⟨hfreed, hwriting⟩ := h.shredding p hp
    constructor
    case freed =>
      intro l hl' hlp
      refine List.mem_append_right _ ?_
      rcases hl.does.handed hl' with hold | ⟨i, hc⟩
      · exact hfreed l hold hlp
      · exact absurd hlp (hwriting t l i hc)
    case writing =>
      intro u l i hu
      rw [hl.calls, Function.update_apply] at hu
      split_ifs at hu with hut
      · cases hu
        obtain ⟨token, rfl, hc, rfl⟩ := hl.does.creates
        exact fun hlp => hok.creates t _ _ rfl hc (hlp ▸ hp)
      · exact hwriting u l i hu

end LockStep

theorem Held.step (h : s.Held) (hok : s.Careful op) (hs : s.step op = some s') : s'.Held := by
  cases op with
  | shelf kop =>
    obtain ⟨⟨k, lock⟩, hk, rfl⟩ := Option.map_eq_some_iff.mp hs
    exact h.shelfStep hok hk
  | lock kop =>
    simp only [Repository.step] at hs
    split_ifs at hs with hm
    obtain ⟨lock, hl, rfl⟩ := Option.map_eq_some_iff.mp hs
    exact h.lockStep hok hm hl

theorem held_initial : initial.Held := by
  constructor
  case ledger => exact LockSystem.ledger_initial
  case exclusive => exact LockSystem.exclusive_initial
  all_goals simp [initial, LockSystem.initial, Shelf.Shreds]

theorem held_of_reach (hr : Reach Repository.step (· = initial) Careful s) : s.Held := by
  induction hr with
  | start hi => exact hi ▸ held_initial
  | next hr hok hs h => exact h.step hok hs

/-! ### The holder's view -/

/-- The release of the lease succeeds: the read finds its own token, which is the one compared
with, and the file is there to be removed. -/
structure Releases (s : Repository) (l : ProfileLease) : Prop where
  read : ∀ t, s.lock.calls t = some (.releaseRead l) →
    (s.lock.releaseRead t l none).calls t = some (.releaseCompare l l.token.text)
  compare : ∀ t held, s.lock.calls t = some (.releaseCompare l held) →
    (s.lock.releaseCompare t l held).calls t = some (.releaseRemove l)
  remove : ∀ t, s.lock.calls t = some (.releaseRemove l) →
    (s.lock.releaseRemove t l none).calls t = some (.released (.ok ()))

theorem Held.releases (h : s.Held) (hl : l ∈ s.lock.issued) (hnot : l ∉ s.freed) :
    s.Releases l := by
  obtain ⟨i, hi⟩ := h.file l hl hnot
  constructor
  case read =>
    intro t hc
    simp [LockSystem.releaseRead, hi]
  case compare =>
    intro t held hc
    simp [LockSystem.releaseCompare, h.compare t l held hc hnot]
  case remove =>
    intro t hc
    simp [LockSystem.releaseRemove, hi]

/-- The lease owns its profile: its lock file and the directory are in place, what the directory
held when the run was in `s₀` it still holds, and a release of the lease succeeds. -/
structure Owns (s₀ s : Repository) (l : ProfileLease) : Prop where
  file : ∃ i, s.lock.files l.profile = some ⟨i, l.token.text⟩
  directory : ∃ d, s.shelf.dir l.profile = some d
  kept : ∀ d, s₀.shelf.dir l.profile = some d →
    ∃ d', s.shelf.dir l.profile = some d' ∧ d.Keeps d'
  releases : s.Releases l

theorem Held.keeps {d : ProfileDir} (h : s.Held) (hl : l ∈ s.lock.issued) (hnot : l ∉ s.freed)
    (hs : s.step op = some s') (hd : s.shelf.dir l.profile = some d) :
    ∃ d', s'.shelf.dir l.profile = some d' ∧ d.Keeps d' := by
  cases op with
  | shelf kop =>
    obtain ⟨⟨k, lock⟩, hk, rfl⟩ := Option.map_eq_some_iff.mp hs
    obtain ⟨t, c, hacts, -⟩ := Shelf.step_leaves hk
    exact hacts.keeps (fun hp => hnot ((h.shredding _ hp).freed l hl rfl)) hd
  | lock kop =>
    simp only [Repository.step] at hs
    split_ifs at hs with hm
    obtain ⟨lock, -, rfl⟩ := Option.map_eq_some_iff.mp hs
    exact ⟨d, hd, .refl d⟩

/-- A lease stays handed out, and what was freed stays freed. -/
theorem step_mono (hs : s.step op = some s') :
    (∀ l ∈ s.lock.issued, l ∈ s'.lock.issued) ∧ ∀ l ∈ s.freed, l ∈ s'.freed := by
  cases op with
  | shelf kop =>
    obtain ⟨⟨k, lock⟩, hk, rfl⟩ := Option.map_eq_some_iff.mp hs
    obtain ⟨t, c, hacts, -⟩ := Shelf.step_leaves hk
    refine ⟨fun l hl => ?_, fun l => id⟩
    rcases hacts.lockFile with rfl | ⟨q, f, -, rfl, -⟩
    · exact hl
    · exact hl
  | lock kop =>
    simp only [Repository.step] at hs
    split_ifs at hs with hm
    obtain ⟨lock, hk, rfl⟩ := Option.map_eq_some_iff.mp hs
    obtain ⟨t, c, hl⟩ := LockSystem.step_leaves hk
    exact ⟨fun l => hl.does.grows, fun l hf => List.mem_append_right _ hf⟩

theorem Held.reach {s₀ : Repository} (h : s₀.Held)
    (hr : Reach Repository.step (· = s₀) Careful s) : s.Held := by
  induction hr with
  | start hi => exact hi ▸ h
  | next hr hok hs h => exact h.step hok hs

/-- What the profile held when its lease was out stays until the lease is freed. -/
theorem Held.keeps_of_reach {s₀ : Repository} (h₀ : s₀.Held) (hl : l ∈ s₀.lock.issued)
    (hr : Reach Repository.step (· = s₀) Careful s) (hnot : l ∉ s.freed) :
    l ∈ s.lock.issued ∧ ∀ d, s₀.shelf.dir l.profile = some d →
      ∃ d', s.shelf.dir l.profile = some d' ∧ d.Keeps d' := by
  induction hr with
  | start hi =>
    subst hi
    exact ⟨hl, fun d hd => ⟨d, hd, .refl d⟩⟩
  | next hr hok hs ih =>
    obtain ⟨hissued, hfreed⟩ := step_mono hs
    obtain ⟨hl, hkeeps⟩ := ih fun hf => hnot (hfreed l hf)
    refine ⟨hissued l hl, fun d hd => ?_⟩
    obtain ⟨d₁, hd₁, hk₁⟩ := hkeeps d hd
    obtain ⟨d₂, hd₂, hk₂⟩ := (h₀.reach hr).keeps hl (fun hf => hnot (hfreed l hf)) hs hd₁
    exact ⟨d₂, hd₂, hk₁.trans hk₂⟩

/-- A lease that `release_lock` was not called with, or whose release has not removed the lock
file, leaves the profile with its holder in every run of careful steps. -/
theorem owns_of_reach {s₀ : Repository} (h₀ : Reach Repository.step (· = initial) Careful s₀)
    (hl : l ∈ s₀.lock.issued) (hr : Reach Repository.step (· = s₀) Careful s)
    (hout : l ∈ s.lock.unreleased ∨ l ∉ s.freed) : s₀.Owns s l := by
  have h := (held_of_reach h₀).reach hr
  have hnot : l ∉ s.freed := by
    rcases hout with hun | hnot
    · exact fun hf => (h.freed l hf).2.1 hun
    · exact hnot
  obtain ⟨hl, hkeeps⟩ := (held_of_reach h₀).keeps_of_reach hl hr hnot
  obtain ⟨i, hi⟩ := h.file l hl hnot
  have hdir := h.directory l.profile _ hi
  exact ⟨⟨i, hi⟩, Option.ne_none_iff_exists'.mp hdir, hkeeps, h.releases hl hnot⟩

/-- No lock file is created, and no delete passes its check. -/
def harmless (s : Repository) : RepoOp → Bool
  | .lock (.create _ none) => false
  | .shelf (.file t none) =>
    match s.shelf.calls t with
    | some (.deleteStat _) => false
    | _ => true
  | _ => true

theorem careful_of_harmless (s : Repository) (op : RepoOp) (h : s.harmless op = true) :
    s.Careful op := by
  constructor
  case alone =>
    rintro k rfl t p token rfl
    cases h
  case creates =>
    rintro t p token rfl
    cases h
  case deletes =>
    rintro k p rfl ⟨t, rfl, hc, -⟩
    simp [harmless, hc] at h

/-- Task 0 creates profile 0, and task 1 is about to create its lock file. -/
def lockableRun : List RepoOp :=
  createRun (.ephemeral "work") ++
    [.shelf (.file 0 none), .shelf (.size 0 (.ok 0)), .shelf (.file 0 none),
      .lock (.acquire 1 ⟨0⟩), .lock (.stat 1 true (LockSystem.repeated 'a'))]

def lockable : Repository := (exec step initial lockableRun).getD initial

/-- Task 1 has the lease of profile 0. -/
def locked : Repository :=
  (exec step lockable [.lock (.create 1 none), .lock (.write 1 none)]).getD lockable

def workLease : ProfileLease := ⟨⟨0⟩, LockSystem.repeated 'a'⟩

/-- Task 2 records a launch of profile 0. -/
def touchRun : List RepoOp :=
  [.shelf (.call 2 (.touchLaunch ⟨0⟩ 7)), .shelf (.guard 2 ⟨0⟩), .shelf (.file 2 none),
    .shelf (.file 2 none), .shelf (.file 2 none)]

/-- Task 2 deletes profile 0 undisturbed. -/
def deleteRun : List RepoOp :=
  [.shelf (.call 2 (.delete ⟨0⟩)), .shelf (.guard 2 ⟨0⟩), .shelf (.file 2 none),
    .shelf (.file 2 none), .shelf (.overwrite 2 none), .shelf (.overwrite 2 none),
    .shelf (.overwrite 2 none), .shelf (.overwrite 2 none), .shelf (.unlink 2 .metadata),
    .shelf (.unlink 2 .data), .shelf (.unlink 2 .lock), .shelf (.rmdir 2 none)]

theorem lockable_shelf (u : TaskId) (hu : u ≠ 0) : lockable.shelf.calls u = none := by
  repeat
    refine (Function.update_of_ne hu _ _).trans ?_
  rfl

theorem lockable_lock (u : TaskId) (hu : u ≠ 1) : lockable.lock.calls u = none := by
  repeat
    refine (Function.update_of_ne hu _ _).trans ?_
  rfl

theorem locked_reach : Reach step (· = initial) Careful locked := by
  have h₀ : Reach step (· = initial) Careful initial := .start rfl
  have hrun : exec (fun s op => if harmless s op then step s op else none) initial lockableRun =
      some lockable := rfl
  have h₁ := h₀.execWhere careful_of_harmless hrun
  have hcreate : lockable.Careful (.lock (.create 1 none)) := by
    constructor
    case alone =>
      rintro _ ⟨⟩ t p token - - - u c l hc hl
      by_cases hu : u = 1
      · subst hu
        cases hc
        cases hl
      · rw [lockable_lock u hu] at hc
        cases hc
    case creates =>
      rintro t p token - - ⟨u, c, hc, hp⟩
      by_cases hu : u = 0
      · subst hu
        cases hc
        cases hp
      · rw [lockable_shelf u hu] at hc
        cases hc
    case deletes => rintro k p ⟨⟩
  exact (h₁.next hcreate rfl).next (careful_of_harmless _ (.lock (.write 1 none)) rfl) rfl

/-- Another client's `touch_launch` leaves the profile with its holder. -/
theorem owns_touched : ∃ s, exec step locked touchRun = some s ∧ locked.Owns s workLease := by
  have hrefl : Reach step (· = locked) Careful locked := .start rfl
  have hrun : ∃ s, exec (fun s op => if harmless s op then step s op else none) locked touchRun =
      some s ∧ exec step locked touchRun = some s ∧ workLease ∈ s.lock.unreleased :=
    ⟨_, rfl, rfl, List.mem_cons_self⟩
  obtain ⟨s, hwhere, hs, hl⟩ := hrun
  have hr := hrefl.execWhere careful_of_harmless hwhere
  exact ⟨s, hs, owns_of_reach locked_reach List.mem_cons_self hr (.inl hl)⟩

/-- A delete does not look at the lock: it leaves the holder neither profile nor lock file. -/
theorem deleted_not_owned : ∃ s, Reach step (· = initial) anyStep locked ∧
    workLease ∈ locked.lock.issued ∧ Reach step (· = locked) anyStep s ∧
    workLease ∈ s.lock.unreleased ∧ s.shelf.dir ⟨0⟩ = none ∧ ¬ locked.Owns s workLease := by
  have hrun : ∃ s, exec step locked deleteRun = some s ∧ workLease ∈ s.lock.unreleased ∧
      s.shelf.dir ⟨0⟩ = none := ⟨_, rfl, List.mem_cons_self, rfl⟩
  obtain ⟨s, hs, hl, hdir⟩ := hrun
  have hrefl : Reach step (· = locked) anyStep locked := .start rfl
  refine ⟨s, locked_reach.any, List.mem_cons_self, hrefl.exec hs, hl, hdir, fun h => ?_⟩
  obtain ⟨d, hd⟩ := h.directory
  cases hdir.symm.trans hd

end Repository

end Aegis.Store
