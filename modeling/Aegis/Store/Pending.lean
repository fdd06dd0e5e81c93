import Aegis.Store.Fits

/-! The writing call that holds the guard takes what is stored to what its write leaves of it, step
by step. -/
namespace Aegis.Store
open FileTree Transition

/-- What the guard's holder goes on to, or that it leaves what its write leaves of `m`: nothing else
where it returns an error. -/
def Next.Pending (m : MetaMap) (d : Disk) (req : RepoRequest) : Next → Prop
  | .goto phase => phase.Pending m d req
  | .finish reply =>
    match (⟨req, reply, false⟩ : Outcome).write with
    | some w => w.apply m = some d.stored
    | none => d.stored = m

namespace Call

variable {c : Call} {sh : Shredder} {d d' : Disk} {a : FileAct} {next : Next} {m : MetaMap}
  {id : ProfileId} {profile : StoredProfile} {aim : Aim} {req : RepoRequest}

theorem fail_pending (h : d.stored = m) (e : Error) : (c.fail e).Pending m d c.req := by
  unfold fail
  cases c.req <;> exact h

theorem loaded_error_pending (h : d.stored = m) (e : Error) :
    (loaded aim (.error e)).Pending m d req := by
  cases aim with
  | list out => cases e <;> first | trivial | (cases req <;> exact h)
  | _ => cases req <;> exact h

/-- The call returns the profile that is stored. -/
theorem loaded_pending (haim : aim.Fits files req profile.id) (hw : req.writes = true)
    (hp : (Phase.statLock profile aim).Pending m d req) :
    (loaded aim (.ok profile)).Pending m d req := by
  cases aim with
  | patch p =>
    obtain rfl : req = _ := haim
    obtain ⟨rfl, hdue⟩ := hp
    exact hdue
  | touch time =>
    obtain rfl : req = _ := haim
    exact hp.1
  | load =>
    obtain ⟨rfl, hdue⟩ := hp
    rcases haim with rfl | ⟨patch, rfl, -⟩
    · cases hw
    · exact hdue
  | refresh => rcases haim with ⟨spec, rfl⟩ | ⟨patch, rfl⟩ <;> exact hp
  | list out => trivial

theorem metaRead_error_pending (h : d.stored = m) (e : Error) :
    (c.metaRead id aim (.error e)).Pending m d c.req := by
  cases aim with
  | patch p => exact fail_pending h e
  | touch time => exact fail_pending h e
  | load =>
    show (loaded .load (.error e)).Pending m d c.req
    exact loaded_error_pending h e
  | refresh =>
    show (loaded .refresh (.error e)).Pending m d c.req
    exact loaded_error_pending h e
  | list out =>
    show (loaded (.list out) (.error e)).Pending m d c.req
    exact loaded_error_pending h e

theorem metaRead_pending {i : Inode} (haim : aim.Fits d.files c.req id) (hid : profile.id = id)
    (hp : (Phase.reading id i aim).Pending m d c.req) (hparse : d.parse id i = .ok profile) :
    (c.metaRead id aim (.ok profile)).Pending m d c.req := by
  obtain ⟨hdir, hp⟩ := hp
  have hstored : d.stored id = some profile := Disk.stored_eq.mpr ⟨i, hdir, hparse⟩
  cases aim with
  | patch patch =>
    have hreq : c.req = .update id patch := haim
    obtain rfl : d.stored = m := hp
    simp only [metaRead]
    split
    · rename_i hempty
      refine ⟨rfl, fun found hfound => ?_⟩
      rw [hreq]
      simp only [Due, Write.apply, hfound, if_pos hempty]
    · rename_i hempty
      split
      · exact fail_pending rfl _
      · rename_i spec hspec
        refine ⟨rfl, ?_⟩
        rw [hreq]
        refine ⟨hid, ?_⟩
        simp only [Write.apply, hstored, if_neg hempty, hspec, hid]
  | touch time =>
    have hreq : c.req = .touchLaunch id time := haim
    obtain rfl : d.stored = m := hp
    refine ⟨rfl, ?_⟩
    rw [hreq]
    refine ⟨hid, ?_⟩
    simp only [Write.apply, hstored, hid]
  | load => exact ⟨hp.1, hp.2 profile hstored⟩
  | refresh =>
    obtain ⟨found, hfound, -, hdue⟩ := hp
    rw [hstored] at hfound
    cases hfound
    exact hdue
  | list out => exact ⟨hp, by rw [haim.1]; trivial⟩

/-- The metadata are in place. -/
theorem wrote_pending (hs : d.Sound) (hstored : d.stored = m) (hp : Planned m profile c.req) :
    (c.wrote profile).Pending m (d.rename profile) c.req := by
  have hrename : (d.rename profile).stored = Function.update m profile.id (some profile) := by
    rw [hs.rename_stored, hstored]
  have hself : (d.rename profile).stored profile.id = some profile := by
    rw [hrename, Function.update_self]
  unfold wrote
  cases hreq : c.req with
  | create spec =>
    rw [hreq] at hp
    refine ⟨profile, hself, rfl, ?_⟩
    rw [hrename, Due, Write.apply, ← show profile = _ from hp]
  | update id patch =>
    rw [hreq] at hp
    obtain ⟨rfl, hp⟩ := hp
    refine ⟨profile, hself, rfl, ?_⟩
    rw [hrename]
    exact hp
  | touchLaunch id time =>
    rw [hreq] at hp
    obtain ⟨rfl, hp⟩ := hp
    exact hp.trans (congrArg some hrename.symm)
  | _ =>
    rw [hreq] at hp
    exact hp.elim

theorem sizes_pending {phase : Phase} (h : Sizes profile aim phase)
    (hp : (Phase.statLock profile aim).Pending m d req) : phase.Pending m d req := by
  cases h with
  | walk => exact hp
  | file => exact hp
  | lock =>
    cases aim with
    | refresh => cases req <;> exact hp
    | _ => exact ⟨hp.1, by cases req <;> exact hp.2⟩

theorem shreds_pending {phase : Phase} (h : Shreds id phase) (hp : d.stored = m) :
    phase.Pending m d req := by
  subst hp
  cases h with
  | find => rfl
  | overwrite => exact ⟨fun _ _ => rfl, .inl rfl⟩
  | remove => exact ⟨fun _ _ => rfl, .inl rfl⟩

/-- Shredding that has not reached the metadata has changed none. -/
theorem stored_of_shredding (hp : (Phase.removing id).Pending m d req)
    (hsome : (d.stored id).isSome) : d.stored = m := by
  funext other
  by_cases ho : other = id
  · subst ho
    refine hp.2.resolve_right fun hnone => ?_
    rw [hnone] at hsome
    cases hsome
  · exact hp.1 other ho

theorem Harmless.not_refreshes (h : c.Harmless d a) (hfails : a.fails = true) :
    c.phase.refreshes = false := by
  unfold Harmless at h
  split at h
  · cases hfails
  · rename_i hphase
    rw [hphase]
    rfl
  · rename_i hphase
    rw [hphase]
    rfl
  · exact h hfails

/-- No operation fails behind the one that has written the metadata. -/
theorem Harmless.ne_refresh (h : c.Harmless d a) (hfails : a.fails = true)
    (hphase : aim = .refresh → c.phase.refreshes = true) : aim ≠ .refresh := by
  intro haim
  have hrefreshes := hphase haim
  rw [h.not_refreshes hfails] at hrefreshes
  cases hrefreshes

/-- Where no metadata have been written yet, what is stored is what was. -/
theorem stored_of_opening (hp : (Phase.opening id aim).Pending m d req) (h : aim ≠ .refresh) :
    d.stored = m := by
  cases aim with
  | refresh => exact absurd rfl h
  | load => exact hp.1
  | _ => exact hp

theorem stored_of_statLock (hp : (Phase.statLock profile aim).Pending m d req)
    (h : aim ≠ .refresh) : d.stored = m := by
  cases aim with
  | refresh => exact absurd rfl h
  | _ => exact hp.1

/-- The profile's identifier and creation time say what is due. -/
theorem statLock_congr {other : StoredProfile} (hp : (Phase.statLock profile aim).Pending m d req)
    (hid : other.id = profile.id) (ht : other.createdAt = profile.createdAt) :
    (Phase.statLock other aim).Pending m d req := by
  have hdue : ∀ {m'}, Due m m' profile req → Due m m' other req := by
    intro m' h
    cases req with
    | create spec =>
      rw [Due, hid, ht]
      exact h
    | _ => exact h
  cases aim with
  | refresh => exact hdue hp
  | _ => exact ⟨hp.1, hdue hp.2⟩

/-- The holder of the guard finds the metadata that it has written. -/
theorem stored_of_refresh (hp : (Phase.opening id aim).Pending m d req) (h : aim = .refresh) :
    ∃ i profile, d.dirs.lookup id = some (some i) ∧ d.parse id i = .ok profile := by
  subst h
  obtain ⟨profile, hprofile, -⟩ := hp
  obtain ⟨i, hi, hparse⟩ := Disk.stored_eq.mp hprofile
  exact ⟨i, profile, hi, hparse⟩

/-- An overwritten file of the profile is no longer read. -/
theorem zero_pending (hs : d.Sound) (sh : Shredder) {file : Path} {files : List Path}
    (hp : (Phase.overwriting id file files).Pending m d req) :
    (Phase.removing id).Pending m (d.zero sh id file) req := by
  obtain ⟨hother, hself⟩ := hs.zero_stored sh file
  refine ⟨fun other ho => (hother other ho).trans (hp.1 other ho), ?_⟩
  rcases hself with hsame | hnone
  · rw [hsame]
    exact hp.2
  · exact .inr hnone

theorem unlink_pending (hp : (Phase.removing id).Pending m d req) :
    (Phase.removing id).Pending m (d.unlink id) req := by
  refine ⟨fun other ho => ?_, .inr ?_⟩
  · rw [Disk.unlink_stored, Function.update_of_ne ho]
    exact hp.1 other ho
  · rw [Disk.unlink_stored, Function.update_self]

/-- Without its directory the profile is deleted. -/
theorem stored_rmdir_of_pending (hp : (Phase.removing id).Pending m d req) :
    Function.update m id none = (d.rmdir id).stored := by
  funext other
  rw [Disk.rmdir_stored]
  by_cases ho : other = id
  · subst ho
    rw [Function.update_self, Function.update_self]
  · rw [Function.update_of_ne ho, Function.update_of_ne ho]
    exact (hp.1 other ho).symm

theorem act_pending (hs : d.Sound) (hf : c.phase.Fits d.files c.req) (hw : c.req.writes = true)
    (hp : c.phase.Pending m d c.req) (hh : c.Harmless d a) (h : c.act sh d a = some (d', next)) :
    next.Pending m d' c.req := by
  cases hphase : c.phase with
  | guarding =>
    simp only [act, hphase] at h
    cases h
  | statNew id spec =>
    simp only [act, hphase, FileAct.onFile_eq] at h
    obtain ⟨fault, rfl, h⟩ := h
    rw [hphase] at hp
    split at h <;> cases h
    · exact fail_pending hp _
    · exact hp
  | makeData id spec =>
    simp only [act, hphase, FileAct.onMake_eq] at h
    obtain ⟨now, fault, rfl, h⟩ := h
    rw [hphase] at hp hf
    split at h <;> cases h
    · exact fail_pending hp _
    · refine ⟨(Disk.makeDir_stored d id).trans hp, ?_⟩
      rw [show c.req = _ from hf]
      rfl
  | opening id aim =>
    simp only [act, hphase, FileAct.onFile_eq] at h
    obtain ⟨fault, rfl, h⟩ := h
    rw [hphase] at hp hf
    split at h <;> cases h
    · have hno : aim ≠ .refresh := hh.ne_refresh rfl fun haim => by
        rw [hphase, haim]
        rfl
      exact metaRead_error_pending (stored_of_opening hp hno) _
    · rename_i i hi
      exact ⟨hi, hp⟩
    · rename_i hnone
      have hno : aim ≠ .refresh := fun haim => by
        obtain ⟨i, -, hi, -⟩ := stored_of_refresh hp haim
        exact hnone i hi
      exact metaRead_error_pending (stored_of_opening hp hno) _
  | reading id i aim =>
    simp only [act, hphase, FileAct.onFile_eq] at h
    obtain ⟨fault, rfl, h⟩ := h
    rw [hphase] at hp hf
    have hopening : (Phase.opening id aim).Pending m d c.req := hp.2
    split at h <;> cases h
    · have hno : aim ≠ .refresh := hh.ne_refresh rfl fun haim => by
        rw [hphase, haim]
        rfl
      exact metaRead_error_pending (stored_of_opening hopening hno) _
    · cases hparse : d.parse id i with
      | ok profile =>
        obtain ⟨record, hrecord, hid⟩ := hf.2
        have hsame := (Disk.parse_ok.mp hparse).2
        rw [hrecord] at hsame
        cases hsame
        exact metaRead_pending hf.1 hid hp hparse
      | error e =>
        refine metaRead_error_pending (stored_of_opening hopening fun haim => ?_) _
        obtain ⟨j, profile, hj, hok⟩ := stored_of_refresh hopening haim
        rw [hp.1] at hj
        cases hj
        rw [hparse] at hok
        cases hok
  | making profile =>
    simp only [act, hphase, FileAct.onFile_eq] at h
    obtain ⟨fault, rfl, h⟩ := h
    rw [hphase] at hp
    split at h <;> cases h
    · exact fail_pending hp.1 _
    · exact ⟨(Disk.makeDir_stored d _).trans hp.1, hp.2⟩
  | writing profile =>
    simp only [act, hphase, FileAct.onFile_eq] at h
    obtain ⟨fault, rfl, h⟩ := h
    rw [hphase] at hp
    split at h <;> cases h
    · exact fail_pending hp.1 _
    · exact hp
  | replacing profile =>
    simp only [act, hphase, FileAct.onFile_eq] at h
    obtain ⟨fault, rfl, h⟩ := h
    rw [hphase] at hp
    split at h <;> cases h
    · exact hp.1
    · exact hp.1
    · exact wrote_pending hs hp.1 hp.2
  | clearing e =>
    simp only [act, hphase, FileAct.onFile_eq] at h
    obtain ⟨fault, rfl, h⟩ := h
    rw [hphase] at hp
    cases h
    exact fail_pending hp _
  | sizing profile walk total aim =>
    simp only [act, hphase] at h
    rw [hphase] at hp
    obtain ⟨n, hn, hnext⟩ := Option.map_eq_some_iff.mp h
    cases hnext
    rcases size_cases hn with ⟨phase, rfl, hsizes⟩ | ⟨hfails, e, rfl⟩
    · exact sizes_pending hsizes hp
    · have hno : aim ≠ .refresh := hh.ne_refresh hfails fun haim => by
        rw [hphase, haim]
        rfl
      exact loaded_error_pending (stored_of_statLock hp hno) _
  | sizeFile profile path current stack total aim =>
    simp only [act, hphase, FileAct.onStat_eq] at h
    obtain ⟨answer, rfl, h⟩ := h
    rw [hphase] at hp
    split at h <;> cases h
    · exact hp
    · exact hp
    · rename_i e hne
      have hno : aim ≠ .refresh := hh.ne_refresh (decide_eq_true hne) fun haim => by
        rw [hphase, haim]
        rfl
      exact loaded_error_pending (stored_of_statLock hp hno) _
  | statLock profile aim =>
    simp only [act, hphase, FileAct.onStat_eq] at h
    obtain ⟨answer, rfl, h⟩ := h
    rw [hphase] at hp hf
    split at h <;> cases h
    · exact loaded_pending hf.1 hw (statLock_congr hp rfl rfl)
    · exact loaded_pending hf.1 hw (statLock_congr hp rfl rfl)
    · rename_i e hne
      have hno : aim ≠ .refresh := hh.ne_refresh (decide_eq_true hne) fun haim => by
        rw [hphase, haim]
        rfl
      exact loaded_error_pending (stored_of_statLock hp hno) _
  | openRoot =>
    rw [hphase] at hf
    rw [show c.req = _ from hf] at hw
    cases hw
  | entries out =>
    rw [hphase] at hf
    rw [hf.1] at hw
    cases hw
  | statDir id =>
    simp only [act, hphase, FileAct.onFile_eq] at h
    obtain ⟨fault, rfl, h⟩ := h
    rw [hphase] at hp
    split at h <;> cases h
    · cases sh with
      | overwrite s => exact hp
      | removeOnly => exact ⟨fun other _ => congrFun hp other, .inl (congrFun hp id)⟩
    · exact fail_pending hp _
  | statTree id =>
    simp only [act, hphase, FileAct.onFile_eq] at h
    obtain ⟨fault, rfl, h⟩ := h
    rw [hphase] at hp hf
    split at h <;> cases h
    · exact fail_pending hp _
    · rename_i hnone
      obtain rfl : d.stored = m := hp
      have hstored : d.stored id = none := by
        unfold Disk.stored
        rw [hnone]
      rw [show c.req = _ from hf]
      exact congrArg some (Function.update_eq_self_iff.mpr hstored.symm)
    · exact hp
  | finding id walk files =>
    simp only [act, hphase] at h
    rw [hphase] at hp
    obtain ⟨n, hn, hnext⟩ := Option.map_eq_some_iff.mp h
    cases hnext
    rcases find_cases hn with ⟨phase, rfl, hshreds⟩ | ⟨e, rfl⟩
    · exact shreds_pending hshreds hp
    · exact fail_pending hp e
  | overwriting id file files =>
    simp only [act, hphase, FileAct.onZero_eq] at h
    obtain ⟨cut, rfl, h⟩ := h
    rw [hphase] at hp
    have hp' : (Phase.removing id).Pending m (d.zero sh id file) c.req := zero_pending hs sh hp
    split at h <;> cases h
    · cases files with
      | nil => exact hp'
      | cons file files => exact hp'
    · unfold Harmless at hh
      simp only [hphase] at hh
      have hremoving : (Phase.removing id).Pending m d c.req := hp
      split
      · exact fail_pending (stored_of_shredding hremoving hh.1) _
      · rename_i hn
        have hfile : d.zero sh id file = d :=
          (Disk.zero_cases d sh id file).resolve_right fun hcut => hn (hh.2 hcut.1)
        rw [hfile]
        exact fail_pending (stored_of_shredding hremoving hh.1) _
  | removing id =>
    simp only [act, hphase] at h
    rw [hphase] at hp hf
    have hreq : c.req = .delete id := hf
    split at h <;> cases h
    · exact unlink_pending hp
    · rw [hreq]
      exact congrArg some (stored_rmdir_of_pending hp)
    · unfold Harmless at hh
      simp only [hphase] at hh
      exact fail_pending (stored_of_shredding hp hh) _

end Call

end Aegis.Store
