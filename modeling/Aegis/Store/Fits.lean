import Aegis.Store.Sequential

/-! A call of the store stays with what its request asks for, and what it has read was written in
full. -/
namespace Aegis.Store
open FileTree Transition

/-- What a call goes on to is the request's, or what it returns is whole where nothing failed. -/
def Next.Fits (files : List StoredProfile) (req : RepoRequest) (fails : Bool) : Next → Prop
  | .goto phase => phase.Fits files req ∧ (req.writes = true → phase ≠ .guarding)
  | .finish reply => fails = false → (⟨req, reply, fails⟩ : Outcome).Whole files

namespace Call

variable {c : Call} {sh : Shredder} {d d' : Disk} {a : FileAct} {next : Next}
  {files : List StoredProfile} {id : ProfileId} {profile : StoredProfile} {aim : Aim}

/-- `dir_size` in progress, or done. -/
inductive Sizes (profile : StoredProfile) (aim : Aim) : Phase → Prop
  | walk {walk : Walk} {total : ℕ} : Sizes profile aim (.sizing profile walk total aim)
  | file {path current : Path} {stack : List Path} {total : ℕ} :
      Sizes profile aim (.sizeFile profile path current stack total aim)
  | lock {total : ℕ} : Sizes profile aim (.statLock { profile with storage := total } aim)

/-- The search for files, or what follows it. -/
inductive Shreds (id : ProfileId) : Phase → Prop
  | find {walk : Walk} {files : List Path} : Shreds id (.finding id walk files)
  | overwrite {file : Path} {files : List Path} : Shreds id (.overwriting id file files)
  | remove : Shreds id (.removing id)

theorem sizes_sizeNext (total : ℕ) (stack : List Path) :
    Sizes profile aim (sizeNext profile aim total stack) := by
  cases stack with
  | nil => exact .lock
  | cons current stack => exact .walk

theorem shreds_shredNext (id : ProfileId) (files : List Path) : Shreds id (shredNext id files) := by
  cases files with
  | nil => exact .remove
  | cons file files => exact .overwrite

theorem shreds_findNext (id : ProfileId) (files stack : List Path) :
    Shreds id (findNext id files stack) := by
  cases stack with
  | nil => exact shreds_shredNext id files
  | cons current stack => exact .find

theorem toError_eq (e : IoError) : ∃ text, IoError.toError e = .io text := by
  cases e <;> exact ⟨_, rfl⟩

theorem size_cases {walk : Walk} {total : ℕ} (h : size profile walk total aim a = some next) :
    (∃ phase, next = .goto phase ∧ Sizes profile aim phase) ∨
      a.fails = true ∧ ∃ e, next = loaded aim (.error (.io e)) := by
  unfold size at h
  split at h
  · split at h <;> cases h
    · exact .inl ⟨_, rfl, .walk⟩
    · exact .inl ⟨_, rfl, sizes_sizeNext _ _⟩
    · rename_i e hne
      obtain ⟨text, he⟩ := toError_eq e
      rw [he]
      exact .inr ⟨decide_eq_true hne, _, rfl⟩
  · split at h <;> cases h
    · rename_i e
      obtain ⟨text, he⟩ := toError_eq e
      rw [he]
      exact .inr ⟨rfl, _, rfl⟩
    · exact .inl ⟨_, rfl, sizes_sizeNext _ _⟩
    · exact .inl ⟨_, rfl, .walk⟩
    · exact .inl ⟨_, rfl, .file⟩
    · exact .inl ⟨_, rfl, .walk⟩
  · cases h

theorem find_cases {walk : Walk} {found : List Path} (h : c.find id walk found a = some next) :
    (∃ phase, next = .goto phase ∧ Shreds id phase) ∨ ∃ e, next = c.fail e := by
  unfold find at h
  split at h
  · split at h <;> cases h
    · exact .inl ⟨_, rfl, .find⟩
    · exact .inr ⟨_, rfl⟩
  · split at h <;> cases h
    · exact .inr ⟨_, rfl⟩
    · exact .inl ⟨_, rfl, shreds_findNext _ _ _⟩
    · exact .inl ⟨_, rfl, .find⟩
    · exact .inl ⟨_, rfl, .find⟩
    · exact .inl ⟨_, rfl, .find⟩
  · cases h

/-- What a step changes on the disk. -/
theorem act_disk (h : c.act sh d a = some (d', next)) : d' = d ∨
    (∃ id, d' = d.makeDir id ∧ ((∃ spec, c.phase = .makeData id spec) ∨
      ∃ profile, c.phase = .making profile)) ∨
    (∃ profile, c.phase = .replacing profile ∧ d' = d.rename profile) ∨
    (∃ id file files, c.phase = .overwriting id file files ∧ d' = d.zero sh id file) ∨
    ∃ id, c.phase = .removing id ∧ (d' = d.unlink id ∨ d' = d.rmdir id) := by
  cases hphase : c.phase with
  | makeData id spec =>
    simp only [act, hphase, FileAct.onMake_eq] at h
    obtain ⟨now, fault, -, h⟩ := h
    split at h <;> cases h
    · exact .inl rfl
    · exact .inr (.inl ⟨_, rfl, .inl ⟨_, rfl⟩⟩)
  | making profile =>
    simp only [act, hphase, FileAct.onFile_eq] at h
    obtain ⟨fault, -, h⟩ := h
    split at h <;> cases h
    · exact .inl rfl
    · exact .inr (.inl ⟨_, rfl, .inr ⟨_, rfl⟩⟩)
  | replacing profile =>
    simp only [act, hphase, FileAct.onFile_eq] at h
    obtain ⟨fault, -, h⟩ := h
    split at h <;> cases h
    · exact .inl rfl
    · exact .inl rfl
    · exact .inr (.inr (.inl ⟨_, rfl, rfl⟩))
  | overwriting id file files =>
    simp only [act, hphase, FileAct.onZero_eq] at h
    obtain ⟨cut, -, h⟩ := h
    split at h <;> cases h
    · exact .inr (.inr (.inr (.inl ⟨_, _, _, rfl, rfl⟩)))
    · split
      · exact .inl rfl
      · exact .inr (.inr (.inr (.inl ⟨_, _, _, rfl, rfl⟩)))
  | removing id =>
    simp only [act, hphase] at h
    split at h <;> cases h
    · exact .inr (.inr (.inr (.inr ⟨_, rfl, .inl rfl⟩)))
    · exact .inr (.inr (.inr (.inr ⟨_, rfl, .inr rfl⟩)))
    · exact .inl rfl
  | sizing profile walk total aim =>
    simp only [act, hphase] at h
    obtain ⟨n, -, hn⟩ := Option.map_eq_some_iff.mp h
    cases hn
    exact .inl rfl
  | finding id walk files =>
    simp only [act, hphase] at h
    obtain ⟨n, -, hn⟩ := Option.map_eq_some_iff.mp h
    cases hn
    exact .inl rfl
  | guarding =>
    simp only [act, hphase] at h
    cases h
  | sizeFile | statLock =>
    simp only [act, hphase, FileAct.onStat_eq] at h
    obtain ⟨answer, -, h⟩ := h
    split at h <;> cases h <;> exact .inl rfl
  | openRoot =>
    simp only [act, hphase, FileAct.onReadDir_eq] at h
    obtain ⟨answer, -, h⟩ := h
    split at h <;> cases h <;> exact .inl rfl
  | entries out =>
    simp only [act, hphase, FileAct.onNextEntry_eq] at h
    obtain ⟨answer, -, h⟩ := h
    split at h
    · cases h
      exact .inl rfl
    · cases h
      exact .inl rfl
    · split at h <;> cases h <;> exact .inl rfl
  | _ =>
    simp only [act, hphase, FileAct.onFile_eq] at h
    obtain ⟨fault, -, h⟩ := h
    try split at h
    all_goals
      cases h
      exact .inl rfl

/-! ### Where a step leads -/

theorem writes_of_stores {req : RepoRequest} (h : req.Stores id) : req.writes = true := by
  rcases h with ⟨spec, rfl⟩ | ⟨patch, rfl⟩ | ⟨time, rfl⟩ <;> rfl

theorem whole_of_writes {req : RepoRequest} {reply : RepoReply} {fails : Bool}
    (h : req.writes = true) : (⟨req, reply, fails⟩ : Outcome).Whole files := by
  cases req with
  | get id => cases h
  | list => cases h
  | _ => trivial

theorem fits_fail {fails : Bool} (h : c.req.writes = true) (e : Error) :
    (c.fail e).Fits files c.req fails :=
  fun _ => whole_of_writes h

variable {req : RepoRequest} {fails : Bool}

theorem loaded_fits (haim : aim.Fits files req profile.id) (hread : profile.ReadFrom files) :
    (loaded aim (.ok profile)).Fits files req fails := by
  cases aim with
  | patch p => exact fun _ => whole_of_writes (by rw [show req = _ from haim]; rfl)
  | touch time => exact fun _ => whole_of_writes (by rw [show req = _ from haim]; rfl)
  | load =>
    rcases haim with rfl | ⟨patch, rfl, -⟩
    · exact fun _ => .inr ⟨profile, rfl, rfl, hread⟩
    · exact fun _ => trivial
  | refresh => rcases haim with ⟨spec, rfl⟩ | ⟨patch, rfl⟩ <;> exact fun _ => trivial
  | list out =>
    obtain ⟨rfl, hout⟩ := haim
    refine ⟨⟨rfl, fun p hp => ?_⟩, nofun⟩
    rcases List.mem_append.mp hp with hp | hp
    · exact hout p hp
    · rw [List.mem_singleton.mp hp]
      exact hread

theorem loaded_notFound_fits (haim : aim.Fits files req id) (e : String) :
    (loaded aim (.error (.notFound e))).Fits files req fails := by
  cases aim with
  | patch p => exact fun _ => whole_of_writes (by rw [show req = _ from haim]; rfl)
  | touch time => exact fun _ => whole_of_writes (by rw [show req = _ from haim]; rfl)
  | load =>
    rcases haim with rfl | ⟨patch, rfl, -⟩
    · exact fun _ => .inl ⟨e, rfl⟩
    · exact fun _ => trivial
  | refresh => rcases haim with ⟨spec, rfl⟩ | ⟨patch, rfl⟩ <;> exact fun _ => trivial
  | list out => exact ⟨haim, fun h => by rw [haim.1] at h; cases h⟩

/-- An error that a failing file operation or a writing call returns. -/
theorem loaded_error_fits (haim : aim.Fits files req id) {e : Error}
    (h : fails = true ∧ (∃ text, e = .io text) ∨ req.writes = true) :
    (loaded aim (.error e)).Fits files req fails := by
  rcases h with ⟨rfl, text, rfl⟩ | h
  · cases aim <;> exact nofun
  · cases aim with
    | list out =>
      rw [haim.1] at h
      cases h
    | _ => exact fun _ => whole_of_writes h

theorem metaRead_error_fits (haim : aim.Fits files c.req id) {e : Error}
    (h : (∀ aim', aim'.Fits files c.req id → (loaded aim' (.error e)).Fits files c.req fails)) :
    (c.metaRead id aim (.error e)).Fits files c.req fails := by
  cases aim with
  | patch p => exact fits_fail (by rw [show c.req = _ from haim]; rfl) e
  | touch time => exact fits_fail (by rw [show c.req = _ from haim]; rfl) e
  | load => exact h _ haim
  | refresh => exact h _ haim
  | list out => exact h _ haim

theorem metaRead_fits (haim : aim.Fits files c.req profile.id) (hread : profile.ReadFrom files) :
    (c.metaRead profile.id aim (.ok profile)).Fits files c.req fails := by
  cases aim with
  | patch p =>
    have hreq : c.req = .update profile.id p := haim
    simp only [metaRead]
    split
    · rename_i hempty
      exact ⟨.inr ⟨p, hreq, hempty⟩, nofun⟩
    · split
      · exact fits_fail (by rw [hreq]; rfl) _
      · exact ⟨.inr (.inl ⟨p, hreq⟩), nofun⟩
  | touch time => exact ⟨.inr (.inr ⟨time, haim⟩), nofun⟩
  | load => exact ⟨⟨haim, hread⟩, nofun⟩
  | refresh => exact ⟨⟨haim, hread⟩, nofun⟩
  | list out => exact ⟨⟨haim, hread⟩, nofun⟩

theorem wrote_fits (h : c.req.Stores profile.id) : (c.wrote profile).Fits files c.req fails := by
  unfold wrote
  rcases h with ⟨spec, hreq⟩ | ⟨patch, hreq⟩ | ⟨time, hreq⟩
  · rw [hreq]
    exact ⟨.inl ⟨spec, rfl⟩, nofun⟩
  · rw [hreq]
    exact ⟨.inr ⟨patch, rfl⟩, nofun⟩
  · rw [hreq]
    exact fun _ => trivial

theorem sizes_fits {phase : Phase} (h : Sizes profile aim phase)
    (haim : aim.Fits files req profile.id) (hread : profile.ReadFrom files) :
    (Next.goto phase).Fits files req fails := by
  cases h with
  | walk => exact ⟨⟨haim, hread⟩, nofun⟩
  | file => exact ⟨⟨haim, hread⟩, nofun⟩
  | lock => exact ⟨⟨haim, hread⟩, nofun⟩

theorem shreds_fits {phase : Phase} (h : Shreds id phase) (hreq : req = .delete id) :
    (Next.goto phase).Fits files req fails := by
  cases h with
  | find => exact ⟨hreq, nofun⟩
  | overwrite => exact ⟨hreq, nofun⟩
  | remove => exact ⟨hreq, nofun⟩

theorem startShred_fits (sh : Shredder) (hreq : req = .delete id) :
    (Next.goto (startShred sh id)).Fits files req fails := by
  cases sh <;> exact ⟨hreq, nofun⟩

theorem act_fits (hs : d.Sound) (hf : c.phase.Fits d.files c.req) (hh : c.Harmless d a)
    (h : c.act sh d a = some (d', next)) : next.Fits d'.files c.req a.fails := by
  cases hphase : c.phase with
  | guarding =>
    simp only [act, hphase] at h
    cases h
  | statNew id spec =>
    simp only [act, hphase, FileAct.onFile_eq] at h
    obtain ⟨fault, rfl, h⟩ := h
    have hreq : c.req = .create spec := by rwa [hphase] at hf
    split at h <;> cases h
    · exact fits_fail (by rw [hreq]; rfl) _
    · exact ⟨hreq, nofun⟩
  | makeData id spec =>
    simp only [act, hphase, FileAct.onMake_eq] at h
    obtain ⟨now, fault, rfl, h⟩ := h
    have hreq : c.req = .create spec := by rwa [hphase] at hf
    split at h <;> cases h
    · exact fits_fail (by rw [hreq]; rfl) _
    · exact ⟨.inl ⟨spec, hreq⟩, nofun⟩
  | opening id aim =>
    simp only [act, hphase, FileAct.onFile_eq] at h
    obtain ⟨fault, rfl, h⟩ := h
    have haim : aim.Fits d.files c.req id := by rwa [hphase] at hf
    split at h <;> cases h
    · exact metaRead_error_fits haim fun _ haim' => loaded_error_fits haim' (.inl ⟨rfl, _, rfl⟩)
    · rename_i i hi
      exact ⟨⟨haim, hs.dirs id i hi⟩, nofun⟩
    · exact metaRead_error_fits haim fun _ haim' => loaded_notFound_fits haim' _
  | reading id i aim =>
    simp only [act, hphase, FileAct.onFile_eq] at h
    obtain ⟨fault, rfl, h⟩ := h
    rw [hphase] at hf
    obtain ⟨haim, record, hrecord, rfl⟩ := hf
    split at h <;> cases h
    · exact metaRead_error_fits haim fun _ haim' => loaded_error_fits haim' (.inl ⟨rfl, _, rfl⟩)
    · cases hparse : d.parse record.id i with
      | ok profile =>
        have hsame := (Disk.parse_ok.mp hparse).2
        rw [hrecord] at hsame
        cases hsame
        exact metaRead_fits haim ⟨record, List.mem_of_getElem? hrecord, rfl⟩
      | error e =>
        have hw : c.req.writes = true := by
          unfold Harmless at hh
          simp only [hphase] at hh
          refine hh.resolve_right fun hz => ?_
          rw [Disk.parse_ok.mpr ⟨hz, hrecord⟩] at hparse
          cases hparse
        exact metaRead_error_fits haim fun _ haim' => loaded_error_fits haim' (.inr hw)
  | making profile =>
    simp only [act, hphase, FileAct.onFile_eq] at h
    obtain ⟨fault, rfl, h⟩ := h
    have hreq : c.req.Stores profile.id := by rwa [hphase] at hf
    split at h <;> cases h
    · exact fits_fail (writes_of_stores hreq) _
    · exact ⟨hreq, nofun⟩
  | writing profile =>
    simp only [act, hphase, FileAct.onFile_eq] at h
    obtain ⟨fault, rfl, h⟩ := h
    have hreq : c.req.Stores profile.id := by rwa [hphase] at hf
    split at h <;> cases h
    · exact fits_fail (writes_of_stores hreq) _
    · exact ⟨hreq, nofun⟩
  | replacing profile =>
    simp only [act, hphase, FileAct.onFile_eq] at h
    obtain ⟨fault, rfl, h⟩ := h
    have hreq : c.req.Stores profile.id := by rwa [hphase] at hf
    split at h <;> cases h
    · exact ⟨writes_of_stores hreq, nofun⟩
    · exact ⟨writes_of_stores hreq, nofun⟩
    · exact wrote_fits hreq
  | clearing e =>
    simp only [act, hphase, FileAct.onFile_eq] at h
    obtain ⟨fault, rfl, h⟩ := h
    cases h
    exact fits_fail (by rwa [hphase] at hf) _
  | sizing profile walk total aim =>
    simp only [act, hphase] at h
    rw [hphase] at hf
    obtain ⟨n, hn, hnext⟩ := Option.map_eq_some_iff.mp h
    cases hnext
    rcases size_cases hn with ⟨phase, rfl, hsizes⟩ | ⟨hfails, e, rfl⟩
    · exact sizes_fits hsizes hf.1 hf.2
    · exact loaded_error_fits hf.1 (.inl ⟨hfails, _, rfl⟩)
  | sizeFile profile path current stack total aim =>
    simp only [act, hphase, FileAct.onStat_eq] at h
    obtain ⟨answer, rfl, h⟩ := h
    rw [hphase] at hf
    split at h <;> cases h
    · exact sizes_fits .walk hf.1 hf.2
    · exact sizes_fits .walk hf.1 hf.2
    · rename_i e hne
      obtain ⟨text, he⟩ := toError_eq e
      rw [he]
      exact loaded_error_fits hf.1 (.inl ⟨decide_eq_true hne, _, rfl⟩)
  | statLock profile aim =>
    simp only [act, hphase, FileAct.onStat_eq] at h
    obtain ⟨answer, rfl, h⟩ := h
    rw [hphase] at hf
    split at h <;> cases h
    · exact loaded_fits hf.1 hf.2
    · exact loaded_fits hf.1 hf.2
    · rename_i e hne
      obtain ⟨text, he⟩ := toError_eq e
      rw [he]
      exact loaded_error_fits hf.1 (.inl ⟨decide_eq_true hne, _, rfl⟩)
  | openRoot =>
    simp only [act, hphase, FileAct.onReadDir_eq] at h
    obtain ⟨answer, rfl, h⟩ := h
    have hreq : c.req = .list := by rwa [hphase] at hf
    split at h <;> cases h
    · exact ⟨⟨hreq, List.forall_mem_nil _⟩, nofun⟩
    · rw [hreq]
      exact fun _ => ⟨[], rfl, List.forall_mem_nil _⟩
    · rename_i e hne
      intro hfails
      exact absurd (hfails.symm.trans (decide_eq_true hne)) Bool.false_ne_true
  | entries out =>
    simp only [act, hphase, FileAct.onNextEntry_eq] at h
    obtain ⟨answer, rfl, h⟩ := h
    rw [hphase] at hf
    obtain ⟨hreq, hout⟩ := hf
    split at h
    · cases h
      exact nofun
    · cases h
      rw [hreq]
      exact fun _ => ⟨_, rfl, fun p hp => hout p (List.mem_mergeSort.mp hp)⟩
    · split at h <;> cases h
      · exact ⟨⟨hreq, hout⟩, nofun⟩
      · exact ⟨⟨hreq, hout⟩, nofun⟩
  | statDir id =>
    simp only [act, hphase, FileAct.onFile_eq] at h
    obtain ⟨fault, rfl, h⟩ := h
    have hreq : c.req = .delete id := by rwa [hphase] at hf
    split at h <;> cases h
    · exact startShred_fits sh hreq
    · exact fits_fail (by rw [hreq]; rfl) _
  | statTree id =>
    simp only [act, hphase, FileAct.onFile_eq] at h
    obtain ⟨fault, rfl, h⟩ := h
    have hreq : c.req = .delete id := by rwa [hphase] at hf
    split at h <;> cases h
    · exact fits_fail (by rw [hreq]; rfl) _
    · rw [hreq]
      exact fun _ => trivial
    · exact ⟨hreq, nofun⟩
  | finding id walk files =>
    simp only [act, hphase] at h
    have hreq : c.req = .delete id := by rwa [hphase] at hf
    obtain ⟨n, hn, hnext⟩ := Option.map_eq_some_iff.mp h
    cases hnext
    rcases find_cases hn with ⟨phase, rfl, hshreds⟩ | ⟨e, rfl⟩
    · exact shreds_fits hshreds hreq
    · exact fits_fail (by rw [hreq]; rfl) _
  | overwriting id file files =>
    simp only [act, hphase, FileAct.onZero_eq] at h
    obtain ⟨cut, rfl, h⟩ := h
    have hreq : c.req = .delete id := by rwa [hphase] at hf
    split at h <;> cases h
    · exact shreds_fits (shreds_shredNext id files) hreq
    · exact fits_fail (by rw [hreq]; rfl) _
  | removing id =>
    simp only [act, hphase] at h
    have hreq : c.req = .delete id := by rwa [hphase] at hf
    split at h <;> cases h
    · exact ⟨hreq, nofun⟩
    · rw [hreq]
      exact fun _ => trivial
    · exact fits_fail (by rw [hreq]; rfl) _

end Call

section Files

variable {files files' : List StoredProfile}

theorem StoredProfile.ReadFrom.mono {profile : StoredProfile} (h : profile.ReadFrom files)
    (hf : files <+: files') : profile.ReadFrom files' := by
  obtain ⟨record, hrecord, hbare⟩ := h
  exact ⟨record, hf.subset hrecord, hbare⟩

theorem Aim.Fits.mono {req : RepoRequest} {id : ProfileId} {aim : Aim}
    (h : aim.Fits files req id) (hf : files <+: files') : aim.Fits files' req id := by
  cases aim with
  | list out => exact ⟨h.1, fun profile hp => (h.2 profile hp).mono hf⟩
  | _ => exact h

theorem Phase.Fits.mono {req : RepoRequest} {phase : Phase} (h : phase.Fits files req)
    (hf : files <+: files') : phase.Fits files' req := by
  cases phase with
  | opening id aim => exact Aim.Fits.mono h hf
  | reading id i aim =>
    obtain ⟨haim, record, hrecord, hid⟩ := h
    obtain ⟨more, rfl⟩ := hf
    obtain ⟨hi, -⟩ := List.getElem?_eq_some_iff.mp hrecord
    exact ⟨haim.mono (List.prefix_append _ _), record,
      (List.getElem?_append_left hi).trans hrecord, hid⟩
  | sizing profile walk total aim => exact ⟨h.1.mono hf, h.2.mono hf⟩
  | sizeFile profile path current stack total aim => exact ⟨h.1.mono hf, h.2.mono hf⟩
  | statLock profile aim => exact ⟨h.1.mono hf, h.2.mono hf⟩
  | entries out => exact ⟨h.1, fun profile hp => (h.2 profile hp).mono hf⟩
  | _ => exact h

theorem Outcome.Whole.mono {o : Outcome} (h : o.Whole files) (hf : files <+: files') :
    o.Whole files' := by
  unfold Whole at h ⊢
  split
  · rename_i id hreq
    rw [hreq] at h
    rcases h with hnone | ⟨profile, hreply, hid, hread⟩
    · exact .inl hnone
    · exact .inr ⟨profile, hreply, hid, hread.mono hf⟩
  · rename_i hreq
    rw [hreq] at h
    obtain ⟨profiles, hreply, hread⟩ := h
    exact ⟨profiles, hreply, fun profile hp => (hread profile hp).mono hf⟩
  · trivial

end Files

section Act

variable {c : Call} {sh : Shredder} {d d' : Disk} {a : FileAct} {next : Next}

theorem Call.act_sound (hs : d.Sound) (h : c.act sh d a = some (d', next)) :
    d'.Sound ∧ d.files <+: d'.files := by
  rcases act_disk h with rfl | ⟨id, rfl, -⟩ | ⟨profile, -, rfl⟩ | ⟨id, file, files, -, rfl⟩ |
    ⟨id, -, rfl | rfl⟩
  · exact ⟨hs, List.prefix_rfl⟩
  · exact ⟨hs.makeDir id, by rw [Disk.makeDir_files]⟩
  · exact ⟨hs.rename profile, List.prefix_append _ _⟩
  · refine ⟨hs.zero sh id file, ?_⟩
    rcases Disk.zero_cases d sh id file with he | ⟨-, i, -, he⟩ <;> rw [he]
  · exact ⟨hs.unlink id, List.prefix_rfl⟩
  · exact ⟨hs.rmdir id, List.prefix_rfl⟩

/-- A reader changes nothing. -/
theorem Call.act_reader (hf : c.phase.Fits d.files c.req) (hw : c.req.writes = false)
    (h : c.act sh d a = some (d', next)) : d' = d := by
  have hcontra : ∀ {req : RepoRequest}, c.req = req → req.writes = true → d' = d := by
    rintro req rfl htrue
    rw [hw] at htrue
    cases htrue
  rcases act_disk h with hd | ⟨id, -, ⟨spec, hphase⟩ | ⟨profile, hphase⟩⟩ | ⟨profile, hphase, -⟩ |
    ⟨id, file, files, hphase, -⟩ | ⟨id, hphase, -⟩
  · exact hd
  all_goals rw [hphase] at hf
  · exact hcontra hf rfl
  · exact hcontra rfl (writes_of_stores hf)
  · exact hcontra rfl (writes_of_stores hf)
  · exact hcontra hf rfl
  · exact hcontra hf rfl

end Act

end Aegis.Store
