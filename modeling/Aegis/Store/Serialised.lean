import Aegis.Store.Pending

/-! The writing calls of a store instance take effect one after another, in the order in which they
return, and readers find whole records: as long as no reader finds a file that a deletion has
overwritten, and no call fails after its effect. -/
namespace Aegis.Store
open FileTree Transition

namespace LiveStore

variable {s s' : LiveStore} {sh : Shredder} {op : LiveOp}

/-- Each call is where its request may be, one writing call holds the guard, and it has come some
way from what the writes that succeeded leave. -/
structure Inv (s : LiveStore) : Prop where
  sound : s.disk.Sound
  fits : ∀ t c, s.calls t = some c → c.phase.Fits s.disk.files c.req
  alone : ∀ t c, s.calls t = some c → c.req.writes = true → c.phase ≠ .guarding →
    s.guard = some t
  owner : ∀ t, s.guard = some t → ∃ c, s.calls t = some c ∧ c.req.writes = true
  whole : ∀ o ∈ s.outcomes, o.faulted = false → o.Whole s.disk.files
  free : s.guard = none → sequential (fun _ => none) s.writes = some s.disk.stored
  held : ∀ t c, s.guard = some t → s.calls t = some c →
    ∃ m, sequential (fun _ => none) s.writes = some m ∧ c.phase.Pending m s.disk c.req

theorem inv_initial : initial.Inv where
  sound := ⟨nofun, fun _ _ => rfl⟩
  fits _ _ h := by cases h
  alone _ _ h := by cases h
  owner _ h := by cases h
  whole _ h := by cases h
  free _ := congrArg some (funext fun _ => rfl)
  held _ _ h := by cases h

theorem Inv.serialised (h : s.Inv) : s.Serialised := ⟨h.free, h.whole⟩

theorem filter_guard {t : TaskId} (h : s.guard ≠ some t) : s.guard.filter (· ≠ t) = s.guard := by
  cases hg : s.guard with
  | none => rfl
  | some u =>
    have hne : u ≠ t := fun hut => h (hut ▸ hg)
    simp [Option.filter, hne]

theorem writes_cons (s : LiveStore) (o : Outcome) (calls : TaskId → Option Call)
    (guard : Option TaskId) (disk : Disk) :
    (LiveStore.mk disk guard calls (o :: s.outcomes)).writes = s.writes ++ o.write.toList := by
  unfold writes
  rw [List.reverse_cons, List.filterMap_append]
  cases hw : o.write with
  | none => rw [List.filterMap_cons_none hw, List.filterMap_nil, Option.toList_none]
  | some w => rw [List.filterMap_cons_some hw, List.filterMap_nil, Option.toList_some]

/-- A call of `t` that does not hold the guard goes on, or returns without having written. -/
theorem Inv.proceed (h : s.Inv) {t : TaskId} {req : RepoRequest} {faulted : Bool} {next : Next}
    (hguard : s.guard ≠ some t)
    (hgoto : ∀ phase, next = .goto phase →
      phase.Fits s.disk.files req ∧ (req.writes = true → phase = .guarding))
    (hfinish : ∀ reply, next = .finish reply → (⟨req, reply, faulted⟩ : Outcome).write = none ∧
      (faulted = false → (⟨req, reply, faulted⟩ : Outcome).Whole s.disk.files)) :
    (s.proceed t req faulted next).Inv := by
  have hother : ∀ {v : Option Call} {u : TaskId} {c : Call}, s.guard = some u →
      Function.update s.calls t v u = some c → s.calls u = some c := by
    intro v u c hu hc
    have hne : u ≠ t := fun hut => hguard (hut ▸ hu)
    rwa [Function.update_of_ne hne] at hc
  have howner : ∀ (v : Option Call) (u : TaskId), s.guard = some u →
      ∃ c, Function.update s.calls t v u = some c ∧ c.req.writes = true := by
    intro v u hu
    obtain ⟨c, hc, hw⟩ := h.owner u hu
    have hne : u ≠ t := fun hut => hguard (hut ▸ hu)
    exact ⟨c, by rw [Function.update_of_ne hne]; exact hc, hw⟩
  cases next with
  | goto phase =>
    refine ⟨h.sound, fun u c hc => ?_, fun u c hc hw hphase => ?_, howner _, h.whole, h.free,
      fun u c hu hc => h.held u c hu (hother hu hc)⟩
    · by_cases hut : u = t
      · subst hut
        simp only [LiveStore.proceed, Function.update_self] at hc
        cases hc
        exact (hgoto phase rfl).1
      · simp only [LiveStore.proceed, Function.update_of_ne hut] at hc
        exact h.fits u c hc
    · by_cases hut : u = t
      · subst hut
        simp only [LiveStore.proceed, Function.update_self] at hc
        cases hc
        exact absurd ((hgoto phase rfl).2 hw) hphase
      · simp only [LiveStore.proceed, Function.update_of_ne hut] at hc
        exact h.alone u c hc hw hphase
  | finish reply =>
    have hwrites : (s.proceed t req faulted (.finish reply)).writes = s.writes := by
      rw [LiveStore.proceed, writes_cons, (hfinish reply rfl).1, Option.toList_none,
        List.append_nil]
    have hfilter : s.guard.filter (· ≠ t) = s.guard := filter_guard hguard
    refine ⟨h.sound, fun u c hc => ?_, fun u c hc hw hphase => ?_, ?_, fun o ho hfo => ?_, ?_, ?_⟩
    · by_cases hut : u = t
      · simp only [hut, LiveStore.proceed, Function.update_self] at hc
        cases hc
      · simp only [LiveStore.proceed, Function.update_of_ne hut] at hc
        exact h.fits u c hc
    · by_cases hut : u = t
      · simp only [hut, LiveStore.proceed, Function.update_self] at hc
        cases hc
      · simp only [LiveStore.proceed, Function.update_of_ne hut] at hc
        exact hfilter.trans (h.alone u c hc hw hphase)
    · intro u hu
      exact howner none u (hfilter.symm.trans hu)
    · rcases List.mem_cons.mp ho with rfl | ho
      · exact (hfinish reply rfl).2 hfo
      · exact h.whole o ho hfo
    · intro hnone
      rw [hwrites]
      exact h.free (hfilter.symm.trans hnone)
    · intro u c hu hc
      rw [hwrites]
      have hu' : s.guard = some u := hfilter.symm.trans hu
      exact h.held u c hu' (hother hu' hc)

/-- The call that holds the guard goes on, or returns with its write done. -/
theorem Inv.proceed_held (h : s.Inv) {t : TaskId} {c : Call} {d : Disk} {fails : Bool} {next : Next}
    {m : MetaMap} (hguard : s.guard = some t) (hw : c.req.writes = true) (hd : d.Sound)
    (hfiles : s.disk.files <+: d.files) (hf : next.Fits d.files c.req fails)
    (hm : sequential (fun _ => none) s.writes = some m) (hp : next.Pending m d c.req)
    (faulted : Bool) : ({ s with disk := d }.proceed t c.req faulted next).Inv := by
  have halone : ∀ u b, s.calls u = some b → b.req.writes = true → b.phase ≠ .guarding → u = t := by
    intro u b hb hbw hphase
    have hu := h.alone u b hb hbw hphase
    rw [hguard] at hu
    exact (Option.some.inj hu).symm
  cases next with
  | goto phase =>
    refine ⟨hd, fun u b hb => ?_, fun u b hb hbw hphase => ?_, fun u hu => ?_,
      fun o ho hfo => (h.whole o ho hfo).mono hfiles, fun hnone => ?_, fun u b hu hb => ?_⟩
    · by_cases hut : u = t
      · subst hut
        simp only [LiveStore.proceed, Function.update_self] at hb
        cases hb
        exact hf.1
      · simp only [LiveStore.proceed, Function.update_of_ne hut] at hb
        exact (h.fits u b hb).mono hfiles
    · by_cases hut : u = t
      · rw [hut]
        exact hguard
      · simp only [LiveStore.proceed, Function.update_of_ne hut] at hb
        exact absurd (halone u b hb hbw hphase) hut
    · obtain rfl : t = u := Option.some.inj (hguard.symm.trans hu)
      exact ⟨_, Function.update_self _ _ _, hw⟩
    · exact absurd (hguard.symm.trans hnone) (by simp)
    · obtain rfl : t = u := Option.some.inj (hguard.symm.trans hu)
      simp only [LiveStore.proceed, Function.update_self] at hb
      cases hb
      exact ⟨m, hm, hp⟩
  | finish reply =>
    have hnone : s.guard.filter (· ≠ t) = none := by simp [hguard, Option.filter]
    refine ⟨hd, fun u b hb => ?_, fun u b hb hbw hphase => ?_, fun u hu => ?_,
      fun o ho hfo => ?_, fun _ => ?_, fun u b hu _ => ?_⟩
    · by_cases hut : u = t
      · simp only [hut, LiveStore.proceed, Function.update_self] at hb
        cases hb
      · simp only [LiveStore.proceed, Function.update_of_ne hut] at hb
        exact (h.fits u b hb).mono hfiles
    · by_cases hut : u = t
      · simp only [hut, LiveStore.proceed, Function.update_self] at hb
        cases hb
      · simp only [LiveStore.proceed, Function.update_of_ne hut] at hb
        exact absurd (halone u b hb hbw hphase) hut
    · exact nomatch hnone.symm.trans hu
    · rcases List.mem_cons.mp ho with rfl | ho
      · exact Call.whole_of_writes hw
      · exact (h.whole o ho hfo).mono hfiles
    · rw [LiveStore.proceed, writes_cons]
      show sequential _ (s.writes ++ (⟨c.req, reply, false⟩ : Outcome).write.toList) =
        some d.stored
      cases hwrite : (⟨c.req, reply, false⟩ : Outcome).write with
      | none =>
        simp only [Next.Pending, hwrite] at hp
        rw [Option.toList_none, List.append_nil, hm]
        exact congrArg some hp.symm
      | some w =>
        simp only [Next.Pending, hwrite] at hp
        rw [Option.toList_some, sequential_append, hm]
        exact hp
    · exact nomatch hnone.symm.trans hu

theorem write_of_reader {o : Outcome} (h : o.req.writes = false) : o.write = none := by
  obtain ⟨req, reply, faulted⟩ := o
  cases req with
  | get id => rfl
  | list => rfl
  | _ => cases h

theorem Inv.call (h : s.Inv) {t : TaskId} (hidle : s.calls t = none) (req : RepoRequest) :
    (s.proceed t req false req.begin).Inv := by
  have hguard : s.guard ≠ some t := fun hg => by
    obtain ⟨c, hc, -⟩ := h.owner t hg
    rw [hidle] at hc
    cases hc
  have hgoto : ∀ phase, (req.writes = true → phase = .guarding) → phase.Fits s.disk.files req →
      (s.proceed t req false (.goto phase)).Inv := by
    intro phase hphase hfits
    refine h.proceed hguard (fun phase' he => ?_) fun reply he => nomatch he
    cases he
    exact ⟨hfits, hphase⟩
  cases req with
  | get id => exact hgoto _ (fun hw => nomatch hw) (.inl rfl)
  | list => exact hgoto _ (fun hw => nomatch hw) rfl
  | create spec =>
    simp only [RepoRequest.begin]
    split
    · refine h.proceed hguard (fun phase he => nomatch he) fun reply he => ?_
      cases he
      exact ⟨rfl, fun _ => trivial⟩
    · exact hgoto _ (fun _ => rfl) rfl
  | update id patch => exact hgoto _ (fun _ => rfl) rfl
  | delete id => exact hgoto _ (fun _ => rfl) rfl
  | touchLaunch id time => exact hgoto _ (fun _ => rfl) rfl

theorem Inv.guard (h : s.Inv) {t : TaskId} {req : RepoRequest} {faulted : Bool}
    (hc : s.calls t = some ⟨req, .guarding, faulted⟩) (hfree : s.guard = none) (id : ProfileId) :
    LiveStore.Inv
      { s.proceed t req faulted (.goto (req.guardedPhase id)) with guard := some t } := by
  have hw : req.writes = true := h.fits t _ hc
  have hphase : (req.guardedPhase id).Fits s.disk.files req ∧
      (req.guardedPhase id).Pending s.disk.stored s.disk req := by
    cases req with
    | create spec => exact ⟨rfl, rfl⟩
    | update id patch => exact ⟨rfl, rfl⟩
    | touchLaunch id time => exact ⟨rfl, rfl⟩
    | delete id => exact ⟨rfl, rfl⟩
    | get id => cases hw
    | list => cases hw
  refine ⟨h.sound, fun u c hc => ?_, fun u c hc hcw hne => ?_, fun u hu => ?_, h.whole, nofun,
    fun u c hu hc => ?_⟩
  · by_cases hut : u = t
    · subst hut
      simp only [LiveStore.proceed, Function.update_self] at hc
      cases hc
      exact hphase.1
    · simp only [LiveStore.proceed, Function.update_of_ne hut] at hc
      exact h.fits u c hc
  · by_cases hut : u = t
    · rw [hut]
    · simp only [LiveStore.proceed, Function.update_of_ne hut] at hc
      have hu := h.alone u c hc hcw hne
      rw [hfree] at hu
      cases hu
  · obtain rfl : t = u := Option.some.inj hu
    exact ⟨_, Function.update_self _ _ _, hw⟩
  · obtain rfl : t = u := Option.some.inj hu
    simp only [LiveStore.proceed, Function.update_self] at hc
    cases hc
    exact ⟨_, h.free hfree, hphase.2⟩

theorem Inv.act (h : s.Inv) {t : TaskId} {c : Call} {a : FileAct} {d : Disk} {next : Next}
    (hc : s.calls t = some c) (hh : c.Harmless s.disk a) (ha : c.act sh s.disk a = some (d, next)) :
    ({ s with disk := d }.proceed t c.req (c.faulted || a.fails) next).Inv := by
  have hf := h.fits t c hc
  have hnext := Call.act_fits h.sound hf hh ha
  obtain ⟨hd, hfiles⟩ := Call.act_sound h.sound ha
  cases hw : c.req.writes with
  | true =>
    have hphase : c.phase ≠ .guarding := fun hphase => by
      simp only [Call.act, hphase] at ha
      cases ha
    have hguard := h.alone t c hc hw hphase
    obtain ⟨m, hm, hp⟩ := h.held t c hguard hc
    exact h.proceed_held hguard hw hd hfiles hnext hm
      (Call.act_pending h.sound hf hw hp hh ha) _
  | false =>
    obtain rfl : d = s.disk := Call.act_reader hf hw ha
    have hguard : s.guard ≠ some t := fun hg => by
      obtain ⟨b, hb, hbw⟩ := h.owner t hg
      rw [hc] at hb
      cases hb
      rw [hw] at hbw
      cases hbw
    refine h.proceed hguard (fun phase he => ?_) fun reply he => ?_
    · rw [he] at hnext
      refine ⟨hnext.1, fun htrue => ?_⟩
      rw [hw] at htrue
      cases htrue
    · rw [he] at hnext
      exact ⟨write_of_reader hw, fun hor => hnext (Bool.or_eq_false_iff.mp hor).2⟩

theorem Inv.step (h : s.Inv) (hok : s.Unharmed op) (hs : LiveStore.step sh s op = some s') :
    s'.Inv := by
  cases op with
  | call t req =>
    simp only [LiveStore.step] at hs
    split at hs <;> cases hs
    rename_i hidle
    exact h.call hidle req
  | guard t id =>
    simp only [LiveStore.step] at hs
    split at hs <;> cases hs
    rename_i hc hfree
    exact h.guard hc hfree id
  | act t a =>
    obtain ⟨c, hc, hs⟩ := Option.bind_eq_some_iff.mp hs
    obtain ⟨⟨d, next⟩, ha, hs⟩ := Option.bind_eq_some_iff.mp hs
    cases hs
    exact h.act hc (hok c hc) ha

/-- No file operation fails, and no overwritten file is read. -/
def smooth (s : LiveStore) : LiveOp → Bool
  | .act t a =>
    !a.fails && match s.calls t with
      | some ⟨_, .reading _ i _, _⟩ => !s.disk.zeroed i
      | _ => true
  | _ => true

theorem unharmed_of_smooth (h : s.smooth op = true) : s.Unharmed op := by
  cases op with
  | act t a =>
    intro c hc
    simp only [smooth, hc, Bool.and_eq_true, Bool.not_eq_true'] at h
    obtain ⟨hfails, hread⟩ := h
    unfold Call.Harmless
    split
    · rename_i id i aim hphase
      obtain ⟨req, phase, faulted⟩ := c
      obtain rfl : phase = _ := hphase
      exact .inr (by simpa using hread)
    · cases hfails
    · cases hfails
    · intro htrue
      rw [hfails] at htrue
      cases htrue
  | _ => trivial

def workSpec : ProfileSpec := .ephemeral "work"

/-- A profile is created undisturbed. -/
def creating : List LiveOp :=
  [.call 0 (.create workSpec), .guard 0 ⟨0⟩, .act 0 (.file none), .act 0 (.make 7 none),
    .act 0 (.file none), .act 0 (.file none), .act 0 (.file none), .act 0 (.file none),
    .act 0 (.file none), .act 0 (.readDir (.ok ())), .act 0 (.nextEntry (.ok none)),
    .act 0 (.stat (.error .notFound))]

/-- A deletion has overwritten the metadata when a reader comes. -/
def reading : List LiveOp :=
  [.call 1 (.delete ⟨0⟩), .guard 1 ⟨0⟩, .act 1 (.file none), .act 1 (.file none),
    .act 1 (.readDir (.ok ())), .act 1 (.nextEntry (.ok (some ("profile.json", .file)))),
    .act 1 (.nextEntry (.ok none)), .act 1 (.zero none), .call 2 (.get ⟨0⟩),
    .act 2 (.file none), .act 2 (.file none)]

theorem workSpec_validate : workSpec.validate = .ok () :=
  ProfileSpec.validate_eq_ok.mpr (by decide : Text.trim "work" ≠ "")

theorem begin_creating : LiveStore.step sh initial (.call 0 (.create workSpec)) =
    some (initial.proceed 0 (.create workSpec) false (.goto .guarding)) := by
  simp only [LiveStore.step, RepoRequest.begin, workSpec_validate]
  rfl

/-- Whatever the calls and however their file operations interleave: as long as no reader finds a
file that a deletion has overwritten and no call fails after its effect, the metadata are those of
the successful writing calls one after another, and every reader finds whole records. -/
theorem serialised_of_reach {s : LiveStore}
    (hr : Reach (LiveStore.step sh) (· = initial) Unharmed s) : s.Serialised := by
  refine Inv.serialised (hr.invariant (fun s hs => ?_) fun s op s' _ h hok hs => h.step hok hs)
  rw [hs]
  exact inv_initial

theorem serialised_created : ∃ s : LiveStore, s.guard = none ∧
    s.writes = [.create ⟨0⟩ workSpec 7] ∧ s.Serialised := by
  have hrun : ∃ s, exec (fun s op => if s.smooth op then LiveStore.step .removeOnly s op else none)
      initial creating = some s ∧ s.guard = none ∧ s.writes = [.create ⟨0⟩ workSpec 7] := by
    simp only [creating, exec, smooth, begin_creating, if_true, Option.bind_some]
    exact ⟨_, rfl, rfl, rfl⟩
  obtain ⟨s, hs, hguard, hwrites⟩ := hrun
  have hstart : Reach (LiveStore.step .removeOnly) (· = initial) Unharmed initial := .start rfl
  exact ⟨s, hguard, hwrites,
    serialised_of_reach (hstart.execWhere (fun _ _ => unharmed_of_smooth) hs)⟩

/-- A `get` has returned that the metadata are corrupt. -/
def reportsCorrupt (s : LiveStore) : Bool :=
  s.outcomes.any fun
    | ⟨.get _, .profile (.error (.config _)), false⟩ => true
    | _ => false

theorem not_serialised_of_corrupt (h : s.reportsCorrupt = true) : ¬ s.Serialised := by
  intro hserial
  obtain ⟨o, ho, hcorrupt⟩ := List.any_eq_true.mp h
  split at hcorrupt
  · rcases hserial.readers _ ho rfl with ⟨e, he⟩ | ⟨profile, he, -⟩
    · cases he
    · cases he
  · cases hcorrupt

/-- The reader reports a profile that is being deleted as corrupt. -/
theorem not_serialised_deleting : ∃ s, Reach (LiveStore.step (.overwrite (.new 1))) (· = initial)
    anyStep s ∧ ¬ s.Serialised := by
  have hrun : (exec (LiveStore.step (.overwrite (.new 1))) initial (creating ++ reading)).map
      reportsCorrupt = some true := by decide +kernel
  obtain ⟨s, hs, hcorrupt⟩ := Option.map_eq_some_iff.mp hrun
  have hstart : Reach (LiveStore.step (.overwrite (.new 1))) (· = initial) anyStep initial :=
    .start rfl
  exact ⟨s, hstart.exec hs, not_serialised_of_corrupt hcorrupt⟩

end LiveStore

end Aegis.Store
