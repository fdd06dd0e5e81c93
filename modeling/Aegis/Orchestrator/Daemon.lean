import Aegis.Orchestrator.Request
import Aegis.Store.Ownership

/-! The daemon with its profile repository: a start reads the profile's metadata and takes the
lock in separate steps, between which other clients update and delete. -/
namespace Aegis.Orchestrator
open Store Transition

variable {cfg : Wiring} {t : TaskId}

/-- The daemon beside its repository. `reads` are the profiles the starts have read; `taken`
records the spec that was stored when the lock file of a lease was created. -/
structure Daemon where
  world : World
  shelf : Shelf
  reads : TaskId → Option (Result Profile)
  taken : ProfileLease → Option (Option ProfileSpec)

/-- A step of the daemon or of the repository. A start fetches its profile in two: it reads the
metadata, and returns once the directory was sized and the lock looked at, which may fail. -/
inductive DaemonOp where
  | world (l : Label)
  | read (t : TaskId) (io : Option String)
  | fetch (t : TaskId) (late : Option Error)
  | shelf (op : ShelfOp)

/-- The lease whose lock file a step of the lock creates. -/
def createdLease (lock : LockSystem) : LockOp → Option ProfileLease
  | .create t none =>
    match lock.calls t with
    | some (.acquireCreate p token) => if lock.files p = none then some ⟨p, token⟩ else none
    | _ => none
  | _ => none

namespace Daemon

/-- The steps the daemon takes without the repository's metadata; the lock meets the directory. -/
def admits (d : Daemon) : Label → Bool
  | .resume _ (.profile _) => false
  | .lock op => d.shelf.meets d.world.lock op
  | _ => true

/-- Record what is stored for a profile whose lock file is created. -/
def recordTaken (d : Daemon) (l : Label) : ProfileLease → Option (Option ProfileSpec) :=
  match l with
  | .lock op =>
    match createdLease d.world.lock op with
    | some lease => Function.update d.taken lease (some (d.shelf.storedSpec lease.profile))
    | none => d.taken
  | _ => d.taken

/-- What a start gets for the metadata it read. -/
def fetched (r : Result Profile) : Option Error → Result Profile
  | none => r
  | some late => r.bind fun _ => .error late

def step (cfg : Wiring) (d : Daemon) : DaemonOp → Option Daemon
  | .world l =>
    if d.admits l then
      (d.world.step cfg l).map fun w => { d with world := w, taken := d.recordTaken l }
    else none
  | .read t io =>
    match d.world.tasks t, d.reads t with
    | some (.getProfile p), none => some { d with
        reads := Function.update d.reads t
          (some ((d.shelf.readMeta p io).map StoredProfile.toProfile)) }
    | _, _ => none
  | .fetch t late =>
    match d.reads t with
    | some r => (d.world.step cfg (.resume t (.profile (fetched r late)))).map fun w =>
        { d with world := w }
    | none => none
  | .shelf op => (d.shelf.step d.world.lock op).map fun r =>
      { d with world := { d.world with lock := r.2 }, shelf := r.1 }

/-- The daemon as it starts, with an empty repository. -/
structure Initial (d : Daemon) : Prop where
  world : d.world.Initial
  shelf : d.shelf = ⟨∅, none, fun _ => none⟩
  reads : ∀ t, d.reads t = none
  taken : ∀ l, d.taken l = none

/-- A start has read the profile and not created its lock file yet. -/
def Starting (d : Daemon) (p : ProfileId) : Prop :=
  (∃ t profile, d.world.tasks t = some (.getProfile p) ∧ d.reads t = some (.ok profile)) ∨
    ∃ t profile host, d.world.tasks t = some (.acquireLock p profile host) ∧
      (d.world.lock.calls t = some (.acquireStat p) ∨
        ∃ token, d.world.lock.calls t = some (.acquireCreate p token))

/-- No update that changes the spec of a profile and no delete of it takes effect while a start
has read the profile and not created its lock file. -/
def Undisturbed (d : Daemon) (op : DaemonOp) : Prop :=
  ∀ k p, op = .shelf k → d.Starting p → ¬ d.shelf.Shreds p ∧
    ∀ t profile refresh, k = .file t none →
      d.shelf.calls t = some (.replacing profile refresh) → profile.id = p →
        d.shelf.storedSpec p = some profile.spec

/-- The lock call of a start that has read the profile: what was read is stored until the lock
file is created, and that spec was stored then. -/
def Acquires (d : Daemon) (p : ProfileId) (profile : Profile) : LockCall → Prop
  | .acquireStat q | .acquireCreate q _ => q = p ∧ d.shelf.storedSpec p = some profile.spec
  | .acquireWrite l _ | .acquired (.ok l) => d.taken l = some (some profile.spec)
  | .acquired (.error _) => True
  | _ => False

/-- What the starts have read is stored, until they have the lock; and a session is registered
with the spec that was stored when its lock was acquired. -/
structure Settled (d : Daemon) : Prop where
  fresh : ∀ t, d.world.tasks t = none → d.reads t = none
  read : ∀ t p profile, d.world.tasks t = some (.getProfile p) →
    d.reads t = some (.ok profile) → d.shelf.storedSpec p = some profile.spec
  acquiring : ∀ t p profile host, d.world.tasks t = some (.acquireLock p profile host) →
    ∃ c, d.world.lock.calls t = some c ∧ d.Acquires p profile c
  session : ∀ s e profile, d.world.sessions s = some e → .registered s profile ∈ d.world.log →
    d.taken e.lease = some (some profile.spec)

end Daemon

/-- What holds of the daemon in every run, whatever the repository does to the lock files. -/
structure Sound (cfg : Wiring) (w : World) : Prop where
  tracked : w.Tracked
  ledger : w.lock.Ledger
  leased : w.Leased
  owning : Owning cfg w
  gated : Gated cfg w
  faithful : Faithful cfg w

section Sound

variable {w w' : World} {l : Label}

theorem Sound.step (h : Sound cfg w) (hs : w.step cfg l = some w') : Sound cfg w' where
  tracked := h.tracked.step hs
  ledger := by
    rcases World.step_lock hs with he | ⟨op, hop, -⟩
    · exact he ▸ h.ledger
    · exact h.ledger.step hop
  leased := h.leased.step h.tracked h.ledger hs
  owning := h.owning.step hs
  gated := h.gated.step h.tracked hs
  faithful := h.faithful.step h.tracked h.owning h.gated hs

/-- None of it depends on the lock files. -/
theorem Sound.setFile (h : Sound cfg w) (p : ProfileId) (f : Option LockFile) :
    Sound cfg { w with lock := w.lock.setFile p f } where
  tracked := ⟨h.tracked.task, h.tracked.event, h.tracked.starter⟩
  ledger := h.ledger.setFile p f
  leased := ⟨h.leased.acquiring, h.leased.pending, h.leased.pending_unique,
    h.leased.pending_entry, h.leased.entry, h.leased.entry_unique, h.leased.release⟩
  owning := ⟨h.owning.entry, h.owning.driven, h.owning.calls⟩
  gated := ⟨h.gated.acquire, h.gated.drive, h.gated.browsing, h.gated.ordered⟩
  faithful := ⟨h.faithful.unique, h.faithful.configured, h.faithful.launched, h.faithful.mode⟩

theorem sound_initial (h : w.Initial) : Sound cfg w where
  tracked := h.tracked
  ledger := by rw [h.lock]; exact LockSystem.ledger_initial
  leased := h.leased
  owning := owning_of_reach (.start h)
  gated := gated_initial h
  faithful := faithful_initial h

/-- A task that begins to wait moves no call of the lock but its own. -/
theorem lock_calls_of_setTask {task : Task} (h : w.setTask t task = some w') {u : TaskId}
    (hu : u ≠ t) : w'.lock.calls u = w.lock.calls u := by
  obtain ⟨-, -, -, -, hlock, -⟩ := World.setTask_cases h
  cases hr : task.request with
  | none => rw [hr] at hlock; rw [hlock]
  | gateway req => rw [hr] at hlock; rw [hlock]
  | lock op =>
    rw [hr] at hlock
    cases task with
    | acquireLock p profile host =>
      cases hr
      rw [(lock_acquire hlock).2.2 u, if_neg hu]
    | releaseLock l e =>
      cases hr
      rw [(lock_release hlock).2.2 u, if_neg hu]
    | teardown s cs ending =>
      rcases cs with _ | ⟨c, cs⟩
      · cases hr
      · cases c <;> cases hr
        rw [(lock_release hlock).2.2 u, if_neg hu]
    | drive s profile pc => cases pc <;> cases hr
    | _ => cases hr

end Sound

namespace Daemon

variable {d d' : Daemon}

/-- The lock file of a lease is created once: no start and no session has the lease already. -/
theorem createdLease_eq {a b : LockSystem} {op : LockOp} {l : ProfileLease}
    (h : createdLease a op = some l) (hs : a.step op = some b) : ∃ t i,
      a.calls t = some (.acquireCreate l.profile l.token) ∧
      ∀ u, b.calls u = if u = t then some (.acquireWrite l i) else a.calls u := by
  unfold createdLease at h
  split at h
  next t =>
    split at h
    next p token hc =>
      split_ifs at h with hf
      cases h
      simp only [LockSystem.step, hc, Option.some.injEq] at hs
      subst hs
      exact ⟨t, a.nextInode, hc, fun u => by simp [LockSystem.acquireCreate, hf]⟩
    · cases h
  · cases h

theorem createdLease_of_creates {a : LockSystem} {p : ProfileId} {token : LockToken}
    (hc : a.calls t = some (.acquireCreate p token)) (hf : a.files p = none) :
    createdLease a (.create t none) = some ⟨p, token⟩ := by
  simp [createdLease, hc, hf]

/-- A call keeps what it acquires for while the spec is stored and its lease recorded. -/
theorem Acquires.mono {p : ProfileId} {profile : Profile} {c : LockCall}
    (h : d.Acquires p profile c)
    (hs : d.shelf.storedSpec p = some profile.spec → d'.shelf.storedSpec p = some profile.spec)
    (ht : ∀ l, (∃ i, c = .acquireWrite l i) ∨ c = .acquired (.ok l) →
      d.taken l = some (some profile.spec) → d'.taken l = some (some profile.spec)) :
    d'.Acquires p profile c := by
  cases c with
  | acquireStat q => exact ⟨h.1, hs h.2⟩
  | acquireCreate q token => exact ⟨h.1, hs h.2⟩
  | acquireWrite l i => exact ht l (.inl ⟨i, rfl⟩) h
  | acquired r =>
    cases r with
    | error e => trivial
    | ok l => exact ht l (.inr rfl) h
  | _ => cases h

/-- The step of the lock that creates a file records what is stored then. -/
theorem Settled.lockStep_created {op : LockOp} {b : LockSystem} {l : ProfileLease}
    (h : d.Settled) (hsound : Sound cfg d.world) (hs : d.world.lock.step op = some b)
    (hl : createdLease d.world.lock op = some l) :
    Settled { d with world := { d.world with lock := b }, taken := d.recordTaken (.lock op) } := by
  obtain ⟨t, i, hc, hcalls⟩ := createdLease_eq hl hs
  have hacq := hsound.ledger.acquiring t _ l hc rfl
  have htaken (k : ProfileLease) (hk : k.token ≠ l.token) :
      d.recordTaken (.lock op) k = d.taken k := by
    simp only [recordTaken, hl]
    rw [Function.update_of_ne]
    rintro rfl
    exact hk rfl
  have hmine : d.recordTaken (.lock op) l = some (d.shelf.storedSpec l.profile) := by
    simp only [recordTaken, hl, Function.update_self]
  constructor
  case fresh => exact h.fresh
  case read => exact h.read
  case acquiring =>
    intro u p profile host hu
    obtain ⟨c, hcu, ha⟩ := h.acquiring u p profile host hu
    by_cases hut : u = t
    · subst hut
      rw [hc] at hcu
      cases hcu
      obtain ⟨rfl, hstored⟩ := ha
      refine ⟨.acquireWrite l i, by rw [hcalls, if_pos rfl], ?_⟩
      exact hmine.trans (congrArg some hstored)
    · refine ⟨c, by rw [← hcu]; exact (hcalls u).trans (if_neg hut), ha.mono id ?_⟩
      rintro k (⟨j, rfl⟩ | rfl) hk
      · refine (htaken k fun he => hut ?_).trans hk
        exact hsound.ledger.acquiring_unique u t _ _ k l hcu hc rfl rfl he
      · have hun := hsound.leased.pending u k ⟨⟨p, profile, host, hu⟩, hcu⟩
        exact (htaken k (hacq.2 k (hsound.ledger.unreleased k hun))).trans hk
  case session =>
    intro s e profile he hp
    exact (htaken e.lease (hacq.2 e.lease (hsound.leased.entry s e he).1)).trans
      (h.session s e profile he hp)

/-- The others record nothing. -/
theorem Settled.lockStep_moved {op : LockOp} {b : LockSystem} (h : d.Settled)
    (hsound : Sound cfg d.world) (hop : internalLock op = true)
    (hs : d.world.lock.step op = some b) (hl : createdLease d.world.lock op = none) :
    Settled { d with world := { d.world with lock := b }, taken := d.recordTaken (.lock op) } := by
  have hleased := hsound.leased.lockStep hsound.ledger hop hs
  have htaken : d.recordTaken (.lock op) = d.taken := by simp only [recordTaken, hl]
  obtain ⟨t, c, hleaves⟩ := LockSystem.step_leaves hs
  constructor
  case fresh => exact h.fresh
  case read => exact h.read
  case acquiring =>
    intro u p profile host hu
    obtain ⟨c₀, hc₀, ha⟩ := h.acquiring u p profile host hu
    obtain ⟨c₁, hc₁, hfor⟩ := hleased.acquiring u p profile host hu
    refine ⟨c₁, hc₁, ?_⟩
    have hcalls : b.calls u = if u = t then some c else d.world.lock.calls u := by
      rw [hleaves.calls, Function.update_apply]
    split_ifs at hcalls with hut
    · subst hut
      obtain rfl : c₁ = c := Option.some.inj (hc₁.symm.trans hcalls)
      have hdoes := hleaves.does
      generalize b.files = files at hdoes
      generalize b.issued = issued at hdoes
      cases hdoes with
      | moved hfrees hinert =>
        cases c₁ with
        | acquired r =>
          cases r with
          | error e => trivial
          | ok l => cases hinert
        | acquireStat | acquireCreate | acquireWrite => cases hinert
        | _ => cases hfor
      | began => cases hop
      | drew hc =>
        rw [hc] at hc₀
        cases hc₀
        exact ha
      | created hc hf =>
        rw [createdLease_of_creates hc hf] at hl
        cases hl
      | @wrote l _ _ hc hf =>
        rw [hc] at hc₀
        cases hc₀
        exact (congrFun htaken l).trans ha
      | cut hc hf => trivial
      | read hc hf => cases hfor
      | removed hc hf => cases hfor
    · obtain rfl : c₀ = c₁ := Option.some.inj ((hcalls.trans hc₀).symm.trans hc₁)
      exact ha.mono id fun l _ hk => (congrFun htaken l).trans hk
  case session =>
    intro s e profile he hp
    exact (congrFun htaken e.lease).trans (h.session s e profile he hp)

/-- A step of the lock by itself, with what is recorded then. -/
theorem Settled.lockStep {op : LockOp} {b : LockSystem} (h : d.Settled)
    (hsound : Sound cfg d.world) (hop : internalLock op = true)
    (hs : d.world.lock.step op = some b) :
    Settled { d with world := { d.world with lock := b }, taken := d.recordTaken (.lock op) } := by
  cases hl : createdLease d.world.lock op with
  | some l => exact h.lockStep_created hsound hs hl
  | none => exact h.lockStep_moved hsound hop hs hl

/-- A task that waits as before has acquired what it had. -/
theorem Settled.acquires_of_calls {w : World} (h : d.Settled) {u : TaskId} {p : ProfileId}
    {profile : Profile} {host : Bool}
    (hu : d.world.tasks u = some (.acquireLock p profile host))
    (hc : w.lock.calls u = d.world.lock.calls u) :
    ∃ c, w.lock.calls u = some c ∧ Acquires { d with world := w } p profile c := by
  obtain ⟨c, hcu, ha⟩ := h.acquiring u p profile host hu
  exact ⟨c, hc.trans hcu, ha.mono id fun _ _ => id⟩

/-- A task begins to wait. -/
theorem Settled.setTask {l : Label} {w : World} {t : TaskId} {task : Task} (h : d.Settled)
    (hm : Moves d.world t l task) (hset : d.world.setTask t task = some w)
    (hfetch : ∀ t q profile host, w.tasks t = some (.acquireLock q profile host) →
      d.world.tasks t = some (.getProfile q) → d.shelf.storedSpec q = some profile.spec) :
    Settled { d with world := w } := by
  obtain ⟨hsess, hlog, -, htasks, hlock, -⟩ := World.setTask_cases hset
  constructor
  case fresh =>
    intro u hu
    refine h.fresh u ?_
    rw [htasks] at hu
    split_ifs at hu
    exact hu
  case read =>
    intro u p profile hu hread
    rw [htasks] at hu
    split_ifs at hu with hut
    · subst hut
      cases hu
      cases hm with
      | startSession ht =>
        rw [h.fresh u ht] at hread
        cases hread
    · exact h.read u p profile hu hread
  case acquiring =>
    intro u p profile host hu
    by_cases hut : u = t
    · subst hut
      have hstored := hfetch u p profile host hu
      rw [htasks, if_pos rfl, Option.some.injEq] at hu
      subst hu
      cases hm with
      | @fetched p _ _ _ ht hhost =>
        refine ⟨.acquireStat p, ?_, rfl, hstored ht⟩
        rw [(lock_acquire hlock).2.2 u, if_pos rfl]
    · rw [htasks, if_neg hut] at hu
      exact h.acquires_of_calls hu (lock_calls_of_setTask hset hut)
  case session =>
    intro s e profile he hp
    rw [hsess] at he
    rw [hlog] at hp
    exact h.session s e profile he hp

/-- Session code runs. -/
theorem Settled.commit {l : Label} {w : World} {t : TaskId} {s : SessionId} {seg : Segment}
    (h : d.Settled) (hsound : Sound cfg d.world) (hr : Runs cfg d.world t s l seg)
    (hc : d.world.commit t s seg = some w) : Settled { d with world := w } := by
  obtain ⟨hsess, htasks, hlog, -, -⟩ := World.commit_cases hc
  -- the task of the code is done or works on its session
  have hkind {task : Task} (ht : w.tasks t = some task) (hnone : task.session = none) :
      ∃ r, task = .done r := by
    rw [htasks, if_pos rfl, Option.some.injEq] at ht
    subst ht
    rcases hr.task_kind with hs | hdone
    · rw [hnone] at hs
      cases hs
    · exact hdone
  constructor
  case fresh =>
    intro u hu
    refine h.fresh u ?_
    rw [htasks] at hu
    split_ifs at hu
    exact hu
  case read =>
    intro u p profile hu hread
    by_cases hut : u = t
    · subst hut
      obtain ⟨r, hr⟩ := hkind hu rfl
      cases hr
    · rw [htasks, if_neg hut] at hu
      exact h.read u p profile hu hread
  case acquiring =>
    intro u p profile host hu
    by_cases hut : u = t
    · subst hut
      obtain ⟨r, hr⟩ := hkind hu rfl
      cases hr
    · rw [htasks, if_neg hut] at hu
      exact h.acquires_of_calls hu (lock_calls_of_setTask hc hut)
  case session =>
    intro u e profile he hp
    rw [hlog, List.mem_append] at hp
    rw [hsess] at he
    split_ifs at he with hus
    · subst hus
      cases he
      rcases hr.keeps hsound.leased with ⟨p, lease, hnone, hpend, -, hkeeps⟩ | ⟨e, he, hkeeps⟩
      · -- the session is registered now, with the profile its start has read
        rcases hp with hp | hp
        · obtain ⟨-, q, host, hacq⟩ := hr.registers hp
          obtain ⟨c, hcall, ha⟩ := h.acquiring t q profile host hacq
          rw [hpend.2] at hcall
          cases hcall
          rw [hkeeps.lease]
          exact ha
        · exact absurd hnone (hsound.tracked.event _ hp u rfl)
      · rcases hp with hp | hp
        · exact absurd (hr.registers hp).1 (by rw [he]; exact Option.some_ne_none e)
        · rw [hkeeps.lease]
          exact h.session u e profile he hp
    · rcases hp with hp | hp
      · rcases hr.about _ hp with ha | ha <;> cases ha
        exact absurd rfl hus
      · exact h.session u e profile he hp

/-- The other steps of the daemon. -/
theorem Settled.worldStep {l : Label} {w : World} (h : d.Settled) (hsound : Sound cfg d.world)
    (hl : ∀ op, l ≠ .lock op) (hs : d.world.step cfg l = some w)
    (hfetch : ∀ t q profile host, w.tasks t = some (.acquireLock q profile host) →
      d.world.tasks t = some (.getProfile q) → d.shelf.storedSpec q = some profile.spec) :
    Settled { d with world := w } := by
  rcases World.step_cases hs with ⟨e, rfl, rfl⟩ | ⟨op, k, rfl, -⟩ | ⟨op, g, rfl, -, -, rfl⟩ |
    ⟨t, task, hm, hset⟩ | ⟨t, s, seg, hr, hc⟩
  · exact ⟨h.fresh, h.read, h.acquiring, h.session⟩
  · exact absurd rfl (hl op)
  · exact ⟨h.fresh, h.read, h.acquiring, h.session⟩
  · exact h.setTask hm hset hfetch
  · exact h.commit hsound hr hc

theorem Settled.shelfStep {k : Shelf} {lock : LockSystem} {op : ShelfOp} (h : d.Settled)
    (hok : d.Undisturbed (.shelf op)) (hs : d.shelf.step d.world.lock op = some (k, lock)) :
    Settled { d with world := { d.world with lock := lock }, shelf := k } := by
  obtain ⟨t, c, hacts, -⟩ := Shelf.step_leaves hs
  have hlock : lock.calls = d.world.lock.calls := by
    rcases hacts.lockFile with rfl | ⟨q, f, -, rfl, -⟩
    · rfl
    · rfl
  have hstored (p : ProfileId) (profile : Profile) (hp : d.Starting p)
      (hk : d.shelf.storedSpec p = some profile.spec) : k.storedSpec p = some profile.spec := by
    obtain ⟨hshreds, hwrites⟩ := hok op p rfl hp
    refine Shelf.storedSpec_of_step hs hshreds ?_ hk
    intro u stored refresh hop hu hid
    have hsame := hwrites u stored refresh hop hu hid
    rw [hk] at hsame
    exact (Option.some.inj hsame).symm
  constructor
  case fresh => exact h.fresh
  case read =>
    intro u p profile hu hread
    exact hstored p profile (.inl ⟨u, profile, hu, hread⟩) (h.read u p profile hu hread)
  case acquiring =>
    intro u p profile host hu
    obtain ⟨c, hc, ha⟩ := h.acquiring u p profile host hu
    refine ⟨c, (congrFun hlock u).trans hc, ?_⟩
    cases c with
    | acquireStat q =>
      obtain ⟨rfl, hk⟩ := ha
      exact ⟨rfl, hstored q profile (.inr ⟨u, profile, host, hu, .inl hc⟩) hk⟩
    | acquireCreate q token =>
      obtain ⟨rfl, hk⟩ := ha
      exact ⟨rfl, hstored q profile (.inr ⟨u, profile, host, hu, .inr ⟨token, hc⟩⟩) hk⟩
    | acquired r => cases r <;> exact ha
    | _ => exact ha
  case session => exact h.session

theorem fetched_ok {r : Result Profile} {late : Option Error} {profile : Profile}
    (h : fetched r late = .ok profile) : r = .ok profile := by
  cases late with
  | none => exact h
  | some e => cases r <;> cases h

theorem Settled.step {op : DaemonOp} (h : d.Settled) (hsound : Sound cfg d.world)
    (hok : d.Undisturbed op) (hs : d.step cfg op = some d') : d'.Settled := by
  cases op with
  | world l =>
    simp only [Daemon.step] at hs
    split_ifs at hs with hadm
    obtain ⟨w, hw, rfl⟩ := Option.map_eq_some_iff.mp hs
    cases l with
    | lock op =>
      simp only [World.step] at hw
      split_ifs at hw with hop
      obtain ⟨b, hb, rfl⟩ := Option.map_eq_some_iff.mp hw
      exact h.lockStep hsound hop hb
    | _ =>
      refine h.worldStep hsound (by simp) hw fun t q profile host ht' ht => ?_
      obtain ⟨hl, -, -⟩ := World.step_fetched hw ht ht'
      cases hl <;> cases hadm
  | read t io =>
    simp only [Daemon.step] at hs
    split at hs <;> cases hs
    next p ht hread =>
      constructor
      case fresh =>
        intro u hu
        by_cases hut : u = t
        · subst hut
          rw [ht] at hu
          cases hu
        · exact (Function.update_of_ne hut _ _).trans (h.fresh u hu)
      case read =>
        intro u q profile hu hr
        simp only [Function.update_apply] at hr
        split_ifs at hr with hut
        · subst hut
          rw [ht] at hu
          cases hu
          rw [Option.some.injEq] at hr
          cases hm : d.shelf.readMeta p io with
          | error e => rw [hm] at hr; cases hr
          | ok stored =>
            rw [hm] at hr
            cases hr
            cases io with
            | some e => cases hm
            | none => simp only [Shelf.storedSpec, hm]
        · exact h.read u q profile hu hr
      case acquiring => exact h.acquiring
      case session => exact h.session
  | fetch t late =>
    simp only [Daemon.step] at hs
    split at hs
    next r hr =>
      obtain ⟨w, hw, rfl⟩ := Option.map_eq_some_iff.mp hs
      refine h.worldStep hsound (by simp) hw fun u q profile host hu' hu => ?_
      obtain ⟨hl, -, -⟩ := World.step_fetched hw hu hu'
      obtain ⟨rfl, hprofile⟩ := Label.resume.inj hl
      exact h.read t q profile hu
        (hr.trans (congrArg some (fetched_ok (Input.profile.inj hprofile))))
    · cases hs
  | shelf op =>
    obtain ⟨⟨k, lock⟩, hk, rfl⟩ := Option.map_eq_some_iff.mp hs
    exact h.shelfStep hok hk

theorem sound_step {op : DaemonOp} (h : Sound cfg d.world) (hs : d.step cfg op = some d') :
    Sound cfg d'.world := by
  cases op with
  | world l =>
    simp only [Daemon.step] at hs
    split_ifs at hs
    obtain ⟨w, hw, rfl⟩ := Option.map_eq_some_iff.mp hs
    exact h.step hw
  | read t io =>
    simp only [Daemon.step] at hs
    split at hs <;> cases hs
    exact h
  | fetch t late =>
    simp only [Daemon.step] at hs
    split at hs
    · obtain ⟨w, hw, rfl⟩ := Option.map_eq_some_iff.mp hs
      exact h.step hw
    · cases hs
  | shelf op =>
    obtain ⟨⟨k, lock⟩, hk, rfl⟩ := Option.map_eq_some_iff.mp hs
    obtain ⟨t, c, hacts, -⟩ := Shelf.step_leaves hk
    rcases hacts.lockFile with rfl | ⟨q, f, -, rfl, -⟩
    · exact h
    · exact h.setFile q f

theorem settled_of_reach (hr : Reach (Daemon.step cfg) Initial Undisturbed d) :
    Sound cfg d.world ∧ d.Settled := by
  induction hr with
  | start hi =>
    refine ⟨sound_initial hi.world, ?_⟩
    constructor <;> simp [hi.world.tasks, hi.world.sessions, hi.reads]
  | next hr hok hs ih =>
    obtain ⟨hsound, h⟩ := ih
    exact ⟨sound_step hsound hs, h.step hsound hok hs⟩

/-- The session runs the spec: its gateway configurations, its launch requests and its mode are
what the spec asks for. -/
structure RunsSpec (cfg : Wiring) (d : Daemon) (s : SessionId) (spec : ProfileSpec) : Prop where
  configured : ∀ c, .configured s c ∈ d.world.log → c = gatewayConfig spec.network
  launched : ∀ req bundle, .launchCalled s req bundle ∈ d.world.log →
    ∃ profile : Profile, profile.spec = spec ∧ LaunchesFor cfg s profile req
  mode : ∀ e dir eph engine, d.world.sessions s = some e →
    e.mode = .hostProcess dir eph engine → spec.isolation = .hostProcess

/-- In every run in which no update or delete of a profile takes effect while a start has read it
and not yet created its lock file, a session runs the spec that was stored when its lock was
acquired. -/
theorem runsLocked_of_reach {s : SessionId} {e : SessionEntry} {profile : Profile}
    (hr : Reach (Daemon.step cfg) Initial Undisturbed d) (he : d.world.sessions s = some e)
    (hp : .registered s profile ∈ d.world.log) :
    ∃ spec, d.taken e.lease = some (some spec) ∧ d.RunsSpec cfg s spec := by
  obtain ⟨hsound, h⟩ := settled_of_reach hr
  refine ⟨profile.spec, h.session s e profile he hp, ?_⟩
  constructor
  case configured => exact fun c hc => hsound.faithful.configured s c profile hc hp
  case launched =>
    exact fun req bundle hl => ⟨profile, rfl, hsound.faithful.launched s req bundle profile hl hp⟩
  case mode =>
    intro e dir eph engine he hm
    obtain ⟨q, hq, hi⟩ := hsound.faithful.mode s e dir eph engine he hm
    rw [hsound.faithful.unique s profile q hp hq]
    exact hi

/-- The daemon before its first request, with an empty repository. -/
def empty : Daemon := ⟨booted, ⟨∅, none, fun _ => none⟩, fun _ => none, fun _ => none⟩

theorem empty_initial : empty.Initial := ⟨booted_initial, rfl, fun _ => rfl, fun _ => rfl⟩

/-- Client 9 creates profile 0. -/
def creation : List ShelfOp :=
  [.call 9 (.create (.ephemeral "work")), .guard 9 ⟨0⟩, .file 9 none, .make 9 0 none,
    .file 9 none, .file 9 none, .file 9 none, .size 9 (.ok 0), .file 9 none]

/-- Request 0 reads the profile and is about to take the lock. -/
def fetching : List DaemonOp :=
  [.world (.startSession 0 ⟨0⟩), .read 0 none, .fetch 0 none]

/-- It takes the lock, and the session provisions its VMs and configures the gateway. -/
def locking : List Label :=
  [.lock (.stat 0 true (LockSystem.repeated 'a')), .lock (.create 0 none),
    .lock (.write 0 none)] ++ provisionRun 0 ⟨0⟩ ⟨10⟩ ⟨11⟩ ++ gatewayRun 0

/-- Client 9 moves the profile from Tor to a proxy. -/
def moving : List ShelfOp :=
  [.call 9 (.update ⟨0⟩ ⟨none, some (.fromMode (.proxy ⟨.socks5, "proxy", 1080, none, true⟩)),
    none, none⟩), .guard 9 ⟨0⟩, .file 9 none, .file 9 none, .file 9 none]

/-- Steps of the repository disturb nobody while no request is in progress. -/
theorem Reach.shelf {ops : List ShelfOp} (hr : Reach (Daemon.step cfg) Initial Undisturbed d)
    (ht : ∀ t, d.world.tasks t = none) (he : exec (step cfg) d (ops.map .shelf) = some d') :
    Reach (Daemon.step cfg) Initial Undisturbed d' := by
  induction ops generalizing d with
  | nil =>
    cases he
    exact hr
  | cons op ops ih =>
    obtain ⟨d₁, hs, he⟩ := Option.bind_eq_some_iff.mp he
    have hok : d.Undisturbed (.shelf op) := by
      rintro k p - (⟨t, profile, hp, -⟩ | ⟨t, profile, host, hp, -⟩)
      · rw [ht] at hp
        cases hp
      · rw [ht] at hp
        cases hp
    refine ih (hr.next hok hs) (fun t => ?_) he
    obtain ⟨r, -, rfl⟩ := Option.map_eq_some_iff.mp hs
    exact ht t

def quiet : DaemonOp → Bool
  | .shelf _ => false
  | _ => true

theorem undisturbed_of_quiet (d : Daemon) (op : DaemonOp) (h : quiet op = true) :
    d.Undisturbed op := by
  rintro k p rfl
  cases h

/-- A start that nobody disturbs runs the spec it locked. -/
theorem runsLocked_undisturbed : ∃ (d : Daemon) (e : SessionEntry) (spec : ProfileSpec),
    d.world.sessions ⟨0⟩ = some e ∧ d.taken e.lease = some (some spec) ∧
      d.RunsSpec daemon ⟨0⟩ spec := by
  have hcreated : ∃ d, exec (step daemon) empty (creation.map .shelf) = some d ∧
      (∀ t, d.world.tasks t = none) ∧
      ∃ d', exec (fun d op => if quiet op then step daemon d op else none) d
        (fetching ++ locking.map .world) = some d' ∧ (d'.world.sessions ⟨0⟩).isSome = true ∧
        ∃ profile, d'.world.log[13]? = some (.registered ⟨0⟩ profile) :=
    ⟨_, rfl, fun _ => rfl, _, rfl, rfl, _, rfl⟩
  obtain ⟨d, hd, ht, d', hd', hsome, profile, hp⟩ := hcreated
  have h₀ : Reach (Daemon.step daemon) Initial Undisturbed empty := .start empty_initial
  have hr := (Reach.shelf h₀ (fun _ => rfl) hd).execWhere undisturbed_of_quiet hd'
  obtain ⟨e, he⟩ := Option.isSome_iff_exists.mp hsome
  obtain ⟨spec, htaken, hruns⟩ := runsLocked_of_reach hr he (List.mem_of_getElem? hp)
  exact ⟨d', e, spec, he, htaken, hruns⟩

/-- An update between the read and the lock: the profile is stored with a proxy when its lock is
acquired, and the session configures the gateway for Tor. -/
theorem moved_not_run : ∃ (d : Daemon) (e : SessionEntry) (spec : ProfileSpec),
    Reach (Daemon.step daemon) Initial anyStep d ∧ d.world.sessions ⟨0⟩ = some e ∧
      d.taken e.lease = some (some spec) ∧ spec.network.mode.isTor = false ∧
      .configured ⟨0⟩ (gatewayConfig .default) ∈ d.world.log ∧ ¬ d.RunsSpec daemon ⟨0⟩ spec := by
  have hrun : ∃ d, exec (step daemon) empty (creation.map .shelf ++ fetching ++
      moving.map .shelf ++ locking.map .world) = some d ∧
      (∃ e spec, d.world.sessions ⟨0⟩ = some e ∧ d.taken e.lease = some (some spec) ∧
        spec.network = .fromMode (.proxy ⟨.socks5, "proxy", 1080, none, true⟩)) ∧
      d.world.log[2]? = some (.configured ⟨0⟩ (gatewayConfig .default)) :=
    ⟨_, rfl, ⟨_, _, rfl, rfl, rfl⟩, rfl⟩
  obtain ⟨d, hd, ⟨e, spec, he, htaken, hnet⟩, hlog⟩ := hrun
  have h₀ : Reach (Daemon.step daemon) Initial anyStep empty := .start empty_initial
  have hconfigured := List.mem_of_getElem? hlog
  refine ⟨d, e, spec, h₀.exec hd, he, htaken, by rw [hnet]; rfl, hconfigured, fun h => ?_⟩
  have hcfg := h.configured _ hconfigured
  rw [hnet] at hcfg
  exact absurd hcfg (by decide)

end Daemon

end Aegis.Orchestrator
