import Aegis.Orchestrator.Steps
import Aegis.Store.Exclusion

/-! Who holds which lease: a lease belongs to the start that acquired it, and then to the
session that start registers. -/
namespace Aegis.Orchestrator
open Store Transition

variable {cfg : Wiring} {w w' : World} {t : TaskId} {s : SessionId}

/-- A lock call that acquires the lock of a profile, or failed to. -/
def AcquiringFor (p : ProfileId) : LockCall → Prop
  | .acquireStat q | .acquireCreate q _ => q = p
  | .acquireWrite l _ | .acquired (.ok l) => l.profile = p
  | .acquired (.error _) => True
  | _ => False

/-- A start has the lease and has not registered its session yet. -/
def World.Pending (w : World) (t : TaskId) (l : ProfileLease) : Prop :=
  (∃ p profile host, w.tasks t = some (.acquireLock p profile host)) ∧
    w.lock.calls t = some (.acquired (.ok l))

/-- Every lease has one owner, and only its owner releases it. -/
structure World.Leased (w : World) : Prop where
  acquiring : ∀ t p profile host, w.tasks t = some (.acquireLock p profile host) →
    ∃ c, w.lock.calls t = some c ∧ AcquiringFor p c
  pending : ∀ t l, w.Pending t l → l ∈ w.lock.unreleased
  pending_unique : ∀ t u l, w.Pending t l → w.Pending u l → t = u
  pending_entry : ∀ t l s e, w.Pending t l → w.sessions s = some e → e.lease ≠ l
  entry : ∀ s e, w.sessions s = some e → e.lease ∈ w.lock.issued ∧ e.lease.profile = e.profile
  entry_unique : ∀ s u e f, w.sessions s = some e → w.sessions u = some f →
    e.lease = f.lease → s = u
  release : ∀ t s cs ending e l, w.tasks t = some (.teardown s cs ending) →
    w.sessions s = some e → .release l ∈ cs → l = e.lease

/-! ### What a step of the lock does to its callers -/

/-- Acquired or released: the call has returned. -/
def Returned : LockCall → Prop
  | .acquired _ | .released _ => True
  | _ => False

/-- What a step the lock takes by itself does: the call of `u`, which has not returned, advances
from `c` to `d`, and hands out a lease where it has written it. -/
structure Advances (a b : LockSystem) (u : TaskId) (c d : LockCall) : Prop where
  before : a.calls u = some c
  calls : ∀ t, b.calls t = if t = u then some d else a.calls t
  waits : ¬ Returned c
  acquiring : ∀ p, AcquiringFor p c → AcquiringFor p d
  leases : (b.unreleased = a.unreleased ∧ b.issued = a.issued ∧ ∀ l, d ≠ .acquired (.ok l)) ∨
    ∃ l i, c = .acquireWrite l i ∧ d = .acquired (.ok l) ∧ b.unreleased = l :: a.unreleased ∧
      b.issued = l :: a.issued

theorem lock_advances {a b : LockSystem} {op : LockOp} (h : a.step op = some b)
    (hop : internalLock op = true) : ∃ u c d, Advances a b u c d := by
  have hset {k : LockSystem} {u : TaskId} {c d : LockCall} (hc : a.calls u = some c)
      (hk : k.calls = a.calls ∧ k.unreleased = a.unreleased ∧ k.issued = a.issued)
      (hw : ¬ Returned c) (hp : ∀ p, AcquiringFor p c → AcquiringFor p d)
      (hd : ∀ l, d ≠ .acquired (.ok l)) : ∃ v c' d', Advances a (k.setCall u d) v c' d' :=
    ⟨u, c, d, hc, fun t => by simp [hk.1], hw, hp, .inl ⟨hk.2.1, hk.2.2, hd⟩⟩
  cases op with
  | acquire u p => cases hop
  | release u l => cases hop
  | stat u present token =>
    simp only [LockSystem.step] at h
    split at h
    next p hc =>
      unfold LockSystem.acquireStat at h
      split_ifs at h <;> cases h
      · refine hset hc ⟨rfl, rfl, rfl⟩ (by rintro ⟨⟩) ?_ ?_ <;> simp [AcquiringFor]
      · refine hset hc ⟨rfl, rfl, rfl⟩ (by rintro ⟨⟩) ?_ ?_ <;> simp [AcquiringFor]
    · cases h
  | create u io =>
    simp only [LockSystem.step] at h
    split at h <;> cases h
    next p token hc =>
    unfold LockSystem.acquireCreate
    split
    · refine hset hc ⟨rfl, rfl, rfl⟩ (by rintro ⟨⟩) ?_ ?_ <;> simp [AcquiringFor]
    · refine hset hc ⟨rfl, rfl, rfl⟩ (by rintro ⟨⟩) ?_ ?_ <;> simp [AcquiringFor]
    · exact ⟨u, _, .acquireWrite ⟨p, token⟩ a.nextInode, hc, fun t => by simp, by rintro ⟨⟩,
        by simp [AcquiringFor], .inl ⟨rfl, rfl, by simp⟩⟩
  | write u cut =>
    simp only [LockSystem.step] at h
    split at h <;> cases h
    next l i hc =>
    unfold LockSystem.acquireWrite
    split
    next n e =>
      obtain ⟨f, hf⟩ := a.exists_writeFile l.profile i (l.token.text.take n)
      rw [hf]
      refine hset hc ⟨rfl, rfl, rfl⟩ (by rintro ⟨⟩) ?_ ?_ <;> simp [AcquiringFor]
    next =>
      obtain ⟨f, hf⟩ := a.exists_writeFile l.profile i l.token.text
      rw [hf]
      exact ⟨u, _, .acquired (.ok l), hc, fun t => by simp [LockSystem.issue], by rintro ⟨⟩,
        by simp [AcquiringFor], .inr ⟨l, i, rfl, rfl, rfl, rfl⟩⟩
  | read u io =>
    simp only [LockSystem.step] at h
    split at h <;> cases h
    next hc =>
    unfold LockSystem.releaseRead
    split <;> refine hset hc ⟨rfl, rfl, rfl⟩ (by rintro ⟨⟩) ?_ ?_ <;> simp [AcquiringFor]
  | compare u =>
    simp only [LockSystem.step] at h
    split at h <;> cases h
    next hc =>
    unfold LockSystem.releaseCompare
    split_ifs <;> refine hset hc ⟨rfl, rfl, rfl⟩ (by rintro ⟨⟩) ?_ ?_ <;> simp [AcquiringFor]
  | remove u io =>
    simp only [LockSystem.step] at h
    split at h <;> cases h
    next l hc =>
    unfold LockSystem.releaseRemove
    split <;> refine hset hc ⟨rfl, rfl, rfl⟩ (by rintro ⟨⟩) ?_ ?_ <;> simp [AcquiringFor]

/-- A step the lock takes by itself releases nothing, and the lease it hands out is new. -/
theorem lock_internal {a b : LockSystem} {op : LockOp} (h : a.step op = some b)
    (hop : internalLock op = true) :
    (∀ l ∈ a.unreleased, l ∈ b.unreleased) ∧ (∀ l ∈ a.issued, l ∈ b.issued) ∧
    ∀ t, b.calls t = a.calls t ∨ ∃ c d, a.calls t = some c ∧ b.calls t = some d ∧
      (∀ p, AcquiringFor p c → AcquiringFor p d) ∧
      ∀ l, d = .acquired (.ok l) → (∃ i, c = .acquireWrite l i) ∧ l ∈ b.unreleased := by
  obtain ⟨u, c, d, had⟩ := lock_advances h hop
  have hcalls (t : TaskId) (hd : ∀ l, d = .acquired (.ok l) →
      (∃ i, c = .acquireWrite l i) ∧ l ∈ b.unreleased) :
      b.calls t = a.calls t ∨ ∃ c d, a.calls t = some c ∧ b.calls t = some d ∧
        (∀ p, AcquiringFor p c → AcquiringFor p d) ∧
        ∀ l, d = .acquired (.ok l) → (∃ i, c = .acquireWrite l i) ∧ l ∈ b.unreleased := by
    rw [had.calls]
    split_ifs with htu
    · subst htu
      exact .inr ⟨c, d, had.before, rfl, had.acquiring, hd⟩
    · exact .inl rfl
  rcases had.leases with ⟨hun, hiss, hno⟩ | ⟨l, i, hc, hd, hun, hiss⟩
  · exact ⟨fun _ hl => hun ▸ hl, fun _ hl => hiss ▸ hl,
      fun t => hcalls t fun l hl => absurd hl (hno l)⟩
  · refine ⟨fun k hk => ?_, fun k hk => ?_, fun t => hcalls t ?_⟩
    · rw [hun]; exact List.mem_cons_of_mem _ hk
    · rw [hiss]; exact List.mem_cons_of_mem _ hk
    · rintro k rfl
      cases hd
      exact ⟨⟨i, hc⟩, by rw [hun]; exact List.mem_cons_self⟩

/-- The lock's own steps change no call that has returned. -/
theorem lock_returned {a b : LockSystem} {op : LockOp} (h : a.step op = some b)
    (hop : internalLock op = true) {c : LockCall} (hc : a.calls t = some c) (hr : Returned c) :
    b.calls t = some c := by
  obtain ⟨u, d, f, had⟩ := lock_advances h hop
  rw [had.calls, if_neg]
  · exact hc
  · rintro rfl
    rw [had.before] at hc
    cases hc
    exact had.waits hr

/-- A lease that was given up is not handed out again. -/
theorem lock_gaveUp {a b : LockSystem} {op : LockOp} (hl : a.Ledger) (h : a.step op = some b)
    {l : ProfileLease} (hi : l ∈ a.issued) (hu : l ∉ a.unreleased) :
    l ∈ b.issued ∧ l ∉ b.unreleased := by
  cases hop : internalLock op with
  | true =>
    obtain ⟨u, c, d, had⟩ := lock_advances h hop
    rcases had.leases with ⟨hun, hiss, -⟩ | ⟨k, i, hc, -, hun, hiss⟩
    · exact ⟨hiss ▸ hi, hun ▸ hu⟩
    · have hne : l.token ≠ k.token := (hl.acquiring u c k had.before (by rw [hc]; rfl)).2 l hi
      rw [hun, hiss, List.mem_cons, List.mem_cons, not_or]
      exact ⟨.inr hi, fun he => hne (he ▸ rfl), hu⟩
  | false =>
    cases op <;> simp [internalLock] at hop <;> simp only [LockSystem.step] at h <;>
      split_ifs at h <;> cases h
    · exact ⟨hi, hu⟩
    · exact ⟨hi, fun hm => hu (List.mem_filter.mp hm).1⟩

theorem lock_acquire {a b : LockSystem} {p : ProfileId} (h : a.step (.acquire t p) = some b) :
    b.unreleased = a.unreleased ∧ b.issued = a.issued ∧
      ∀ u, b.calls u = if u = t then some (.acquireStat p) else a.calls u := by
  simp only [LockSystem.step] at h
  split_ifs at h
  cases h
  exact ⟨rfl, rfl, fun u => by simp⟩

theorem lock_release {a b : LockSystem} {l : ProfileLease}
    (h : a.step (.release t l) = some b) :
    (∀ k, k ∈ b.unreleased ↔ k ∈ a.unreleased ∧ k ≠ l) ∧ b.issued = a.issued ∧
      ∀ u, b.calls u = if u = t then some (.releaseRead l) else a.calls u := by
  simp only [LockSystem.step] at h
  split_ifs at h
  cases h
  exact ⟨fun k => by simp [LockSystem.giveUp], rfl, fun u => by simp [LockSystem.giveUp]⟩

/-! ### What session code does to leases -/

theorem release_mem_cleanupCalls {e : SessionEntry} {l : ProfileLease} :
    .release l ∈ cleanupCalls cfg e ↔ l = e.lease := by
  unfold cleanupCalls
  cases e.browserHandle <;> cases e.mode <;> cases e.browserVm <;> cases e.gatewayVm <;>
    simp <;> (repeat' split) <;> simp

/-- A start keeps the lease and the profile of its session. -/
theorem Resumes.lease {profile : Profile} {reply : Option Gateway.Call} {e : SessionEntry}
    {pc : Drive} {input : Input} {flow : Flow} (h : Resumes cfg s profile reply e pc input flow) :
    flow.entry.lease = e.lease ∧ flow.entry.profile = e.profile := by
  cases h <;> exact ⟨rfl, rfl⟩

/-- The lease and the profile an entry has, and what the teardown that begins may release. -/
structure Segment.Keeps (l : ProfileLease) (p : ProfileId) (seg : Segment) : Prop where
  lease : seg.entry.lease = l
  profile : seg.entry.profile = p
  release : ∀ u cs ending k, seg.task = .teardown u cs ending → .release k ∈ cs → k = l

theorem keeps_beginTeardown {ending : Ending} {e : SessionEntry} {evs : List Event} :
    (beginTeardown cfg s ending e evs).Keeps e.lease e.profile := by
  obtain ⟨c, cs, hc, heq⟩ := beginTeardown_eq cfg s ending e evs
  rw [heq]
  refine ⟨rfl, rfl, ?_⟩
  rintro u _ _ k ⟨⟩ hk
  exact release_mem_cleanupCalls.mp (hc ▸ hk)

theorem keeps_settle (cfg : Wiring) (s : SessionId) (profile : Profile) (flow : Flow) :
    (settle cfg s profile flow).Keeps flow.entry.lease flow.entry.profile := by
  cases flow with
  | await e next evs => exact ⟨rfl, rfl, by simp [settle]⟩
  | finish e sum evs => exact ⟨rfl, rfl, by simp [settle]⟩
  | raise e err evs =>
    simp only [settle]
    split_ifs
    · exact ⟨rfl, rfl, by simp⟩
    · exact keeps_beginTeardown

/-- A session is registered with the lease its start acquired, and keeps it. -/
theorem Runs.keeps {l : Label} {seg : Segment} (h : Runs cfg w t s l seg) (hw : w.Leased) :
    (∃ p lease, w.sessions s = none ∧ w.Pending t lease ∧ lease.profile = p ∧
      seg.Keeps lease p) ∨
    ∃ e, w.sessions s = some e ∧ seg.Keeps e.lease e.profile := by
  cases h with
  | @start p profile host lease key flow _ ht hs hl hstart =>
    obtain ⟨c, hc, hfor⟩ := hw.acquiring t p profile host ht
    rw [hl] at hc
    cases hc
    have hflow : flow.entry.lease = lease ∧ flow.entry.profile = p := by
      cases hstart <;> exact ⟨rfl, rfl⟩
    refine .inl ⟨p, lease, hs, ⟨⟨p, profile, host, ht⟩, hl⟩, hfor, ?_⟩
    have hk := keeps_settle cfg s profile flow
    rwa [hflow.1, hflow.2] at hk
  | @drive profile pc e input flow ht hs hf =>
    obtain ⟨hl, hp⟩ := (Drive.resume_cases hf).lease
    have hk := keeps_settle cfg s profile flow
    rw [hl, hp] at hk
    exact .inr ⟨e, hs, hk⟩
  | @failClosed err e reply _ ht hs hg => exact .inr ⟨e, hs, keeps_beginTeardown⟩
  | @teardown c cs ending e input ht hs hc =>
    refine .inr ⟨e, hs, ?_⟩
    have hrel := hw.release t s (c :: cs) ending e
    cases cs with
    | nil => exact ⟨rfl, rfl, by simp [Orchestrator.teardown]⟩
    | cons d ds =>
      refine ⟨rfl, rfl, ?_⟩
      rintro u _ _ k ⟨⟩ hk
      exact hrel k ht hs (List.mem_cons_of_mem _ hk)
  | @stop e e' evs ht hs hcases =>
    refine .inr ⟨e, hs, ?_⟩
    rcases hcases with ⟨htr, -⟩ | ⟨-, rfl, -⟩
    · obtain ⟨-, rfl⟩ := transition_eq_ok.mp htr
      exact keeps_beginTeardown (e := { e with state := .closing })
    · exact keeps_beginTeardown

/-- Session code leaves the lock alone, or begins to release the lease of its session. -/
theorem Runs.lock_cases {l : Label} {seg : Segment} (h : Runs cfg w t s l seg)
    (hc : w.commit t s seg = some w') :
    w'.lock = w.lock ∨ ∃ k cs ending, seg.task = .teardown s (.release k :: cs) ending ∧
      w.lock.step (.release t k) = some w'.lock := by
  obtain ⟨-, -, -, hlock, -⟩ := World.commit_cases hc
  rcases h.task_kind with hkind | ⟨r, hr⟩
  · cases ht : seg.task with
    | drive u profile pc => cases pc <;> (rw [ht] at hlock; exact .inl hlock)
    | failClosed u err => rw [ht] at hlock; exact .inl hlock
    | teardown u cs ending =>
      rw [ht] at hkind hlock
      cases hkind
      rcases cs with _ | ⟨c, cs⟩
      · exact .inl hlock
      · cases c with
        | release k => exact .inr ⟨k, cs, ending, rfl, hlock⟩
        | _ => exact .inl hlock
    | _ => rw [ht] at hkind; cases hkind
  · rw [hr] at hlock
    exact .inl hlock

namespace World

theorem Initial.leased (h : Initial w) : w.Leased := by
  constructor <;> simp [h.tasks, h.sessions, Pending]

theorem Leased.lockStep {op : LockOp} {k : LockSystem} (h : w.Leased) (hl : w.lock.Ledger)
    (hop : internalLock op = true) (hk : w.lock.step op = some k) :
    Leased { w with lock := k } := by
  obtain ⟨hun, hiss, hcalls⟩ := lock_internal hk hop
  -- a lease that is pending now was pending before, or it is new
  have hpend : ∀ u l, Pending { w with lock := k } u l → w.Pending u l ∨
      l ∈ k.unreleased ∧ l ∉ w.lock.issued ∧ ∃ i, w.lock.calls u = some (.acquireWrite l i) := by
    rintro u l ⟨hu, hcu⟩
    rcases hcalls u with he | ⟨c, d, hc, hd, -, hnew⟩
    · exact .inl ⟨hu, by rw [← he]; exact hcu⟩
    · obtain ⟨⟨i, rfl⟩, hmem⟩ := hnew l (by rw [hcu] at hd; exact (Option.some.inj hd).symm)
      obtain ⟨-, hfresh⟩ := hl.acquiring u _ l hc rfl
      exact .inr ⟨hmem, fun hi => hfresh l hi rfl, i, hc⟩
  have hissued : ∀ u l, w.Pending u l → l ∈ w.lock.issued := fun u l hu =>
    hl.unreleased l (h.pending u l hu)
  constructor
  case acquiring =>
    intro u p profile host hu
    obtain ⟨c, hc, hfor⟩ := h.acquiring u p profile host hu
    rcases hcalls u with he | ⟨c', d, hc', hd, hp, -⟩
    · exact ⟨c, by rw [← hc]; exact he, hfor⟩
    · rw [hc] at hc'
      cases hc'
      exact ⟨d, hd, hp p hfor⟩
  case pending =>
    intro u l hu
    rcases hpend u l hu with hu | ⟨hmem, -⟩
    · exact hun l (h.pending u l hu)
    · exact hmem
  case pending_unique =>
    intro u v l hu hv
    rcases hpend u l hu with hu' | ⟨-, hnew, i, hi⟩ <;>
      rcases hpend v l hv with hv' | ⟨-, hnew', j, hj⟩
    · exact h.pending_unique u v l hu' hv'
    · exact absurd (hissued u l hu') hnew'
    · exact absurd (hissued v l hv') hnew
    · exact hl.acquiring_unique u v _ _ l l hi hj rfl rfl rfl
  case pending_entry =>
    intro u l s e hu hs he
    rcases hpend u l hu with hu | ⟨-, hnew, -⟩
    · exact h.pending_entry u l s e hu hs he
    · exact hnew (he ▸ (h.entry s e hs).1)
  case entry => exact fun s e hs => ⟨hiss _ (h.entry s e hs).1, (h.entry s e hs).2⟩
  case entry_unique => exact h.entry_unique
  case release => exact h.release

theorem Leased.moves {l : Label} {task : Task} (h : w.Leased) (hm : Moves w t l task)
    (hset : w.setTask t task = some w') : w'.Leased := by
  obtain ⟨hsess, -, -, htasks, hlock, -⟩ := setTask_cases hset
  cases hm with
  | @fetched p profile host _ ht hhost =>
    obtain ⟨hun, hiss, hcalls⟩ := lock_acquire hlock
    have hpend : ∀ u l, w'.Pending u l → w.Pending u l := by
      rintro u l ⟨hu, hc⟩
      rw [hcalls] at hc
      split_ifs at hc with he
      · cases hc
      · simp only [htasks, if_neg he] at hu
        exact ⟨hu, hc⟩
    constructor
    case acquiring =>
      intro u q profile' host' hu
      rw [htasks] at hu
      split_ifs at hu with he
      · cases hu
        exact ⟨.acquireStat p, by rw [hcalls, if_pos he], rfl⟩
      · rw [hcalls, if_neg he]
        exact h.acquiring u q profile' host' hu
    case pending => exact fun u l hu => hun ▸ h.pending u l (hpend u l hu)
    case pending_unique =>
      exact fun u v l hu hv => h.pending_unique u v l (hpend u l hu) (hpend v l hv)
    case pending_entry =>
      exact fun u l s e hu hs => h.pending_entry u l s e (hpend u l hu) (hsess s ▸ hs)
    case entry => exact fun s e hs => hiss ▸ h.entry s e (hsess s ▸ hs)
    case entry_unique =>
      exact fun s u e f hs hu => h.entry_unique s u e f (hsess s ▸ hs) (hsess u ▸ hu)
    case release => grind [h.release]
  | @noKey p profile host lease err _ ht hl =>
    obtain ⟨hun, hiss, hcalls⟩ := lock_release hlock
    have hmine : w.Pending t lease := ⟨⟨p, profile, host, ht⟩, hl⟩
    have hpend : ∀ u l, w'.Pending u l → w.Pending u l ∧ u ≠ t := by
      rintro u l ⟨hu, hc⟩
      rw [hcalls] at hc
      split_ifs at hc with he
      · cases hc
      · simp only [htasks, if_neg he] at hu
        exact ⟨⟨hu, hc⟩, he⟩
    constructor
    case acquiring =>
      intro u q profile' host' hu
      rw [htasks] at hu
      split_ifs at hu with he
      · cases hu
      · rw [hcalls, if_neg he]
        exact h.acquiring u q profile' host' hu
    case pending =>
      intro u l hu
      obtain ⟨hu, hne⟩ := hpend u l hu
      exact (hun l).mpr ⟨h.pending u l hu,
        fun he => hne (h.pending_unique u t l hu (he ▸ hmine))⟩
    case pending_unique =>
      exact fun u v l hu hv => h.pending_unique u v l (hpend u l hu).1 (hpend v l hv).1
    case pending_entry =>
      exact fun u l s e hu hs => h.pending_entry u l s e (hpend u l hu).1 (hsess s ▸ hs)
    case entry => exact fun s e hs => hiss ▸ h.entry s e (hsess s ▸ hs)
    case entry_unique =>
      exact fun s u e f hs hu => h.entry_unique s u e f (hsess s ▸ hs) (hsess u ▸ hu)
    case release => grind [h.release]
  | startSession | unknown | refused | busy | released =>
    have hlock : w'.lock = w.lock := hlock
    have hpend : ∀ u l, w'.Pending u l → w.Pending u l := by
      rintro u l ⟨⟨p, profile, host, hu⟩, hc⟩
      rw [htasks] at hu
      rw [hlock] at hc
      split_ifs at hu with he
      · cases hu
      · exact ⟨⟨p, profile, host, hu⟩, hc⟩
    constructor
    case acquiring => grind [h.acquiring]
    case pending => exact fun u l hu => hlock ▸ h.pending u l (hpend u l hu)
    case pending_unique =>
      exact fun u v l hu hv => h.pending_unique u v l (hpend u l hu) (hpend v l hv)
    case pending_entry =>
      exact fun u l s e hu hs => h.pending_entry u l s e (hpend u l hu) (hsess s ▸ hs)
    case entry => exact fun s e hs => hlock ▸ h.entry s e (hsess s ▸ hs)
    case entry_unique =>
      exact fun s u e f hs hu => h.entry_unique s u e f (hsess s ▸ hs) (hsess u ▸ hu)
    case release => grind [h.release]

theorem Leased.runs {l : Label} {seg : Segment} (h : w.Leased) (ht : w.Tracked)
    (hl : w.lock.Ledger)
    (hr : Runs cfg w t s l seg) (hc : w.commit t s seg = some w') : w'.Leased := by
  obtain ⟨hsess, htasks, -, -, -⟩ := commit_cases hc
  -- the lock gives up the lease of the session at most
  have hlock : (∀ k, k ∈ w.lock.unreleased → k ≠ seg.entry.lease → k ∈ w'.lock.unreleased) ∧
      w'.lock.issued = w.lock.issued ∧
      ∀ u, u ≠ t → w'.lock.calls u = w.lock.calls u := by
    rcases hr.lock_cases hc with he | ⟨k, cs, ending, htask, hk⟩
    · rw [he]
      exact ⟨fun _ hm _ => hm, rfl, fun _ _ => rfl⟩
    · obtain ⟨hun, hiss, hcalls⟩ := lock_release hk
      have hke : k = seg.entry.lease := by
        rcases hr.keeps h with ⟨p, lease, -, -, -, hkeep⟩ | ⟨e, -, hkeep⟩ <;>
          rw [hkeep.lease] <;> exact hkeep.release _ _ _ k htask List.mem_cons_self
      exact ⟨fun m hm hne => (hun m).mpr ⟨hm, hke ▸ hne⟩, hiss,
        fun u hu => by rw [hcalls, if_neg hu]⟩
  obtain ⟨hun, hiss, hcalls⟩ := hlock
  have hacq : ∀ u p profile host, w'.tasks u = some (.acquireLock p profile host) →
      u ≠ t ∧ w.tasks u = some (.acquireLock p profile host) := by
    intro u p profile host hu
    rw [htasks] at hu
    split_ifs at hu with he
    · rcases hr.task_kind with hk | ⟨r, hk⟩ <;> rw [Option.some.inj hu] at hk <;> cases hk
    · exact ⟨he, hu⟩
  have hpend : ∀ u k, w'.Pending u k → w.Pending u k ∧ u ≠ t := by
    rintro u k ⟨⟨p, profile, host, hu⟩, hc⟩
    obtain ⟨hne, hu⟩ := hacq u p profile host hu
    exact ⟨⟨⟨p, profile, host, hu⟩, hcalls u hne ▸ hc⟩, hne⟩
  -- the session has the lease it had, or the one its start acquired
  have hmine : ∀ u k, w'.Pending u k → seg.entry.lease ≠ k := by
    intro u k hu he
    obtain ⟨hu, hne⟩ := hpend u k hu
    rcases hr.keeps h with ⟨p, lease, -, hp, -, hkeep⟩ | ⟨e, hs, hkeep⟩
    · rw [← he, hkeep.lease] at hu
      exact hne (h.pending_unique u t lease hu hp)
    · exact h.pending_entry u k s e hu hs (hkeep.lease ▸ he)
  have hother : ∀ u f, u ≠ s → w.sessions u = some f → f.lease ≠ seg.entry.lease := by
    intro u f hu hf he
    rcases hr.keeps h with ⟨p, lease, -, hp, -, hkeep⟩ | ⟨e, hs, hkeep⟩
    · exact h.pending_entry t lease u f hp hf (hkeep.lease ▸ he)
    · exact hu (h.entry_unique u s f e hf hs (hkeep.lease ▸ he))
  have hentry : seg.entry.lease ∈ w.lock.issued ∧ seg.entry.lease.profile = seg.entry.profile := by
    rcases hr.keeps h with ⟨p, lease, -, hp, hpl, hkeep⟩ | ⟨e, hs, hkeep⟩
    · rw [hkeep.lease, hkeep.profile]
      exact ⟨hl.unreleased lease (h.pending t lease hp), hpl⟩
    · rw [hkeep.lease, hkeep.profile]
      exact h.entry s e hs
  have hrelease : ∀ u cs ending k, seg.task = .teardown u cs ending → .release k ∈ cs →
      k = seg.entry.lease := by
    rcases hr.keeps h with ⟨p, lease, -, -, -, hkeep⟩ | ⟨e, -, hkeep⟩ <;> rw [hkeep.lease] <;>
      exact hkeep.release
  have hkeeps : ∀ e, w.sessions s = some e → seg.entry.lease = e.lease := by
    intro e he
    rcases hr.keeps h with ⟨p, lease, hs, -⟩ | ⟨e', hs, hkeep⟩
    · rw [hs] at he; cases he
    · rw [hs] at he; cases he; exact hkeep.lease
  constructor
  case acquiring =>
    intro u p profile host hu
    obtain ⟨hne, hu⟩ := hacq u p profile host hu
    rw [hcalls u hne]
    exact h.acquiring u p profile host hu
  case pending =>
    intro u k hu
    exact hun k (h.pending u k (hpend u k hu).1) (hmine u k hu).symm
  case pending_unique =>
    exact fun u v k hu hv => h.pending_unique u v k (hpend u k hu).1 (hpend v k hv).1
  case pending_entry =>
    intro u k v e hu hv
    rw [hsess] at hv
    split_ifs at hv with he
    · cases hv; exact hmine u k hu
    · exact h.pending_entry u k v e (hpend u k hu).1 hv
  case entry =>
    intro u e hu
    rw [hsess] at hu
    rw [hiss]
    split_ifs at hu with he
    · cases hu; exact hentry
    · exact h.entry u e hu
  case entry_unique =>
    intro u v e f hu hv he
    rw [hsess] at hu hv
    split_ifs at hu hv with hus hvs hvs
    · exact hus.trans hvs.symm
    · cases hu; exact absurd he.symm (hother v f hvs hv)
    · cases hv; exact absurd he (hother u e hus hu)
    · exact h.entry_unique u v e f hu hv he
  case release =>
    intro u v cs ending e k hu hv hk
    rw [htasks] at hu
    rw [hsess] at hv
    split_ifs at hu hv with hut hvs hvs
    · cases hv
      exact hrelease v cs ending k (Option.some.inj hu) hk
    · exact absurd (hr.task_session (by rw [Option.some.inj hu]; rfl)) hvs
    · cases hv
      obtain ⟨e', hs'⟩ := Option.ne_none_iff_exists'.mp (ht.task u _ v hu rfl)
      rw [hvs] at hu hs'
      rw [hkeeps e' hs']
      exact h.release u s cs ending e' k hu hs' hk
    · exact h.release u v cs ending e k hu hv hk

theorem Leased.step {l : Label} (h : w.Leased) (ht : w.Tracked) (hl : w.lock.Ledger)
    (hs : w.step cfg l = some w') : w'.Leased := by
  rcases step_cases hs with ⟨e, -, rfl⟩ | ⟨op, k, -, hop, hk, rfl⟩ | ⟨op, g, -, -, -, rfl⟩ |
    ⟨t, task, hm, hset⟩ | ⟨t, s, seg, hr, hc⟩
  · exact ⟨h.acquiring, h.pending, h.pending_unique, h.pending_entry, h.entry, h.entry_unique,
      h.release⟩
  · exact h.lockStep hl hop hk
  · exact ⟨h.acquiring, h.pending, h.pending_unique, h.pending_entry, h.entry, h.entry_unique,
      h.release⟩
  · exact h.moves hm hset
  · exact h.runs ht hl hr hc

/-- A step of the daemon makes one step of the lock at most, and its own code only acquires and
releases. -/
theorem step_lock {l : Label} (hs : w.step cfg l = some w') :
    w'.lock = w.lock ∨
      ∃ op, w.lock.step op = some w'.lock ∧ (l = .lock op ∨ internalLock op = false) := by
  rcases step_cases hs with ⟨e, -, rfl⟩ | ⟨op, k, rfl, -, hk, rfl⟩ | ⟨op, g, -, -, -, rfl⟩ |
    ⟨t, task, hm, hset⟩ | ⟨t, s, seg, hr, hc⟩
  · exact .inl rfl
  · exact .inr ⟨op, hk, .inl rfl⟩
  · exact .inl rfl
  · obtain ⟨-, -, -, -, hlock, -⟩ := setTask_cases hset
    cases hm with
    | @fetched p => exact .inr ⟨.acquire t p, hlock, .inr rfl⟩
    | @noKey p profile host lease => exact .inr ⟨.release t lease, hlock, .inr rfl⟩
    | startSession | unknown | refused | busy | released => exact .inl hlock
  · rcases hr.lock_cases hc with he | ⟨k, cs, ending, -, hk⟩
    · exact .inl he
    · exact .inr ⟨.release t k, hk, .inr rfl⟩

/-- The lock runs on its own steps whatever the daemon does around it. -/
theorem lock_of_reach {ok : World → Label → Prop}
    (hr : Reach (World.step cfg) World.Initial ok w)
    (hok : ∀ w op, ok w (.lock op) → w.lock.CreatesAlone op) :
    Reach LockSystem.step (· = LockSystem.initial) LockSystem.CreatesAlone w.lock := by
  refine hr.project World.lock (fun w h => h.lock) fun w l w' _ hl hs => ?_
  rcases step_lock hs with he | ⟨op, hop, rfl | hint⟩
  · exact .inl he
  · exact .inr ⟨op, hok w op hl, hop⟩
  · refine .inr ⟨op, ?_, hop⟩
    rintro u p token rfl
    cases hint

theorem lockLedger_of_reach (hr : Reach (World.step cfg) World.Initial anyStep w) :
    w.lock.Ledger := by
  refine LockSystem.ledger_of_reach (hr.project World.lock (fun w h => h.lock) ?_)
  intro w l w' _ _ hs
  rcases step_lock hs with he | ⟨op, hop, -⟩
  · exact .inl he
  · exact .inr ⟨op, trivial, hop⟩

theorem leased_of_reach (hr : Reach (World.step cfg) World.Initial anyStep w) : w.Leased :=
  hr.invariant (fun _ h => h.leased) fun _ _ _ hr h _ hs =>
    h.step (tracked_of_reach hr) (lockLedger_of_reach hr) hs

end World

end Aegis.Orchestrator
