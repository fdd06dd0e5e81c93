import Aegis.Orchestrator.Cleanup

/-! Sessions whose calls do not overlap: a session that is stopped only while no other call works
on it is tidied up. -/
namespace Aegis.Orchestrator
open Transition

variable {cfg : Wiring} {w w' : World} {t : TaskId} {s : SessionId}

/-- The session is stopped only while no call works on it. -/
def StopsAlone (s : SessionId) (w : World) : Label → Prop
  | .stopSession _ u => u = s → ∀ t a, w.tasks t = some a → a.session ≠ some s
  | _ => True

/-- One call works on the session at a time, and its teardown has an entry that is settled. -/
structure Alone (s : SessionId) (w : World) : Prop where
  one : ∀ t u a b, w.tasks t = some a → w.tasks u = some b → a.session = some s →
    b.session = some s → t = u
  settled : ∀ t cs ending e, w.tasks t = some (.teardown s cs ending) →
    w.sessions s = some e → w.Settled s e

theorem Alone.clearsSettledOf (h : Alone s w) (l : Label) : ClearsSettledOf s w l := by
  cases l with
  | resume t input => exact fun c ending e ht he => h.settled t _ ending e ht he
  | _ => trivial

section Runs

variable {l : Label} {seg : Segment}

/-- A call that runs session code worked on the session before, or registers or stops it. -/
theorem Runs.begins (h : Runs cfg w t s l seg) :
    (∃ a, w.tasks t = some a ∧ a.session = some s) ∨ w.sessions s = none ∨
      l = .stopSession t s := by
  cases h with
  | start _ hs _ _ => exact .inr (.inl hs)
  | drive hd _ _ => exact .inl ⟨_, hd, rfl⟩
  | failClosed hd _ _ => exact .inl ⟨_, hd, rfl⟩
  | teardown hd _ _ => exact .inl ⟨_, hd, rfl⟩
  | stop _ _ _ => exact .inr (.inr rfl)

/-- No other call works on the session. -/
theorem Alone.runs_other (h : Alone s w) (ht : w.Tracked) (hok : StopsAlone s w l)
    (hr : Runs cfg w t s l seg) {u : TaskId} {a : Task} (hu : w.tasks u = some a)
    (ha : a.session = some s) : u = t := by
  rcases hr.begins with ⟨b, hb, hses⟩ | hs | rfl
  · exact h.one u t a b hu hb ha hses
  · exact absurd hs (ht.task u a s hu ha)
  · exact absurd ha (hok rfl u a hu)

/-- A teardown that session code leaves has a settled entry. -/
theorem Alone.runs_settled {cs : List Cleanup} {ending : Ending} (h : Alone s w) (hw : Tidy s w)
    (hr : Runs cfg w t s l seg) (hc : w.commit t s seg = some w')
    (htask : seg.task = .teardown s cs ending) : w'.Settled s seg.entry := by
  cases hr with
  | start _ _ _ _ =>
    obtain ⟨e, err, evs, -, -, -, heq⟩ := settle_teardown htask
    rw [heq] at hc ⊢
    exact settled_beginTeardown hc
  | drive _ _ _ =>
    obtain ⟨e, err, evs, -, -, -, heq⟩ := settle_teardown htask
    rw [heq] at hc ⊢
    exact settled_beginTeardown hc
  | failClosed _ _ _ => exact settled_beginTeardown hc
  | @teardown c ds ending' e input hd hs hret =>
    have hr' : Runs cfg w t s (.resume t input) _ := .teardown hd hs hret
    cases ds with
    | nil => cases htask
    | cons d ds => exact (h.settled t _ ending' e hd hs).runs hw hr' hc
  | stop _ _ _ => exact settled_beginTeardown hc

end Runs

theorem Alone.step {l : Label} (h : Alone s w) (hw : Tidy s w) (ht : w.Tracked)
    (hok : StopsAlone s w l) (hs : w.step cfg l = some w') : Alone s w' := by
  rcases World.step_cases hs with ⟨e, -, rfl⟩ | ⟨op, k, -, -, -, rfl⟩ | ⟨op, g, -, -, -, rfl⟩ |
    ⟨t, task, hm, hset⟩ | ⟨t, k, seg, hr, hc⟩
  · exact ⟨h.one, h.settled⟩
  · exact ⟨h.one, h.settled⟩
  · exact ⟨h.one, h.settled⟩
  · obtain ⟨hsess, -, -, htasks, -, -⟩ := World.setTask_cases hset
    have hold (u : TaskId) (a : Task) (hu : w'.tasks u = some a) (ha : a.session = some s) :
        w.tasks u = some a := by
      rw [htasks] at hu
      split_ifs at hu
      · rw [← Option.some.inj hu, hm.session] at ha
        cases ha
      · exact hu
    constructor
    case one =>
      exact fun u v a b hu hv ha hb => h.one u v a b (hold u a hu ha) (hold v b hv hb) ha hb
    case settled =>
      intro u cs ending e hu he
      obtain ⟨hhandle, hvm⟩ := h.settled u cs ending e (hold u _ hu rfl) (hsess s ▸ he)
      exact ⟨hhandle, fun role vm hv => (hvm role vm hv).moves hm hset⟩
  · obtain ⟨hsess, htasks, -, -, -⟩ := World.commit_cases hc
    have hother (u : TaskId) (a : Task) (hu : w'.tasks u = some a) (ha : a.session = some s)
        (hut : u ≠ t) : w.tasks u = some a ∧ k ≠ s := by
      rw [htasks, if_neg hut] at hu
      refine ⟨hu, ?_⟩
      rintro rfl
      exact hut (h.runs_other ht hok hr hu ha)
    have hmine (a : Task) (hu : w'.tasks t = some a) (ha : a.session = some s) : k = s := by
      rw [htasks, if_pos rfl] at hu
      exact (hr.task_session (by rw [Option.some.inj hu]; exact ha)).symm
    constructor
    case one =>
      intro u v a b hu hv ha hb
      by_cases hut : u = t <;> by_cases hvt : v = t
      · rw [hut, hvt]
      · subst hut
        exact absurd (hmine a hu ha) (hother v b hv hb hvt).2
      · subst hvt
        exact absurd (hmine b hv hb) (hother u a hu ha hut).2
      · exact h.one u v a b (hother u a hu ha hut).1 (hother v b hv hb hvt).1 ha hb
    case settled =>
      intro u cs ending e hu he
      by_cases hut : u = t
      · subst hut
        obtain rfl := hmine _ hu rfl
        rw [htasks, if_pos rfl] at hu
        rw [hsess, if_pos rfl] at he
        obtain rfl := Option.some.inj he
        exact h.runs_settled hw hr hc (Option.some.inj hu)
      · obtain ⟨hu, hks⟩ := hother u _ hu rfl hut
        rw [hsess, if_neg fun he => hks he.symm] at he
        exact (h.settled u cs ending e hu he).runs hw hr hc

/-- A session that is stopped only while no call works on it is tidied up. -/
theorem alone_of_reach (hr : Reach (World.step cfg) World.Initial (StopsAlone s) w) :
    Alone s w ∧ Tidy s w := by
  induction hr with
  | start hi => exact ⟨⟨by simp [hi.tasks], by simp [hi.tasks]⟩, tidy_initial hi⟩
  | @next w w' l hr hok hs ih =>
    obtain ⟨halone, htidy⟩ := ih
    have ht := tracked_of_reach hr.any
    exact ⟨halone.step htidy ht hok hs,
      htidy.step (launching_of_reach hr.any) ht (halone.clearsSettledOf l) hs⟩

end Aegis.Orchestrator
