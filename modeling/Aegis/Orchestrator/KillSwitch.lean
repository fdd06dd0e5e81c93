import Aegis.Gateway.Calls
import Aegis.Orchestrator.Launch

/-! How long the kill switch stays engaged after a start has failed closed. -/
namespace Aegis.Orchestrator
open Transition

variable {cfg : Wiring} {w w' : World} {t : TaskId} {s : SessionId}

/-- The failed start of a session has engaged the kill switch and is tearing the session down;
`pending` tells how much of the teardown counts. -/
def World.Cut (w : World) (s : SessionId) (pending : List Cleanup → Prop) : Prop :=
  (∃ t err r, w.tasks t = some (.failClosed s err) ∧ w.gateway.calls t = some (.done r)) ∨
    ∃ t cs err, w.tasks t = some (.teardown s cs (.failed err)) ∧ err.requiresKillswitch = true ∧
      pending cs

/-- Of the sessions told by `among`, none is cut off when a call arms the kill switch again. -/
def ArmsUncut (pending : List Cleanup → Prop) (among : SessionId → List Event → Prop) (w : World) :
    Label → Prop
  | .gateway (.access t) => ∀ c, w.gateway.calls t = some c → c.rearms = true →
    ∀ s, among s w.log → ¬ w.Cut s pending
  | _ => True

/-- A start that fails closed waits for the call that engages the kill switch. -/
structure FailsClosed (w : World) : Prop where
  error : ∀ t s err, w.tasks t = some (.failClosed s err) → err.requiresKillswitch = true
  call : ∀ t s err, w.tasks t = some (.failClosed s err) → w.gateway.calls t = some .engageLoad ∨
    (∃ r, w.gateway.calls t = some (.engageRecord r)) ∨ ∃ r, w.gateway.calls t = some (.done r)

/-! ### The gateway under a piece of session code -/

/-- Beginning to wait begins one gateway call at most, and changes nothing else there. -/
theorem World.setTask_gateway {task : Task} (h : w.setTask t task = some w') :
    w'.gateway.state = w.gateway.state ∧ w'.gateway.tables = w.gateway.tables ∧
    ∀ u, w'.gateway.calls u = if u = t then
      (match task.request with | .gateway req => some req.call | _ => w.gateway.calls t)
      else w.gateway.calls u := by
  obtain ⟨-, -, -, -, -, hgw⟩ := setTask_cases h
  cases hr : task.request with
  | gateway req =>
    rw [hr] at hgw
    simp only [Gateway.System.step] at hgw
    split_ifs at hgw
    rw [← Option.some.inj hgw]
    exact ⟨rfl, rfl, fun u => by simp⟩
  | none | lock op =>
    rw [hr] at hgw
    have hgw : w'.gateway = w.gateway := hgw
    rw [hgw]
    exact ⟨rfl, rfl, fun u => by split_ifs with hu <;> simp [hu]⟩

theorem World.commit_gateway {seg : Segment} (h : w.commit t s seg = some w') :
    w'.gateway.state = w.gateway.state ∧ w'.gateway.tables = w.gateway.tables ∧
    ∀ u, w'.gateway.calls u = if u = t then
      (match seg.task.request with | .gateway req => some req.call | _ => w.gateway.calls t)
      else w.gateway.calls u := by
  obtain ⟨hstate, htables, hcalls⟩ := World.setTask_gateway h
  exact ⟨hstate, htables, hcalls⟩

/-- A call that concerns no session makes no gateway call. -/
theorem Moves.gateway {l : Label} {task : Task} (hm : Moves w t l task)
    (h : w.setTask t task = some w') : w'.gateway = w.gateway := by
  obtain ⟨-, -, -, -, -, hgw⟩ := World.setTask_cases h
  cases hm <;> exact hgw

/-! ### Failing closed -/

/-- Session code fails closed on an error that requires it. -/
theorem Runs.failClosed_error {l : Label} {seg : Segment} {err : Error}
    (h : Runs cfg w t s l seg) (htask : seg.task = .failClosed s err) :
    err.requiresKillswitch = true := by
  cases h with
  | start _ _ _ _ => exact (settle_failClosed htask).1
  | drive _ _ _ => exact (settle_failClosed htask).1
  | failClosed _ _ _ =>
    rw [beginTeardown_task] at htask
    cases htask
  | @teardown c cs _ _ _ _ _ _ => cases cs <;> cases htask
  | stop _ _ _ =>
    rw [beginTeardown_task] at htask
    cases htask

theorem FailsClosed.step {l : Label} (h : FailsClosed w) (hs : w.step cfg l = some w') :
    FailsClosed w' := by
  rcases World.step_cases hs with ⟨e, -, rfl⟩ | ⟨op, k, -, -, -, rfl⟩ |
    ⟨op, g, -, hint, hg, rfl⟩ | ⟨t, task, hm, hset⟩ | ⟨t, s, seg, hr, hc⟩
  · exact ⟨h.error, h.call⟩
  · exact ⟨h.error, h.call⟩
  · refine ⟨h.error, fun u s err hu => ?_⟩
    have hcall := h.call u s err hu
    rcases Gateway.System.step_cases hg with ⟨v, req, rfl, -⟩ |
      ⟨v, out, c, c', -, hcv, hrun, -, hcalls⟩ | ⟨v, c, c', -, hcv, hacc, -, hcalls⟩
    · cases hint
    · rw [hcalls]
      split_ifs with huv
      · subst huv
        rcases hcall with he | ⟨r, he⟩ | ⟨r, he⟩ <;> rw [hcv] at he <;> cases he
        · obtain ⟨r, rfl⟩ := Gateway.Call.run_engageLoad hrun
          exact .inr (.inl ⟨r, rfl⟩)
        · cases hrun
        · cases hrun
      · exact hcall
    · rw [hcalls]
      split_ifs with huv
      · subst huv
        rcases hcall with he | ⟨r, he⟩ | ⟨r, he⟩ <;> rw [hcv] at he <;> cases he
        · cases hacc
        · obtain ⟨rfl, -⟩ := Gateway.Call.access_engageRecord hacc
          exact .inr (.inr ⟨_, rfl⟩)
        · cases hacc
      · exact hcall
  · obtain ⟨-, -, -, htasks, -, -⟩ := World.setTask_cases hset
    have hold : ∀ u s err, w'.tasks u = some (.failClosed s err) →
        w.tasks u = some (.failClosed s err) := by
      intro u s err hu
      rw [htasks] at hu
      split_ifs at hu
      · have := hm.session
        rw [Option.some.inj hu] at this
        cases this
      · exact hu
    refine ⟨fun u s err hu => h.error u s err (hold u s err hu), fun u s err hu => ?_⟩
    rw [hm.gateway hset]
    exact h.call u s err (hold u s err hu)
  · obtain ⟨-, htasks, -, -, -⟩ := World.commit_cases hc
    obtain ⟨-, -, hcalls⟩ := World.commit_gateway hc
    constructor
    case error =>
      intro u k err hu
      rw [htasks] at hu
      split_ifs at hu
      · have hk : k = s := hr.task_session (by rw [Option.some.inj hu]; rfl)
        subst hk
        exact hr.failClosed_error (Option.some.inj hu)
      · exact h.error u k err hu
    case call =>
      intro u k err hu
      rw [htasks] at hu
      rw [hcalls]
      split_ifs at hu ⊢
      · rw [Option.some.inj hu]
        exact .inl rfl
      · exact h.call u k err hu

theorem failsClosed_initial (h : w.Initial) : FailsClosed w := by
  constructor <;> simp [h.tasks]

theorem failsClosed_of_reach (hr : Reach (World.step cfg) World.Initial anyStep w) :
    FailsClosed w :=
  hr.invariant (fun _ h => failsClosed_initial h) fun _ _ _ _ h _ hs => h.step hs

/-! ### A session that is cut off stays cut off -/

section Engaged

variable {pending : List Cleanup → Prop} {among : SessionId → List Event → Prop}

/-- The kill switch is engaged while one of the sessions is cut off. -/
def Engaged (pending : List Cleanup → Prop) (among : SessionId → List Event → Prop)
    (w : World) : Prop :=
  ∀ s, among s w.log → w.Cut s pending → w.gateway.state.killswitch = .engaged

/-- Session code cuts a session off only where its start had engaged the kill switch. -/
theorem World.Cut.of_runs {l : Label} {seg : Segment} {k : SessionId} (hr : Runs cfg w t s l seg)
    (hpending : ∀ c cs, pending cs → pending (c :: cs)) (hc : w.commit t s seg = some w')
    (h : w'.Cut k pending) : w.Cut k pending := by
  obtain ⟨-, htasks, -, -, -⟩ := World.commit_cases hc
  obtain ⟨-, -, hcalls⟩ := World.commit_gateway hc
  rcases h with ⟨u, err, r, hu, hdone⟩ | ⟨u, cs, err, hu, hks, hp⟩
  · rw [htasks] at hu
    rw [hcalls] at hdone
    split_ifs at hu hdone
    · -- the call that engages has only begun
      rw [Option.some.inj hu] at hdone
      cases hdone
    · exact .inl ⟨u, err, r, hu, hdone⟩
  · rw [htasks] at hu
    split_ifs at hu with hut
    · have hk : k = s := hr.task_session (by rw [Option.some.inj hu]; rfl)
      have hu := Option.some.inj hu
      subst hk
      cases hr with
      | start _ _ _ _ =>
        obtain ⟨e, err', evs, -, hno, herr, -⟩ := settle_teardown hu
        cases herr
        rw [hno] at hks
        cases hks
      | drive _ _ _ =>
        obtain ⟨e, err', evs, -, hno, herr, -⟩ := settle_teardown hu
        cases herr
        rw [hno] at hks
        cases hks
      | @failClosed err' e r _ ht _ hg =>
        rw [beginTeardown_task] at hu
        cases hu
        exact .inl ⟨t, err, r, ht, hg⟩
      | @teardown c ds ending e input ht _ _ =>
        cases ds with
        | nil => cases hu
        | cons d ds =>
          cases hu
          exact .inr ⟨t, _, err, ht, hks, hpending c _ hp⟩
      | stop _ _ _ =>
        rw [beginTeardown_task] at hu
        cases hu
    · exact .inr ⟨u, cs, err, hu, hks, hp⟩

/-- A gateway step of another call leaves a session cut off, or engages the kill switch. -/
theorem Engaged.gatewayStep {op : Gateway.Op} {g : Gateway.System}
    (h : Engaged pending among w) (hf : FailsClosed w) (hint : internalGateway op = true)
    (hg : w.gateway.step op = some g) (hok : ArmsUncut pending among w (.gateway op)) :
    Engaged pending among { w with gateway := g } := by
  intro s hamong hcut
  rcases Gateway.System.step_cases hg with ⟨v, req, rfl, -⟩ |
    ⟨v, out, c, c', -, hcv, hrun, hstate, hcalls⟩ | ⟨v, c, c', rfl, hcv, hacc, -, hcalls⟩
  · cases hint
  · -- a command never reports a failing start's call as done
    rw [show World.gateway { w with gateway := g } = g from rfl, hstate]
    refine h s hamong ?_
    rcases hcut with ⟨u, err, r, hu, hdone⟩ | hcut
    · have hdone : g.calls u = some (.done r) := hdone
      rw [hcalls] at hdone
      split_ifs at hdone with huv
      · subst huv
        cases hdone
        rcases hf.call u s err hu with he | ⟨r', he⟩ | ⟨r', he⟩ <;> rw [hcv] at he <;> cases he
        · obtain ⟨r', hr'⟩ := Gateway.Call.run_engageLoad hrun
          cases hr'
        · cases hrun
        · cases hrun
      · exact .inl ⟨u, err, r, hu, hdone⟩
    · exact .inr hcut
  · have hnow : w.Cut s pending → g.state.killswitch = .engaged := by
      intro hcut
      have hcalm : c.rearms = false := by
        by_contra hrearms
        exact hok c hcv (by simpa using hrearms) s hamong hcut
      rcases Gateway.Call.access_killswitch hacc hcalm with he | he
      · rw [he]; exact h s hamong hcut
      · exact he
    rcases hcut with ⟨u, err, r, hu, hdone⟩ | hcut
    · have hdone : g.calls u = some (.done r) := hdone
      rw [hcalls] at hdone
      split_ifs at hdone with huv
      · subst huv
        cases hdone
        rcases hf.call u s err hu with he | ⟨r', he⟩ | ⟨r', he⟩ <;> rw [hcv] at he <;> cases he
        · cases hacc
        · exact (Gateway.Call.access_engageRecord hacc).2
        · cases hacc
      · exact hnow (.inl ⟨u, err, r, hu, hdone⟩)
    · exact hnow (.inr hcut)

/-- Sessions come to be among those that count only where their start goes on. -/
def JoinsDriven (cfg : Wiring) (among : SessionId → List Event → Prop) : Prop :=
  ∀ w t s l seg k, Runs cfg w t s l seg → among k (seg.events ++ w.log) →
    among k w.log ∨ ∃ profile pc, seg.task = .drive k profile pc

theorem Engaged.step {l : Label} (h : Engaged pending among w)
    (hpending : ∀ c cs, pending cs → pending (c :: cs)) (hjoins : JoinsDriven cfg among)
    (ht : w.Tracked) (hf : FailsClosed w) (hok : ArmsUncut pending among w l)
    (hs : w.step cfg l = some w') : Engaged pending among w' := by
  have ht' := ht.step hs
  rcases World.step_cases hs with ⟨e, -, rfl⟩ | ⟨op, k, -, -, -, rfl⟩ |
    ⟨op, g, rfl, hint, hg, rfl⟩ | ⟨t, task, hm, hset⟩ | ⟨t, s, seg, hr, hc⟩
  · exact h
  · exact h
  · exact h.gatewayStep hf hint hg hok
  · obtain ⟨-, hlog, -, htasks, -, -⟩ := World.setTask_cases hset
    have hsession := hm.session
    intro k hamong hcut
    rw [hm.gateway hset]
    rw [hlog] at hamong
    refine h k hamong ?_
    rcases hcut with ⟨u, err, r, hu, hdone⟩ | ⟨u, cs, err, hu, hks, hp⟩
    · rw [hm.gateway hset] at hdone
      exact .inl ⟨u, err, r, by grind [Task.session], hdone⟩
    · exact .inr ⟨u, cs, err, by grind [Task.session], hks, hp⟩
  · obtain ⟨-, htasks, hlog, -, -⟩ := World.commit_cases hc
    intro k hamong hcut
    rw [(World.commit_gateway hc).1]
    rw [hlog] at hamong
    rcases hjoins w t s l seg k hr hamong with hamong | ⟨profile, pc, htask⟩
    · exact h k hamong (hcut.of_runs hr hpending hc)
    · -- the start that goes on is not the failed one
      have hdrive : w'.tasks t = some (.drive k profile pc) := by rw [htasks, if_pos rfl, htask]
      rcases hcut with ⟨u, err, r, hu, -⟩ | ⟨u, cs, err, hu, -⟩ <;>
      · obtain rfl := ht'.starter u t _ _ k hu hdrive rfl rfl
        rw [hdrive] at hu
        cases hu

theorem engaged_of_reach {ok : World → Label → Prop}
    (hpending : ∀ c cs, pending cs → pending (c :: cs)) (hjoins : JoinsDriven cfg among)
    (hok : ∀ w l, ok w l → ArmsUncut pending among w l)
    (hr : Reach (World.step cfg) World.Initial ok w) : Engaged pending among w :=
  hr.invariant (fun w h s _ hcut => by
      rcases hcut with ⟨t, _, _, ht, -⟩ | ⟨t, _, _, ht, -⟩ <;> rw [h.tasks] at ht <;> cases ht)
    fun _ _ _ hr h ho hs => h.step hpending hjoins (tracked_of_reach hr.any)
      (failsClosed_of_reach hr.any) (hok _ _ ho) hs

end Engaged

end Aegis.Orchestrator
