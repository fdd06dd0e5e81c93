import Aegis.Lib.Register
import Aegis.Orchestrator.Gate

/-! The command `config enforcement`: it reads the policy, applies its flags and sends the whole
policy back. Two such commands beside the running daemon. -/
namespace Aegis.Orchestrator
open Register Transition

inductive Toggle where
  | on
  | off
  deriving DecidableEq

def Toggle.isOn : Toggle → Bool
  | on => true
  | off => false

structure EnforcementArgs where
  vmIsolation : Option Toggle
  gateway : Option Toggle
  hostBrowser : Option Toggle

namespace EnforcementArgs

/-- No toggle was supplied: the command shows the policy only. -/
def isEmpty (a : EnforcementArgs) : Bool :=
  a.vmIsolation.isNone && a.gateway.isNone && a.hostBrowser.isNone

/-- Apply the supplied toggles over a policy; unset flags are left unchanged. -/
def apply (a : EnforcementArgs) (current : Enforcement) : Enforcement where
  requireVmIsolation := (a.vmIsolation.map Toggle.isOn).getD current.requireVmIsolation
  requireGateway := (a.gateway.map Toggle.isOn).getD current.requireGateway
  allowHostBrowser := (a.hostBrowser.map Toggle.isOn).getD current.allowHostBrowser

/-- Every supplied toggle is as the command set it. -/
structure In (a : EnforcementArgs) (e : Enforcement) : Prop where
  vmIsolation : ∀ t, a.vmIsolation = some t → e.requireVmIsolation = t.isOn
  gateway : ∀ t, a.gateway = some t → e.requireGateway = t.isOn
  hostBrowser : ∀ t, a.hostBrowser = some t → e.allowHostBrowser = t.isOn

/-- Both commands change something, and no toggle is changed by both. -/
structure Different (a b : EnforcementArgs) : Prop where
  left : a.isEmpty = false
  right : b.isEmpty = false
  vmIsolation : a.vmIsolation = none ∨ b.vmIsolation = none
  gateway : a.gateway = none ∨ b.gateway = none
  hostBrowser : a.hostBrowser = none ∨ b.hostBrowser = none

variable {a b : EnforcementArgs} {e : Enforcement}

theorem Different.symm (h : Different a b) : Different b a where
  left := h.right
  right := h.left
  vmIsolation := h.vmIsolation.symm
  gateway := h.gateway.symm
  hostBrowser := h.hostBrowser.symm

/-- A toggle is as it was set. -/
theorem toggle_set {x : Option Toggle} {old : Bool} :
    ∀ t, x = some t → (x.map Toggle.isOn).getD old = t.isOn := by
  rintro t rfl
  rfl

/-- Another command does not touch the toggle. -/
theorem toggle_kept {x y : Option Toggle} {old : Bool} (h : x = none ∨ y = none) :
    (∀ t, x = some t → (y.map Toggle.isOn).getD old = t.isOn) ↔
      ∀ t, x = some t → old = t.isOn := by
  rcases h with rfl | rfl
  · exact iff_of_true nofun nofun
  · exact Iff.rfl

theorem in_apply : a.In (a.apply e) := ⟨toggle_set, toggle_set, toggle_set⟩

/-- A command with other toggles leaves those of a command. -/
theorem Different.in_apply (h : Different a b) : a.In (b.apply e) ↔ a.In e := by
  refine ⟨fun ⟨hvm, hgw, hhost⟩ => ⟨?_, ?_, ?_⟩, fun ⟨hvm, hgw, hhost⟩ => ⟨?_, ?_, ?_⟩⟩
  · exact (toggle_kept h.vmIsolation).mp hvm
  · exact (toggle_kept h.gateway).mp hgw
  · exact (toggle_kept h.hostBrowser).mp hhost
  · exact (toggle_kept h.vmIsolation).mpr hvm
  · exact (toggle_kept h.gateway).mpr hgw
  · exact (toggle_kept h.hostBrowser).mpr hhost

end EnforcementArgs

/-- The daemon with the two commands. -/
structure Shell where
  world : World
  phase : Party → Phase Enforcement

/-- A command gets the policy or sends one; or the daemon takes another step. -/
inductive ShellOp where
  | getEnforcement (c : Party)
  | setEnforcement (c : Party)
  | daemon (l : Label)

/-- The request of a command. -/
def ShellOp.ask : ShellOp → Option Ask
  | getEnforcement c => some (.get c)
  | setEnforcement c => some (.set c)
  | daemon _ => none

namespace Shell

/-- `dispatch_set_enforcement`, request by request. Nothing else sets the policy. -/
def step (cfg : Wiring) (args : Party → EnforcementArgs) (s : Shell) : ShellOp → Option Shell
  | .getEnforcement c =>
    match s.phase c with
    | .idle => some
      { s with phase := Function.update s.phase c (.fetched s.world.enforcement) }
    | _ => none
  | .setEnforcement c =>
    match s.phase c with
    | .fetched current =>
      (s.world.step cfg (.setEnforcement ((args c).apply current))).map fun w =>
        ⟨w, Function.update s.phase c .done⟩
    | _ => none
  | .daemon (.setEnforcement _) => none
  | .daemon l => (s.world.step cfg l).map fun w => { s with world := w }

/-- The policy as a register. -/
def register (s : Shell) : Register.State Enforcement := ⟨s.world.enforcement, s.phase⟩

end Shell

section Runs

variable {cfg : Wiring} {args : Party → EnforcementArgs} {s s' : Shell} {ops : List ShellOp}

theorem World.commit_enforcement {w w' : World} {t : TaskId} {k : SessionId} {seg : Segment}
    (h : w.commit t k seg = some w') : w'.enforcement = w.enforcement :=
  (setTask_cases h).2.2.1

/-- Only a request to set the policy changes it. -/
theorem World.step_enforcement {w w' : World} {l : Label} (h : w.step cfg l = some w')
    (hl : ∀ e, l ≠ .setEnforcement e) : w'.enforcement = w.enforcement := by
  rcases step_cases h with ⟨e, rfl, -⟩ | ⟨op, k, -, -, -, rfl⟩ | ⟨op, g, -, -, -, rfl⟩ |
    ⟨t, task, -, hset⟩ | ⟨t, k, seg, -, hc⟩
  · exact absurd rfl (hl e)
  · rfl
  · rfl
  · exact (setTask_cases hset).2.2.1
  · exact commit_enforcement hc

theorem Shell.step_daemon {l : Label} (h : s.step cfg args (.daemon l) = some s') :
    s'.register = s.register := by
  have hstep : (∀ e, l ≠ .setEnforcement e) ∧
      (s.world.step cfg l).map (fun w => { s with world := w }) = some s' := by
    cases l with
    | setEnforcement e => cases h
    | _ => exact ⟨nofun, h⟩
  obtain ⟨w, hw, rfl⟩ := Option.map_eq_some_iff.mp hstep.2
  show Register.State.mk w.enforcement s.phase = ⟨s.world.enforcement, s.phase⟩
  rw [World.step_enforcement hw hstep.1]

/-- The requests of the commands step the register. -/
theorem Shell.step_ask {op : ShellOp} {ask : Ask} (h : s.step cfg args op = some s')
    (hask : op.ask = some ask) :
    Register.step (fun c => (args c).apply) s.register ask = some s'.register := by
  cases op with
  | getEnforcement c =>
    cases hask
    simp only [Shell.step] at h
    split at h
    next hc =>
      cases h
      simp [Register.step, Shell.register, hc]
    · cases h
  | setEnforcement c =>
    cases hask
    simp only [Shell.step] at h
    split at h
    next current hc =>
      cases h
      simp [Register.step, Shell.register, hc]
    · cases h
  | daemon l => cases hask

/-- Once both commands have set the policy it contains both changes exactly when one command came
after the other, or the one that set first changed nothing of the policy at the start. -/
theorem toggles_kept_iff (hdiff : (args .left).Different (args .right))
    (hinit : ∀ c, s.phase c = .idle) (hrun : exec (Shell.step cfg args) s ops = some s')
    (hdone : ∀ c, s'.phase c = .done) :
    ((args .left).In s'.world.enforcement ∧ (args .right).In s'.world.enforcement) ↔
      ∃ c d, c ≠ d ∧ (ops.filterMap ShellOp.ask = [.get c, .set c, .get d, .set d] ∨
        (ops.filterMap ShellOp.ask).getLast? = some (.set d) ∧
          (args c).In s.world.enforcement) := by
  have hstay (s : Shell) (op : ShellOp) (s' : Shell) (h : s.step cfg args op = some s')
      (hask : op.ask = none) : s'.register = s.register := by
    cases op with
    | daemon l => exact Shell.step_daemon h
    | _ => cases hask
  have hexec := exec_project Shell.register ShellOp.ask hstay
    (fun _ _ _ _ => Shell.step_ask) hrun
  have hidle : s.register = Register.initial s.world.enforcement := by
    rw [Shell.register, Register.initial, funext hinit]
  rw [hidle] at hexec
  obtain ⟨c, d, hcd, hcases⟩ := Register.outcome hexec hdone
  have hargs : (args c).Different (args d) := by
    cases c <;> cases d
    · exact absurd rfl hcd
    · exact hdiff
    · exact hdiff.symm
    · exact absurd rfl hcd
  have hboth : ((args .left).In s'.world.enforcement ∧ (args .right).In s'.world.enforcement) ↔
      ((args c).In s'.world.enforcement ∧ (args d).In s'.world.enforcement) := by
    cases c <;> cases d
    · exact absurd rfl hcd
    · exact Iff.rfl
    · exact and_comm
    · exact absurd rfl hcd
  rw [hboth]
  rcases hcases with ⟨hasks, hvalue⟩ | ⟨⟨gets, hperm, hasks⟩, hvalue⟩
  · change s'.world.enforcement = (args d).apply ((args c).apply s.world.enforcement) at hvalue
    rw [hvalue]
    refine iff_of_true ⟨?_, EnforcementArgs.in_apply⟩ ⟨c, d, hcd, .inl hasks⟩
    exact hargs.in_apply.mpr EnforcementArgs.in_apply
  · change s'.world.enforcement = (args d).apply s.world.enforcement at hvalue
    rw [hvalue, hargs.in_apply, hasks]
    constructor
    · rintro ⟨hin, -⟩
      exact ⟨c, d, hcd, .inr ⟨by simp, hin⟩⟩
    · rintro ⟨x, y, hxy, hserial | ⟨hlast, hin⟩⟩
      · -- both have read before the first writes
        have hlen : gets.length = 2 := hperm.length_eq
        have hgets : gets = [.get x, .set x] := by
          have := congrArg (List.take 2) hserial
          rwa [List.take_left' hlen] at this
        have hmem : Ask.set x ∈ gets := by simp [hgets]
        simpa using hperm.mem_iff.mp hmem
      · have hy : d = y := by simpa using hlast
        subst hy
        rcases Party.eq_or hcd x with rfl | rfl
        · exact ⟨hin, EnforcementArgs.in_apply⟩
        · exact absurd rfl hxy

end Runs

/-- One command permits the host browser, the other gives up the gateway. -/
def switches : Party → EnforcementArgs
  | .left => ⟨none, none, some .on⟩
  | .right => ⟨none, some .off, none⟩

theorem switches_different : (switches .left).Different (switches .right) :=
  ⟨rfl, rfl, .inl rfl, .inl rfl, .inr rfl⟩

/-- The two commands, beside a daemon that just booted. -/
def shell : Shell := ⟨booted, fun _ => .idle⟩

/-- One command comes after the other. -/
def serialOps : List ShellOp :=
  [.getEnforcement .left, .setEnforcement .left, .getEnforcement .right, .setEnforcement .right]

/-- Both commands read before the first one sets. -/
def racingOps : List ShellOp :=
  [.getEnforcement .left, .getEnforcement .right, .setEnforcement .left, .setEnforcement .right]

/-- One after the other, both commands take effect. -/
theorem toggles_kept_serial : ∃ s, exec (Shell.step daemon switches) shell serialOps = some s ∧
    (switches .left).In s.world.enforcement ∧ (switches .right).In s.world.enforcement :=
  ⟨_, rfl, (@toggles_kept_iff daemon switches shell _ serialOps switches_different (fun _ => rfl)
    rfl (by rintro (_ | _) <;> rfl)).mpr ⟨.left, .right, nofun, .inl rfl⟩⟩

/-- In a race, the switch that permits the host browser is undone by a command that never
touched it. -/
theorem switch_lost : ∃ s, exec (Shell.step daemon switches) shell racingOps = some s ∧
    (∀ c, s.phase c = .done) ∧ ¬ (switches .left).In s.world.enforcement := by
  refine ⟨_, rfl, by rintro (_ | _) <;> rfl, fun h => ?_⟩
  exact absurd (h.hostBrowser .on rfl) (by decide)

end Aegis.Orchestrator
