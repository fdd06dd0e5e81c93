import Aegis.Core.Base
import Aegis.Lib.Transition
import Mathlib.Data.List.Basic

/-! The runner of browsers on the host: processes come and go under it, their pids are used again
once they are reaped, and its table of children is keyed by the pid. -/
namespace Aegis
open Transition

structure LaunchSpec where
  program : String
  args : List String
  env : List (String × String)

/-- A child that has exited stays a zombie until it is waited for. -/
inductive ProcessStatus where
  | running
  | exited
  | reaped
  deriving DecidableEq

/-- A process that the runner spawned; its place in the list of all of them is the launch. -/
structure HostProcess where
  pid : ℕ
  program : String
  args : List String
  env : List (String × String)
  status : ProcessStatus

namespace HostProcess

/-- The pid as a string. -/
def token (p : HostProcess) : String := toString p.pid

theorem token_inj {p q : HostProcess} (h : p.token = q.token) : p.pid = q.pid := by
  have hdigits : Nat.toDigits 10 p.pid = Nat.toDigits 10 q.pid := by
    rw [← Nat.toList_repr, ← Nat.toList_repr]
    exact congrArg String.toList h
  rw [← Nat.ofDigitChars_ten_toDigits (n := p.pid), hdigits, Nat.ofDigitChars_ten_toDigits]

/-- `Child::try_wait`: whether the process has exited, and what is left of it. The status of a child
that was waited for is kept in its handle. -/
def tryWait (p : HostProcess) (failure : Option String) : Except String Bool × ProcessStatus :=
  match p.status, failure with
  | .reaped, _ => (.ok true, .reaped)
  | status, some e => (.error e, status)
  | .exited, none => (.ok true, .reaped)
  | .running, none => (.ok false, .running)

end HostProcess

/-- Where a call of `stop` is that has taken the child out of the table. -/
inductive StopPhase where
  | polling
  | killing
  | waiting
  deriving DecidableEq

structure Stopping where
  token : String
  child : ℕ
  phase : StopPhase

/-- What the calls did: how they returned, which process an answer was about, which running process
was killed, and which one lost its entry in the table, to a `stop` with a token or to an insert. -/
inductive RunnerEvent where
  | launched (child : ℕ) (token : String)
  | launchFailed (error : Error)
  | answered (token : String) (child : Option ℕ) (result : Except Error Bool)
  | unlisted (child : ℕ) (token : Option String)
  | killed (token : String) (child : ℕ)
  | stopped (token : String) (result : Except Error Unit)

/-- A step of a call, of a process, or of the runtime that waits for children whose handle was
dropped. The operating system chooses the pid, and which of its calls fail. -/
inductive RunnerOp where
  | spawn (spec : LaunchSpec) (outcome : Except String ℕ)
  | insert (child : ℕ) (hasId : Bool)
  | exit (child : ℕ)
  | isRunning (token : String) (failure : Option String)
  | stop (call : ℕ) (token : String)
  | poll (call : ℕ) (failure : Option String)
  | kill (call : ℕ) (failure : Option String)
  | wait (call : ℕ) (failure : Option String)
  | cancel (call : ℕ)
  | reapOrphan (child : ℕ)

/-- The runner with the processes it spawned, those of them that a `start` has yet to insert, the
calls of `stop` under way, the children whose handle is gone, and what happened, newest first. -/
structure HostBrowserRunner where
  binary : String
  processes : List HostProcess
  starting : List ℕ
  children : String → Option ℕ
  stopping : ℕ → Option Stopping
  orphans : List ℕ
  log : List RunnerEvent

namespace HostBrowserRunner

def withBinary (binary : String) : HostBrowserRunner where
  binary := binary
  processes := []
  starting := []
  children _ := none
  stopping _ := none
  orphans := []
  log := []

variable (s : HostBrowserRunner)

def status (j : ℕ) : Option ProcessStatus := s.processes[j]?.map HostProcess.status

def setStatus (j : ℕ) (status : ProcessStatus) : HostBrowserRunner :=
  { s with processes := s.processes.modify j fun p => { p with status := status } }

def setStopping (call : ℕ) (w : Option Stopping) : HostBrowserRunner :=
  { s with stopping := Function.update s.stopping call w }

/-- A child is not killed when its handle is dropped; the runtime waits for it. -/
def dropHandle (j : ℕ) : HostBrowserRunner := { s with orphans := j :: s.orphans }

def record (es : List RunnerEvent) : HostBrowserRunner := { s with log := es ++ s.log }

def tryWait (j : ℕ) (failure : Option String) : Option (Except String Bool × HostBrowserRunner) :=
  s.processes[j]?.map fun p => ((p.tryWait failure).1, s.setStatus j (p.tryWait failure).2)

/-- What is told of the entry under a token when it leaves the table. -/
def loss (token : String) (cause : Option String) : List RunnerEvent :=
  match s.children token with
  | some j => if s.status j = some .running then [.unlisted j cause] else []
  | none => []

/-! ### The calls -/

/-- `start` up to the spawn. A pid is free once its process is reaped. -/
def spawn (spec : LaunchSpec) : Except String ℕ → Option HostBrowserRunner
  | .error e => some (s.record [.launchFailed (.system ("failed to launch host browser: " ++ e))])
  | .ok pid =>
    if ∀ p ∈ s.processes, p.pid = pid → p.status = .reaped then
      some { s with
        processes := s.processes ++ [⟨pid, s.binary, spec.args, spec.env, .running⟩]
        starting := s.processes.length :: s.starting }
    else none

/-- The rest of `start`. An entry that the table has under the token is dropped. -/
def insert (j : ℕ) (hasId : Bool) : Option HostBrowserRunner :=
  if j ∈ s.starting then
    s.processes[j]?.map fun p =>
      if hasId then { s with
        starting := s.starting.filter (· ≠ j)
        children := Function.update s.children p.token (some j)
        orphans := (s.children p.token).toList ++ s.orphans
        log := .launched j p.token :: (s.loss p.token none ++ s.log) }
      else { s with
        starting := s.starting.filter (· ≠ j)
        orphans := j :: s.orphans
        log := .launchFailed (.system "host browser exited before yielding a pid") :: s.log }
  else none

def answer : Except String Bool → Except Error Bool
  | .ok hasExited => .ok !hasExited
  | .error e => .error (.system ("failed to poll host browser: " ++ e))

/-- `is_running`: a child that has exited is reaped and stays in the table. -/
def isRunning (token : String) (failure : Option String) : Option HostBrowserRunner :=
  match s.children token with
  | none => some (s.record
      [.answered token none (.error (.notFound ("unknown process token: " ++ token)))])
  | some j => (s.tryWait j failure).map fun (r, t) =>
      t.record [.answered token (some j) (answer r)]

/-- `stop` up to the removal from the table. -/
def stop (call : ℕ) (token : String) : Option HostBrowserRunner :=
  match s.stopping call, s.children token with
  | some _, _ => none
  | none, none => some (s.record [.stopped token (.ok ())])
  | none, some j => some { s with
      children := Function.update s.children token none
      stopping := Function.update s.stopping call (some ⟨token, j, .polling⟩)
      log := s.loss token (some token) ++ s.log }

/-- `stop` finds out whether the child has exited. A poll that fails counts as no. -/
def poll (call : ℕ) (failure : Option String) : Option HostBrowserRunner :=
  match s.stopping call with
  | some ⟨token, j, .polling⟩ => (s.tryWait j failure).map fun
    | (.ok true, t) => (t.setStopping call none).record [.stopped token (.ok ())]
    | (_, t) => t.setStopping call (some ⟨token, j, .killing⟩)
  | _ => none

def terminationFailed (call : ℕ) (token : String) (j : ℕ) (e : String) : HostBrowserRunner :=
  ((s.setStopping call none).dropHandle j).record
    [.stopped token (.error (.system ("failed to terminate host browser: " ++ e)))]

def kill (call : ℕ) (failure : Option String) : Option HostBrowserRunner :=
  match s.stopping call with
  | some ⟨token, j, .killing⟩ =>
    match failure with
    | some e => some (s.terminationFailed call token j e)
    | none =>
      if s.status j = some .running then
        some (((s.setStatus j .exited).setStopping call (some ⟨token, j, .waiting⟩)).record
          [.killed token j])
      else some (s.setStopping call (some ⟨token, j, .waiting⟩))
  | _ => none

def wait (call : ℕ) (failure : Option String) : Option HostBrowserRunner :=
  match s.stopping call with
  | some ⟨token, j, .waiting⟩ =>
    match failure with
    | some e => some (s.terminationFailed call token j e)
    | none =>
      if s.status j = some .exited then
        some (((s.setStatus j .reaped).setStopping call none).record [.stopped token (.ok ())])
      else none
  | _ => none

def step : RunnerOp → Option HostBrowserRunner
  | .spawn spec outcome => s.spawn spec outcome
  | .insert j hasId => s.insert j hasId
  | .exit j => if s.status j = some .running then some (s.setStatus j .exited) else none
  | .isRunning token failure => s.isRunning token failure
  | .stop call token => s.stop call token
  | .poll call failure => s.poll call failure
  | .kill call failure => s.kill call failure
  | .wait call failure => s.wait call failure
  | .cancel call =>
    match s.stopping call with
    | some ⟨_, j, .waiting⟩ => some ((s.setStopping call none).dropHandle j)
    | _ => none
  | .reapOrphan j =>
    if j ∈ s.orphans ∧ s.status j = some .exited then some (s.setStatus j .reaped) else none

/-! ### What the table, the calls and the processes agree on -/

/-- Every handle under a token is that of a launch that returned the token, and of the processes
with one pid at most one is left to be waited for. -/
structure Consistent (s : HostBrowserRunner) : Prop where
  listed : ∀ token j, s.children token = some j → .launched j token ∈ s.log
  held : ∀ call w, s.stopping call = some w → .launched w.child w.token ∈ s.log
  launched : ∀ j token, .launched j token ∈ s.log →
    ∃ p, s.processes[j]? = some p ∧ p.token = token
  starting : ∀ j ∈ s.starting, (∃ p, s.processes[j]? = some p ∧ p.status ≠ .reaped) ∧
    j ∉ s.orphans ∧ ∀ token, .launched j token ∉ s.log
  orphans : ∀ j ∈ s.orphans, j < s.processes.length
  alone : ∀ (i j : ℕ) (p q : HostProcess), s.processes[i]? = some p → s.processes[j]? = some q →
    p.pid = q.pid → p.status ≠ .reaped → q.status ≠ .reaped → i = j

variable {s} {s' : HostBrowserRunner}

@[simp] theorem setStatus_processes (i j : ℕ) (status : ProcessStatus) :
    (s.setStatus j status).processes[i]? =
      s.processes[i]?.map fun p => if j = i then { p with status := status } else p := by
  show (s.processes.modify j _)[i]? = _
  rw [List.getElem?_modify]
  split <;> rfl

namespace Consistent

theorem withBinary (binary : String) : Consistent (withBinary binary) where
  listed _ _ h := nomatch h
  held _ _ h := nomatch h
  launched _ _ h := nomatch h
  starting _ h := nomatch h
  orphans _ h := nomatch h
  alone _ _ _ _ h := nomatch h

variable (h : s.Consistent)
include h

theorem exists_of_launched {j : ℕ} {token : String} (hj : .launched j token ∈ s.log) :
    j < s.processes.length := by
  obtain ⟨p, hp, -⟩ := h.launched j token hj
  exact (List.getElem?_eq_some_iff.mp hp).1

theorem not_starting {j : ℕ} {token : String} (hj : .launched j token ∈ s.log) :
    j ∉ s.starting := fun hstarting => (h.starting j hstarting).2.2 token hj

/-- A status moves on and never back from reaped; a process yet to be inserted is not reaped. -/
theorem setStatus {j : ℕ} {status : ProcessStatus} (hj : status = .reaped → j ∉ s.starting)
    (hkeep : s.status j = some .reaped → status = .reaped) : (s.setStatus j status).Consistent := by
  have hback : ∀ (i : ℕ) (p : HostProcess), (s.setStatus j status).processes[i]? =
      some p → ∃ q, s.processes[i]? = some q ∧
      q.pid = p.pid ∧ (p.status ≠ .reaped → q.status ≠ .reaped) := by
    intro i p hp
    rw [setStatus_processes, Option.map_eq_some_iff] at hp
    obtain ⟨q, hq, rfl⟩ := hp
    refine ⟨q, hq, by split <;> rfl, ?_⟩
    split
    · rename_i hij
      intro hstatus hreaped
      subst hij
      exact hstatus (hkeep (by rw [HostBrowserRunner.status, hq, Option.map_some, hreaped]))
    · exact id
  refine ⟨h.listed, h.held, fun i token hi => ?_, fun i hi => ?_, fun i hi => ?_, ?_⟩
  · obtain ⟨p, hp, htoken⟩ := h.launched i token hi
    refine ⟨_, by rw [setStatus_processes, hp, Option.map_some], ?_⟩
    split <;> exact htoken
  · obtain ⟨⟨p, hp, hstatus⟩, hi'⟩ := h.starting i hi
    refine ⟨⟨_, by rw [setStatus_processes, hp, Option.map_some], ?_⟩, hi'⟩
    split
    · rename_i hij
      subst hij
      exact fun hreaped => hj hreaped hi
    · exact hstatus
  · have hlength : (s.setStatus j status).processes.length = s.processes.length :=
      List.length_modify _ _ _
    rw [hlength]
    exact h.orphans i hi
  · intro i k p q hp hq hpid hpstatus hqstatus
    obtain ⟨p', hp', hpid', hplive⟩ := hback i p hp
    obtain ⟨q', hq', hqid', hqlive⟩ := hback k q hq
    exact h.alone i k p' q' hp' hq' (by rw [hpid', hqid', hpid]) (hplive hpstatus) (hqlive hqstatus)

theorem record {es : List RunnerEvent} (hes : ∀ j token, .launched j token ∉ es) :
    (s.record es).Consistent where
  listed token j hj := List.mem_append_right es (h.listed token j hj)
  held call w hw := List.mem_append_right es (h.held call w hw)
  launched j token hj := h.launched j token ((List.mem_append.mp hj).resolve_left (hes j token))
  starting j hj := by
    obtain ⟨hp, horphan, hlaunched⟩ := h.starting j hj
    exact ⟨hp, horphan, fun token hmem =>
      hlaunched token ((List.mem_append.mp hmem).resolve_left (hes j token))⟩
  orphans := h.orphans
  alone := h.alone

theorem setStopping (call : ℕ) (w : Option Stopping)
    (hw : ∀ w' ∈ w, .launched w'.child w'.token ∈ s.log) : (s.setStopping call w).Consistent where
  listed := h.listed
  held other w' hother := by
    by_cases hcall : other = call
    · subst hcall
      exact hw w' (by simpa [HostBrowserRunner.setStopping] using hother)
    · exact h.held other w' (by simpa [HostBrowserRunner.setStopping, hcall] using hother)
  launched := h.launched
  starting := h.starting
  orphans := h.orphans
  alone := h.alone

theorem dropHandle {j : ℕ} {token : String} (hj : .launched j token ∈ s.log) :
    (s.dropHandle j).Consistent where
  listed := h.listed
  held := h.held
  launched := h.launched
  starting i hi := by
    obtain ⟨hp, horphan, hlaunched⟩ := h.starting i hi
    refine ⟨hp, ?_, hlaunched⟩
    rw [HostBrowserRunner.dropHandle, List.mem_cons, not_or]
    exact ⟨fun he => hlaunched token (he ▸ hj), horphan⟩
  orphans i hi := by
    rcases List.mem_cons.mp hi with rfl | hi
    · exact h.exists_of_launched hj
    · exact h.orphans i hi
  alone := h.alone

theorem spawn {spec : LaunchSpec} {outcome : Except String ℕ}
    (hs : s.spawn spec outcome = some s') : s'.Consistent := by
  cases outcome with
  | error e =>
    cases hs
    exact h.record (by simp)
  | ok pid =>
    simp only [HostBrowserRunner.spawn] at hs
    split_ifs at hs with hfree
    cases hs
    have hold : ∀ (i : ℕ) (p : HostProcess), s.processes[i]? = some p →
        (s.processes ++ [⟨pid, s.binary, spec.args, spec.env, .running⟩])[i]? = some p := by
      intro i p hp
      rw [List.getElem?_append_left (List.getElem?_eq_some_iff.mp hp).1, hp]
    have hcases : ∀ (i : ℕ) (p : HostProcess),
        (s.processes ++ [⟨pid, s.binary, spec.args, spec.env, .running⟩])[i]? = some p →
          s.processes[i]? = some p ∨ i = s.processes.length ∧ p.pid = pid := by
      intro i p hp
      rw [List.getElem?_append] at hp
      split at hp
      · exact .inl hp
      · obtain ⟨hlast, hp⟩ := List.getElem?_eq_some_iff.mp hp
        rw [List.length_singleton] at hlast
        rw [List.getElem_singleton] at hp
        exact .inr ⟨by omega, by rw [← hp]⟩
    refine ⟨h.listed, h.held, fun i token hi => ?_, fun i hi => ?_, fun i hi => ?_, ?_⟩
    · obtain ⟨p, hp, htoken⟩ := h.launched i token hi
      exact ⟨p, hold i p hp, htoken⟩
    · rcases List.mem_cons.mp hi with rfl | hi
      · have hnew : s.processes.length ∉ s.orphans := fun horphan =>
          absurd (h.orphans _ horphan) (lt_irrefl _)
        refine ⟨⟨_, List.getElem?_concat_length, by simp⟩, hnew, fun token hlaunched => ?_⟩
        exact absurd (h.exists_of_launched hlaunched) (lt_irrefl _)
      · obtain ⟨⟨p, hp, hstatus⟩, hrest⟩ := h.starting i hi
        exact ⟨⟨p, hold i p hp, hstatus⟩, hrest⟩
    · have hlt := h.orphans i hi
      simp only [List.length_append, List.length_singleton]
      omega
    · intro i j p q hp hq hpid hplive hqlive
      rcases hcases i p hp with hp | ⟨hi, hppid⟩ <;> rcases hcases j q hq with hq | ⟨hj, hqpid⟩
      · exact h.alone i j p q hp hq hpid hplive hqlive
      · exact absurd (hfree p (List.mem_of_getElem? hp) (hpid.trans hqpid)) hplive
      · exact absurd (hfree q (List.mem_of_getElem? hq) (hpid.symm.trans hppid)) hqlive
      · rw [hi, hj]

/-- The entry that an insert drops belongs to a process that is reaped. -/
theorem loss_insert {j : ℕ} {p : HostProcess} (hj : j ∈ s.starting) (hp : s.processes[j]? = some p)
    (cause : Option String) : s.loss p.token cause = [] := by
  obtain ⟨⟨p', hp', hlive⟩, -, hfresh⟩ := h.starting j hj
  obtain rfl : p = p' := by
    rw [hp] at hp'
    exact Option.some.inj hp'
  rw [loss]
  split
  · rename_i i hi
    have hlaunched := h.listed _ i hi
    obtain ⟨q, hq, htoken⟩ := h.launched i _ hlaunched
    refine if_neg fun hrunning => hfresh p.token ?_
    rw [status, hq, Option.map_some, Option.some.injEq] at hrunning
    have hij : i = j :=
      h.alone i j q p hq hp (HostProcess.token_inj htoken) (by rw [hrunning]; decide) hlive
    exact hij ▸ hlaunched
  · rfl

theorem insert {j : ℕ} {hasId : Bool} (hs : s.insert j hasId = some s') : s'.Consistent := by
  obtain ⟨hj, hs⟩ := Option.ite_none_right_eq_some.mp hs
  obtain ⟨p, hp, hs⟩ := Option.map_eq_some_iff.mp hs
  have hne : ∀ i ∈ s.starting.filter (· ≠ j), i ∈ s.starting ∧ i ≠ j := fun i hi => by
    simpa using hi
  cases hasId with
  | false =>
    cases hs
    refine ⟨fun token i hi => List.mem_cons_of_mem _ (h.listed token i hi),
      fun call w hw => List.mem_cons_of_mem _ (h.held call w hw), fun i token hi => ?_,
      fun i hi => ?_, fun i hi => ?_, h.alone⟩
    · exact h.launched i token (by simpa using hi)
    · obtain ⟨hi, hij⟩ := hne i hi
      obtain ⟨hp, horphan, hlaunched⟩ := h.starting i hi
      exact ⟨hp, by simpa [hij] using horphan, by simpa using hlaunched⟩
    · rcases List.mem_cons.mp hi with rfl | hi
      · exact (List.getElem?_eq_some_iff.mp hp).1
      · exact h.orphans i hi
  | true =>
    rw [if_pos rfl, h.loss_insert hj hp, List.nil_append] at hs
    cases hs
    refine ⟨fun token i hi => ?_, fun call w hw => List.mem_cons_of_mem _ (h.held call w hw),
      fun i token hi => ?_, fun i hi => ?_, fun i hi => ?_, h.alone⟩
    · by_cases htoken : token = p.token
      · subst htoken
        obtain rfl : j = i := by simpa using hi
        exact List.mem_cons_self
      · exact List.mem_cons_of_mem _ (h.listed token i (by simpa [htoken] using hi))
    · rcases List.mem_cons.mp hi with he | hi
      · cases he
        exact ⟨p, hp, rfl⟩
      · exact h.launched i token hi
    · obtain ⟨hi, hij⟩ := hne i hi
      obtain ⟨hlive, horphan, hlaunched⟩ := h.starting i hi
      refine ⟨hlive, fun hmem => ?_, fun token hmem => ?_⟩
      · rcases List.mem_append.mp hmem with hmem | hmem
        · exact hlaunched _ (h.listed _ i (by simpa using hmem))
        · exact horphan hmem
      · rcases List.mem_cons.mp hmem with he | hmem
        · cases he
          exact hij rfl
        · exact hlaunched token hmem
    · rcases List.mem_append.mp hi with hi | hi
      · exact h.exists_of_launched (h.listed _ i (by simpa using hi))
      · exact h.orphans i hi

/-- A process with a handle out of `start` may be reaped. -/
theorem reap {j : ℕ} (hj : j ∉ s.starting) : (s.setStatus j .reaped).Consistent :=
  h.setStatus (fun _ => hj) fun _ => rfl

theorem exit {j : ℕ} (hrunning : s.status j = some .running) : (s.setStatus j .exited).Consistent :=
  h.setStatus (nofun) fun hreaped => by
    rw [hrunning] at hreaped
    cases hreaped

theorem tryWait {j : ℕ} {token : String} {failure : Option String} {r : Except String Bool}
    (hj : .launched j token ∈ s.log) (hs : s.tryWait j failure = some (r, s')) :
    s'.Consistent ∧ s'.log = s.log := by
  obtain ⟨p, hp, hs⟩ := Option.map_eq_some_iff.mp hs
  cases hs
  refine ⟨h.setStatus (fun _ => h.not_starting hj) fun hreaped => ?_, rfl⟩
  have hstatus : p.status = .reaped := by
    rw [status, hp, Option.map_some, Option.some.injEq] at hreaped
    exact hreaped
  simp only [HostProcess.tryWait, hstatus]

theorem isRunning {token : String} {failure : Option String}
    (hs : s.isRunning token failure = some s') : s'.Consistent := by
  rw [HostBrowserRunner.isRunning] at hs
  split at hs
  · cases hs
    exact h.record (by simp)
  · rename_i j hj
    obtain ⟨⟨r, t⟩, hwait, hs⟩ := Option.map_eq_some_iff.mp hs
    cases hs
    exact (h.tryWait (h.listed token j hj) hwait).1.record (by simp)

theorem stop {call : ℕ} {token : String} (hs : s.stop call token = some s') : s'.Consistent := by
  rw [HostBrowserRunner.stop] at hs
  split at hs
  · cases hs
  · cases hs
    exact h.record (by simp)
  · rename_i j hnone hj
    cases hs
    have hloss : ∀ i other, .launched i other ∉ s.loss token (some token) := by
      intro i other hmem
      rw [loss, hj] at hmem
      split at hmem <;> simp at hmem
    have hstopping := (h.record hloss).setStopping call (some ⟨token, j, .polling⟩) (by
      rintro w ⟨⟩
      exact List.mem_append_right _ (h.listed token j hj))
    refine { hstopping with listed := fun other i hi => ?_ }
    by_cases hother : other = token
    · subst hother
      simp at hi
    · have hi : s.children other = some i := by simpa [hother] using hi
      exact hstopping.listed other i hi

theorem terminationFailed {call : ℕ} {token : String} {j : ℕ} (hj : .launched j token ∈ s.log)
    (e : String) : (s.terminationFailed call token j e).Consistent := by
  have hstopping := h.setStopping call none (by simp)
  exact (hstopping.dropHandle hj).record (by simp)

theorem step {op : RunnerOp} (hs : s.step op = some s') : s'.Consistent := by
  cases op with
  | spawn spec outcome => exact h.spawn hs
  | insert j hasId => exact h.insert hs
  | exit j =>
    obtain ⟨hrunning, hs⟩ := Option.ite_none_right_eq_some.mp hs
    cases hs
    exact h.exit hrunning
  | isRunning token failure => exact h.isRunning hs
  | stop call token => exact h.stop hs
  | poll call failure =>
    simp only [HostBrowserRunner.step, poll] at hs
    split at hs
    · rename_i token j hcall
      have hj := h.held call _ hcall
      obtain ⟨⟨r, t⟩, hwait, hs⟩ := Option.map_eq_some_iff.mp hs
      obtain ⟨ht, hlog⟩ := h.tryWait hj hwait
      have hkilling := ht.setStopping call (some ⟨token, j, .killing⟩) (by
        rintro w ⟨⟩
        rw [hlog]
        exact hj)
      have hdone := ht.setStopping call none (by simp)
      split at hs
      · rename_i heq
        cases heq
        cases hs
        exact hdone.record (by simp)
      · rename_i heq
        cases heq
        cases hs
        exact hkilling
    · cases hs
  | kill call failure =>
    simp only [HostBrowserRunner.step, kill] at hs
    split at hs
    · rename_i token j hcall
      have hj := h.held call _ hcall
      split at hs
      · cases hs
        exact h.terminationFailed hj _
      · split_ifs at hs with hrunning
        · cases hs
          have hwaiting := (h.exit hrunning).setStopping call (some ⟨token, j, .waiting⟩)
            (by rintro w ⟨⟩; exact hj)
          exact hwaiting.record (by simp)
        · cases hs
          exact h.setStopping call _ (by rintro w ⟨⟩; exact hj)
    · cases hs
  | wait call failure =>
    simp only [HostBrowserRunner.step, wait] at hs
    split at hs
    · rename_i token j hcall
      have hj := h.held call _ hcall
      split at hs
      · cases hs
        exact h.terminationFailed hj _
      · obtain ⟨hexited, hs⟩ := Option.ite_none_right_eq_some.mp hs
        cases hs
        have hreaped := (h.reap (h.not_starting hj)).setStopping call none (by simp)
        exact hreaped.record (by simp)
    · cases hs
  | cancel call =>
    simp only [HostBrowserRunner.step] at hs
    split at hs
    · rename_i token j hcall
      cases hs
      exact (h.setStopping call none (by simp)).dropHandle (h.held call _ hcall)
    · cases hs
  | reapOrphan j =>
    obtain ⟨⟨horphan, -⟩, hs⟩ := Option.ite_none_right_eq_some.mp hs
    cases hs
    exact h.reap fun hstarting => (h.starting j hstarting).2.1 horphan

end Consistent

end HostBrowserRunner

/-! ### Which process a call reaches -/

/-- A call with the token of a launch answers for and kills that launch's process alone, and a
running process is unlisted by no call but a `stop` with the token its own launch returned. -/
def RunnerEvent.Addressed (earlier : List RunnerEvent) : RunnerEvent → Prop
  | .answered token (some j) _ | .killed token j => ∀ k, .launched k token ∈ earlier → k = j
  | .unlisted j (some token) => .launched j token ∈ earlier
  | .unlisted _ none => False
  | _ => True

namespace HostBrowserRunner

/-- Every event was as it should be when it happened. -/
def Addressed : List RunnerEvent → Prop
  | [] => True
  | e :: es => e.Addressed es ∧ Addressed es

/-- No two launches have returned the token. -/
def Unshared (s : HostBrowserRunner) (token : String) : Prop :=
  ∀ i j, .launched i token ∈ s.log → .launched j token ∈ s.log → i = j

/-- The step does not answer or kill by a token that two launches have returned. -/
def OwnToken (s : HostBrowserRunner) : RunnerOp → Prop
  | .isRunning token _ => (s.children token).isSome → s.Unshared token
  | .kill call none => ∀ w, s.stopping call = some w → s.status w.child = some .running →
      s.Unshared w.token
  | _ => True

variable {s s' : HostBrowserRunner}

/-- A process that holds the token is the only one that any launch with the token made. -/
theorem unshared_iff {token : String} {j : ℕ} (hj : .launched j token ∈ s.log) :
    (∀ k, .launched k token ∈ s.log → k = j) ↔ s.Unshared token := by
  constructor
  · intro h i k hi hk
    rw [h i hi, h k hk]
  · intro h k hk
    exact h k j hk hj

theorem addressed_isRunning (h : s.Consistent) {token : String} {failure : Option String}
    (hs : s.isRunning token failure = some s') :
    Addressed s'.log ↔ Addressed s.log ∧ ((s.children token).isSome → s.Unshared token) := by
  rw [isRunning] at hs
  split at hs
  · rename_i hnone
    cases hs
    simp [hnone, record, Addressed, RunnerEvent.Addressed]
  · rename_i j hj
    obtain ⟨⟨r, t⟩, hwait, hs⟩ := Option.map_eq_some_iff.mp hs
    cases hs
    have hlaunched := h.listed token j hj
    show _ ∧ Addressed t.log ↔ _
    rw [(h.tryWait hlaunched hwait).2, hj, ← unshared_iff hlaunched, and_comm]
    exact and_congr_right fun _ => ⟨fun h _ => h, fun h => h rfl⟩

theorem addressed_kill (h : s.Consistent) {call : ℕ} {failure : Option String}
    (hs : s.kill call failure = some s') :
    Addressed s'.log ↔ Addressed s.log ∧ s.OwnToken (.kill call failure) := by
  rw [kill] at hs
  split at hs
  · rename_i token j hcall
    have hj := h.held call _ hcall
    split at hs
    · cases hs
      exact ⟨fun ha => ⟨ha.2, trivial⟩, fun ha => ⟨trivial, ha.1⟩⟩
    · simp only [OwnToken, hcall, Option.some.injEq, forall_eq']
      split_ifs at hs with hrunning
      · cases hs
        rw [← unshared_iff hj, and_comm]
        exact and_congr_left fun _ => ⟨fun h _ => h, fun h => h hrunning⟩
      · cases hs
        exact (and_iff_left fun h => absurd h hrunning).symm
  · cases hs

theorem addressed_stop (h : s.Consistent) {call : ℕ} {token : String}
    (hs : s.stop call token = some s') : Addressed s'.log ↔ Addressed s.log := by
  rw [stop] at hs
  split at hs
  · cases hs
  · cases hs
    exact and_iff_right trivial
  · rename_i j _ hj
    cases hs
    show Addressed (s.loss token (some token) ++ s.log) ↔ _
    simp only [loss, hj]
    split
    · exact and_iff_right (h.listed token j hj)
    · exact Iff.rfl

/-- A step keeps every event as it should be exactly when it goes by a token that is not shared. -/
theorem addressed_step (h : s.Consistent) {op : RunnerOp} (hs : s.step op = some s') :
    Addressed s'.log ↔ Addressed s.log ∧ s.OwnToken op := by
  cases op with
  | spawn spec outcome =>
    have hlog : Addressed s'.log ↔ Addressed s.log := by
      cases outcome with
      | error e =>
        cases hs
        exact and_iff_right trivial
      | ok pid =>
        obtain ⟨-, hs⟩ := Option.ite_none_right_eq_some.mp hs
        cases hs
        exact Iff.rfl
    exact hlog.trans (and_iff_left trivial).symm
  | insert j hasId =>
    obtain ⟨hj, hs⟩ := Option.ite_none_right_eq_some.mp hs
    obtain ⟨p, hp, hs⟩ := Option.map_eq_some_iff.mp hs
    rw [h.loss_insert hj hp] at hs
    have hlog : Addressed s'.log ↔ Addressed s.log := by
      cases hasId <;> cases hs <;> exact and_iff_right trivial
    exact hlog.trans (and_iff_left trivial).symm
  | exit j =>
    obtain ⟨-, hs⟩ := Option.ite_none_right_eq_some.mp hs
    cases hs
    exact (and_iff_left trivial).symm
  | isRunning token failure => exact addressed_isRunning h hs
  | stop call token => exact (addressed_stop h hs).trans (and_iff_left trivial).symm
  | poll call failure =>
    have hlog : Addressed s'.log ↔ Addressed s.log := by
      simp only [step, poll] at hs
      split at hs
      · rename_i token j hcall
        obtain ⟨⟨r, t⟩, hwait, hs⟩ := Option.map_eq_some_iff.mp hs
        rw [← (h.tryWait (h.held call _ hcall) hwait).2]
        split at hs <;> rename_i heq <;> cases heq <;> cases hs
        · exact and_iff_right trivial
        · exact Iff.rfl
      · cases hs
    exact hlog.trans (and_iff_left trivial).symm
  | kill call failure => exact addressed_kill h hs
  | wait call failure =>
    have hlog : Addressed s'.log ↔ Addressed s.log := by
      simp only [step, wait] at hs
      split at hs
      · split at hs
        · cases hs
          exact and_iff_right trivial
        · obtain ⟨-, hs⟩ := Option.ite_none_right_eq_some.mp hs
          cases hs
          exact and_iff_right trivial
      · cases hs
    exact hlog.trans (and_iff_left trivial).symm
  | cancel call =>
    simp only [step] at hs
    split at hs
    · cases hs
      exact (and_iff_left trivial).symm
    · cases hs
  | reapOrphan j =>
    obtain ⟨-, hs⟩ := Option.ite_none_right_eq_some.mp hs
    cases hs
    exact (and_iff_left trivial).symm

/-- In a run of the runner every call reaches the right process exactly as long as no call answers
or kills by a token that two launches have returned. -/
theorem addressed_iff_ownToken {binary : String} {ops : List RunnerOp}
    (hs : exec step (withBinary binary) ops = some s) :
    Addressed s.log ↔ Steps step OwnToken (withBinary binary) ops := by
  have hrun := exec_iff_steps (fun _ _ _ h hs => Consistent.step h hs)
    (fun _ _ _ h hs => addressed_step h hs) (Consistent.withBinary binary) hs
  exact hrun.trans (and_iff_right trivial)

/-- Two browsers side by side, the first of them stopped by its token. -/
def twoBrowsers : List RunnerOp :=
  [.spawn ⟨"chromium", [], []⟩ (.ok 41), .insert 0 true, .spawn ⟨"chromium", [], []⟩ (.ok 42),
    .insert 1 true, .stop 0 "41", .poll 0 none, .kill 0 none, .wait 0 none, .isRunning "42" none]

theorem addressed_iff_ownToken_two :
    ∃ s, exec step (withBinary "/usr/bin/firefox") twoBrowsers = some s ∧
      s.log = [.answered "42" (some 1) (.ok true), .stopped "41" (.ok ()), .killed "41" 0,
        .unlisted 0 (some "41"), .launched 1 "42", .launched 0 "41"] ∧
      (Addressed s.log ↔ Steps step OwnToken (withBinary "/usr/bin/firefox") twoBrowsers) := by
  have hlog : (exec step (withBinary "/usr/bin/firefox") twoBrowsers).map (·.log) = some
      [.answered "42" (some 1) (.ok true), .stopped "41" (.ok ()), .killed "41" 0,
        .unlisted 0 (some "41"), .launched 1 "42", .launched 0 "41"] := rfl
  obtain ⟨s, hs, hlog⟩ := Option.map_eq_some_iff.mp hlog
  exact ⟨s, hs, hlog, addressed_iff_ownToken hs⟩

/-- A browser exits and is reaped by the question whether it runs; its pid goes to another one,
which the token of the first then kills. -/
def pidReused : List RunnerOp :=
  [.spawn ⟨"chromium", [], []⟩ (.ok 41), .insert 0 true, .exit 0, .isRunning "41" none,
    .spawn ⟨"chromium", [], []⟩ (.ok 41), .insert 1 true, .stop 0 "41", .poll 0 none, .kill 0 none]

theorem not_addressed_pidReused :
    ∃ s, exec step (withBinary "/usr/bin/firefox") pidReused = some s ∧
      s.log = [.killed "41" 1, .unlisted 1 (some "41"), .launched 1 "41",
        .answered "41" (some 0) (.ok false), .launched 0 "41"] ∧ ¬ Addressed s.log := by
  have hlog : (exec step (withBinary "/usr/bin/firefox") pidReused).map (·.log) = some
      [.killed "41" 1, .unlisted 1 (some "41"), .launched 1 "41",
        .answered "41" (some 0) (.ok false), .launched 0 "41"] := rfl
  obtain ⟨s, hs, hlog⟩ := Option.map_eq_some_iff.mp hlog
  refine ⟨s, hs, hlog, fun h => ?_⟩
  rw [hlog] at h
  have hkilled : 0 = 1 := h.1 0 (by simp)
  exact absurd hkilled (by decide)

end HostBrowserRunner
end Aegis
