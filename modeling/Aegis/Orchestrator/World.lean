import Aegis.Orchestrator.Session

/-! The orchestrator with its calls in progress. Calls interleave at their await points; the
profile store's lock and the gateway controller advance by steps of their own. -/
namespace Aegis.Orchestrator
open Store

/-- A call of `start_session` or `stop_session`, and what it is waiting for. The calls of a
teardown are still to be made, the first one in progress. -/
inductive Task where
  | getProfile (profile : ProfileId)
  | acquireLock (profileId : ProfileId) (profile : Profile) (hostMode : Bool)
  | releaseLock (lease : ProfileLease) (err : Error)
  | drive (s : SessionId) (profile : Profile) (pc : Drive)
  | failClosed (s : SessionId) (err : Error)
  | teardown (s : SessionId) (calls : List Cleanup) (ending : Ending)
  | done (r : Result SessionSummary)

/-- The call a task makes to the lock or the gateway when it begins to wait. -/
inductive Request where
  | none
  | lock (op : TaskId → LockOp)
  | gateway (req : Gateway.Request)

def Task.request : Task → Request
  | acquireLock p _ _ => .lock (.acquire · p)
  | releaseLock l _ => .lock (.release · l)
  | drive _ profile (.configure _ _) =>
    .gateway (.configure (gatewayConfig profile.spec.network))
  | drive _ profile (.applyFirewall _ _) =>
    .gateway (.applyFirewall (.failClosed (gatewayConfig profile.spec.network)))
  | failClosed _ _ => .gateway .engageKillswitch
  | teardown _ (.release l :: _) _ => .lock (.release · l)
  | _ => .none

/-- What a piece of session code leaves: the entry, what the task waits for, and the events,
newest first. -/
structure Segment where
  entry : SessionEntry
  task : Task
  events : List Event

/-- Make the next call of a teardown, or write its final state. -/
def teardown (s : SessionId) (ending : Ending) (entry : SessionEntry) (events : List Event) :
    List Cleanup → Segment
  | c :: cs => ⟨entry, .teardown s (c :: cs) ending, .cleanup s c :: events⟩
  | [] =>
    let entry' := entry.cleared ending.state
    ⟨entry', .done (ending.result s entry'),
      .entered s ending.state ::
        .audit ⟨.info, some s, some entry.profile, .sessionState ending.state.asStr⟩ :: events⟩

/-- Take the browser handle and begin to release what the entry refers to. -/
def beginTeardown (w : Wiring) (s : SessionId) (ending : Ending) (entry : SessionEntry)
    (events : List Event) : Segment :=
  teardown s ending { entry with browserHandle := none } events (cleanupCalls w entry)

/-- What `start_session` does with the outcome of a part of the start: an error that requires
the kill switch engages it before the teardown. -/
def settle (w : Wiring) (s : SessionId) (profile : Profile) : Flow → Segment
  | .await entry next events => ⟨entry, .drive s profile next, events⟩
  | .finish entry summary events => ⟨entry, .done (.ok summary), events⟩
  | .raise entry err events =>
    if err.requiresKillswitch then ⟨entry, .failClosed s err, .engageCalled s :: events⟩
    else beginTeardown w s (.failed err) entry events

/-- The records of an engaged kill switch. -/
def failClosedEvents (s : SessionId) (entry : SessionEntry) (err : Error) : List Event :=
  [.audit ⟨.critical, none, none, .killSwitch "engaged"⟩,
    .audit ⟨.critical, some s, some entry.profile, .failClosed err.failureClass err.display⟩]

/-- The record of a destroyed VM. -/
def destroyedEvents (s : SessionId) (entry : SessionEntry) : Cleanup → Input → List Event
  | .destroy role _, .destroyed (.ok _) =>
    [.audit ⟨.info, some s, some entry.profile,
      .vm (match role with | .gateway => "gateway" | .browser => "browser") "destroyed"⟩]
  | _, _ => []

/-- The release of the lock has returned; the other calls of a teardown return at will. -/
def Cleanup.returned (lock : Option LockCall) : Cleanup → Bool
  | .release _ => match lock with | some (.released _) => true | _ => false
  | _ => true

/-- The state of the daemon. Entries are never removed from the session table. -/
structure World where
  enforcement : Enforcement
  sessions : SessionId → Option SessionEntry
  tasks : TaskId → Option Task
  lock : LockSystem
  gateway : Gateway.System
  log : List Event

/-- What happens next: a request arrives, a call in progress returns, or the lock or the
gateway advances. -/
inductive Label where
  | startSession (t : TaskId) (profile : ProfileId)
  | stopSession (t : TaskId) (s : SessionId)
  | setEnforcement (e : Enforcement)
  | resume (t : TaskId) (input : Input)
  | lock (op : LockOp)
  | gateway (op : Gateway.Op)

/-- Steps the lock takes by itself. -/
def internalLock : LockOp → Bool
  | .acquire _ _ | .release _ _ => false
  | _ => true

/-- Steps the gateway takes by itself. -/
def internalGateway : Gateway.Op → Bool
  | .begin _ _ => false
  | _ => true

namespace World

/-- A task begins to wait; the call it waits for is made. -/
def setTask (w : World) (t : TaskId) (task : Task) : Option World :=
  let w' := { w with tasks := Function.update w.tasks t (some task) }
  match task.request with
  | .none => some w'
  | .lock op => (w.lock.step (op t)).map fun l => { w' with lock := l }
  | .gateway req => (w.gateway.step (.begin t req)).map fun g => { w' with gateway := g }

/-- The effect of a piece of session code. -/
def commit (w : World) (t : TaskId) (s : SessionId) (seg : Segment) : Option World :=
  { w with
    sessions := Function.update w.sessions s (some seg.entry)
    log := seg.events ++ w.log }.setTask t seg.task

/-- The containment mode of a start: the profile's isolation level, gated by the current
enforcement. -/
def hostMode (cfg : Wiring) (enforcement : Enforcement) (profile : Profile) : Result Bool :=
  match profile.spec.isolation with
  | .fullVm => .ok false
  | .hostProcess =>
    if !enforcement.allowHostBrowser then
      .error (.config ("host-browser mode is disabled; enable it in advanced settings / config " ++
        "(config enforcement --host-browser on) before starting a host-isolation profile"))
    else match cfg.hostBackendFor profile.spec.browser with
      | .error e => .error e
      | .ok () => .ok true

/-- `start_session` with the profile it fetched, up to the single-writer lock. -/
def fetched (cfg : Wiring) (w : World) (t : TaskId) (p : ProfileId) : Result Profile → Option World
  | .error e => w.setTask t (.done (.error e))
  | .ok profile =>
    match hostMode cfg w.enforcement profile with
    | .error e => w.setTask t (.done (.error e))
    | .ok host => w.setTask t (.acquireLock p profile host)

/-- `start_session` with the lease: generate the key, register the session, begin to drive. -/
def leased (cfg : Wiring) (w : World) (t : TaskId) (p : ProfileId) (profile : Profile)
    (host : Bool) (lease : ProfileLease) (s : SessionId) (key : Result SecretKey)
    (inst : InstanceId) : Option World :=
  match key with
  | .error e => w.setTask t (.releaseLock lease e)
  | .ok key =>
    if w.sessions s = none then
      let events := stateEvents s p .requested ++ [.registered s profile]
      let entry := SessionEntry.requested p lease key
      w.commit t s (settle cfg s profile
        (if host then driveStartHost cfg s profile entry events
        else driveStart cfg s inst entry events))
    else none

/-- A call in progress returns and its task runs to its next await point. -/
def resume (cfg : Wiring) (w : World) (t : TaskId) (input : Input) : Option World :=
  match w.tasks t, input with
  | some (.getProfile p), .profile r => w.fetched cfg t p r
  | some (.acquireLock p profile host), .registered s key inst =>
    match w.lock.calls t with
    | some (.acquired (.ok lease)) => w.leased cfg t p profile host lease s key inst
    | some (.acquired (.error e)) => w.setTask t (.done (.error e))
    | _ => none
  | some (.releaseLock _ e), .returned =>
    match w.lock.calls t with
    | some (.released _) => w.setTask t (.done (.error e))
    | _ => none
  | some (.drive s profile pc), input =>
    match w.sessions s with
    | none => none
    | some entry =>
      match pc.resume cfg s profile (w.gateway.calls t) entry input with
      | none => none
      | some flow => w.commit t s (settle cfg s profile flow)
  | some (.failClosed s e), .returned =>
    match w.sessions s, w.gateway.calls t with
    | some entry, some (.done _) =>
      w.commit t s (beginTeardown cfg s (.failed e) entry (failClosedEvents s entry e))
    | _, _ => none
  | some (.teardown s (c :: cs) ending), input =>
    match w.sessions s with
    | none => none
    | some entry =>
      if c.returned (w.lock.calls t) then
        w.commit t s (teardown s ending entry (destroyedEvents s entry c input) cs)
      else none
  | _, _ => none

/-- `stop_session`, up to its first call: refuse an unknown session, move to `Closing` if the
state graph allows it, and begin the teardown. -/
def stop (cfg : Wiring) (w : World) (t : TaskId) (s : SessionId) : Option World :=
  match w.sessions s with
  | none => w.setTask t (.done (.error (.notFound ("session " ++ s.uuid.display))))
  | some entry =>
    match transition .closing entry with
    | .ok entry' => w.commit t s (beginTeardown cfg s .stopped entry'
        (stateEvents s entry'.profile .closing ++ [.stopCalled s]))
    | .error _ => w.commit t s (beginTeardown cfg s .stopped entry [.stopCalled s])

/-- One step of the daemon. -/
def step (cfg : Wiring) (w : World) : Label → Option World
  | .startSession t p => if w.tasks t = none then w.setTask t (.getProfile p) else none
  | .stopSession t s => if w.tasks t = none then w.stop cfg t s else none
  | .setEnforcement e => some { w with enforcement := e }
  | .resume t input => w.resume cfg t input
  | .lock op =>
    if internalLock op then (w.lock.step op).map fun l => { w with lock := l } else none
  | .gateway op =>
    if internalGateway op then (w.gateway.step op).map fun g => { w with gateway := g } else none

/-- The daemon as it starts: no session, no call, no lock file, the gateway as it was built. -/
structure Initial (w : World) : Prop where
  sessions : ∀ s, w.sessions s = none
  tasks : ∀ t, w.tasks t = none
  lock : w.lock = LockSystem.initial
  gateway : ∃ tables, w.gateway = Gateway.System.initial tables
  log : w.log = []

end World

end Aegis.Orchestrator
