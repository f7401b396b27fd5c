import GatewayRules.Controller.Pass

/-!
The life of a handler. Leadership is asked for when a task is taken up, and a task that breaks off
ends alone: the worker goes on with the next. A handler that is deactivated works off its queue
before it gives its candidacy up, and other workers have their turns meanwhile.
-/
namespace GatewayRules
namespace Controller

def askLeader (s : Controller) (h : Nat) (g : Gate) : Controller × Except Crash Bool :=
  match s.enter h .leader (.leader g.topic (s.leadership.leader g.topic)) with
  | (s, some crash) => (s, .error crash)
  | (s, none) => (s, .ok (g.isLeader s.leadership))

def perform (s : Controller) (h : Nat) (p : Placement) : Task → Controller × Option Crash
  | .install n =>
    match s.pass h p n .install with
    | (s, .error crash) => (s, some crash)
    | (s, .ok _) => (s, none)
  | .uninstall n =>
    match s.pass h p n .remove with
    | (s, .error crash) => (s, some crash)
    | (s, .ok _) => (s, none)
  | .backfill _ =>
    match s.enter h .networks (.read .networks) with
    | (s, some crash) => (s, some crash)
    | (s, none) => passEach h p s s.inventory.networks.toList

def announce (s : Controller) : Task → Controller
  | .backfill x => s.log (.nodeDetected x.hostname)
  | .install _ | .uninstall _ => s

/-- A task from its beginning; a handler that does not lead drops it. -/
def process (s : Controller) (h : Nat) (g : Gate) (p : Placement) (t : Task) :
    Controller × Option Crash :=
  match (s.announce t).askLeader h g with
  | (s, .error crash) => (s, some crash)
  | (s, .ok false) => (s, none)
  | (s, .ok true) => s.perform h p t

/-- The worker of a closed handler ends when nothing is left on its queue. -/
def endWork (s : Controller) (h : Nat) (a : Handler) : Controller :=
  if a.worker = .running ∧ !a.isOpen then
    (s.log .queueDrained).modifyHandler h fun a => { a with worker := .ended }
  else s

def take (s : Controller) (h : Nat) (t : Task) (rest : List Task) : Controller :=
  (s.modifyHandler h fun a => { a with queue := rest }).note (.taken h t)

def work (s : Controller) (h : Nat) : Controller :=
  match s.handlers[h]? with
  | none => s
  | some a =>
    match a.queue with
    | [] => s.endWork h a
    | t :: rest =>
      match (s.take h t rest).process h a.gate a.placement t with
      | (s, none) => s
      | (s, some crash) => s.log (.taskCrashed crash)

/-- The worker of the handler has a task, or it is about to end. -/
def isReady (s : Controller) (h : Nat) : Bool :=
  match s.handlers[h]? with
  | some a => a.worker = .running && (!a.queue.isEmpty || !a.isOpen)
  | none => false

/-- The next turn. A worker that is ready without having been woken comes last. -/
def turn? (s : Controller) : Option (Nat × Schedule) :=
  match s.schedule.next? s.isReady with
  | some turn => some turn
  | none =>
    ((List.range s.handlers.length).find? s.isReady).map fun h => (h, ⟨some h, [], []⟩)

def workNext (s : Controller) : Controller :=
  match s.turn? with
  | none => s
  | some (h, schedule) => { s with schedule }.work h

/-- A bound on what workers can still do: the tasks on queues, the end of every worker, and for
every disturbance in an armed hook one task for every listener. -/
def owed (s : Controller) : Nat :=
  let waiting := s.handlers.foldr
    (fun a n => a.queue.length + (if a.worker = .running then 1 else 0) + n) 0
  let armed := s.hooks.foldr (fun k n => k.actions.length + n) 0
  waiting + armed * s.registry.size

def drain (s : Controller) : Controller :=
  { Nat.repeat workNext s.owed s with schedule := .empty }

def enroll (s : Controller) (label : String) (self : Member) (p : Placement) : Controller :=
  let h := s.handlers.length
  let (registry, networkListener) := s.registry.add (.handler h) .network
  let (registry, nodeListener) := registry.add (.handler h) .node
  let handler : Handler :=
    ⟨label, ⟨self, p.app⟩, p, networkListener, nodeListener, true, .running, []⟩
  { s with registry, handlers := s.handlers ++ [handler], schedule := s.schedule.wake h }

def stand (s : Controller) (h : Nat) (g : Gate) : Controller :=
  let (leadership, notice) := g.activate s.leadership
  ({ s with leadership }.note (.call h (.run g.topic))).logSome (notice.map .candidacy)

def withdraw (s : Controller) (h : Nat) (g : Gate) : Controller :=
  let (leadership, notice) := g.deactivate s.leadership
  ({ s with leadership }.note (.call h (.withdraw g.topic))).logSome (notice.map .candidacy)

/-- A new handler, which then runs for leadership. Its number is the number of handlers before
it. -/
def activate (s : Controller) (label : String) (self : Member) (p : Placement) : Controller :=
  ((s.enroll label self p).stand s.handlers.length ⟨self, p.app⟩).log .started

def closeIntake (s : Controller) (h : Nat) (a : Handler) : Controller :=
  let registry :=
    if s.keepsListeners then s.registry
    else (s.registry.remove a.nodeListener .node).remove a.networkListener .network
  ({ s with registry }.modifyHandler h fun a => { a with isOpen := false }).note (.closed h)

/-- Waits for the worker of a closed handler to end. Other workers have their turns meanwhile. -/
def awaitEnd (s : Controller) (h : Nat) (a : Handler) : Controller :=
  match a.worker with
  | .running => { s with schedule := s.schedule.rouse h }.drain
  | .lost => s.log .workerLost
  | .ended => s

/-- A handler is deactivated once: it closes, works off its queue and withdraws its candidacy. -/
def deactivate (s : Controller) (h : Nat) : Controller :=
  match s.handlers[h]? with
  | none => s
  | some a =>
    if !a.isOpen then s
    else (((s.closeIntake h a).awaitEnd h a).withdraw h a.gate).log .stopped

def loseWorkers (s : Controller) : Controller :=
  { s with
    schedule := .empty
    handlers := s.handlers.map fun a =>
      if a.worker = .running then { a with worker := .lost, queue := [] } else a }

def reconcile (s : Controller) (h : Nat) (n : Network) (action : Action) :
    Controller × Except Crash Report :=
  match s.handlers[h]? with
  | none => (s, .ok ⟨0, 0⟩)
  | some a => s.pass h a.placement n action

end Controller
end GatewayRules
