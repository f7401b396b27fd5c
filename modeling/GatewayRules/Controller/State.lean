import GatewayRules.Controller.Journal
import GatewayRules.Controller.Schedule

/-!
The state of a controller with its collaborators: an inventory with listeners, a leadership service,
an installer and any number of handlers. Every operation adds to the journal and takes nothing from
it.
-/
namespace GatewayRules

/-- The registered listeners, each kind in order of registration, with one count of identifiers. -/
structure Registry where
  nextId : Nat
  networks : List (Nat × Listener)
  nodes : List (Nat × Listener)
  deriving DecidableEq, Repr, Inhabited

inductive ListenerKind where
  | network
  | node
  deriving DecidableEq, Repr, Inhabited

namespace Registry

def empty : Registry := ⟨0, [], []⟩

def add (r : Registry) (l : Listener) : ListenerKind → Registry × Nat
  | .network => (⟨r.nextId + 1, r.networks ++ [(r.nextId, l)], r.nodes⟩, r.nextId)
  | .node => (⟨r.nextId + 1, r.networks, r.nodes ++ [(r.nextId, l)]⟩, r.nextId)

/-- An identifier of the other kind, or of no listener, removes nothing. -/
def remove (r : Registry) (id : Nat) : ListenerKind → Registry
  | .network => { r with networks := r.networks.filter (·.1 ≠ id) }
  | .node => { r with nodes := r.nodes.filter (·.1 ≠ id) }

def audience (r : Registry) : Event → List Listener
  | .network .. => r.networks.map (·.2)
  | .node .. => r.nodes.map (·.2)

def size (r : Registry) : Nat := r.networks.length + r.nodes.length

end Registry

inductive Worker where
  | running
  | ended
  | lost
  deriving DecidableEq, Repr, Inhabited

/-- A handler turns events into tasks on a queue, which its worker takes up in order. -/
structure Handler where
  label : String
  gate : Gate
  placement : Placement
  networkListener : Nat
  nodeListener : Nat
  isOpen : Bool
  worker : Worker
  queue : List Task
  deriving DecidableEq, Repr, Inhabited

/-- Changes from outside that can also happen in the middle of a task. -/
inductive Disturbance where
  | update (update : Update)
  | appoint (leader : Option Member)
  | refuse (device : Device) (reason : String)
  | accept (device : Device)
  deriving DecidableEq, Repr, Inhabited

/-- Disturbances that come inside an installer call, after so many more accepted requests. -/
structure Hook where
  after : Nat
  actions : List Disturbance
  deriving DecidableEq, Repr, Inhabited

/-- A collaborator that will break off at a call of the seam, after so many more calls. -/
structure ArmedCrash where
  seam : Seam
  after : Nat
  crash : Crash
  deriving DecidableEq, Repr, Inhabited

structure Controller where
  inventory : Inventory
  registry : Registry
  leadership : Leadership
  /-- Every network is on this port, instead of the one for its encapsulation. -/
  fixedPort : Option Port
  /-- Tunnel ports are found in the stored contents in a way of its own, whatever the fixed port. -/
  customPorts : Option (Inventory → Network → Node → Except RuleError Port)
  /-- The listeners of a handler stay when it is deactivated. -/
  keepsListeners : Bool
  /-- The installer writes accepted requests to the log. -/
  logsRequests : Bool
  /-- Devices whose requests the installer refuses, with the reason. -/
  refusals : List (Device × String)
  hooks : List Hook
  crashes : List ArmedCrash
  handlers : List Handler
  schedule : Schedule
  journal : List Entry
  deriving Inhabited

namespace Controller

def initial (leadership : Leadership) : Controller where
  inventory := .empty
  registry := .empty
  leadership
  fixedPort := none
  customPorts := none
  keepsListeners := false
  logsRequests := false
  refusals := []
  hooks := []
  crashes := []
  handlers := []
  schedule := .empty
  journal := []

def start (leadership : Leadership) (fixedPort : Option Port) (keepsListeners logsRequests : Bool) :
    Controller :=
  { initial leadership with fixedPort, keepsListeners, logsRequests }

def note (s : Controller) (e : Entry) : Controller := { s with journal := s.journal ++ [e] }

def log (s : Controller) (n : Notice) : Controller := s.note (.log n)

def logSome (s : Controller) : Option Notice → Controller
  | some n => s.log n
  | none => s

def resolver (s : Controller) : Resolver :=
  match s.customPorts, s.fixedPort with
  | some find, _ => .custom (find s.inventory)
  | none, some port => .fixed port
  | none, none => .byEncapsulation s.inventory

def modifyHandler (s : Controller) (h : Nat) (f : Handler → Handler) : Controller :=
  { s with handlers := s.handlers.modify h f }

/-- Puts a task on the queue of a handler and wakes its worker, unless the handler is closed or has
lost its worker. -/
def submit (s : Controller) (h : Nat) (t : Task) : Controller :=
  match s.handlers[h]? with
  | none => s
  | some a =>
    if !a.isOpen then s.log (.droppedAfterStop t)
    else if a.worker = .lost then s.log (.droppedWithoutWorker t)
    else { s with schedule := s.schedule.wake h }.modifyHandler h
      fun a => { a with queue := a.queue ++ [t] }

def deliver (e : Event) (s : Controller) (l : Listener) : Controller :=
  let s := s.note (.delivered l e)
  match l, e.task? with
  | .handler h, some t => s.submit h t
  | _, _ => s

def eventNotice : Event → Notice
  | .network change n => .networkEvent change n.name
  | .node change x => .nodeEvent change x.hostname

/-- Tells the log and then every listener of the event's kind, in order of registration. -/
def publish (s : Controller) (e : Event) : Controller :=
  (s.registry.audience e).foldl (deliver e) (s.log (eventNotice e))

def update (s : Controller) (u : Update) : Controller :=
  let event := s.inventory.event? u
  let changed := { s with inventory := s.inventory.update u }.note (.updated u event)
  match event with
  | some e => changed.publish e
  | none => changed

def disturb (s : Controller) : Disturbance → Controller
  | .update u => s.update u
  | .appoint leader => { s with leadership := s.leadership.appoint leader }
  | .refuse device reason =>
    { s with refusals := (device, reason) :: s.refusals.filter (·.1 ≠ device) }
  | .accept device => { s with refusals := s.refusals.filter (·.1 ≠ device) }

end Controller

end GatewayRules
