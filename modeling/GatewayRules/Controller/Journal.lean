import GatewayRules.Dump
import GatewayRules.Leadership
import GatewayRules.Synthesis

/-!
The journal of a run: log records, calls to collaborators, tasks, changes to the inventory and
delivered events.
-/
namespace GatewayRules

inductive Crash where
  | text (reason : String)
  | wordless
  deriving DecidableEq, Repr, Inhabited

namespace Crash

def reason : Crash → String
  | text reason => reason
  | wordless => "unknown panic"

end Crash

/-- The calls of a handler in which a collaborator can break off. -/
inductive Seam where
  | leader
  | networks
  | completeNodes
  | node
  | resolver
  | installer
  deriving DecidableEq, Repr, Inhabited

structure Report where
  applied : Nat
  failed : Nat
  deriving DecidableEq, Repr, Inhabited

inductive Level where
  | debug
  | info
  | warn
  | error
  deriving DecidableEq, Repr, Inhabited

namespace Level

def text : Level → String
  | debug => "DEBUG"
  | info => "INFO"
  | warn => "WARN"
  | error => "ERROR"

end Level

inductive Notice where
  | networkEvent (change : NetworkChange) (name : String)
  | nodeEvent (change : NodeChange) (hostname : String)
  | droppedAfterStop (task : Task)
  | droppedWithoutWorker (task : Task)
  | taskCrashed (crash : Crash)
  | queueDrained
  | nodeDetected (hostname : String)
  | ruleSkipped (network : String) (error : RuleError)
  | ruleRefused (action : Action) (network : String) (device : Device) (error : RuleError)
  | ruleCrashed (network hostname : String) (crash : Crash)
  | passed (network : String) (action : Action) (report : Report)
  | started
  | stopped
  | workerLost
  | candidacy (notice : CandidacyNotice)
  | requested (request : Request)
  | applying (update : Update)
  | unknownNetwork (id : String)
  | unknownNode (hostname : String)
  | malformedUpdate
  | feedClosed (applied : Nat)
  | feedFailed (reason : String)
  | loaded (networks nodes : Nat) (path : String)
  | interrupted
  | finished
  deriving DecidableEq, Repr, Inhabited

namespace Notice

def level : Notice → Level
  | networkEvent .. | nodeEvent .. | droppedAfterStop .. | queueDrained | passed ..
  | applying .. => .debug
  | nodeDetected .. | started | stopped | candidacy (.acquired ..) | candidacy (.withdrew ..)
  | requested .. | feedClosed .. | loaded .. | interrupted | finished => .info
  | droppedWithoutWorker .. | ruleSkipped .. | candidacy (.notLeading ..) | unknownNetwork ..
  | unknownNode .. | malformedUpdate => .warn
  | taskCrashed .. | ruleRefused .. | ruleCrashed .. | workerLost | feedFailed .. => .error

/-- The message up to the contents of the record that it cites, if it cites one. -/
def heading : Notice → String
  | networkEvent change name => s!"Network event {change.text} for {name}"
  | nodeEvent change hostname => s!"Node event {change.text} for {hostname}"
  | droppedAfterStop task => s!"Handler stopped, dropping {task.name}"
  | droppedWithoutWorker task => s!"Event worker is gone, dropping {task.name}"
  | taskCrashed crash => s!"Gateway rule task panicked: {crash.reason}"
  | queueDrained => "Event queue drained"
  | nodeDetected hostname => s!"COMPLETE node {hostname} is detected"
  | ruleSkipped network error =>
    s!"Skipping gateway rule for network {network}: {error.message}"
  | ruleRefused action network device error =>
    s!"Failed to {action.verb} gateway rule for network {network} on {device}: {error.message}"
  | ruleCrashed network hostname crash =>
    s!"Gateway rule for network {network} on {hostname} panicked: {crash.reason}"
  | passed network action report =>
    s!"Gateway rules for {network} ({action.verb}): {report.applied} applied, " ++
      s!"{report.failed} failed"
  | started => "Started"
  | stopped => "Stopped"
  | workerLost => "Event worker terminated abnormally"
  | candidacy (.acquired topic leader) => s!"Acquired leadership for {topic} as {leader}"
  | candidacy (.withdrew topic) => s!"Withdrew leadership for {topic}"
  | candidacy (.notLeading topic leader) => s!"Cannot withdraw from {topic}: led by {leader}"
  | requested request => request.text
  | applying update => s!"Applying inventory update: {update.name}"
  | unknownNetwork id => s!"Ignoring removal of unknown network {id}"
  | unknownNode hostname => s!"Ignoring removal of unknown node {hostname}"
  | malformedUpdate => "Skipping malformed inventory update"
  | feedClosed applied => s!"Inventory feed closed after {applied} updates"
  | feedFailed reason => s!"Inventory feed failed: {reason}"
  | loaded networks nodes path => s!"Loaded {networks} networks and {nodes} nodes from {path}"
  | interrupted => "Received Ctrl+C, shutting down..."
  | finished => "Shutdown complete."

/-- The whole message, without the error behind a malformed update or a lost worker. -/
def message : Notice → String
  | droppedAfterStop task => s!"Handler stopped, dropping {task.dump}"
  | droppedWithoutWorker task => s!"Event worker is gone, dropping {task.dump}"
  | applying update => s!"Applying inventory update: {update.dump}"
  | n => n.heading

/-- A line about the record, without what it cites. -/
def line (n : Notice) : String := s!"{n.level.text} {n.heading}"

end Notice

/-- A call that a handler makes to one of its collaborators. -/
inductive Call where
  | run (topic : String)
  | withdraw (topic : String)
  /-- The handler asks who leads the topic, and this member does at that moment. -/
  | leader (topic : String) (current : Option Member)
  | read (seam : Seam)
  | submit (request : Request)
  | accepted (request : Request)
  | refused (device : Device)
  deriving DecidableEq, Repr, Inhabited

/-- Who receives events: an observer under a label, or the handler with a number. -/
inductive Listener where
  | observer (label : String)
  | handler (index : Nat)
  deriving DecidableEq, Repr, Inhabited

/-- One entry of the journal. Handlers are known by their number in order of activation. -/
inductive Entry where
  | call (handler : Nat) (call : Call)
  /-- The inventory is changed, and the change raises the event if there is one. -/
  | updated (update : Update) (raised : Option Event)
  | delivered (listener : Listener) (event : Event)
  | taken (handler : Nat) (task : Task)
  | closed (handler : Nat)
  | log (notice : Notice)
  deriving DecidableEq, Repr, Inhabited

end GatewayRules
