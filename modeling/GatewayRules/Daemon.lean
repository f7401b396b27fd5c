import GatewayRules.Controller.Feed
import GatewayRules.Settings.Load
import GatewayRules.Text.Control

/-!
The daemon: one handler of a member on its own, an inventory that begins with the contents of a file
and follows a feed, and an installer that writes requests to the log.
-/
namespace GatewayRules

/-- Four blanks begin every line of a text but the first. -/
def Text.indentLines (s : List Char) : List Char :=
  s.flatMap fun c => if c = '\n' then ['\n', ' ', ' ', ' ', ' '] else [c]

/-- The message as the log of the daemon has it: without terminal control, and with further lines
indented. -/
def Notice.written (n : Notice) : String :=
  String.ofList (Text.dropControl .outside (Text.indentLines n.message.toList))

inductive StartError where
  | settings (error : SettingsError)
  | seed (path : String) (error : SeedError)
  deriving DecidableEq, Repr, Inhabited

namespace StartError

def message : StartError → String
  | settings error => error.message
  | seed path error => error.message path

end StartError

/-- A start that fails, with the journal up to there. -/
structure FailedStart where
  journal : List Entry
  error : StartError
  deriving Repr, Inhabited

structure Daemon where
  settings : Settings
  controller : Controller

namespace Daemon

def handler : Nat := 0

/-- The handler begins before the inventory has contents, so that it hears of all of them. -/
def start (sources : Sources) (file : String → Option (List UInt8)) :
    Except FailedStart Daemon :=
  match Settings.load sources with
  | .error e => .error ⟨[], .settings e⟩
  | .ok settings =>
    let self := settings.localMember sources.hostname
    let s := { Controller.initial (.solitary (.ofMember self)) with logsRequests := true }
    let s := s.activate settings.app self settings.placement
    match settings.inventoryFile with
    | none => .ok ⟨settings, s⟩
    | some path =>
      match Snapshot.ofFile (file path) with
      | .error e => .error ⟨s.journal, .seed path e⟩
      | .ok contents =>
        let s := s.log (.loaded contents.networks.length contents.nodes.length path)
        .ok ⟨settings, (s.seed contents).drain⟩

def feed (d : Daemon) (input : List UInt8) : Daemon :=
  if d.settings.readsFeed then
    match d.controller.feed input with
    | (s, .ok _) => { d with controller := s.drain }
    | (s, .error fault) => { d with controller := (s.log (.feedFailed fault.message)).drain }
  else d

def stop (d : Daemon) : Controller :=
  ((d.controller.log .interrupted).deactivate handler).log .finished

/-- The whole life of a daemon that is interrupted after its feed has ended. -/
def run (sources : Sources) (file : String → Option (List UInt8)) (input : List UInt8) :
    Except FailedStart Controller := do
  return ((← start sources file).feed input).stop

end Daemon

end GatewayRules
