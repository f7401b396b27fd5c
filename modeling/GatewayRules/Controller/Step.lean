import GatewayRules.Controller.Feed

/-! Runs of a controller: what can happen to it from outside, one step after the other. -/
namespace GatewayRules

inductive Step where
  | disturb (disturbance : Disturbance)
  | activate (label : String) (self : Member) (placement : Placement)
  | deactivate (handler : Nat)
  | work (handler : Nat)
  | drain
  | loseWorkers
  | reconcile (handler : Nat) (network : Network) (action : Action)
  | armCrash (crash : ArmedCrash)
  | armHook (hook : Hook)
  | listen (kind : ListenerKind) (label : String)
  | unlisten (kind : ListenerKind) (id : Nat)
  | feed (bytes : List UInt8)
  | seed (file : Option (List UInt8))
  deriving DecidableEq, Repr, Inhabited

inductive Reply where
  | done
  | removedNetwork (network : Option Network)
  | removedNode (node : Option Node)
  | listener (id : Nat)
  | pass (result : Except Crash Report)
  | fed (result : Except Text.Utf8Fault Nat)
  | seeded (result : Except SeedError Snapshot)

namespace Controller

def replyTo (s : Controller) : Disturbance → Reply
  | .update (.removeNetwork id) => .removedNetwork (s.inventory.network? id)
  | .update (.removeNode hostname) => .removedNode (s.inventory.node? hostname)
  | _ => .done

/-- Workers that a step has woken by work of the controller go before those woken from outside. -/
def promoteSince (s earlier : Controller) : Controller :=
  { s with schedule := s.schedule.promoteSince earlier.schedule }

def step (s : Controller) : Step → Controller × Reply
  | .disturb d => (s.disturb d, s.replyTo d)
  | .activate label self placement => (s.activate label self placement, .done)
  | .deactivate h => (s.deactivate h, .done)
  | .work h => (s.work h, .done)
  | .drain => (s.drain, .done)
  | .loseWorkers => (s.loseWorkers, .done)
  | .reconcile h n action =>
    let (after, result) := s.reconcile h n action
    (after.promoteSince s, .pass result)
  | .armCrash crash => ({ s with crashes := s.crashes ++ [crash] }, .done)
  | .armHook hook => ({ s with hooks := s.hooks ++ [hook] }, .done)
  | .listen kind label =>
    let (registry, id) := s.registry.add (.observer label) kind
    ({ s with registry }, .listener id)
  | .unlisten kind id => ({ s with registry := s.registry.remove id kind }, .done)
  | .feed bytes =>
    let (after, result) := s.feed bytes
    (after.promoteSince s, .fed result)
  | .seed file =>
    match Snapshot.ofFile file with
    | .ok contents => (s.seed contents, .seeded (.ok contents))
    | .error e => (s, .seeded (.error e))

def run (s : Controller) (steps : List Step) : Controller :=
  steps.foldl (fun s step => (s.step step).1) s

@[simp] theorem run_nil (s : Controller) : s.run [] = s := rfl

@[simp] theorem run_cons (s : Controller) (step : Step) (steps : List Step) :
    s.run (step :: steps) = (s.step step).1.run steps := rfl

theorem run_append (s : Controller) (first second : List Step) :
    s.run (first ++ second) = (s.run first).run second := List.foldl_append

end Controller

end GatewayRules
