import GatewayRules.Inventory

/-! Work that events give to a handler. -/
namespace GatewayRules

/-- One piece of work, with the record as it was when the event was raised. -/
inductive Task where
  | install (network : Network)
  | uninstall (network : Network)
  | backfill (node : Node)
  deriving DecidableEq, Repr, Inhabited

namespace Task

def name : Task → String
  | install _ => "Install"
  | uninstall _ => "Uninstall"
  | backfill _ => "Backfill"

end Task

/-- A node that stops being complete keeps its rules, so that event gives no work. -/
def Event.task? : Event → Option Task
  | .network .created n => some (.install n)
  | .network .updated n => some (.install n)
  | .network .removed n => some (.uninstall n)
  | .node .complete x => some (.backfill x)
  | .node .incomplete _ => none

end GatewayRules
