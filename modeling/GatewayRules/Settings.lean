import GatewayRules.Flow
import GatewayRules.Leadership

/-! The settings of the daemon. -/
namespace GatewayRules

structure Settings where
  app : String
  localId : Option String
  priority : UInt32
  table : UInt32
  inventoryFile : Option String
  /-- Updates are read from the standard input. -/
  readsFeed : Bool
  deriving DecidableEq, Repr, Inhabited

namespace Settings

protected def default : Settings where
  app := Placement.defaultApp
  localId := none
  priority := Placement.defaultPriority
  table := Placement.defaultTable
  inventoryFile := none
  readsFeed := true

def placement (s : Settings) : Placement := ⟨s.app, s.priority, s.table⟩

/-- Who this process is: the configured identifier, else the name of its host, and an empty text is
as good as none. -/
def localMember (s : Settings) (hostname : Option String) : Member :=
  match s.localId.filter (· ≠ ""), hostname.filter (· ≠ "") with
  | some id, _ => ⟨id⟩
  | none, some id => ⟨id⟩
  | none, none => ⟨"localhost"⟩

end Settings

end GatewayRules
