import GatewayRules.Catalog
import GatewayRules.Topology

/-! The inventory of networks and nodes, its updates, and the events that updates raise. -/
namespace GatewayRules

instance : Keyed Network := ⟨Network.id⟩

instance : Keyed Node := ⟨Node.hostname⟩

structure Inventory where
  networks : Catalog Network
  nodes : Catalog Node

inductive Update where
  | upsertNetwork (network : Network)
  | removeNetwork (id : String)
  | upsertNode (node : Node)
  | removeNode (hostname : String)
  deriving DecidableEq, Repr, Inhabited

inductive NetworkChange where
  | created
  | updated
  | removed
  deriving DecidableEq, Repr, Inhabited

namespace NetworkChange

def text : NetworkChange → String
  | created => "Created"
  | updated => "Updated"
  | removed => "Removed"

end NetworkChange

inductive NodeChange where
  | complete
  | incomplete
  deriving DecidableEq, Repr, Inhabited

namespace NodeChange

def text : NodeChange → String
  | complete => "Complete"
  | incomplete => "Incomplete"

end NodeChange

inductive Event where
  | network (change : NetworkChange) (subject : Network)
  | node (change : NodeChange) (subject : Node)
  deriving DecidableEq, Repr, Inhabited

namespace Inventory

def empty : Inventory := ⟨∅, ∅⟩

instance : Inhabited Inventory := ⟨empty⟩

def network? (v : Inventory) (id : String) : Option Network := v.networks.find? id

def node? (v : Inventory) (hostname : String) : Option Node := v.nodes.find? hostname

/-- The nodes that are ready for rules, in order of hostname. -/
def completeNodes (v : Inventory) : List Node := v.nodes.toList.filter Node.isComplete

theorem network?_eq_some_iff {v : Inventory} {id : String} {n : Network} :
    v.network? id = some n ↔ n ∈ v.networks ∧ n.id = id := Catalog.find?_eq_some_iff

theorem node?_eq_some_iff {v : Inventory} {hostname : String} {x : Node} :
    v.node? hostname = some x ↔ x ∈ v.nodes ∧ x.hostname = hostname := Catalog.find?_eq_some_iff

theorem mem_completeNodes {v : Inventory} {x : Node} :
    x ∈ v.completeNodes ↔ x ∈ v.nodes ∧ x.isComplete := List.mem_filter

def update (v : Inventory) : Update → Inventory
  | .upsertNetwork n => { v with networks := v.networks.insert n }
  | .removeNetwork id => { v with networks := v.networks.erase id }
  | .upsertNode x => { v with nodes := v.nodes.insert x }
  | .removeNode hostname => { v with nodes := v.nodes.erase hostname }

/-- A network event tells of every difference between the stored network and the new one. A node
event tells only of a change in readiness, a node not stored before counting as not ready, and the
removal of a node raises none. -/
def event? (v : Inventory) : Update → Option Event
  | .upsertNetwork n =>
    match v.network? n.id with
    | none => some (.network .created n)
    | some stored => if stored = n then none else some (.network .updated n)
  | .removeNetwork id => (v.network? id).map (.network .removed)
  | .upsertNode x =>
    match (v.node? x.hostname).map Node.readiness, x.readiness with
    | some .complete, .complete => none
    | _, .complete => some (.node .complete x)
    | some .complete, .incomplete => some (.node .incomplete x)
    | _, .incomplete => none
  | .removeNode _ => none

end Inventory

end GatewayRules
