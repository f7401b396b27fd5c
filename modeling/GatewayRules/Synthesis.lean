import GatewayRules.Flow
import GatewayRules.Inventory

/-!
The gateway rule of a network on a node. The node that owns the network delivers its gateway traffic
to its own host; every other node tunnels it to the owner.
-/
namespace GatewayRules

inductive RuleError where
  | missingOwner (network node : String)
  | noTunnelPort (network : String) (encapsulation : Encapsulation) (node : String)
  | refused (device : Device) (reason : String)
  deriving DecidableEq, Repr, Inhabited

namespace RuleError

def message : RuleError → String
  | missingOwner network node =>
    s!"network {network} has no owning node; cannot build gateway rule for {node}"
  | noTunnelPort network encapsulation node =>
    s!"node {node} has no {encapsulation} tunnel port for network {network}"
  | refused device reason => s!"flow rule installer rejected rule on {device}: {reason}"

end RuleError

/-- How the tunnel port of a network on a node is found. -/
inductive Resolver where
  | byEncapsulation (inventory : Inventory)
  | fixed (port : Port)
  | custom (find : Network → Node → Except RuleError Port)

namespace Resolver

/-- The stored network says which encapsulation is in use; the given one only if none is stored. -/
def encapsulation (v : Inventory) (n : Network) : Encapsulation :=
  ((v.network? n.id).map Network.encapsulation).getD n.encapsulation

def port : Resolver → Network → Node → Except RuleError Port
  | fixed port, _, _ => .ok port
  | custom find, n, x => find n x
  | byEncapsulation v, n, x =>
    match x.tunnels.portFor (encapsulation v n) with
    | some port => .ok port
    | none => .error (.noTunnelPort n.id (encapsulation v n) x.hostname)

end Resolver

/-- IPv4 traffic to the gateway of the network. -/
def Network.selector (n : Network) : Selector := ⟨Selector.ipv4, .host n.gateway⟩

/-- What the node does with traffic to the network's gateway. A missing tunnel port is reported
before a missing owner, and an owner counts only if it has the network's name. -/
def treatment (r : Resolver) (n : Network) (x : Node) (owner : Option Node) :
    Except RuleError Treatment :=
  if x.Owns n then .ok ⟨[.setMac x.bridgeMac, .output Port.host]⟩
  else do
    let port ← r.port n x
    match owner.filter fun o => o.Owns n with
    | some o => .ok ⟨[.tunnelTo x.bridge o.dataAddress, .output port]⟩
    | none => .error (.missingOwner n.name x.hostname)

def synthesize (r : Resolver) (n : Network) (x : Node) (owner : Option Node) :
    Except RuleError Rule := do
  return ⟨x.bridge, n.selector, ← treatment r n x owner⟩

/-- One result for each node, in order. -/
def synthesizeAll (r : Resolver) (n : Network) (nodes : List Node) (owner : Option Node) :
    List (Except RuleError Rule) :=
  nodes.map fun x => synthesize r n x owner

end GatewayRules
