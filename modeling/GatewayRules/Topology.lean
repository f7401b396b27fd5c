import GatewayRules.Address

/-! Networks and nodes as an inventory knows them. -/
namespace GatewayRules

/-- A switch, such as the integration bridge of a node. -/
structure Device where
  id : String
  deriving DecidableEq, Repr, Inhabited

instance : ToString Device := ⟨Device.id⟩

structure Port where
  number : UInt32
  deriving DecidableEq, Repr, Inhabited

namespace Port

/-- The switch's own port: traffic sent here goes to the host stack of the bridge. -/
def host : Port := ⟨0xfffffffe⟩

/-- The port to the host has a name; every other port is its number. -/
def chars (p : Port) : List Char :=
  if p = host then ['L', 'O', 'C', 'A', 'L'] else Text.decimal p.number.toNat

def text (p : Port) : String := String.ofList p.chars

instance : ToString Port := ⟨text⟩

end Port

/-- How an overlay network wraps its traffic between nodes. -/
inductive Encapsulation where
  | vxlan
  | gre
  | geneve
  deriving DecidableEq, Repr, Inhabited

namespace Encapsulation

def text : Encapsulation → String
  | vxlan => "VXLAN"
  | gre => "GRE"
  | geneve => "GENEVE"

instance : ToString Encapsulation := ⟨text⟩

protected def default : Encapsulation := .vxlan

def all : List Encapsulation := [vxlan, gre, geneve]

end Encapsulation

/-- A logical network. The node with the network's name as hostname hosts its gateway. -/
structure Network where
  name : String
  id : String
  encapsulation : Encapsulation
  gateway : Ipv4Address
  cidr : Option String
  deriving DecidableEq, Repr, Inhabited

inductive Readiness where
  | incomplete
  | complete
  deriving DecidableEq, Repr, Inhabited

namespace Readiness

def text : Readiness → String
  | incomplete => "INCOMPLETE"
  | complete => "COMPLETE"

instance : ToString Readiness := ⟨text⟩

protected def default : Readiness := .incomplete

def all : List Readiness := [incomplete, complete]

end Readiness

/-- The tunnel ports on a node's bridge, at most one for each encapsulation. -/
structure TunnelPorts where
  vxlan : Option Port
  gre : Option Port
  geneve : Option Port
  deriving DecidableEq, Repr, Inhabited

namespace TunnelPorts

def none : TunnelPorts := ⟨.none, .none, .none⟩

def portFor (ports : TunnelPorts) : Encapsulation → Option Port
  | .vxlan => ports.vxlan
  | .gre => ports.gre
  | .geneve => ports.geneve

end TunnelPorts

/-- A worker node with its integration bridge. -/
structure Node where
  hostname : String
  bridge : Device
  bridgeMac : MacAddress
  dataAddress : Ipv4Address
  readiness : Readiness
  tunnels : TunnelPorts
  deriving DecidableEq, Repr, Inhabited

namespace Node

def isComplete (x : Node) : Bool := x.readiness == .complete

def Owns (x : Node) (n : Network) : Prop := x.hostname = n.name

instance (x : Node) (n : Network) : Decidable (x.Owns n) :=
  inferInstanceAs (Decidable (x.hostname = n.name))

end Node

end GatewayRules
