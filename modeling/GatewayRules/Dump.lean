import GatewayRules.Controller.Task
import GatewayRules.Text.Quoted

/-! Records written out in full, each field with its name, as log messages cite them. -/
namespace GatewayRules

namespace Text

def dumpFields (name : String) (fields : List (String × String)) : String :=
  name ++ " \x7b " ++ ", ".intercalate (fields.map fun f => f.1 ++ ": " ++ f.2) ++ " \x7d"

def dumpOption {α : Type} (dump : α → String) : Option α → String
  | none => "None"
  | some a => s!"Some({dump a})"

end Text
open Text

def Device.dump (d : Device) : String := s!"DeviceId({quote d.id})"

def MacAddress.dump (m : MacAddress) : String :=
  let octets := ", ".intercalate (m.octets.map toString)
  s!"MacAddress([{octets}])"

/-- The number, also of the port to the host. -/
def Port.dump (p : Port) : String := s!"PortNumber({p.number})"

def Encapsulation.dump : Encapsulation → String
  | .vxlan => "Vxlan"
  | .gre => "Gre"
  | .geneve => "Geneve"

def Readiness.dump : Readiness → String
  | .incomplete => "Incomplete"
  | .complete => "Complete"

def TunnelPorts.dump (ports : TunnelPorts) : String :=
  dumpFields "TunnelPorts" [("vxlan", dumpOption Port.dump ports.vxlan),
    ("gre", dumpOption Port.dump ports.gre), ("geneve", dumpOption Port.dump ports.geneve)]

def Network.dump (n : Network) : String :=
  dumpFields "Network" [("name", quote n.name), ("network_id", quote n.id),
    ("network_type", n.encapsulation.dump), ("gateway_ip", n.gateway.text),
    ("cidr", dumpOption quote n.cidr)]

def Node.dump (x : Node) : String :=
  dumpFields "Node" [("hostname", quote x.hostname), ("int_bridge", x.bridge.dump),
    ("int_bridge_mac", x.bridgeMac.dump), ("data_ip", x.dataAddress.text),
    ("state", x.readiness.dump), ("tunnel_ports", x.tunnels.dump)]

def Task.dump (t : Task) : String :=
  match t with
  | .install n | .uninstall n => s!"{t.name}({n.dump})"
  | .backfill x => s!"{t.name}({x.dump})"

namespace Update

def name : Update → String
  | upsertNetwork _ => "UpsertNetwork"
  | removeNetwork _ => "RemoveNetwork"
  | upsertNode _ => "UpsertNode"
  | removeNode _ => "RemoveNode"

def dump (u : Update) : String :=
  match u with
  | upsertNetwork n => dumpFields u.name [("network", n.dump)]
  | removeNetwork id => dumpFields u.name [("network_id", quote id)]
  | upsertNode x => dumpFields u.name [("node", x.dump)]
  | removeNode hostname => dumpFields u.name [("hostname", quote hostname)]

end Update

end GatewayRules
