import GatewayRules.Json.Reader
import GatewayRules.Json.Value
import GatewayRules.Topology

/-! The JSON forms of addresses, ports, networks and nodes. -/
namespace GatewayRules
open Json

namespace MacAddress

def toJson (m : MacAddress) : Value := .string m.text

def reader : Reader MacAddress := .parsed "a string" fun s => (parse s).mapError .badMac

end MacAddress

namespace Ipv4Address

def toJson (a : Ipv4Address) : Value := .string a.text

def reader : Reader Ipv4Address := .parsed "IPv4 address" fun s =>
  match ofString? s with
  | some a => .ok a
  | none => .error .badIpv4

end Ipv4Address

namespace Device

def toJson (d : Device) : Value := .string d.id

def reader : Reader Device := Reader.string.map Device.mk

end Device

namespace Port

def toJson (p : Port) : Value := .number p.number.toNat

def reader : Reader Port := Reader.u32.map Port.mk

end Port

namespace Encapsulation

def toJson (e : Encapsulation) : Value := .string e.text

def reader : Reader Encapsulation := .names all text

end Encapsulation

namespace Readiness

def toJson (r : Readiness) : Value := .string r.text

def reader : Reader Readiness := .names all text

end Readiness

namespace Network

def toJson (n : Network) : Value :=
  .object ([("name", .string n.name), ("network_id", .string n.id),
    ("network_type", n.encapsulation.toJson), ("gateway_ip", n.gateway.toJson)] ++
      Value.maybe "cidr" (n.cidr.map .string))

def record : Record [String, String, Encapsulation, Ipv4Address, Option String] Network where
  label := "struct Network"
  fields :=
    .cons (.required "name" .string) <|
    .cons (.required "network_id" .string) <|
    .cons (.withDefault "network_type" Encapsulation.reader .default) <|
    .cons (.required "gateway_ip" Ipv4Address.reader) <|
    .cons (.maybe "cidr" .string) .nil
  make := fun (name, id, encapsulation, gateway, cidr, ()) =>
    ⟨name, id, encapsulation, gateway, cidr⟩

def reader : Reader Network := record.read

end Network

namespace TunnelPorts

def toJson (t : TunnelPorts) : Value :=
  .object (Value.maybe "vxlan" (t.vxlan.map Port.toJson) ++
    Value.maybe "gre" (t.gre.map Port.toJson) ++
      Value.maybe "geneve" (t.geneve.map Port.toJson))

def record : Record [Option Port, Option Port, Option Port] TunnelPorts where
  label := "struct TunnelPorts"
  fields :=
    .cons (.maybe "vxlan" Port.reader) <|
    .cons (.maybe "gre" Port.reader) <|
    .cons (.maybe "geneve" Port.reader) .nil
  make := fun (vxlan, gre, geneve, ()) => ⟨vxlan, gre, geneve⟩

def reader : Reader TunnelPorts := record.read

end TunnelPorts

namespace Node

def toJson (x : Node) : Value :=
  .object [("hostname", .string x.hostname), ("int_bridge", x.bridge.toJson),
    ("int_bridge_mac", x.bridgeMac.toJson), ("data_ip", x.dataAddress.toJson),
    ("state", x.readiness.toJson), ("tunnel_ports", x.tunnels.toJson)]

def record : Record [String, Device, MacAddress, Ipv4Address, Readiness, TunnelPorts] Node where
  label := "struct Node"
  fields :=
    .cons (.required "hostname" .string) <|
    .cons (.required "int_bridge" Device.reader) <|
    .cons (.required "int_bridge_mac" MacAddress.reader) <|
    .cons (.required "data_ip" Ipv4Address.reader) <|
    .cons (.withDefault "state" Readiness.reader .default) <|
    .cons (.withDefault "tunnel_ports" TunnelPorts.reader .none) .nil
  make := fun (hostname, bridge, bridgeMac, dataAddress, readiness, tunnels, ()) =>
    ⟨hostname, bridge, bridgeMac, dataAddress, readiness, tunnels⟩

def reader : Reader Node := record.read

end Node

end GatewayRules
