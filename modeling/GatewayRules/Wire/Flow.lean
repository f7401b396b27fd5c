import GatewayRules.Flow
import GatewayRules.Leadership
import GatewayRules.Wire.Topology

/-! The JSON forms of selectors and treatments, and of the names of applications and members. -/
namespace GatewayRules
open Json

namespace Member

def toJson (m : Member) : Value := .string m.id

def reader : Reader Member := Reader.string.map Member.mk

end Member

namespace Subnet

def toJson (s : Subnet) : Value :=
  .object [("address", s.address.toJson), ("len", .number s.length.toNat)]

def record : Record [Ipv4Address, UInt8] Subnet where
  label := "struct Ipv4Prefix"
  fields :=
    .cons (.required "address" Ipv4Address.reader) <|
    .cons (.required "len" .u8) .nil
  make := fun (address, length, ()) => ⟨address, length⟩

def reader : Reader Subnet := record.read

end Subnet

namespace Selector

def toJson (s : Selector) : Value :=
  .object [("eth_type", .number s.etherType.toNat), ("ipv4_dst", s.destination.toJson)]

def record : Record [UInt16, Subnet] Selector where
  label := "struct TrafficSelector"
  fields :=
    .cons (.required "eth_type" .u16) <|
    .cons (.required "ipv4_dst" Subnet.reader) .nil
  make := fun (etherType, destination, ()) => ⟨etherType, destination⟩

def reader : Reader Selector := record.read

end Selector

namespace Instruction

def toJson : Instruction → Value
  | setMac mac => .object [("set_eth_dst", mac.toJson)]
  | tunnelTo device remote =>
    .object [("tunnel_dst", .object [("device", device.toJson), ("remote", remote.toJson)])]
  | output port => .object [("output", port.toJson)]

def tunnelRecord : Record [Device, Ipv4Address] Instruction where
  label := "struct variant Instruction::TunnelDst"
  fields :=
    .cons (.required "device" Device.reader) <|
    .cons (.required "remote" Ipv4Address.reader) .nil
  make := fun (device, remote, ()) => tunnelTo device remote

def reader : Reader Instruction := .choice [
  ("set_eth_dst", .value (MacAddress.reader.map setMac)),
  ("tunnel_dst", .fields tunnelRecord.read),
  ("output", .value (Port.reader.map output))]

end Instruction

namespace Treatment

def toJson (t : Treatment) : Value :=
  .object [("instructions", .array (t.instructions.map Instruction.toJson))]

def record : Record [List Instruction] Treatment where
  label := "struct TrafficTreatment"
  fields := .cons (.required "instructions" Instruction.reader.list) .nil
  make := fun (instructions, ()) => ⟨instructions⟩

def reader : Reader Treatment := record.read

end Treatment

end GatewayRules
