import GatewayRules.Topology

/-! Rules for a switch: the traffic they match, what they do with it, and requests for them. -/
namespace GatewayRules
open Text

/-- An address range given by its leading bits. -/
structure Subnet where
  address : Ipv4Address
  length : UInt8
  deriving DecidableEq, Repr, Inhabited

namespace Subnet

def host (address : Ipv4Address) : Subnet := ⟨address, 32⟩

def chars (s : Subnet) : List Char := s.address.chars ++ '/' :: decimal s.length.toNat

def text (s : Subnet) : String := String.ofList s.chars

instance : ToString Subnet := ⟨text⟩

end Subnet

structure Selector where
  etherType : UInt16
  destination : Subnet
  deriving DecidableEq, Repr, Inhabited

namespace Selector

def ipv4 : UInt16 := 0x0800

def chars (s : Selector) : List Char :=
  "eth_type=0x".toList ++ hexPadded 4 s.etherType.toNat ++
    ",ipv4_dst=".toList ++ s.destination.chars

def text (s : Selector) : String := String.ofList s.chars

instance : ToString Selector := ⟨text⟩

end Selector

/-- One step of what a switch does with matching traffic. -/
inductive Instruction where
  | setMac (mac : MacAddress)
  | tunnelTo (device : Device) (remote : Ipv4Address)
  | output (port : Port)
  deriving DecidableEq, Repr, Inhabited

namespace Instruction

/-- The device of a tunnel is not written: it is the device of the rule. -/
def chars : Instruction → List Char
  | setMac mac => "eth_dst=".toList ++ mac.chars
  | tunnelTo _ remote => "tun_dst=".toList ++ remote.chars
  | output port => "output:".toList ++ port.chars

def text (i : Instruction) : String := String.ofList i.chars

instance : ToString Instruction := ⟨text⟩

end Instruction

structure Treatment where
  instructions : List Instruction
  deriving DecidableEq, Repr, Inhabited

namespace Treatment

def empty : Treatment := ⟨[]⟩

def push (t : Treatment) (i : Instruction) : Treatment := ⟨t.instructions ++ [i]⟩

def output (t : Treatment) : Option Port :=
  t.instructions.reverse.findSome? fun
    | .output port => some port
    | _ => none

def chars (t : Treatment) : List Char := join [','] (t.instructions.map Instruction.chars)

def text (t : Treatment) : String := String.ofList t.chars

instance : ToString Treatment := ⟨text⟩

end Treatment

structure Rule where
  device : Device
  selector : Selector
  treatment : Treatment
  deriving DecidableEq, Repr, Inhabited

inductive Action where
  | install
  | remove
  deriving DecidableEq, Repr, Inhabited

namespace Action

def verb : Action → String
  | install => "install"
  | remove => "remove"

def title : Action → String
  | install => "Install"
  | remove => "Remove"

end Action

/-- Whose rules are programmed, and where in a device they go. -/
structure Placement where
  app : String
  priority : UInt32
  table : UInt32
  deriving DecidableEq, Repr, Inhabited

namespace Placement

def defaultApp : String := "gwsync"

def defaultPriority : UInt32 := 31000

def defaultTable : UInt32 := 30

protected def default : Placement := ⟨defaultApp, defaultPriority, defaultTable⟩

end Placement

structure Request where
  rule : Rule
  placement : Placement
  action : Action
  deriving DecidableEq, Repr, Inhabited

namespace Request

def text (r : Request) : String :=
  s!"{r.action.title} rule app={r.placement.app} device={r.rule.device} " ++
    s!"table={r.placement.table} priority={r.placement.priority} " ++
      "match=[" ++ r.rule.selector.text ++ "] actions=[" ++ r.rule.treatment.text ++ "]"

end Request

end GatewayRules
