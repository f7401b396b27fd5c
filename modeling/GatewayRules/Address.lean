import GatewayRules.Text.Decimal
import GatewayRules.Text.Fields

/-! Ethernet and IPv4 addresses with their written forms. -/
namespace GatewayRules
open Text

/-- A 48-bit Ethernet address, most significant octet first. -/
structure MacAddress where
  o₁ : UInt8
  o₂ : UInt8
  o₃ : UInt8
  o₄ : UInt8
  o₅ : UInt8
  o₆ : UInt8
  deriving DecidableEq, Repr, Inhabited

namespace MacAddress

def octets (m : MacAddress) : List UInt8 := [m.o₁, m.o₂, m.o₃, m.o₄, m.o₅, m.o₆]

def chars (m : MacAddress) : List Char :=
  join [':'] (m.octets.map fun octet => hexPadded 2 octet.toNat)

def text (m : MacAddress) : String := String.ofList m.chars

instance : ToString MacAddress := ⟨text⟩

/-- A group of an address: two hexadecimal digits, or a plus sign and one. -/
def group? : List Char → Option UInt8
  | [a, b] =>
    if a = '+' then (hexValue? b).map UInt8.ofNat
    else do return UInt8.ofNat (16 * (← hexValue? a) + (← hexValue? b))
  | _ => none

def ofChars? (s : List Char) : Option MacAddress :=
  match (fields ':' s).map group? with
  | [some a, some b, some c, some d, some e, some f] => some ⟨a, b, c, d, e, f⟩
  | _ => none

def ofString? (s : String) : Option MacAddress := ofChars? s.toList

end MacAddress

structure BadMac where
  text : String
  deriving DecidableEq, Repr, Inhabited

def BadMac.message (e : BadMac) : String := s!"invalid MAC address: {e.text}"

def MacAddress.parse (s : String) : Except BadMac MacAddress :=
  match ofString? s with
  | some m => .ok m
  | none => .error ⟨s⟩

/-- An IPv4 address, most significant octet first. -/
structure Ipv4Address where
  o₁ : UInt8
  o₂ : UInt8
  o₃ : UInt8
  o₄ : UInt8
  deriving DecidableEq, Repr, Inhabited

namespace Ipv4Address

def octets (a : Ipv4Address) : List UInt8 := [a.o₁, a.o₂, a.o₃, a.o₄]

def chars (a : Ipv4Address) : List Char :=
  join ['.'] (a.octets.map fun octet => decimal octet.toNat)

def text (a : Ipv4Address) : String := String.ofList a.chars

instance : ToString Ipv4Address := ⟨text⟩

/-- A part of an address: at most three digits, no needless leading zero, at most 255. -/
def part? (s : List Char) : Option UInt8 :=
  if s.length ≤ 3 ∧ (s.head? = some '0' → s = ['0']) then
    match ofDecimal? s with
    | some n => if n < 256 then some (UInt8.ofNat n) else none
    | none => none
  else none

def ofChars? (s : List Char) : Option Ipv4Address :=
  match (fields '.' s).map part? with
  | [some a, some b, some c, some d] => some ⟨a, b, c, d⟩
  | _ => none

def ofString? (s : String) : Option Ipv4Address := ofChars? s.toList

end Ipv4Address

end GatewayRules
