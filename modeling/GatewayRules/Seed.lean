import GatewayRules.Text.Utf8
import GatewayRules.Wire.Inventory

/-! The file whose contents an inventory begins with. -/
namespace GatewayRules

inductive SeedError where
  | missing
  | undecodable
  | unread (error : Json.Error)
  deriving DecidableEq, Repr, Inhabited

namespace SeedError

def message (path : String) : SeedError → String
  | missing | undecodable => s!"failed to read inventory file {path}"
  | unread _ => s!"failed to parse inventory file {path}"

end SeedError

def Snapshot.ofFile : Option (List UInt8) → Except SeedError Snapshot
  | none => .error .missing
  | some bytes =>
    match Text.ofUtf8 bytes with
    | .error _ => .error .undecodable
    | .ok chars => (Snapshot.reader.readText chars).mapError .unread

end GatewayRules
