import GatewayRules.Inventory
import GatewayRules.Wire.Topology

/-!
The JSON forms of updates and snapshots. The kind of an update is a member of its object, so the
other members are taken in before their shapes are known.
-/
namespace GatewayRules
open Json

namespace Update

def toJson : Update → Value
  | upsertNetwork n => .object [("op", .string "upsert_network"), ("network", n.toJson)]
  | removeNetwork id => .object [("op", .string "remove_network"), ("network_id", .string id)]
  | upsertNode x => .object [("op", .string "upsert_node"), ("node", x.toJson)]
  | removeNode hostname => .object [("op", .string "remove_node"), ("hostname", .string hostname)]

private def payload {β : Type} (variant field : String) (read : Reader β) (make : β → Update) :
    Reader Update :=
  let record : Record [β] Update := {
    label := s!"struct variant InventoryUpdate::{variant}"
    fields := .cons (.required field read) .nil
    make := fun (b, ()) => make b }
  record.read

def kinds : List (String × Reader Update) := [
  ("upsert_network", payload "UpsertNetwork" "network" Network.reader upsertNetwork),
  ("remove_network", payload "RemoveNetwork" "network_id" .string removeNetwork),
  ("upsert_node", payload "UpsertNode" "node" Node.reader upsertNode),
  ("remove_node", payload "RemoveNode" "hostname" .string removeNode)]

def readKind (t : Tree) : Except Error (Reader Update) :=
  match t with
  | .string name => do Reader.variantNamed kinds (← orFault name.text)
  | t => .error (t.mismatch "variant identifier")

def maxDepth : Nat := 126

/-- Takes in the members of an update and reads its kind where it stands among them. The other
members come in reverse order. -/
def takeMembers (kind : Option (Reader Update)) (others : List (Quotation × Tree)) :
    List (Quotation × Tree) → Except Error (Option (Reader Update) × List (Quotation × Tree))
  | [] => .ok (kind, others)
  | (name, t) :: rest => do
    let text ← orFault name.text
    if text = "op" then
      match kind with
      | some _ => reject (.repeatedField "op")
      | none => takeMembers (some (← readKind t)) others rest
    else
      orFault (t.vet maxDepth)
      takeMembers kind ((name, t) :: others) rest

/-- An update is an object with its kind among the members, or an array with its kind in front. -/
def reader : Reader Update := fun _ t =>
  match t with
  | .object members close => do
    let (kind, others) ← takeMembers none [] members
    orFault close.check
    match kind with
    | none => reject (.missingField "op")
    | some read => read .buffered (.object others.reverse .closed)
  | .array [] close => do
    orFault close.check
    reject (.missingField "op")
  | .array (kind :: items) close => do
    let read ← readKind kind
    orFault (Tree.vetItems maxDepth items)
    orFault close.check
    read .buffered (.array items .closed)
  | t => .error (t.mismatch "internally tagged enum InventoryUpdate")

end Update

structure Snapshot where
  networks : List Network
  nodes : List Node
  deriving DecidableEq, Repr, Inhabited

namespace Snapshot

def toJson (s : Snapshot) : Value :=
  .object [("networks", .array (s.networks.map Network.toJson)),
    ("nodes", .array (s.nodes.map Node.toJson))]

def record : Record [List Network, List Node] Snapshot where
  label := "struct InventorySnapshot"
  fields :=
    .cons (.withDefault "networks" Network.reader.list []) <|
    .cons (.withDefault "nodes" Node.reader.list []) .nil
  make := fun (networks, nodes, ()) => ⟨networks, nodes⟩

def reader : Reader Snapshot := record.read

/-- Nodes come first, so that networks find their owners. -/
def updates (s : Snapshot) : List Update :=
  s.nodes.map .upsertNode ++ s.networks.map .upsertNetwork

end Snapshot

end GatewayRules
