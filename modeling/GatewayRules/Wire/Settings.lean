import GatewayRules.Settings
import GatewayRules.Json.Reader
import GatewayRules.Json.Value

/-! The JSON form of settings. -/
namespace GatewayRules.Settings
open Json

def toJson (s : Settings) : Value :=
  .object ([("app_name", .string s.app)] ++
    Value.maybe "local_node_id" (s.localId.map .string) ++
      [("gateway_priority", .number s.priority.toNat), ("routing_table", .number s.table.toNat)] ++
        Value.maybe "inventory_file" (s.inventoryFile.map .string) ++
          [("read_stdin_feed", .bool s.readsFeed)])

def record : Record [String, Option String, UInt32, UInt32, Option String, Bool] Settings where
  label := "struct Config"
  fields :=
    .cons (.required "app_name" .string) <|
    .cons (.nullable "local_node_id" .string) <|
    .cons (.required "gateway_priority" .u32) <|
    .cons (.required "routing_table" .u32) <|
    .cons (.nullable "inventory_file" (.text "path string")) <|
    .cons (.required "read_stdin_feed" .bool) .nil
  make := fun (app, localId, priority, table, inventoryFile, readsFeed, ()) =>
    ⟨app, localId, priority, table, inventoryFile, readsFeed⟩

def reader : Reader Settings := record.read

end GatewayRules.Settings
