import GatewayRules.Settings
import GatewayRules.Settings.Setting
import GatewayRules.Text.Blank

/-!
Settings from layers. The first layer that speaks of a key decides, and no value is converted into
one of another kind.
-/
namespace GatewayRules

inductive SettingsError where
  /-- A source cannot be read. -/
  | unreadable
  | wrongKind (key : String)
  | outOfRange (key : String)
  | blankApp
  deriving DecidableEq, Repr, Inhabited

namespace SettingsError

def message : SettingsError → String
  | unreadable | wrongKind _ | outOfRange _ => "Failed to load configuration"
  | blankApp => "app_name must not be empty"

end SettingsError

namespace Setting

def asText (key default : String) : Option Setting → Except SettingsError String
  | none => .ok default
  | some (.text value) => .ok value
  | some _ => .error (.wrongKind key)

/-- A text that can be left out, also by saying null. -/
def asTextOrNull (key : String) : Option Setting → Except SettingsError (Option String)
  | none | some .null => .ok none
  | some (.text value) => .ok (some value)
  | some _ => .error (.wrongKind key)

def asWord (key : String) (default : UInt32) : Option Setting → Except SettingsError UInt32
  | none => .ok default
  | some (.integer value) =>
    if 0 ≤ value ∧ value < UInt32.size then .ok (UInt32.ofNat value.toNat)
    else .error (.outOfRange key)
  | some _ => .error (.wrongKind key)

def asFlag (key : String) (default : Bool) : Option Setting → Except SettingsError Bool
  | none => .ok default
  | some (.flag value) => .ok value
  | some _ => .error (.wrongKind key)

end Setting

namespace Settings

/-- The settings that the values for the keys make. Keys are looked at in alphabetical order, so of
two errors the one of the earlier key is given, and a blank name is the last. -/
def ofValues (value : String → Option Setting) : Except SettingsError Settings := do
  let default := Settings.default
  let app ← Setting.asText "app_name" default.app (value "app_name")
  let priority ← Setting.asWord "gateway_priority" default.priority (value "gateway_priority")
  let inventoryFile ← Setting.asTextOrNull "inventory_file" (value "inventory_file")
  let localId ← Setting.asTextOrNull "local_node_id" (value "local_node_id")
  let readsFeed ← Setting.asFlag "read_stdin_feed" default.readsFeed (value "read_stdin_feed")
  let table ← Setting.asWord "routing_table" default.table (value "routing_table")
  if (Text.trim app.toList).isEmpty then .error .blankApp
  else return ⟨app, localId, priority, table, inventoryFile, readsFeed⟩

end Settings

end GatewayRules
