import GatewayRules.Settings.Environment
import GatewayRules.Settings.Extract
import GatewayRules.Settings.Json
import GatewayRules.Settings.Toml.Document

/-!
Settings from all their sources: a TOML file, a JSON file and the environment. The environment
counts before the JSON file, that before the TOML file, and defaults come last.
-/
namespace GatewayRules

/-- Where settings come from. A file that does not exist says nothing. -/
structure Sources where
  toml : Option (List Char)
  json : Option (List Char)
  environment : List (String × String)
  deriving DecidableEq, Repr, Inhabited

namespace Sources

def hostname (s : Sources) : Option String := s.environment.lookup "HOSTNAME"

def fileLayer (read : List Char → Option Layer) :
    Option (List Char) → Except SettingsError Layer
  | none => .ok []
  | some text =>
    match read text with
    | some layer => .ok layer
    | none => .error .unreadable

def layers (s : Sources) : Except SettingsError (List Layer) := do
  let toml ← fileLayer Toml.layer? s.toml
  let json ← fileLayer Layer.ofJson? s.json
  return [Environment.layer s.environment, json, toml]

end Sources

def Settings.load (s : Sources) : Except SettingsError Settings := do
  let layers ← s.layers
  Settings.ofValues (Layer.find? layers)

end GatewayRules
