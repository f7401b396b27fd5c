/-! Values of settings as sources give them, before it is known what is wanted. -/
namespace GatewayRules

/-- A value from a source. What a list or an ordinary table holds is of no use to any setting. -/
inductive Setting where
  | null
  | flag (value : Bool)
  | integer (value : Int)
  | fraction
  | text (value : String)
  | list
  | table
  deriving DecidableEq, Repr, Inhabited

namespace Setting

/-- A table with this entry counts as the value of the entry, whatever else it holds. -/
def valueKey : String := "___figment_value_value"

/-- This entry of a table numbers the source of a value, so it has to be an integer of a kind
without sign. -/
def sourceKey : String := "___figment_value_id"

/-- What a table counts as; of two entries with one name the later counts. -/
def ofEntries (entries : List (String × Setting)) : Setting :=
  (entries.reverse.lookup valueKey).getD .table

end Setting

/-- What one source says about each key; of two values for one key the first counts. -/
abbrev Layer := List (String × Setting)

namespace Layer

def set (l : Layer) (key : String) (value : Setting) : Layer := (key, value) :: l

def find? (layers : List Layer) (key : String) : Option Setting :=
  layers.findSome? (List.lookup key ·)

end Layer

end GatewayRules
