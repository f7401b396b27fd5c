import GatewayRules.Text.Decimal
import GatewayRules.Text.Fields

/-! JSON values that are written, and their compact text. -/
namespace GatewayRules.Json

/-- A value to write. Members keep their order. -/
inductive Value where
  | null
  | bool (value : Bool)
  | number (value : Nat)
  | string (value : String)
  | array (items : List Value)
  | object (members : List (String × Value))
  deriving Inhabited

/-- One character of a string. Everything but quotes, backslashes and control characters stands for
itself. -/
def escape (c : Char) : List Char :=
  if c = '"' then ['\\', '"']
  else if c = '\\' then ['\\', '\\']
  else if c.toNat = 8 then ['\\', 'b']
  else if c = '\t' then ['\\', 't']
  else if c = '\n' then ['\\', 'n']
  else if c.toNat = 12 then ['\\', 'f']
  else if c = '\r' then ['\\', 'r']
  else if c.toNat < 0x20 then '\\' :: 'u' :: Text.hexPadded 4 c.toNat
  else [c]

def quote (s : String) : List Char := '"' :: s.toList.flatMap escape ++ ['"']

namespace Value

mutual

def chars : Value → List Char
  | null => ['n', 'u', 'l', 'l']
  | bool true => ['t', 'r', 'u', 'e']
  | bool false => ['f', 'a', 'l', 's', 'e']
  | number value => Text.decimal value
  | string value => quote value
  | array items => '[' :: Text.join [','] (itemChars items) ++ [']']
  | object members => '\x7b' :: Text.join [','] (memberChars members) ++ ['\x7d']

def itemChars : List Value → List (List Char)
  | [] => []
  | v :: rest => v.chars :: itemChars rest

def memberChars : List (String × Value) → List (List Char)
  | [] => []
  | (name, v) :: rest => (quote name ++ ':' :: v.chars) :: memberChars rest

end

def text (v : Value) : String := String.ofList v.chars

def maybe (name : String) : Option Value → List (String × Value)
  | some v => [(name, v)]
  | none => []

end Value

end GatewayRules.Json
