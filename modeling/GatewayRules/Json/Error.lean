import GatewayRules.Address
import GatewayRules.Text.Place
import GatewayRules.Text.Quoted

/-!
What stops a document from being read. The text may break off or be no JSON, or the value may have
another shape than the one wanted; only a wrong shape has a wording.
-/
namespace GatewayRules.Json

inductive Fault where
  /-- It ends too early. -/
  | unfinished
  /-- It goes on as no JSON text does. -/
  | malformed
  deriving DecidableEq, Repr, Inhabited

/-- What stands where something else is wanted. -/
inductive Found where
  | null
  | boolean (value : Bool)
  | integer (value : Int)
  | float
  | string (value : String)
  | sequence
  | map
  | unitVariant
  deriving DecidableEq, Repr, Inhabited

namespace Found

def text : Found → String
  | null => "null"
  | boolean true => "boolean `true`"
  | boolean false => "boolean `false`"
  | integer value => s!"integer `{value}`"
  | float => "floating point"
  | string value => s!"string {Text.quote value}"
  | sequence => "sequence"
  | map => "map"
  | unitVariant => "unit variant"

end Found

inductive Mismatch where
  | wrongType (found : Found) (wanted : String)
  | wrongValue (found : Found) (wanted : String)
  | wrongLength (length : Nat) (wanted : String)
  | missingField (name : String)
  | repeatedField (name : String)
  | unknownVariant (name : String) (known : List String)
  | badMac (error : BadMac)
  | badIpv4
  deriving DecidableEq, Repr, Inhabited

namespace Mismatch

private def quoted (name : String) : String := s!"`{name}`"

def choices : List String → String
  | [] => "there are no variants"
  | [a] => quoted a
  | [a, b] => quoted a ++ " or " ++ quoted b
  | names => "one of " ++ ", ".intercalate (names.map quoted)

/-- The wording. It names no place in the document, and an end of a cited text that looks like one
goes as well. -/
def message : Mismatch → String
  | wrongType found wanted => s!"invalid type: {found.text}, expected {wanted}"
  | wrongValue found wanted => s!"invalid value: {found.text}, expected {wanted}"
  | wrongLength length wanted => s!"invalid length {length}, expected {wanted}"
  | missingField name => s!"missing field {quoted name}"
  | repeatedField name => s!"duplicate field {quoted name}"
  | unknownVariant name known => s!"unknown variant {quoted name}, expected {choices known}"
  | badMac error => Text.dropPlace error.message
  | badIpv4 => "invalid IPv4 address syntax"

end Mismatch

/-- Why a document is not read: the first thing that is wrong, from left to right. -/
inductive Error where
  | fault (fault : Fault)
  | mismatch (mismatch : Mismatch)
  deriving DecidableEq, Repr, Inhabited

end GatewayRules.Json
