import GatewayRules.Json.Scan
import GatewayRules.Settings.Setting

/-! Settings from a JSON text, which has to hold one object. -/
namespace GatewayRules
open Json

namespace Setting

def textOf (q : Quotation) : String := q.text.toOption.getD ""

mutual

/-- A value as a setting, unless a table in it numbers its source by something else than an integer
without sign. -/
def ofTree : Tree → Option Setting
  | .bool value => some (.flag value)
  | .number (.integer value) => some (.integer value)
  | .number (.float _) => some .fraction
  | .string q => some (.text (textOf q))
  | .array items _ => (ofItems items).map fun _ => .list
  | .object members _ => (ofMembers members).map ofEntries
  | .absent | .stray | .broken .. | .null => some .null

def ofItems : List Tree → Option (List Setting)
  | [] => some []
  | t :: rest => do return (← ofTree t) :: (← ofItems rest)

def ofMembers : List (Quotation × Tree) → Option (List (String × Setting))
  | [] => some []
  | (name, t) :: rest =>
    if textOf name = sourceKey then
      match t with
      | .number (.integer value) => if 0 ≤ value then ofMembers rest else none
      | _ => none
    else do return (textOf name, ← ofTree t) :: (← ofMembers rest)

end

end Setting

namespace Layer

def maxDepth : Nat := 126

/-- The members of the object that the text holds; of two with one name the later counts. -/
def ofJson? (s : List Char) : Option Layer :=
  match Tree.scan s with
  | (.object members close, rest) =>
    match Tree.vetMembers maxDepth members, close.check with
    | .ok (), .ok () =>
      if (skipBlanks rest).isEmpty then
        members.foldlM (fun l (name, t) => do
          return l.set (Setting.textOf name) (← Setting.ofTree t)) []
      else none
    | _, _ => none
  | _ => none

end Layer

end GatewayRules
