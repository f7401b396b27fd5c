import GatewayRules.Text.Decimal

/-! The place in a text that a message may end with: a line and a column, as decimal numbers. -/
namespace GatewayRules.Text

/-- Cuts a word and the digits after it off the end of a text that is given in reverse. The number
that the digits write has 64 bits. -/
def cutNumber? (word reversed : List Char) : Option (List Char) :=
  match ofDecimal? (reversed.takeWhile Char.isDigit).reverse with
  | some n =>
    if n < UInt64.size then word.reverse.isPrefixOf? (reversed.dropWhile Char.isDigit) else none
  | none => none

/-- Drops the place at the end of a message, if there is one. Of two places only the last goes. -/
def dropPlace (message : String) : String :=
  let shortened := do
    let rest ← cutNumber? " column ".toList message.toList.reverse
    cutNumber? " at line ".toList rest
  match shortened with
  | some rest => String.ofList rest.reverse
  | none => message

end GatewayRules.Text
