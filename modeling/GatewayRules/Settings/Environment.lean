import GatewayRules.Settings.Setting
import GatewayRules.Text.Blank
import GatewayRules.Text.Escape
import GatewayRules.Text.Fields

/-!
Settings from environment variables. A value is a word, a number, a quoted text, a list or a table
if it reads as one to its end, and a plain text otherwise.
-/
namespace GatewayRules.Environment
open Text

def isBlank (c : Char) : Bool := c = ' ' || c = '\t' || c = '\n' || c = '\r' || c.toNat = 12

def skipBlanks (s : List Char) : List Char := s.dropWhile isBlank

def unsigned : List Char → List Char
  | '+' :: s => s
  | '-' :: s => s
  | s => s

/-- Digits with a point and perhaps an exponent; there is a digit before or after the point. -/
def isFraction (s : List Char) : Bool :=
  let s := unsigned s
  let whole := s.takeWhile Char.isDigit
  match s.dropWhile Char.isDigit with
  | '.' :: s =>
    let part := s.takeWhile Char.isDigit
    (!whole.isEmpty || !part.isEmpty) &&
      match s.dropWhile Char.isDigit with
      | [] => true
      | e :: s => (e = 'e' || e = 'E') && (ofDecimal? (unsigned s)).isSome
  | _ => false

def natural? (s : List Char) : Option Int :=
  ((ofDecimal? s).filter (· < UInt64.size)).map Int.ofNat

def integer? : List Char → Option Int
  | '-' :: s => ((ofDecimal? s).filter (· ≤ UInt64.size / 2)).map fun n => -(n : Int)
  | '+' :: s => natural? s
  | s => natural? s

def plain (s : List Char) : Setting :=
  if isFraction s then .fraction
  else match integer? s with
    | some i => .integer i
    | none => .text (String.ofList s)

def isSeparator (c : Char) : Bool := c = ',' || c = '\x7b' || c = '\x7d' || c = '[' || c = ']'

def isNameChar (c : Char) : Bool := c.isAlphanum || c = '_' || c = '-'

/-- The characters from the beginning that have room in a number of octets. -/
def fitting : Nat → List Char → List Char
  | _, [] => []
  | room, c :: s => if c.utf8Size ≤ room then c :: fitting (room - c.utf8Size) s else []

/-- The text that is meant by what stands between quotes. If there is an escape, the text before the
first one keeps only as many octets as it has characters, so it is cut unless it is ASCII. -/
def unquote? (inner : List Char) : Option (List Char) :=
  let before := inner.takeWhile (· ≠ '\\')
  match inner.dropWhile (· ≠ '\\') with
  | [] => some before
  | escaped => (unescape? escaped).map (fitting before.length before ++ ·)

def quotedText (s : List Char) : Option (List Char × List Char) := do
  let (inner, rest) ← untilQuote s
  if inner.all isPlain then return (← unquote? inner, rest) else none

def skipName : List Char → Option (List Char)
  | '"' :: s => (quotedText s).map (·.2)
  | s => if (s.takeWhile isNameChar).isEmpty then none else some (s.dropWhile isNameChar)

mutual

/-- Reads a value and the blanks around it; the number bounds the steps. -/
def readValue : Nat → List Char → Option (Setting × List Char)
  | 0, _ => none
  | n + 1, s => do
    let (value, rest) ← match skipBlanks s with
      | 't' :: 'r' :: 'u' :: 'e' :: s => some (.flag true, s)
      | 'f' :: 'a' :: 'l' :: 's' :: 'e' :: s => some (.flag false, s)
      | '\x7b' :: s => (skipEntries n s).map (.table, ·)
      | '[' :: s => (skipItems n s).map (.list, ·)
      | '"' :: s => (quotedText s).map fun (text, rest) => (.text (String.ofList text), rest)
      | '\'' :: c :: '\'' :: s => some (.text (String.ofList [c]), s)
      | '\'' :: _ => none
      | s =>
        some (plain (trim (s.takeWhile (!isSeparator ·))), s.dropWhile (!isSeparator ·))
    return (value, skipBlanks rest)

/-- Reads past the items of a list and its bracket. A comma may follow the last item. -/
def skipItems : Nat → List Char → Option (List Char)
  | 0, _ => none
  | _ + 1, ']' :: s => some s
  | n + 1, s => do
    match ← readValue n s with
    | (_, ',' :: s) => skipItems n s
    | (_, ']' :: s) => some s
    | _ => none

/-- Reads past the entries of a table and its brace. A comma may follow the last entry. -/
def skipEntries : Nat → List Char → Option (List Char)
  | 0, _ => none
  | _ + 1, '\x7d' :: s => some s
  | n + 1, s => do
    match skipBlanks (← skipName (skipBlanks s)) with
    | '=' :: s =>
      match ← readValue n s with
      | (_, ',' :: s) => skipEntries n s
      | (_, '\x7d' :: s) => some s
      | _ => none
    | _ => none

end

def value (text : String) : Setting :=
  match readValue (2 * text.length + 2) text.toList with
  | some (value, []) => value
  | _ => .text text

/-- What the names of variables for settings begin with, in either case. -/
def marker : String := "gwsync_"

def dropMarker : List Char → List Char → Option (List Char)
  | [], s => some s
  | _ :: _, [] => none
  | m :: marker, c :: s => if c.toLower = m then dropMarker marker s else none

/-- The parts of the key that a variable's name stands for, if it stands for one. -/
def key? (name : String) : Option (List (List Char)) := do
  let rest ← dropMarker marker.toList (trim name.toList)
  let parts := fields '.' ((trim rest).map Char.toLower)
  if parts.any List.isEmpty then none else some parts

/-- What a variable says: the setting of a simple key, or a table for the first part of a longer
one. -/
def setting? (name content : String) : Option (String × Setting) :=
  match key? name with
  | some [key] => some (String.ofList key, value content)
  | some (key :: _) => some (String.ofList key, .table)
  | _ => none

/-- What the variables say; of two that differ in case only, the later counts. -/
def layer (environment : List (String × String)) : Layer :=
  (environment.filterMap fun v => setting? v.1 v.2).reverse

end GatewayRules.Environment
