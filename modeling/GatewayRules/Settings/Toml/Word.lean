import GatewayRules.Settings.Setting
import GatewayRules.Text.Decimal
import GatewayRules.Text.Fields

/-!
Values that a TOML document writes as one word: truth values, integers, floats, and dates or times.
-/
namespace GatewayRules.Toml
open Text

def isWordChar (c : Char) : Bool :=
  c.isAlphanum || c = '_' || c = '+' || c = '-' || c = '.' || c = ':'

/-- Digits of the given kind, where single underscores may stand between two of them. -/
def digits? (isDigit : Char → Bool) (s : List Char) : Option (List Char) :=
  let groups := fields '_' s
  if groups.all fun group => !group.isEmpty && group.all isDigit then some groups.flatten else none

def whole? (s : List Char) : Option (List Char) :=
  match digits? Char.isDigit s with
  | some ('0' :: _ :: _) => none
  | digits => digits

def signed : List Char → Bool × List Char
  | '+' :: s => (false, s)
  | '-' :: s => (true, s)
  | s => (false, s)

def based? (isDigit : Char → Bool) (base : Nat) (s : List Char) : Option Nat := do
  let digits ← digits? isDigit s
  return digits.foldl (fun sum c => base * sum + (hexValue? c).getD 0) 0

def integer? (s : List Char) : Option Int :=
  let small : Option Nat → Option Int := fun n => (n.filter (· < UInt64.size / 2)).map Int.ofNat
  match s with
  | '0' :: 'x' :: s => small (based? (fun c => (hexValue? c).isSome) 16 s)
  | '0' :: 'o' :: s => small (based? (fun c => '0' ≤ c && c ≤ '7') 8 s)
  | '0' :: 'b' :: s => small (based? (fun c => c = '0' || c = '1') 2 s)
  | s =>
    match signed s with
    | (true, s) => do
      let n := ofDecimal (← whole? s)
      if n ≤ UInt64.size / 2 then some (-(n : Int)) else none
    | (false, s) => small ((whole? s).map ofDecimal)

/-- The number `n * 10 ^ scale` is too large for a float of 64 bits. -/
def overflows (n : Nat) (scale : Int) : Bool :=
  let size : Int := (decimal n).length + scale
  if n = 0 ∨ size < 309 then false
  else if 309 < size then true
  else
    let limit := 1 <<< 1024 - 1 <<< 970
    if 0 ≤ scale then limit ≤ n * Nat.pow 10 scale.toNat
    else limit * Nat.pow 10 scale.natAbs ≤ n

/-- A number with a fraction or an exponent, or one that is not finite. A positive number that is
too large is none, and a negative one is minus infinity. -/
def isFloat (s : List Char) : Bool :=
  let (negative, s) := signed s
  if s = ['i', 'n', 'f'] ∨ s = ['n', 'a', 'n'] then true
  else
    let isMark : Char → Bool := fun c => c = 'e' || c = 'E'
    let mantissa := s.takeWhile (!isMark ·)
    let exponent : Option (Option Int) :=
      match s.dropWhile (!isMark ·) with
      | [] => some none
      | _ :: s =>
        let (below, s) := signed s
        (digits? Char.isDigit s).map fun digits =>
          some (if below then -(ofDecimal digits : Int) else ofDecimal digits)
    let parts : Option (List Char × List Char) :=
      match fields '.' mantissa, exponent with
      | [whole], some (some _) => (whole? whole).map (·, [])
      | [whole, part], some _ => do return (← whole? whole, ← digits? Char.isDigit part)
      | _, _ => none
    match parts with
    | none => false
    | some (whole, part) =>
      negative ||
        !overflows (ofDecimal (whole ++ part)) ((exponent.join.getD 0) - part.length)

def fixed? (size : Nat) (s : List Char) : Option Nat :=
  if s.length = size then ofDecimal? s else none

def isLeapYear (year : Nat) : Bool :=
  year % 4 = 0 && (year % 100 ≠ 0 || year % 400 = 0)

def daysInMonth (year month : Nat) : Nat :=
  if month = 2 then (if isLeapYear year then 29 else 28)
  else if month = 4 ∨ month = 6 ∨ month = 9 ∨ month = 11 then 30
  else 31

def isDate (s : List Char) : Bool :=
  match fields '-' s with
  | [year, month, day] =>
    match fixed? 4 year, fixed? 2 month, fixed? 2 day with
    | some year, some month, some day =>
      1 ≤ month && month ≤ 12 && 1 ≤ day && day ≤ daysInMonth year month
    | _, _, _ => false
  | _ => false

def isClock (hour minute : List Char) : Bool :=
  match fixed? 2 hour, fixed? 2 minute with
  | some hour, some minute => hour ≤ 23 && minute ≤ 59
  | _, _ => false

/-- A time of day: hours, minutes and seconds, and perhaps a fraction of a second. A leap second is
one. -/
def isTime (s : List Char) : Bool :=
  match fields ':' s with
  | [hour, minute, second] =>
    isClock hour minute &&
      match fields '.' second with
      | [second] => ((fixed? 2 second).filter (· ≤ 60)).isSome
      | [second, part] => ((fixed? 2 second).filter (· ≤ 60)).isSome && (ofDecimal? part).isSome
      | _ => false
  | _ => false

/-- A distance from universal time: a letter for none, or a sign with hours and minutes. -/
def isOffset : List Char → Bool
  | ['Z'] | ['z'] => true
  | c :: s => (c = '+' || c = '-') &&
    match fields ':' s with
    | [hour, minute] => isClock hour minute
    | _ => false
  | [] => false

def isZonedTime (s : List Char) : Bool :=
  let inTime : Char → Bool := fun c => c.isDigit || c = ':' || c = '.'
  let offset := s.dropWhile inTime
  isTime (s.takeWhile inTime) && (offset.isEmpty || isOffset offset)

def isMoment (s : List Char) : Bool :=
  isDate s || isTime s ||
    isDate (s.take 10) &&
      match s.drop 10 with
      | c :: s => (c = 'T' || c = 't') && isZonedTime s
      | [] => false

/-- The value that a word writes. A moment has parts, like a table. -/
def word? (s : List Char) : Option Setting :=
  if s = ['t', 'r', 'u', 'e'] then some (.flag true)
  else if s = ['f', 'a', 'l', 's', 'e'] then some (.flag false)
  else if isMoment s then some .table
  else if isFloat s then some .fraction
  else (integer? s).map .integer

end GatewayRules.Toml
