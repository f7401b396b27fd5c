/-!
Text without terminal control. Control characters go, except those that are blanks, and so do the
sequences that the escape character begins: a single command, a command with parameters, or a string
that is addressed to the terminal.
-/
namespace GatewayRules.Text

/-- Where in a control sequence a text is. -/
inductive ControlState where
  | outside
  /-- Right after the escape character. -/
  | escape
  /-- Before the last character of a command without parameters. -/
  | command
  /-- Before the last character of a command with parameters. -/
  | parameters
  /-- In a string that a bell ends. -/
  | title
  /-- At the head of a string for a device. -/
  | deviceHead
  /-- After parameters at that head. -/
  | deviceParameters
  /-- After other characters at that head. -/
  | deviceCommand
  /-- In a string that a terminator ends. -/
  | body
  deriving DecidableEq, Repr, Inhabited

def isControlBlank (c : Char) : Bool := c = '\t' || c = '\n' || c = '\r' || c.toNat = 12

def isBetween (low high : Nat) (c : Char) : Bool := low ≤ c.toNat && c.toNat ≤ high

/-- The octet that ends a string is part of the character. -/
def hasTerminator (c : Char) : Bool := (String.utf8EncodeChar c).contains 0x9c

namespace ControlState

def ofEscaped (c : Char) : ControlState :=
  if c = '[' then parameters
  else if c = ']' then title
  else if c = 'P' then deviceHead
  else if c = 'X' ∨ c = '^' ∨ c = '_' then body
  else if isBetween 0x20 0x2f c then command
  else if isBetween 0x30 0x7e c then outside
  else escape

/-- What follows a character of a sequence that does not begin or cancel one. -/
def advance (s : ControlState) (c : Char) : ControlState :=
  match s with
  | outside => outside
  | escape => ofEscaped c
  | command => if isBetween 0x30 0x7e c then outside else command
  | parameters => if isBetween 0x40 0x7e c then outside else parameters
  | title => if c.toNat = 7 then outside else title
  | deviceHead =>
    if isBetween 0x40 0x7e c then body
    else if isBetween 0x30 0x3f c then deviceParameters
    else if isBetween 0x20 0x2f c then deviceCommand
    else deviceHead
  | deviceParameters =>
    if isBetween 0x3c 0x7e c then body
    else if isBetween 0x20 0x2f c then deviceCommand
    else deviceParameters
  | deviceCommand => if isBetween 0x30 0x7e c then body else deviceCommand
  | body => if hasTerminator c then outside else body

/-- A string swallows blanks, and any other sequence is broken off by one. -/
def isString : ControlState → Bool
  | outside | escape | command | parameters => false
  | title | deviceHead | deviceParameters | deviceCommand | body => true

/-- The state after a character. An escape begins a sequence in every state, and two characters
cancel one. -/
def next (s : ControlState) (c : Char) : ControlState :=
  if c.toNat = 0x1b then escape
  else if c.toNat = 0x18 ∨ c.toNat = 0x1a then outside
  else if isControlBlank c && !s.isString then outside
  else s.advance c

def shows (s : ControlState) (c : Char) : Bool :=
  if isControlBlank c then !s.isString
  else s = outside && 0x20 ≤ c.toNat && c.toNat ≠ 0x7f

end ControlState

def dropControl (state : ControlState) : List Char → List Char
  | [] => []
  | c :: s =>
    let rest := dropControl (state.next c) s
    if state.shows c then c :: rest else rest

end GatewayRules.Text
