import GatewayRules.Text.Escape

/-! Text between quotes in a TOML document: with or without escapes, on one line or on several. -/
namespace GatewayRules.Toml
open Text

def isPlainOrBreak (c : Char) : Bool := isPlain c || c = '\n'

def untilSingle : List Char → Option (List Char × List Char)
  | [] => none
  | '\'' :: s => some ([], s)
  | c :: s => do
    let (inner, rest) ← untilSingle s
    return (c :: inner, rest)

/-- The text up to three quotes in a row, and the text after them. Of up to five in a row, the last
three count. A backslash may keep the next character from being looked at. -/
def untilTriple (quote : Char) (escapes : Bool) : List Char → Option (List Char × List Char)
  | [] => none
  | c :: s =>
    if c = quote then
      match s with
      | a :: b :: rest =>
        if a = quote ∧ b = quote then
          match rest with
          | d :: e :: more =>
            if d = quote ∧ e = quote then some ([quote, quote], more)
            else if d = quote then some ([quote], e :: more)
            else some ([], d :: e :: more)
          | [d] => if d = quote then some ([quote], []) else some ([], [d])
          | [] => some ([], [])
        else do
          let (inner, rest) ← untilTriple quote escapes s
          return (c :: inner, rest)
      | _ => none
    else if c = '\\' ∧ escapes then
      match s with
      | [] => none
      | d :: s => do
        let (inner, rest) ← untilTriple quote escapes s
        return (c :: d :: inner, rest)
    else do
      let (inner, rest) ← untilTriple quote escapes s
      return (c :: inner, rest)

def endsLine (s : List Char) : Bool :=
  match s.dropWhile (fun c => c = ' ' || c = '\t') with
  | '\n' :: _ => true
  | _ => false

/-- A backslash at the end of a line goes with all blanks and line ends that follow; `folding` tells
that such are following. -/
def foldLines (folding : Bool) : List Char → List Char
  | [] => []
  | '\\' :: c :: s =>
    if endsLine (c :: s) then foldLines true (c :: s) else '\\' :: c :: foldLines false s
  | c :: s =>
    if folding && (c = ' ' || c = '\t' || c = '\n') then foldLines true s
    else c :: foldLines false s

def dropBreak : List Char → List Char
  | '\n' :: s => s
  | s => s

def lineText : List Char → Option (List Char × List Char)
  | '"' :: s => do
    let (inner, rest) ← untilQuote s
    if inner.all isPlain then return (← unescape? inner, rest) else none
  | '\'' :: s => do
    let (inner, rest) ← untilSingle s
    if inner.all isPlain then return (inner, rest) else none
  | _ => none

def quotedText : List Char → Option (List Char × List Char)
  | '"' :: '"' :: '"' :: s => do
    let (inner, rest) ← untilTriple '"' true (dropBreak s)
    if inner.all isPlainOrBreak then return (← unescape? (foldLines false inner), rest) else none
  | '\'' :: '\'' :: '\'' :: s => do
    let (inner, rest) ← untilTriple '\'' false (dropBreak s)
    if inner.all isPlainOrBreak then return (inner, rest) else none
  | s => lineText s

end GatewayRules.Toml
