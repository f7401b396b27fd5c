import GatewayRules.Settings.Toml.Outline
import GatewayRules.Settings.Toml.Quoted
import GatewayRules.Settings.Toml.Word

/-! Settings from a TOML document. -/
namespace GatewayRules.Toml
open Text

def isBlank (c : Char) : Bool := c = ' ' || c = '\t'

def skipBlanks (s : List Char) : List Char := s.dropWhile isBlank

def isKeyChar (c : Char) : Bool := c.isAlphanum || c = '_' || c = '-'

/-- No key has so many parts, and no value lies so deep. -/
def depthLimit : Nat := 80

def keyPart (s : List Char) : Option (String × List Char) :=
  match s with
  | '"' :: _ | '\'' :: _ => (lineText s).map fun (part, rest) => (String.ofList part, rest)
  | s =>
    let part := s.takeWhile isKeyChar
    if part.isEmpty then none else some (String.ofList part, s.dropWhile isKeyChar)

def keyParts : Nat → List Char → Option (Path × List Char)
  | 0, _ => none
  | n + 1, s => do
    let (part, rest) ← keyPart (skipBlanks s)
    match skipBlanks rest with
    | '.' :: s =>
      let (parts, rest) ← keyParts n s
      return (part :: parts, rest)
    | rest => return ([part], rest)

def key (s : List Char) : Option (Path × List Char) := keyParts (depthLimit - 1) s

def skipLayout (inComment : Bool) : List Char → Option (List Char)
  | [] => some []
  | c :: s =>
    if inComment then
      if c = '\n' then skipLayout false s
      else if isPlain c then skipLayout true s
      else none
    else if isBlank c || c = '\n' then skipLayout false s
    else if c = '#' then skipLayout true s
    else some (c :: s)

def skipLineEnd (s : List Char) : Option (List Char) :=
  let rest := match skipBlanks s with
    | '#' :: s => s.dropWhile isPlain
    | s => s
  match rest with
  | [] => some []
  | '\n' :: s => some s
  | _ => none

/-- Reads a value that is one word; a blank may stand between a date and a time. -/
def readWord (s : List Char) : Option (Setting × List Char) :=
  let first := s.takeWhile isWordChar
  let rest := s.dropWhile isWordChar
  match isDate first, rest with
  | true, ' ' :: c :: s =>
    if c.isDigit then
      if isMoment (first ++ 'T' :: (c :: s).takeWhile isWordChar) then
        some (.table, (c :: s).dropWhile isWordChar)
      else none
    else some (.table, rest)
  | _, _ => (word? first).map (·, rest)

mutual

/-- Reads a value. The first number bounds the steps, and the second one the depth. -/
def readValue : Nat → Nat → List Char → Option (Setting × List Char)
  | 0, _, _ => none
  | n + 1, depth, s =>
    match s with
    | '"' :: _ | '\'' :: _ =>
      (quotedText s).map fun (text, rest) => (.text (String.ofList text), rest)
    | '[' :: s =>
      if depth = 0 then none
      else do return (.list, ← skipItems n (depth - 1) (← skipLayout false s))
    | '\x7b' :: s =>
      if depth = 0 then none
      else match skipBlanks s with
        | '\x7d' :: s => some (.table, s)
        | s => do
          let (o, rest) ← readEntries n (depth - 1) .empty s
          if o.hasNoSource 0 then some (o.setting [], rest) else none
    | s => readWord s

/-- Reads past the items of an array and its bracket. A comma may follow the last item. -/
def skipItems : Nat → Nat → List Char → Option (List Char)
  | 0, _, _ => none
  | n + 1, depth, s =>
    match s with
    | ']' :: s => some s
    | s => do
      let (_, s) ← readValue n depth s
      match ← skipLayout false s with
      | ',' :: s => skipItems n depth (← skipLayout false s)
      | ']' :: s => some s
      | _ => none

def readEntries : Nat → Nat → Outline → List Char → Option (Outline × List Char)
  | 0, _, _, _ => none
  | n + 1, depth, o, s => do
    let (path, s) ← key s
    match s with
    | '=' :: s =>
      let (setting, s) ← readValue n depth (skipBlanks s)
      let o ← o.assign path setting
      match skipBlanks s with
      | ',' :: s => readEntries n depth o s
      | '\x7d' :: s => some (o, s)
      | _ => none
    | _ => none

end

def headerPath (s : List Char) : Option (Path × List Char) := do
  let (path, rest) ← key s
  match rest with
  | ']' :: s => some (path, s)
  | _ => none

/-- Reads a statement that begins with the first character of the text, and its line's end. -/
def readStatement (o : Outline) (s : List Char) : Option (Outline × List Char) :=
  match s with
  | '[' :: '[' :: s => do
    match ← headerPath s with
    | (path, ']' :: s) => return (← o.openNext path, ← skipLineEnd s)
    | _ => none
  | '[' :: s => do
    let (path, s) ← headerPath s
    return (← o.openTable path, ← skipLineEnd s)
  | s => do
    match ← key s with
    | (path, '=' :: s) =>
      let (setting, s) ← readValue (2 * s.length + 2) (depthLimit - 1) (skipBlanks s)
      return (← o.assign path setting, ← skipLineEnd s)
    | _ => none

def readStatements : Nat → Outline → List Char → Option Outline
  | 0, _, _ => none
  | n + 1, o, s => do
    match ← skipLayout false s with
    | [] => some o
    | s =>
      let (o, rest) ← readStatement o s
      if o.hasNoSource 1 then readStatements n o rest else none

def unifyBreaks : List Char → List Char
  | [] => []
  | '\r' :: '\n' :: s => '\n' :: unifyBreaks s
  | c :: s => c :: unifyBreaks s

def dropMark : List Char → List Char
  | '\ufeff' :: s => s
  | s => s

def layer? (s : List Char) : Option Layer :=
  let s := unifyBreaks (dropMark s)
  (readStatements (s.length + 1) .empty s).map Outline.layer

end GatewayRules.Toml
