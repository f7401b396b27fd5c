import GatewayRules.Text.Decimal

/-! Text with characters written after a backslash, by a letter or by number. -/
namespace GatewayRules.Text

/-- The character may stand in a quoted text for itself: a tab does, and no other control character
of ASCII. -/
def isPlain (c : Char) : Bool := c = '\t' || (0x20 ≤ c.toNat && c.toNat ≠ 0x7f)

def escapedChar? : Char → Option Char
  | 'b' => some '\x08'
  | 't' => some '\t'
  | 'n' => some '\n'
  | 'f' => some '\x0c'
  | 'r' => some '\r'
  | '"' => some '"'
  | '\\' => some '\\'
  | _ => none

def numberedChar? (digits : List Char) : Option Char :=
  match ofHex? digits with
  | some n => if n.isValidChar then some (Char.ofNat n) else none
  | none => none

/-- The characters that a text with escapes means; a number has four digits after a small letter and
eight after a capital. -/
def unescape? : List Char → Option (List Char)
  | [] => some []
  | '\\' :: 'u' :: a :: b :: c :: d :: s => do
    return (← numberedChar? [a, b, c, d]) :: (← unescape? s)
  | '\\' :: 'U' :: a :: b :: c :: d :: e :: f :: g :: h :: s => do
    return (← numberedChar? [a, b, c, d, e, f, g, h]) :: (← unescape? s)
  | '\\' :: e :: s => do return (← escapedChar? e) :: (← unescape? s)
  | ['\\'] => none
  | c :: s => do return c :: (← unescape? s)

/-- The text up to a closing quote, which no backslash may precede, and the text after the quote. -/
def untilQuote : List Char → Option (List Char × List Char)
  | [] => none
  | '\\' :: c :: s => do
    let (inner, rest) ← untilQuote s
    return ('\\' :: c :: inner, rest)
  | c :: s =>
    if c = '"' then some ([], s)
    else do
      let (inner, rest) ← untilQuote s
      return (c :: inner, rest)

end GatewayRules.Text
