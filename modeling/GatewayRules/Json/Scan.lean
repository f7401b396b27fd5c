import GatewayRules.Json.Tree

/-!
From characters to a tree. The scanner stops at the first place where the text is broken; what is
left of the text after that is of no interest to anyone, and it is given as empty.
-/
namespace GatewayRules.Json

def isBlank (c : Char) : Bool := c = ' ' || c = '\n' || c = '\t' || c = '\r'

def skipBlanks (s : List Char) : List Char := s.dropWhile isBlank

def isShort (s : List Char) : Bool := s.foldr (fun c size => c.utf8Size + size) 0 < 4

def escaped? : Char → Option Char
  | '"' => some '"'
  | '\\' => some '\\'
  | '/' => some '/'
  | 'b' => some '\x08'
  | 'f' => some '\x0c'
  | 'n' => some '\n'
  | 'r' => some '\r'
  | 't' => some '\t'
  | _ => none

def Glyph.ofUnit (unit : Nat) : Glyph :=
  if 0xd800 ≤ unit ∧ unit ≤ 0xdfff then .surrogate unit else .char (Char.ofNat unit)

namespace Quotation

def scan (done : List Glyph) : List Char → Quotation × List Char
  | [] => (⟨done.reverse, some .unfinished⟩, [])
  | '"' :: rest => (⟨done.reverse, none⟩, rest)
  | '\\' :: 'u' :: a :: b :: c :: d :: rest =>
    match Text.ofHex? [a, b, c, d] with
    | some unit => scan (Glyph.ofUnit unit :: done) rest
    | none => (⟨done.reverse, some .malformed⟩, [])
  | '\\' :: 'u' :: rest =>
    (⟨done.reverse, some (if isShort rest then .unfinished else .malformed)⟩, [])
  | '\\' :: e :: rest =>
    match escaped? e with
    | some c => scan (.char c :: done) rest
    | none => (⟨done.reverse, some .malformed⟩, [])
  | ['\\'] => (⟨done.reverse, some .unfinished⟩, [])
  | c :: rest =>
    if c.toNat < 0x20 then (⟨done.reverse, some .malformed⟩, [])
    else scan (.char c :: done) rest

end Quotation

namespace Tree

def scanWord (t : Tree) : List Char → List Char → Tree × List Char
  | [], s => (t, s)
  | _ :: _, [] => (.broken .unfinished false, [])
  | w :: word, c :: s => if c = w then scanWord t word s else (.broken .malformed false, [])

def breakNumber (s : List Char) : Tree × List Char :=
  (.broken (if s.isEmpty then .unfinished else .malformed) s.isEmpty, [])

def digits (s : List Char) : List Char := s.takeWhile Char.isDigit

def afterDigits (s : List Char) : List Char := s.dropWhile Char.isDigit

def scanExponent (negative : Bool) (whole : List Char) (fraction : Option (List Char)) :
    List Char → Tree × List Char
  | [] => (.number (.ofDigits negative whole fraction none), [])
  | c :: s =>
    if c = 'e' ∨ c = 'E' then
      let (below, s) := match s with
        | '+' :: s => (false, s)
        | '-' :: s => (true, s)
        | s => (false, s)
      if (digits s).isEmpty then breakNumber s
      else (.number (.ofDigits negative whole fraction (some (below, digits s))), afterDigits s)
    else (.number (.ofDigits negative whole fraction none), c :: s)

def scanFraction (negative : Bool) (whole : List Char) : List Char → Tree × List Char
  | '.' :: s =>
    if (digits s).isEmpty then breakNumber s
    else scanExponent negative whole (some (digits s)) (afterDigits s)
  | s => scanExponent negative whole none s

/-- Scans a number after its sign. A number does not begin with a needless zero. -/
def scanNumber (negative : Bool) (s : List Char) : Tree × List Char :=
  match digits s with
  | [] => breakNumber s
  | '0' :: _ :: _ => (.broken .malformed false, [])
  | whole => scanFraction negative whole (afterDigits s)

def scanScalar : List Char → Tree × List Char
  | [] => (.absent, [])
  | '"' :: s =>
    let (q, s) := Quotation.scan [] s
    (.string q, s)
  | 'n' :: s => scanWord .null ['u', 'l', 'l'] s
  | 't' :: s => scanWord (.bool true) ['r', 'u', 'e'] s
  | 'f' :: s => scanWord (.bool false) ['a', 'l', 's', 'e'] s
  | '-' :: s => scanNumber true s
  | c :: s => if c.isDigit then scanNumber false (c :: s) else (.stray, [])

mutual

/-- Scans a value after blanks; the number bounds the steps. -/
def scanValue : Nat → List Char → Tree × List Char
  | 0, _ => (.stray, [])
  | n + 1, s =>
    match skipBlanks s with
    | '[' :: s =>
      match skipBlanks s with
      | ']' :: s => (.array [] .closed, s)
      | s =>
        let (items, close, s) := scanItems n s
        (.array items close, s)
    | '\x7b' :: s =>
      match skipBlanks s with
      | '\x7d' :: s => (.object [] .closed, s)
      | s =>
        let (members, close, s) := scanMembers n s
        (.object members close, s)
    | s => scanScalar s

def scanItems : Nat → List Char → List Tree × ArrayEnd × List Char
  | 0, _ => ([.stray], .closed, [])
  | n + 1, s =>
    let (t, s) := scanValue n s
    match skipBlanks s with
    | [] => ([t], .broken .unfinished, [])
    | ']' :: s => ([t], .closed, s)
    | ',' :: s =>
      let (items, close, s) := scanItems n s
      (t :: items, close, s)
    | _ => ([t], .broken .malformed, [])

def scanMembers : Nat → List Char → List (Quotation × Tree) × ObjectEnd × List Char
  | 0, _ => ([], .nameless .malformed, [])
  | n + 1, s =>
    match skipBlanks s with
    | [] => ([], .nameless .unfinished, [])
    | '"' :: s =>
      let (name, s) := Quotation.scan [] s
      match skipBlanks s with
      | [] => ([(name, .absent)], .closed, [])
      | ':' :: s =>
        let (t, s) := scanValue n s
        match skipBlanks s with
        | [] => ([(name, t)], .broken .unfinished, [])
        | '\x7d' :: s => ([(name, t)], .closed, s)
        | ',' :: s =>
          let (members, close, s) := scanMembers n s
          ((name, t) :: members, close, s)
        | _ => ([(name, t)], .broken .malformed, [])
      | _ => ([(name, .stray)], .closed, [])
    | _ => ([], .nameless .malformed, [])

end

/-- The tree of a text, and what is left after it. Of two steps one after the other, at least one
takes a character away, so the bound is never met. -/
def scan (s : List Char) : Tree × List Char := scanValue (2 * s.length + 2) s

end Tree

end GatewayRules.Json
