import GatewayRules.Json.Error
import GatewayRules.Json.Number

/-!
What a text shows of a JSON value, from left to right up to the first place where it breaks off. A
broken text gives a tree too, with the fault at its right edge, so that a reader meets faults and
wrong shapes in the order of the text.
-/
namespace GatewayRules.Json

/-- One element of a string: a character, or a surrogate written by number. -/
inductive Glyph where
  | char (c : Char)
  | surrogate (unit : Nat)
  deriving DecidableEq, Repr, Inhabited

/-- A string between quotes; without its closing quote it has the fault that took its place. -/
structure Quotation where
  glyphs : List Glyph
  fault : Option Fault
  deriving DecidableEq, Repr, Inhabited

inductive ArrayEnd where
  | closed
  /-- Neither a comma nor a bracket follows the last item. -/
  | broken (fault : Fault)
  deriving DecidableEq, Repr, Inhabited

inductive ObjectEnd where
  | closed
  /-- Neither a comma nor a brace follows the last member. -/
  | broken (fault : Fault)
  /-- No name stands where a member has to begin. -/
  | nameless (fault : Fault)
  deriving DecidableEq, Repr, Inhabited

def ArrayEnd.check : ArrayEnd → Except Fault Unit
  | .closed => .ok ()
  | .broken fault => .error fault

def ObjectEnd.check : ObjectEnd → Except Fault Unit
  | .closed => .ok ()
  | .broken fault => .error fault
  | .nameless fault => .error fault

/-- A value as far as the text shows it. -/
inductive Tree where
  /-- The text ends where a value has to begin. -/
  | absent
  /-- A character stands there that begins no value. -/
  | stray
  /-- A word or number that breaks off; a number that is cut by the end of the text is `cut`. -/
  | broken (fault : Fault) (cut : Bool)
  | null
  | bool (value : Bool)
  | number (value : Number)
  | string (value : Quotation)
  | array (items : List Tree) (close : ArrayEnd)
  | object (members : List (Quotation × Tree)) (close : ObjectEnd)

namespace Quotation

def combine (high low : Nat) : Char :=
  Char.ofNat (0x10000 + (high - 0xd800) * 0x400 + (low - 0xdc00))

def isHigh (unit : Nat) : Bool := 0xd800 ≤ unit && unit ≤ 0xdbff

def isLow (unit : Nat) : Bool := 0xdc00 ≤ unit && unit ≤ 0xdfff

/-- Characters of the elements, each pair of surrogates being one. A surrogate that is alone makes
the text malformed, unless the text ends before its partner could stand. -/
def decode (fault : Option Fault) : List Glyph → Except Fault (List Char)
  | [] => match fault with
    | some fault => .error fault
    | none => .ok []
  | .char c :: rest => (decode fault rest).map (c :: ·)
  | .surrogate high :: .surrogate low :: rest =>
    if isHigh high && isLow low then (decode fault rest).map (combine high low :: ·)
    else .error .malformed
  | [.surrogate high] => match fault with
    | some fault => .error (if isHigh high then fault else .malformed)
    | none => .error .malformed
  | .surrogate _ :: .char _ :: _ => .error .malformed

def text (q : Quotation) : Except Fault String :=
  (decode q.fault q.glyphs).map String.ofList

def ofString (s : String) : Quotation := ⟨s.toList.map .char, none⟩

end Quotation

namespace Tree

def found : Tree → Except Fault Found
  | absent => .error .unfinished
  | stray => .error .malformed
  | broken fault _ => .error fault
  | null => .ok .null
  | bool value => .ok (.boolean value)
  | number (.integer value) => .ok (.integer value)
  | number (.float isFinite) => if isFinite then .ok .float else .error .malformed
  | string value => value.text.map .string
  | array .. => .ok .sequence
  | object .. => .ok .map

def mismatch (wanted : String) (t : Tree) : Error :=
  match t.found with
  | .error fault => .fault fault
  | .ok found => .mismatch (.wrongType found wanted)

mutual

/-- Passes over a value that nobody wants. It has to be whole, to any depth, but its strings may
hold lone surrogates and its numbers may be of any size. A number that is cut is malformed here. -/
def skip : Tree → Except Fault Unit
  | absent => .error .unfinished
  | stray => .error .malformed
  | broken fault cut => .error (if cut then .malformed else fault)
  | null | bool _ | number _ => .ok ()
  | string value => match value.fault with
    | some fault => .error fault
    | none => .ok ()
  | array items close => do
    skipItems items
    close.check
  | object members close => do
    skipMembers members
    close.check

def skipItems : List Tree → Except Fault Unit
  | [] => .ok ()
  | t :: rest => do
    skip t
    skipItems rest

def skipMembers : List (Quotation × Tree) → Except Fault Unit
  | [] => .ok ()
  | (name, t) :: rest => do
    match name.fault with
    | some fault => .error fault
    | none => .ok ()
    skip t
    skipMembers rest

end

mutual

/-- Takes in a value of any shape, to be looked at later. Its strings must have a text, its numbers
a finite value, and containers may be nested only so deep. -/
def vet (depth : Nat) : Tree → Except Fault Unit
  | array items close =>
    match depth with
    | 0 => .error .malformed
    | depth + 1 => do
      vetItems depth items
      close.check
  | object members close =>
    match depth with
    | 0 => .error .malformed
    | depth + 1 => do
      vetMembers depth members
      close.check
  | absent => .error .unfinished
  | stray => .error .malformed
  | broken fault _ => .error fault
  | null | bool _ | number (.integer _) => .ok ()
  | number (.float isFinite) => if isFinite then .ok () else .error .malformed
  | string value => value.text.map fun _ => ()

def vetItems (depth : Nat) : List Tree → Except Fault Unit
  | [] => .ok ()
  | t :: rest => do
    vet depth t
    vetItems depth rest

def vetMembers (depth : Nat) : List (Quotation × Tree) → Except Fault Unit
  | [] => .ok ()
  | (name, t) :: rest => do
    let _ ← name.text
    vet depth t
    vetMembers depth rest

end

end Tree

end GatewayRules.Json
