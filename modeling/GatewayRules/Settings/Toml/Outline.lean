import GatewayRules.Settings.Setting

/-!
The tables and values of a TOML document by their paths. A table is opened by a header once, and
neither a header nor a dotted key may enter what is already closed to it.
-/
namespace GatewayRules.Toml

abbrev Path := List String

inductive Place where
  /-- A table that has no header but lies on the way to one. -/
  | implied
  /-- A table with a header. -/
  | headed
  /-- A table made by a dotted key. -/
  | dotted
  /-- An array of tables, of which the last one is open. -/
  | series
  | value (setting : Setting)
  deriving DecidableEq, Repr, Inhabited

/-- What has been met so far, and the table that is being filled. -/
structure Outline where
  places : List (Path × Place)
  current : Path
  deriving DecidableEq, Repr, Inhabited

namespace Outline

def empty : Outline := ⟨[], []⟩

def place? (o : Outline) (p : Path) : Option Place := o.places.lookup p

def put (o : Outline) (p : Path) (place : Place) : Outline :=
  { o with places := (p, place) :: o.places.filter (·.1 ≠ p) }

/-- The paths to the tables on the way from one table to a name, outermost first. -/
def way (start : Path) : Path → List Path
  | [] | [_] => []
  | name :: rest => (start ++ [name]) :: way (start ++ [name]) rest

def passHeader (o : Outline) : List Path → Option Outline
  | [] => some o
  | p :: rest =>
    match o.place? p with
    | none => (o.put p .implied).passHeader rest
    | some (.value _) => none
    | some _ => o.passHeader rest

/-- Passes the tables on the way of a dotted key. The last of them must come from dotted keys. -/
def passDotted (o : Outline) : List Path → Option Outline
  | [] => some o
  | p :: rest =>
    match o.place? p with
    | none => (o.put p .dotted).passDotted rest
    | some .dotted => o.passDotted rest
    | some .implied | some .series => if rest.isEmpty then none else o.passDotted rest
    | some .headed | some (.value _) => none

def openTable (o : Outline) (p : Path) : Option Outline := do
  let o ← o.passHeader (way [] p)
  match o.place? p with
  | none | some .implied => some { o.put p .headed with current := p }
  | _ => none

def openNext (o : Outline) (p : Path) : Option Outline := do
  let o ← o.passHeader (way [] p)
  match o.place? p with
  | none | some .series =>
    let outside := o.places.filter fun q => !p.isPrefixOf q.1
    some { places := (p, .series) :: outside, current := p }
  | _ => none

def assign (o : Outline) (p : Path) (setting : Setting) : Option Outline := do
  let o ← o.passDotted (way o.current p)
  let path := o.current ++ p
  if (o.place? path).isNone then some (o.put path (.value setting)) else none

/-- What stands at a path. A table that has an entry for its value counts as that; the number
bounds the steps from such an entry to the next. -/
def settingAt (o : Outline) : Nat → Path → Setting
  | 0, _ => .table
  | n + 1, p =>
    match o.place? p with
    | some (.value setting) => setting
    | some .series => .list
    | _ =>
      let inner := p ++ [Setting.valueKey]
      if (o.place? inner).isSome then o.settingAt n inner else .table

/-- What stands at a path. Every step leads to another place, so the bound is never met. -/
def setting (o : Outline) (p : Path) : Setting := o.settingAt (o.places.length + 1) p

/-- No entry numbers a source, since every integer here is of a kind with a sign. Entries of a path
of up to `top` names belong to no value. -/
def hasNoSource (o : Outline) (top : Nat) : Bool :=
  o.places.all fun (p, _) => p.length ≤ top || p.getLast? ≠ some Setting.sourceKey

def layer (o : Outline) : Layer :=
  o.places.filterMap fun
    | ([key], _) => some (key, o.setting [key])
    | _ => none

end Outline

end GatewayRules.Toml
