import GatewayRules.Json.Scan

/-!
Readers of trees. A reader looks at the tree from left to right and stops at the first thing that is
wrong. A value that was taken in before its shape was known is read in the same way, but the tree is
known to be whole, and some wrong shapes are told apart that a text cannot tell apart.
-/
namespace GatewayRules.Json

/-- Whether the tree comes straight from the text or was taken in before. -/
inductive Mode where
  | streamed
  | buffered
  deriving DecidableEq, Repr, Inhabited

def Reader (α : Type) : Type := Mode → Tree → Except Error α

def orFault {α : Type} : Except Fault α → Except Error α
  | .ok a => .ok a
  | .error fault => .error (.fault fault)

def reject {α : Type} (m : Mismatch) : Except Error α := .error (.mismatch m)

namespace Reader

variable {α β : Type}

def map (f : α → β) (r : Reader α) : Reader β := fun mode t => (r mode t).map f

def text (wanted : String) : Reader String := fun _ t =>
  match t with
  | .string q => orFault q.text
  | t => .error (t.mismatch wanted)

def string : Reader String := text "a string"

def natural (wanted : String) (max : Nat) : Reader Nat := fun _ t =>
  match t with
  | .number (.integer i) =>
    if 0 ≤ i ∧ i ≤ max then .ok i.toNat else reject (.wrongValue (.integer i) wanted)
  | t => .error (t.mismatch wanted)

def u8 : Reader UInt8 := (natural "u8" 255).map UInt8.ofNat

def u16 : Reader UInt16 := (natural "u16" 65535).map UInt16.ofNat

def u32 : Reader UInt32 := (natural "u32" 4294967295).map UInt32.ofNat

def bool : Reader Bool := fun _ t =>
  match t with
  | .bool value => .ok value
  | t => .error (t.mismatch "a boolean")

def optional (r : Reader α) : Reader (Option α) := fun mode t =>
  match t with
  | .null => .ok none
  | t => (r mode t).map some

def parsed (wanted : String) (parse : String → Except Mismatch α) : Reader α := fun mode t =>
  match text wanted mode t with
  | .error e => .error e
  | .ok s =>
    match parse s with
    | .ok a => .ok a
    | .error m => reject m

def list (r : Reader α) : Reader (List α) := fun mode t =>
  match t with
  | .array items close => do
    let values ← items.mapM (r mode)
    orFault close.check
    return values
  | t => .error (t.mismatch "a sequence")

end Reader

inductive Payload (α : Type) where
  | unit (value : α)
  | value (read : Reader α)
  | fields (read : Reader α)

namespace Payload

def bare {α : Type} : Payload α → Except Error α
  | unit a => .ok a
  | value _ => reject (.wrongType .unitVariant "newtype variant")
  | fields _ => reject (.wrongType .unitVariant "struct variant")

/-- Null for a variant without fields; taken in before, an empty object does as well. -/
def readUnit {α : Type} (a : α) : Reader α := fun mode t =>
  match mode, t with
  | _, .null => .ok a
  | .buffered, .object [] _ => .ok a
  | _, t => .error (t.mismatch "unit")

def read {α : Type} : Payload α → Reader α
  | unit a => readUnit a
  | value read => read
  | fields read => read

end Payload

namespace Reader

variable {α : Type}

def variantNamed (variants : List (String × α)) (name : String) : Except Error α :=
  match variants.lookup name with
  | some a => .ok a
  | none => reject (.unknownVariant name (variants.map (·.1)))

/-- A choice between variants: its name as a string, or an object with the name as its only member.
In a text, a value of any other kind counts as malformed, and so do a name that is no string and a
second member. -/
def choice (variants : List (String × Payload α)) : Reader α := fun mode t =>
  match mode, t with
  | _, .string name => do
    let payload ← variantNamed variants (← orFault name.text)
    payload.bare
  | .streamed, .object [] close => do
    orFault close.check
    .error (.fault .malformed)
  | .streamed, .object ((name, t) :: others) close => do
    let payload ← variantNamed variants (← orFault name.text)
    let a ← payload.read .streamed t
    match others, close with
    | [], .closed => return a
    | [], .broken fault => .error (.fault fault)
    | _, _ => .error (.fault .malformed)
  | .buffered, .object [(name, t)] _ => do
    let payload ← variantNamed variants (← orFault name.text)
    payload.read .buffered t
  | .buffered, .object _ _ => reject (.wrongValue .map "map with a single key")
  | .streamed, .absent => .error (.fault .unfinished)
  | .streamed, _ => .error (.fault .malformed)
  | .buffered, t => .error (t.mismatch "string or map")

def names (all : List α) (name : α → String) : Reader α :=
  choice (all.map fun a => (name a, .unit a))

end Reader

structure Field (β : Type) where
  name : String
  read : Reader β
  /-- The value when an object does not name the field. -/
  absent : Option β
  /-- The value when an array is too short for the field. -/
  cutOff : Option β

namespace Field

def required {β : Type} (name : String) (read : Reader β) : Field β := ⟨name, read, none, none⟩

def withDefault {β : Type} (name : String) (read : Reader β) (default : β) : Field β :=
  ⟨name, read, some default, some default⟩

def maybe {β : Type} (name : String) (read : Reader β) : Field (Option β) :=
  ⟨name, read.optional, some none, some none⟩

/-- A field that may be missing or null in an object, and null in an array. -/
def nullable {β : Type} (name : String) (read : Reader β) : Field (Option β) :=
  ⟨name, read.optional, some none, none⟩

end Field

def Row : List Type → Type
  | [] => Unit
  | β :: rest => β × Row rest

/-- The values of those fields of a record that have been met. -/
def Draft : List Type → Type
  | [] => Unit
  | β :: rest => Option β × Draft rest

inductive Fields : List Type → Type 1 where
  | nil : Fields []
  | cons {β : Type} {rest : List Type} : Field β → Fields rest → Fields (β :: rest)

namespace Fields

def blank : {types : List Type} → Fields types → Draft types
  | [], nil => ()
  | _ :: _, cons _ rest => (none, rest.blank)

def meet (mode : Mode) (name : String) (t : Tree) :
    {types : List Type} → Fields types → Draft types → Except Error (Draft types)
  | [], nil, draft =>
    match mode with
    | .streamed => orFault (t.skip.map fun _ => draft)
    | .buffered => .ok draft
  | _ :: _, cons f rest, (value, draft) =>
    if name = f.name then
      match value with
      | some _ => reject (.repeatedField name)
      | none => (f.read mode t).map fun b => (some b, draft)
    else (rest.meet mode name t draft).map fun draft => (value, draft)

def meetAll (mode : Mode) {types : List Type} (fields : Fields types) :
    List (Quotation × Tree) → Draft types → Except Error (Draft types)
  | [], draft => .ok draft
  | (name, t) :: rest, draft => do
    let name ← orFault name.text
    let draft ← fields.meet mode name t draft
    fields.meetAll mode rest draft

def complete : {types : List Type} → Fields types → Draft types → Except Error (Row types)
  | [], nil, _ => .ok ()
  | _ :: _, cons f rest, (value, draft) =>
    match value.or f.absent with
    | none => reject (.missingField f.name)
    | some b => (rest.complete draft).map fun row => (b, row)

/-- The values of the fields from items in order, and the items left over. `index` counts the fields
before, and `wanted` names the record for an array that is too short. -/
def positional (mode : Mode) (wanted : String) (close : ArrayEnd) :
    {types : List Type} → Fields types → Nat → List Tree →
      Except Error (Row types × List Tree)
  | [], nil, _, items => .ok ((), items)
  | _ :: _, cons f rest, index, [] => do
    orFault close.check
    match f.cutOff with
    | none => reject (.wrongLength index wanted)
    | some b =>
      let (row, left) ← rest.positional mode wanted close (index + 1) []
      return ((b, row), left)
  | _ :: _, cons f rest, index, t :: items => do
    let b ← f.read mode t
    let (row, left) ← rest.positional mode wanted close (index + 1) items
    return ((b, row), left)

def size : {types : List Type} → Fields types → Nat
  | [], nil => 0
  | _ :: _, cons _ rest => rest.size + 1

end Fields

def countElements : Nat → String
  | 1 => "1 element"
  | n => s!"{n} elements"

/-- A record: its fields have names in an object and places in an array. -/
structure Record (types : List Type) (α : Type) where
  label : String
  fields : Fields types
  make : Row types → α

namespace Record

variable {types : List Type} {α : Type}

/-- Either form of a record. A text may not hold more items than there are fields; taken in before,
too many items are a wrong length. -/
def read (r : Record types α) : Reader α := fun mode t =>
  match t with
  | .object members close => do
    let draft ← r.fields.meetAll mode members r.fields.blank
    orFault close.check
    let row ← r.fields.complete draft
    return r.make row
  | .array items close => do
    let wanted := s!"{r.label} with {countElements r.fields.size}"
    let (row, left) ← r.fields.positional mode wanted close 0 items
    match mode, left with
    | _, [] =>
      orFault close.check
      return r.make row
    | .streamed, _ => .error (.fault .malformed)
    | .buffered, _ =>
      reject (.wrongLength items.length s!"{countElements r.fields.size} in sequence")
  | t => .error (t.mismatch r.label)

end Record

/-- Reads a whole text: nothing but blanks may follow the value. -/
def Reader.readText {α : Type} (r : Reader α) (s : List Char) : Except Error α := do
  let (t, rest) := Tree.scan s
  let a ← r .streamed t
  if (skipBlanks rest).isEmpty then return a else .error (.fault .malformed)

end GatewayRules.Json
