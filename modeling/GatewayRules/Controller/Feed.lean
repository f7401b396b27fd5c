import GatewayRules.Controller.Handler
import GatewayRules.Seed
import GatewayRules.Text.Blank

/-!
The feed: octets in lines, with an update on each line. A line that holds no update is passed over,
and a line that is not UTF-8 ends the feed.
-/
namespace GatewayRules

namespace Feed

def lineFeed : UInt8 := 10

def lines : List UInt8 → List (List UInt8)
  | [] => []
  | b :: rest =>
    if b = lineFeed then [b] :: lines rest
    else match lines rest with
      | [] => [[b]]
      | line :: others => (b :: line) :: others

/-- The lines that have their end, and the octets after them. -/
def complete (bytes : List UInt8) : List (List UInt8) × List UInt8 :=
  match (lines bytes).reverse with
  | [] => ([], [])
  | last :: before =>
    if last.getLast? = some lineFeed then (lines bytes, []) else (before.reverse, last)

def carriageReturn : UInt8 := 13

def content (line : List UInt8) : List UInt8 :=
  match line.reverse with
  | [] => []
  | last :: before =>
    if last ≠ lineFeed then line
    else if before.head? = some carriageReturn then before.tail.reverse
    else before.reverse

inductive Line where
  | blank
  | update (update : Update)
  | malformed
  deriving DecidableEq, Repr, Inhabited

/-- Blanks around an update do not matter. -/
def Line.ofChars (s : List Char) : Line :=
  match Text.trim s with
  | [] => .blank
  | s =>
    match Update.reader.readText s with
    | .ok u => .update u
    | .error _ => .malformed

end Feed

namespace Controller

/-- Changes the inventory as an update says, and warns of a removal that finds nothing. -/
def apply (s : Controller) (u : Update) : Controller :=
  let changed := s.update u
  match u with
  | .removeNetwork id =>
    if (s.inventory.network? id).isNone then changed.log (.unknownNetwork id) else changed
  | .removeNode hostname =>
    if (s.inventory.node? hostname).isNone then changed.log (.unknownNode hostname) else changed
  | .upsertNetwork _ | .upsertNode _ => changed

def feedLine (s : Controller) (applied : Nat) (line : List UInt8) :
    Except Text.Utf8Fault (Controller × Nat) := do
  match Feed.Line.ofChars (← Text.ofUtf8 (Feed.content line)) with
  | .blank => return (s, applied)
  | .update u => return ((s.log (.applying u)).apply u, applied + 1)
  | .malformed => return (s.log .malformedUpdate, applied)

/-- Takes the lines in up to the first that is not UTF-8. -/
def feedLines (s : Controller) (applied : Nat) :
    List (List UInt8) → Controller × Except Text.Utf8Fault Nat
  | [] => (s.log (.feedClosed applied), .ok applied)
  | line :: rest =>
    match s.feedLine applied line with
    | .error fault => (s, .error fault)
    | .ok (s, applied) => feedLines s applied rest

def feed (s : Controller) (bytes : List UInt8) : Controller × Except Text.Utf8Fault Nat :=
  s.feedLines 0 (Feed.lines bytes)

def seed (s : Controller) (contents : Snapshot) : Controller := contents.updates.foldl update s

end Controller

end GatewayRules
