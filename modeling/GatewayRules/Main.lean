import GatewayRules.Daemon
import Std.Async.Signal

/-!
The daemon as a program. Settings come from the working directory and the environment, updates from
the standard input, and the log goes to the standard error output. An interrupt shuts the program
down.
-/
namespace GatewayRules.Program

def writeLog (journal : List Entry) : IO Unit :=
  journal.forM fun
    | .log n => unless n.level = .debug do IO.eprintln s!"{n.level.text} {n.written}"
    | _ => pure ()

def flush (s : Controller) : IO Controller := do
  writeLog s.journal
  return { s with journal := [] }

def octets? (path : String) : IO (Option (List UInt8)) := do
  try
    return some (← IO.FS.readBinFile path).toList
  catch _ => return none

/-- The text of a file; one that is not UTF-8 counts as a text that nobody can read. -/
def text? (path : String) : IO (Option (List Char)) := do
  return (← octets? path).map fun bytes => (Text.ofUtf8 bytes).toOption.getD ['\x00']

/-- The variables of an environment block, in which a zero octet ends each. -/
def splitBlock (block : List UInt8) : List (String × String) :=
  (block.splitOn 0).filterMap fun entry =>
    let name := entry.takeWhile (· ≠ 61)
    match Text.ofUtf8 name, Text.ofUtf8 (entry.drop (name.length + 1)) with
    | .ok name, .ok value =>
      if name.isEmpty then none else some (String.ofList name, String.ofList value)
    | _, _ => none

def sources : IO Sources := do
  let block ← octets? "/proc/self/environ"
  return ⟨← text? "gwsync.toml", ← text? "gwsync.json", splitBlock (block.getD [])⟩

inductive Occurrence where
  | input (bytes : List UInt8)
  | interrupt

def takeLines (s : Controller) (applied : Nat) :
    List (List UInt8) → Controller × Except Text.Utf8Fault Nat
  | [] => (s, .ok applied)
  | line :: rest =>
    match s.feedLine applied line with
    | .error fault => (s, .error fault)
    | .ok (s, applied) => takeLines s.drain applied rest

/-- Follows the feed until it ends or an interrupt comes, and then waits for the interrupt. -/
partial def follow (input : IO.FS.Stream) (interrupt : Std.Async.AsyncTask Int)
    (s : Controller) (applied : Nat) (pending : List UInt8) : IO Controller := do
  let chunk ← IO.asTask (input.read 65536)
  let arrival := chunk.map fun
    | .ok bytes => Occurrence.input bytes.toList
    | .error _ => .input []
  let interruption ← BaseIO.mapTask (fun _ => pure Occurrence.interrupt) interrupt
  match ← IO.waitAny [arrival, interruption] with
  | .interrupt => return s
  | .input [] =>
    let (s, result) := s.feedLines applied (Feed.lines pending)
    finish s result
  | .input bytes =>
    let (lines, rest) := Feed.complete (pending ++ bytes)
    match takeLines s applied lines with
    | (s, .ok applied) => follow input interrupt (← flush s) applied rest
    | (s, .error fault) => finish s (.error fault)
where
  finish (s : Controller) (result : Except Text.Utf8Fault Nat) : IO Controller := do
    let s := match result with
      | .ok _ => s
      | .error fault => s.log (.feedFailed fault.message)
    let s ← flush s.drain
    let _ ← IO.wait interrupt
    return s

def run : IO UInt32 := do
  let waiter ← Std.Async.Signal.Waiter.mk .sigint false
  let sources ← sources
  let seed ← match Settings.load sources with
    | .ok { inventoryFile := some path, .. } => octets? path
    | _ => pure none
  match Daemon.start sources fun _ => seed with
  | .error failed =>
    writeLog failed.journal
    IO.eprintln s!"Error: {failed.error.message}"
    return 1
  | .ok d =>
    let interrupt ← waiter.wait
    let s ← flush d.controller
    let s ←
      if d.settings.readsFeed then follow (← IO.getStdin) interrupt s 0 []
      else do
        let _ ← IO.wait interrupt
        pure s
    let _ ← flush { d with controller := s }.stop
    return 0

end GatewayRules.Program

def main : IO UInt32 := GatewayRules.Program.run
