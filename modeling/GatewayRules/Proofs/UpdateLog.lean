import GatewayRules.Proofs.FeedLines
import GatewayRules.Proofs.RoundTrip
import GatewayRules.Proofs.Trace

/-!
An update log, with the JSON of one update on each line, does what its updates do one by one.
-/
namespace GatewayRules
open Text

def Entry.isLogged : Entry → Bool
  | .log _ => true
  | _ => false

namespace Journal

def deeds (journal : List Entry) : List Entry := journal.filter fun e => !e.isLogged

theorem deeds_append (first second : List Entry) :
    deeds (first ++ second) = deeds first ++ deeds second :=
  List.filter_append ..

theorem deeds_deeds (journal : List Entry) : deeds (deeds journal) = deeds journal :=
  List.filter_filter.trans (by simp [deeds])

theorem delivered_deeds (l : Listener) (journal : List Entry) :
    delivered l (deeds journal) = delivered l journal := by
  unfold delivered deeds
  rw [List.filterMap_filter]
  congr 1
  funext e
  cases e <;> rfl

end Journal

theorem Update.chars_toJson (u : Update) : ∃ inner, u.toJson.chars = '{' :: inner ++ ['}'] := by
  cases u <;> exact ⟨_, rfl⟩

theorem Feed.Line.ofChars_toJson (u : Update) : ofChars u.toJson.chars = .update u := by
  have read : Update.reader.readText u.toJson.chars = .ok u := Update.recovers.readText u
  obtain ⟨inner, object⟩ := u.chars_toJson
  have untrimmed : trim u.toJson.chars = '{' :: inner ++ ['}'] := by
    rw [object]
    exact trim_of_ends (by decide) (by decide) inner
  rw [object] at read
  unfold ofChars
  rw [untrimmed]
  simp only [List.cons_append] at read ⊢
  rw [read]

namespace Controller

variable {s : Controller}

/-- A controller that has written nothing to the log, and is otherwise the same. -/
def unlogged (s : Controller) : Controller := { s with journal := Journal.deeds s.journal }

theorem unlogged_log (s : Controller) (n : Notice) : (s.log n).unlogged = s.unlogged := by
  simp [unlogged, log, note, Journal.deeds, Entry.isLogged]

theorem unlogged_unlogged (s : Controller) : s.unlogged.unlogged = s.unlogged := by
  simp only [unlogged, Journal.deeds_deeds]

/-- The operation does the same whatever is in the log. -/
def LogBlind (f : Controller → Controller) : Prop :=
  ∀ s, (f s.unlogged).unlogged = (f s).unlogged

namespace LogBlind

variable {f g : Controller → Controller}

theorem same (blind : LogBlind f) {s t : Controller} (same : s.unlogged = t.unlogged) :
    (f s).unlogged = (f t).unlogged := by
  rw [← blind s, same, blind t]

theorem comp (after : LogBlind g) (before : LogBlind f) : LogBlind fun s => g (f s) :=
  fun s => after.same (before s)

theorem foldl {α : Type} {f : Controller → α → Controller} (each : ∀ a, LogBlind (f · a)) :
    ∀ list : List α, LogBlind (list.foldl f ·)
  | [] => unlogged_unlogged
  | a :: rest => (foldl each rest).comp (each a)

theorem note (e : Entry) : LogBlind (note · e) := fun s => by
  simp only [unlogged, Controller.note, Journal.deeds_append, Journal.deeds_deeds]

theorem log (n : Notice) : LogBlind (log · n) := note (.log n)

theorem submit (h : Nat) (t : Task) : LogBlind (submit · h t) := fun s => by
  have handlers : s.unlogged.handlers = s.handlers := rfl
  simp only [Controller.submit, handlers]
  split
  · exact unlogged_unlogged s
  · split
    · exact log _ s
    · split
      · exact log _ s
      · simp only [unlogged, modifyHandler, Journal.deeds_deeds]

theorem deliver (e : Event) (l : Listener) : LogBlind (deliver e · l) := fun s => by
  unfold Controller.deliver
  split
  · exact ((submit _ _).comp (note _)) s
  · exact note _ s

theorem publish (e : Event) : LogBlind (publish · e) := fun s =>
  ((foldl (deliver e) (s.registry.audience e)).comp (log _)) s

theorem update (u : Update) : LogBlind (update · u) := fun s => by
  let stored : Controller := { s with inventory := s.inventory.update u }
  have noted := note (.updated u (s.inventory.event? u)) stored
  have inventory : s.unlogged.inventory = s.inventory := rfl
  simp only [Controller.update, inventory]
  split
  · exact (publish _).same noted
  · exact noted

end LogBlind

/-- The warning about a removal that finds nothing is all that applying adds to the update. -/
theorem unlogged_apply (s : Controller) (u : Update) :
    (s.apply u).unlogged = (s.update u).unlogged := by
  cases u with
  | upsertNetwork n | upsertNode x => rfl
  | removeNetwork id | removeNode hostname =>
    simp only [apply]
    split
    · exact unlogged_log _ _
    · rfl

theorem LogBlind.apply (u : Update) : LogBlind (apply · u) := fun s => by
  rw [unlogged_apply, unlogged_apply, LogBlind.update]

/-- Applies the update on a line, after a record of that in the log. -/
theorem feedLine_written (s : Controller) (applied : Nat) {line : List UInt8} {u : Update}
    (written : Feed.content line = toUtf8 u.toJson.chars) :
    s.feedLine applied line = .ok ((s.log (.applying u)).apply u, applied + 1) := by
  simp only [feedLine, written, ofUtf8_toUtf8, bind, Except.bind, Feed.Line.ofChars_toJson]
  rfl

theorem feedLines_written {us : List Update} {lines : List (List UInt8)}
    (written : lines.map Feed.content = us.map fun u => toUtf8 u.toJson.chars) (s : Controller)
    (applied : Nat) :
    (s.feedLines applied lines).1.unlogged = (us.foldl apply s).unlogged ∧
      (s.feedLines applied lines).2 = .ok (applied + us.length) := by
  induction us generalizing lines s applied with
  | nil =>
    rw [List.map_nil, List.map_eq_nil_iff] at written
    subst written
    exact ⟨unlogged_log s _, rfl⟩
  | cons u us ih =>
    obtain ⟨line, rest, rfl, first, others⟩ := List.map_eq_cons_iff.1 written
    have counted : applied + 1 + us.length = applied + (u :: us).length := by
      rw [List.length_cons]
      omega
    -- The feed leaves a record of the update first, to which nothing that follows pays attention.
    have announced : ((s.log (.applying u)).apply u).unlogged = (s.apply u).unlogged :=
      (LogBlind.apply u).same (unlogged_log s _)
    obtain ⟨same, count⟩ := ih others ((s.log (.applying u)).apply u) (applied + 1)
    simp only [feedLines, feedLine_written s applied first]
    refine ⟨same.trans ?_, counted ▸ count⟩
    exact (LogBlind.foldl LogBlind.apply us).same announced

/-- A feed of updates, each written as JSON on a line of its own, takes in all of them, and what
comes of it is what comes of applying the updates one after the other: the same inventory, the same
events for every listener, and the same state in everything but the log. -/
theorem update_log_is_faithful (s : Controller) (us : List Update) :
    let text := join ['\n'] (us.map fun u => u.toJson.chars)
    let fed := s.feed (toUtf8 text)
    let applied := us.foldl apply s
    fed.2 = .ok us.length ∧ fed.1.inventory = applied.inventory ∧
      (∀ l, Journal.delivered l fed.1.journal = Journal.delivered l applied.journal) ∧
      fed.1.unlogged = applied.unlogged := by
  intro text fed applied
  have printed : ∀ text ∈ us.map fun u => u.toJson.chars,
      text ≠ [] ∧ ∀ c ∈ text, 0x20 ≤ c.toNat := by
    intro text member
    obtain ⟨u, -, rfl⟩ := List.mem_map.1 member
    obtain ⟨inner, object⟩ := u.chars_toJson
    exact ⟨by simp [object], u.toJson.printing_chars⟩
  have written : (Feed.lines (toUtf8 text)).map Feed.content =
      us.map fun u => toUtf8 u.toJson.chars := by
    rw [Feed.content_lines printed, List.map_map]
    rfl
  obtain ⟨same, count⟩ := feedLines_written written s 0
  rw [Nat.zero_add] at count
  have inventory : fed.1.unlogged.inventory = applied.unlogged.inventory :=
    congrArg inventory same
  have deeds : Journal.deeds fed.1.journal = Journal.deeds applied.journal :=
    congrArg journal same
  refine ⟨count, inventory, fun l => ?_, same⟩
  rw [← Journal.delivered_deeds, deeds, Journal.delivered_deeds]

end Controller
end GatewayRules
