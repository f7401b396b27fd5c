import GatewayRules.Controller.Journal
import Mathlib.Data.List.TakeWhile

/-! What a journal tells about one handler and about the inventory, each kind of entry in order. -/
namespace GatewayRules

namespace Call

def accepted? : Call → Option Request
  | accepted r => some r
  | _ => none

def submitted? : Call → Option Request
  | submit r => some r
  | _ => none

end Call

def Update.node? : Update → Option Node
  | upsertNode x => some x
  | _ => none

def Update.network? : Update → Option Network
  | upsertNetwork n => some n
  | _ => none

def Task.removal? : Task → Option Network
  | uninstall n => some n
  | _ => none

namespace Entry

def callBy? (h : Nat) : Entry → Option Call
  | call k c => if k = h then some c else none
  | _ => none

def takenBy? (h : Nat) : Entry → Option Task
  | taken k t => if k = h then some t else none
  | _ => none

/-- The task that the worker of a handler takes up, or the call that the handler makes. -/
def doingOf? (h : Nat) : Entry → Option (Task ⊕ Call)
  | taken k t => if k = h then some (.inl t) else none
  | call k c => if k = h then some (.inr c) else none
  | _ => none

def deliveredTo? (l : Listener) : Entry → Option Event
  | delivered m e => if m = l then some e else none
  | _ => none

def update? : Entry → Option Update
  | updated u _ => some u
  | _ => none

def raised? : Entry → Option Event
  | updated _ e => e
  | _ => none

/-- The task in work after an entry. The task for a network ends with the report of its pass. -/
def inWork (h : Nat) (t : Option Task) : Entry → Option Task
  | taken k new => if k = h then some new else t
  | log (.passed ..) => none
  | _ => t

end Entry

namespace Journal

def calls (h : Nat) (journal : List Entry) : List Call := journal.filterMap (Entry.callBy? h)

def taken (h : Nat) (journal : List Entry) : List Task := journal.filterMap (Entry.takenBy? h)

def doings (h : Nat) (journal : List Entry) : List (Task ⊕ Call) :=
  journal.filterMap (Entry.doingOf? h)

def delivered (l : Listener) (journal : List Entry) : List Event :=
  journal.filterMap (Entry.deliveredTo? l)

/-- The events given to the listeners of a handler up to when it was closed. -/
def intake (h : Nat) (journal : List Entry) : List Event :=
  delivered (.handler h) (journal.takeWhile (· ≠ .closed h))

def updates (journal : List Entry) : List Update := journal.filterMap Entry.update?

def raised (journal : List Entry) : List Event := journal.filterMap Entry.raised?

def accepted (h : Nat) (journal : List Entry) : List Request :=
  (calls h journal).filterMap Call.accepted?

def submitted (h : Nat) (journal : List Entry) : List Request :=
  (calls h journal).filterMap Call.submitted?

def given (h : Nat) (journal : List Entry) : List Task :=
  (delivered (.handler h) journal).filterMap Event.task?

/-- The task that the worker of a handler has in work. -/
def inWork (h : Nat) (journal : List Entry) : Option Task :=
  journal.foldl (Entry.inWork h) none

/-- The networks whose removal is in work or still to be taken up. -/
def removals (h : Nat) (journal : List Entry) : List Network :=
  ((inWork h journal).toList ++ (given h journal).drop (taken h journal).length).filterMap
    Task.removal?

/-- What the entries store while removals are not worked off yet, each with such a removal. -/
def overtakenFrom (h : Nat) (before : List Entry) : List Entry → List (Network × Network)
  | [] => []
  | e :: rest =>
    ((e.update?.bind Update.network?).toList.flatMap fun m => (removals h before).map (·, m)) ++
      overtakenFrom h (before ++ [e]) rest

/-- Each network whose removal was not worked off yet when another network was stored, with that
one. -/
def overtaken (h : Nat) (journal : List Entry) : List (Network × Network) :=
  overtakenFrom h [] journal

section
variable (h : Nat) (l : Listener) (first second : List Entry)

@[simp] theorem calls_append : calls h (first ++ second) = calls h first ++ calls h second :=
  List.filterMap_append

@[simp] theorem taken_append : taken h (first ++ second) = taken h first ++ taken h second :=
  List.filterMap_append

@[simp] theorem doings_append : doings h (first ++ second) = doings h first ++ doings h second :=
  List.filterMap_append

@[simp] theorem delivered_append :
    delivered l (first ++ second) = delivered l first ++ delivered l second :=
  List.filterMap_append

@[simp] theorem updates_append : updates (first ++ second) = updates first ++ updates second :=
  List.filterMap_append

@[simp] theorem raised_append : raised (first ++ second) = raised first ++ raised second :=
  List.filterMap_append

@[simp] theorem accepted_append :
    accepted h (first ++ second) = accepted h first ++ accepted h second := by
  simp [accepted]

@[simp] theorem submitted_append :
    submitted h (first ++ second) = submitted h first ++ submitted h second := by
  simp [submitted]

@[simp] theorem given_append : given h (first ++ second) = given h first ++ given h second := by
  simp [given]

theorem overtakenFrom_append (before : List Entry) :
    overtakenFrom h before (first ++ second) =
      overtakenFrom h before first ++ overtakenFrom h (before ++ first) second := by
  induction first generalizing before with
  | nil => simp [overtakenFrom]
  | cons e rest ih => simp [overtakenFrom, ih]

theorem overtaken_append :
    overtaken h (first ++ second) = overtaken h first ++ overtakenFrom h first second :=
  overtakenFrom_append h first second []

theorem overtaken_subset_append : overtaken h first ⊆ overtaken h (first ++ second) := by
  rw [overtaken_append]
  exact List.subset_append_left ..

theorem inWork_concat (e : Entry) : inWork h (first ++ [e]) = e.inWork h (inWork h first) := by
  simp [inWork]

end

theorem inWork_append_of_unmoved {h : Nat} {second : List Entry}
    (unmoved : ∀ e ∈ second, ∀ t, e.inWork h t = t) (first : List Entry) :
    inWork h (first ++ second) = inWork h first := by
  unfold inWork
  rw [List.foldl_append]
  generalize first.foldl (Entry.inWork h) none = t
  induction second with
  | nil => rfl
  | cons e rest ih =>
    rw [List.foldl_cons, unmoved e List.mem_cons_self]
    exact ih fun later member => unmoved later (List.mem_cons_of_mem e member)

theorem calls_eq_doings (h : Nat) (journal : List Entry) :
    calls h journal = (doings h journal).filterMap Sum.getRight? := by
  unfold calls doings
  rw [List.filterMap_filterMap]
  congr 1
  funext e
  cases e with
  | taken k t | call k c => by_cases same : k = h <;> simp [Entry.callBy?, Entry.doingOf?, same]
  | _ => rfl

theorem taken_eq_doings (h : Nat) (journal : List Entry) :
    taken h journal = (doings h journal).filterMap Sum.getLeft? := by
  unfold taken doings
  rw [List.filterMap_filterMap]
  congr 1
  funext e
  cases e with
  | taken k t | call k c => by_cases same : k = h <;> simp [Entry.takenBy?, Entry.doingOf?, same]
  | _ => rfl

theorem delivered_cons_self (l : Listener) (e : Event) (journal : List Entry) :
    delivered l (.delivered l e :: journal) = e :: delivered l journal := by
  simp [delivered, Entry.deliveredTo?]

theorem delivered_cons_of_ne {l m : Listener} (other : m ≠ l) (e : Event) (journal : List Entry) :
    delivered l (.delivered m e :: journal) = delivered l journal := by
  simp [delivered, Entry.deliveredTo?, other]

/-- Nothing that comes after the closing counts as taken in. -/
theorem intake_append_of_closed {h : Nat} {first : List Entry} (closed : .closed h ∈ first)
    (second : List Entry) : intake h (first ++ second) = intake h first := by
  unfold intake
  rw [List.takeWhile_append, if_neg]
  intro all
  have open_ := List.takeWhile_eq_self_iff.1 (List.takeWhile_prefix _ |>.eq_of_length all)
  simpa using open_ _ closed

/-- What is delivered to an open handler is taken in. -/
theorem intake_append_singleton {h : Nat} {journal : List Entry} (isOpen : .closed h ∉ journal)
    (e : Entry) :
    intake h (journal ++ [e]) = intake h journal ++ delivered (.handler h) [e] := by
  have whole : journal.takeWhile (· ≠ .closed h) = journal :=
    List.takeWhile_eq_self_iff.2 fun entry member => by
      have : entry ≠ .closed h := fun same => isOpen (same ▸ member)
      simpa using this
  unfold intake
  rw [List.takeWhile_append, if_pos (by rw [whole]), whole, delivered_append]
  by_cases closing : e = .closed h
  · subst e
    simp [delivered, Entry.deliveredTo?]
  · simp [closing]

end Journal

end GatewayRules
