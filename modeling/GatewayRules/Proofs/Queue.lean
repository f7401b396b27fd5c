import GatewayRules.Proofs.Acts
import GatewayRules.Proofs.Task

/-!
The queue of a handler loses nothing, repeats nothing and keeps its order: what the worker has taken
up and what still waits are together the tasks of the events that the handler has taken in.
-/
namespace GatewayRules

def Entry.Ignores (k : Nat) (e : Entry) : Prop :=
  e.takenBy? k = none ∧ e.deliveredTo? (.handler k) = none ∧ e ≠ .closed k

namespace Journal

variable {k : Nat} {journal : List Entry}

def assigned (k : Nat) (journal : List Entry) : List Task :=
  (intake k journal).filterMap Event.task?

/-- At no moment has the worker taken up anything but the first tasks assigned until then. -/
def Timely (k : Nat) (journal : List Entry) : Prop :=
  ∀ earlier, earlier <+: journal → taken k earlier <+: assigned k earlier

theorem assigned_append_of_closed (closed : .closed k ∈ journal) (later : List Entry) :
    assigned k (journal ++ later) = assigned k journal := by
  unfold assigned
  rw [intake_append_of_closed closed]

theorem assigned_append_undelivered {e : Entry} (silent : e.deliveredTo? (.handler k) = none) :
    assigned k (journal ++ [e]) = assigned k journal := by
  by_cases closed : .closed k ∈ journal
  · exact assigned_append_of_closed closed [e]
  · unfold assigned
    rw [intake_append_singleton closed]
    simp [delivered, silent]

theorem assigned_append_delivered (isOpen : .closed k ∉ journal) (e : Event) :
    assigned k (journal ++ [.delivered (.handler k) e]) = assigned k journal ++ e.task?.toList := by
  unfold assigned
  rw [intake_append_singleton isOpen, List.filterMap_append, delivered_cons_self]
  cases task : e.task? <;> simp [delivered, task]

theorem taken_append_untaken {e : Entry} (silent : e.takenBy? k = none) :
    taken k (journal ++ [e]) = taken k journal := by
  simp [taken, silent]

theorem Timely.append {e : Entry} (timely : Timely k journal)
    (now : taken k (journal ++ [e]) <+: assigned k (journal ++ [e])) :
    Timely k (journal ++ [e]) := by
  intro earlier before
  rcases List.prefix_concat_iff.1 before with rfl | before
  · exact now
  · exact timely earlier before

end Journal

open Journal

def Handler.Staffed (a : Handler) : Prop :=
  a.worker = .running ∨ a.worker = .ended ∧ a.isOpen = false

namespace Handler.Staffed

variable {a : Handler}

theorem not_lost (staffed : a.Staffed) : a.worker ≠ .lost := by
  rcases staffed with running | ⟨ended, -⟩
  · simp [running]
  · simp [ended]

theorem running (staffed : a.Staffed) (isOpen : a.isOpen = true) : a.worker = .running :=
  staffed.resolve_right fun ended => by simp [isOpen] at ended

theorem close (staffed : a.Staffed) : Staffed { a with isOpen := false } :=
  staffed.imp_right fun ended => ⟨ended.1, rfl⟩

end Handler.Staffed

theorem Registry.audience_remove (r : Registry) (id : Nat) (kind : ListenerKind) (e : Event) :
    ((r.remove id kind).audience e).Sublist (r.audience e) := by
  cases kind <;> cases e <;> simp only [remove, audience] <;>
    first | exact List.Sublist.refl _ | exact List.filter_sublist.map _

namespace Controller

def queueOf (s : Controller) (k : Nat) : List Task := ((s.handlers[k]?).map Handler.queue).getD []

theorem queueOf_of_present {s : Controller} {k : Nat} {a : Handler}
    (present : s.handlers[k]? = some a) : s.queueOf k = a.queue := by
  simp [queueOf, present]

theorem audience_enroll (s : Controller) (label : String) (self : Member) (p : Placement)
    (e : Event) : (s.enroll label self p).registry.audience e =
      s.registry.audience e ++ [.handler s.handlers.length] := by
  cases e <;> exact List.map_append

theorem audience_closeIntake (s : Controller) (h : Nat) (a : Handler) (e : Event) :
    ((s.closeIntake h a).registry.audience e).Sublist (s.registry.audience e) := by
  unfold closeIntake
  dsimp only [note, modifyHandler]
  split
  · exact List.Sublist.refl _
  · exact (Registry.audience_remove _ _ _ e).trans (Registry.audience_remove _ _ _ e)

/-- The books of a handler are in order. -/
structure Accounted (k : Nat) (s : Controller) : Prop where
  balance : taken k s.journal ++ s.queueOf k = assigned k s.journal
  timely : Timely k s.journal
  closed_iff : .closed k ∈ s.journal ↔ ∃ a, s.handlers[k]? = some a ∧ a.isOpen = false
  staffed : ∀ a, s.handlers[k]? = some a → a.Staffed
  known : ∀ e, .handler k ∈ s.registry.audience e → ∃ a, s.handlers[k]? = some a

namespace Accounted

variable {k : Nat} {s t : Controller}

theorem same (acc : Accounted k s) (handler : t.handlers[k]? = s.handlers[k]?)
    (registry : ∀ e, .handler k ∈ t.registry.audience e → .handler k ∈ s.registry.audience e)
    (journal : t.journal = s.journal) : Accounted k t where
  balance := by
    unfold queueOf
    rw [journal, handler]
    exact acc.balance
  timely := journal ▸ acc.timely
  closed_iff := by rw [journal, handler]; exact acc.closed_iff
  staffed := by rw [handler]; exact acc.staffed
  known e heard := by rw [handler]; exact acc.known e (registry e heard)

/-- One more entry: the books are in order if they balance again. -/
theorem append (acc : Accounted k s) {e : Entry} (journal : t.journal = s.journal ++ [e])
    (balance : taken k t.journal ++ t.queueOf k = assigned k t.journal)
    (closed_iff : .closed k ∈ t.journal ↔ ∃ a, t.handlers[k]? = some a ∧ a.isOpen = false)
    (staffed : ∀ a, t.handlers[k]? = some a → a.Staffed)
    (known : ∀ e, .handler k ∈ t.registry.audience e → ∃ a, t.handlers[k]? = some a) :
    Accounted k t := by
  refine ⟨balance, ?_, closed_iff, staffed, known⟩
  have now : taken k t.journal <+: assigned k t.journal := ⟨t.queueOf k, balance⟩
  rw [journal] at now ⊢
  exact acc.timely.append now

/-- An entry that the handler ignores keeps the books in order. -/
theorem note (acc : Accounted k s) {e : Entry} (ignored : e.Ignores k) :
    Accounted k (s.note e) := by
  refine acc.append rfl ?_ ?_ acc.staffed acc.known
  · change taken k (s.journal ++ [e]) ++ s.queueOf k = assigned k (s.journal ++ [e])
    rw [taken_append_untaken ignored.1, assigned_append_undelivered ignored.2.1]
    exact acc.balance
  · change .closed k ∈ s.journal ++ [e] ↔ _
    rw [List.mem_append, List.mem_singleton, or_iff_left ignored.2.2.symm]
    exact acc.closed_iff

theorem log (acc : Accounted k s) (n : Notice) : Accounted k (s.log n) :=
  acc.note ⟨rfl, rfl, by simp⟩

theorem logSome (acc : Accounted k s) (n : Option Notice) : Accounted k (s.logSome n) := by
  cases n with
  | none => exact acc
  | some n => exact acc.log n

theorem logs (acc : Accounted k s) {entries : List Entry}
    (quiet : ∀ e ∈ entries, ∃ n : Notice, e = .log n ∧ n.IsNews) :
    Accounted k { s with journal := s.journal ++ entries } := by
  induction entries generalizing s with
  | nil => exact acc.same rfl (fun _ => id) (List.append_nil _)
  | cons e rest ih =>
    obtain ⟨n, rfl, -⟩ := quiet e List.mem_cons_self
    have later := ih (acc.log n) fun e member => quiet e (List.mem_cons_of_mem _ member)
    exact later.same rfl (fun _ => id) (by simp [Controller.log, Controller.note])

theorem isOpen_iff (acc : Accounted k s) {a : Handler} (present : s.handlers[k]? = some a) :
    a.isOpen = true ↔ .closed k ∉ s.journal := by
  rw [acc.closed_iff]
  simp [present]

/-- An open handler puts the task of an event at the end of its queue, and a closed one puts it
nowhere. -/
theorem hand_self (acc : Accounted k s) (e : Event) {a : Handler}
    (present : s.handlers[k]? = some a) :
    Accounted k { s with
      handlers := e.hand s.handlers (.handler k)
      journal := s.journal ++ [.delivered (.handler k) e] } := by
  have untaken : taken k (s.journal ++ [.delivered (.handler k) e]) = taken k s.journal :=
    taken_append_untaken rfl
  have unclosed : .closed k ∈ s.journal ++ [.delivered (.handler k) e] ↔ .closed k ∈ s.journal := by
    simp
  have balanced := acc.balance
  rw [queueOf_of_present present] at balanced
  -- only the queue of the handler can change, and only if it is open
  have settle (b : Handler) (now : (e.hand s.handlers (.handler k))[k]? = some b)
      (balance : taken k s.journal ++ b.queue =
        assigned k (s.journal ++ [.delivered (.handler k) e]))
      (isOpen : b.isOpen = a.isOpen) (worker : b.worker = a.worker) :
      Accounted k { s with
        handlers := e.hand s.handlers (.handler k)
        journal := s.journal ++ [.delivered (.handler k) e] } := by
    refine acc.append rfl ?_ ?_ ?_ ?_
    · rw [queueOf_of_present now, untaken]
      exact balance
    · rw [unclosed, acc.closed_iff]
      simp [present, now, isOpen]
    · intro c found
      obtain rfl : b = c := Option.some.inj (now.symm.trans found)
      unfold Handler.Staffed
      rw [worker, isOpen]
      exact acc.staffed a present
    · exact fun _ _ => ⟨b, now⟩
  cases isOpen : a.isOpen with
  | false =>
    have closed : .closed k ∈ s.journal := acc.closed_iff.2 ⟨a, present, isOpen⟩
    refine settle a ?_ ?_ rfl rfl
    · cases task : e.task? with
      | none => rw [Event.hand_of_none task, present]
      | some t => rw [Event.getElem?_hand_self task, present, Option.map_some,
          Handler.receive_of_closed isOpen]
    · rw [assigned_append_of_closed closed]
      exact balanced
  | true =>
    have open_ := (acc.isOpen_iff present).1 isOpen
    cases task : e.task? with
    | none =>
      refine settle a (by rw [Event.hand_of_none task, present]) ?_ rfl rfl
      rw [assigned_append_delivered open_, task]
      simpa using balanced
    | some t =>
      refine settle { a with queue := a.queue ++ [t] } ?_ ?_ rfl rfl
      · rw [Event.getElem?_hand_self task, present, Option.map_some,
          Handler.receive_of_open isOpen (acc.staffed a present).not_lost]
      · rw [assigned_append_delivered open_, task, ← balanced]
        simp

theorem deliver (acc : Accounted k s) (e : Event) {l : Listener}
    (present : l = .handler k → ∃ a, s.handlers[k]? = some a) :
    Accounted k (Controller.deliver e s l) := by
  obtain ⟨schedule, entries, same, logs⟩ := deliver_spec e s l
  have given : Accounted k { s with
      handlers := e.hand s.handlers l, journal := s.journal ++ [.delivered l e] } := by
    by_cases mine : l = .handler k
    · subst l
      obtain ⟨a, present⟩ := present rfl
      exact acc.hand_self e present
    · have noted : Accounted k (s.note (.delivered l e)) :=
        acc.note ⟨rfl, by simp [Entry.deliveredTo?, mine], by simp⟩
      exact noted.same (Event.getElem?_hand_of_ne mine) (fun _ => id) rfl
  rw [same]
  exact (given.logs logs).same rfl (fun _ => id) (by simp)

theorem publish (acc : Accounted k s) (e : Event) : Accounted k (s.publish e) := by
  have fold (listeners : List Listener) (s : Controller) (acc : Accounted k s)
      (heard : ∀ l ∈ listeners, l ∈ s.registry.audience e) :
      Accounted k (listeners.foldl (Controller.deliver e) s) := by
    induction listeners generalizing s with
    | nil => exact acc
    | cons l rest ih =>
      refine ih _ (acc.deliver e fun mine => acc.known e (mine ▸ heard l List.mem_cons_self)) ?_
      rw [deliver_registry]
      exact fun m member => heard m (List.mem_cons_of_mem _ member)
  exact fold _ _ (acc.log _) fun _ => id

theorem update (acc : Accounted k s) (u : Update) : Accounted k (s.update u) := by
  have moved : Accounted k { s with inventory := s.inventory.update u } :=
    acc.same rfl (fun _ => id) rfl
  have changed := moved.note (e := .updated u (s.inventory.event? u)) ⟨rfl, rfl, by simp⟩
  unfold Controller.update
  dsimp only
  split
  · exact changed.publish _
  · exact changed

theorem lead (acc : Accounted k s) (leadership : Leadership) :
    Accounted k { s with leadership } := acc.same rfl (fun _ => id) rfl

theorem disturb (acc : Accounted k s) (d : Disturbance) : Accounted k (s.disturb d) := by
  cases d with
  | update u => exact acc.update u
  | appoint leader => exact acc.lead _
  | refuse device reason => exact acc.same rfl (fun _ => id) rfl
  | accept device => exact acc.same rfl (fun _ => id) rfl

theorem call (acc : Accounted k s) (h : Nat) (c : Call) : Accounted k (s.note (.call h c)) :=
  acc.note ⟨rfl, rfl, by simp⟩

/-- No task and no pass disturbs the books, not even through events in the middle of it. -/
theorem working (acc : Accounted k s) {h : Nat} {allowed : Call → Prop}
    (w : Working h allowed s t) : Accounted k t := by
  refine w.keeps (fun t n _ acc => acc.log n) (fun t c crashes _ acc => ?_)
    (fun t hooks acc => ?_) (fun t d acc => acc.disturb d) acc
  · exact (acc.call h c).same rfl (fun _ => id) rfl
  · exact acc.same rfl (fun _ => id) rfl

theorem endWork (acc : Accounted k s) {h : Nat} {a : Handler} (present : s.handlers[h]? = some a)
    (closed : a.isOpen = false) :
    Accounted k (s.modifyHandler h fun a => { a with worker := .ended }) := by
  by_cases mine : h = k
  · subst h
    have now : (s.modifyHandler k fun a => { a with worker := .ended }).handlers[k]? =
        some { a with worker := .ended } := by
      simp [modifyHandler, present]
    refine ⟨?_, acc.timely, ?_, ?_, fun _ _ => ⟨_, now⟩⟩
    · have kept := acc.balance
      rw [queueOf_of_present present] at kept
      rw [queueOf_of_present now]
      exact kept
    · change .closed k ∈ s.journal ↔ _
      rw [acc.closed_iff, now]
      simp [present]
    · intro b found
      obtain rfl := Option.some.inj (now.symm.trans found)
      exact .inr ⟨rfl, closed⟩
  · exact acc.same (by simp [modifyHandler, mine]) (fun _ => id) rfl

theorem take (acc : Accounted k s) {h : Nat} {a : Handler} {task : Task} {rest : List Task}
    (present : s.handlers[h]? = some a) (queue : a.queue = task :: rest) :
    Accounted k (s.take h task rest) := by
  by_cases mine : h = k
  · subst h
    have now : (s.take k task rest).handlers[k]? = some { a with queue := rest } := by
      simp [Controller.take, modifyHandler, Controller.note, present]
    refine acc.append rfl ?_ ?_ ?_ fun _ _ => ⟨_, now⟩
    · have kept := acc.balance
      rw [queueOf_of_present present, queue] at kept
      have more : taken k (s.journal ++ [.taken k task]) = taken k s.journal ++ [task] := by
        simp [taken, Entry.takenBy?]
      change taken k (s.journal ++ [.taken k task]) ++
        (s.take k task rest).queueOf k = assigned k (s.journal ++ [.taken k task])
      rw [more, queueOf_of_present now, assigned_append_undelivered rfl, ← kept]
      simp
    · change .closed k ∈ s.journal ++ [.taken k task] ↔
        ∃ b, (s.take k task rest).handlers[k]? = some b ∧ b.isOpen = false
      rw [now]
      simp [acc.closed_iff, present]
    · intro b found
      obtain rfl := Option.some.inj (now.symm.trans found)
      exact acc.staffed a present
  · have untouched : Accounted k (s.modifyHandler h fun a => { a with queue := rest }) :=
      acc.same (by simp [modifyHandler, mine]) (fun _ => id) rfl
    exact untouched.note ⟨by simp [Entry.takenBy?, mine], rfl, by simp⟩

theorem work (acc : Accounted k s) (h : Nat) : Accounted k (s.work h) := by
  rcases work_turn s h with same | ⟨a, present, -, -, closed, ended⟩ |
    ⟨a, task, rest, present, queue, w⟩
  · rwa [same]
  · rw [ended]
    exact (acc.log _).endWork present closed
  · exact (acc.take present queue).working w

/-- A handler that is closed takes nothing in any more. -/
theorem close (acc : Accounted k s) {h : Nat} {a : Handler} (present : s.handlers[h]? = some a) :
    Accounted k (s.closeIntake h a) := by
  have fewer (e : Event) : .handler k ∈ (s.closeIntake h a).registry.audience e →
      .handler k ∈ s.registry.audience e := fun heard => (audience_closeIntake s h a e).subset heard
  by_cases mine : h = k
  · subst h
    have now : (s.closeIntake k a).handlers[k]? = some { a with isOpen := false } := by
      simp [closeIntake, modifyHandler, Controller.note, present]
    refine acc.append rfl ?_ ?_ ?_ fun _ _ => ⟨_, now⟩
    · have kept := acc.balance
      change taken k (s.journal ++ [.closed k]) ++ (s.closeIntake k a).queueOf k =
        assigned k (s.journal ++ [.closed k])
      rw [taken_append_untaken rfl, assigned_append_undelivered rfl, queueOf_of_present now,
        ← kept, queueOf_of_present present]
    · rw [now]
      simp [closeIntake, Controller.note]
    · intro b found
      obtain rfl := Option.some.inj (now.symm.trans found)
      exact (acc.staffed a present).close
  · have shut : Accounted k { s with
        registry := (s.closeIntake h a).registry
        handlers := s.handlers.modify h fun a => { a with isOpen := false } } :=
      acc.same (by simp [mine]) fewer rfl
    exact (shut.note ⟨rfl, rfl, by simpa using mine⟩).same rfl (fun _ => id) rfl

theorem enroll (acc : Accounted k s) (label : String) (self : Member) (p : Placement) :
    Accounted k (s.enroll label self p) := by
  have heard (e : Event) (added : .handler k ∈ (s.enroll label self p).registry.audience e) :
      .handler k ∈ s.registry.audience e ∨ k = s.handlers.length := by
    simpa [audience_enroll] using added
  by_cases new : k = s.handlers.length
  · subst k
    have before : s.handlers[s.handlers.length]? = none := List.getElem?_eq_none (Nat.le_refl _)
    have now : (s.enroll label self p).handlers[s.handlers.length]? = some ⟨label, ⟨self, p.app⟩, p,
        s.registry.nextId, s.registry.nextId + 1, true, .running, []⟩ := by
      simp [enroll, Registry.add]
    refine ⟨?_, acc.timely, ?_, ?_, fun _ _ => ⟨_, now⟩⟩
    · have kept := acc.balance
      rw [queueOf, before] at kept
      rw [queueOf_of_present now]
      exact kept
    · have unclosed := acc.closed_iff
      rw [before] at unclosed
      rw [now]
      simpa [enroll] using unclosed
    · intro b found
      obtain rfl := Option.some.inj (now.symm.trans found)
      exact .inl rfl
  · have untouched : (s.enroll label self p).handlers[k]? = s.handlers[k]? := by
      change (s.handlers ++ [_])[k]? = _
      rcases Nat.lt_or_gt_of_ne new with below | above
      · rw [List.getElem?_append_left below]
      · have beyond := Nat.succ_le_of_lt above
        rw [List.getElem?_eq_none (Nat.le_of_lt above), List.getElem?_eq_none (by simpa using beyond)]
    exact acc.same untouched (fun e added => (heard e added).resolve_right new) rfl

theorem act (acc : Accounted k s) {act : Act} (alive : act ≠ .loseWorkers) :
    Accounted k (s.act act) := by
  cases act with
  | log n => exact acc.log n
  | disturb d => exact acc.disturb d
  | arrange schedule | armCrash crash | armHook hook => exact acc.same rfl (fun _ => id) rfl
  | listen kind label =>
    refine acc.same rfl (fun e heard => ?_) rfl
    cases kind <;> cases e <;>
      simpa [Controller.act, Registry.add, Registry.audience] using heard
  | unlisten kind id =>
    exact acc.same rfl (fun e heard => (Registry.audience_remove _ id kind e).subset heard) rfl
  | enroll label self p => exact acc.enroll label self p
  | stand h g => exact ((acc.lead _).call h (.run g.topic)).logSome _
  | withdraw h g => exact ((acc.lead _).call h (.withdraw g.topic)).logSome _
  | close h =>
    unfold Controller.act
    dsimp only
    split
    · exact acc
    · next a present => exact acc.close present
  | work h => exact acc.work h
  | loseWorkers => exact absurd rfl alive
  | reconcile h n action =>
    simp only [Controller.act, Controller.reconcile]
    split
    · exact acc
    · exact acc.working (pass_working s h _ n action)

end Accounted
end Controller
end GatewayRules
