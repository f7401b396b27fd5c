import GatewayRules.Controller.State
import GatewayRules.Proofs.Trace

/-!
What a change to the inventory does to a controller: the event goes to its audience, queues grow at
their ends, and nothing but queues, the order of turns and the journal is touched.
-/
namespace GatewayRules

theorem Registry.count_filter {l : Listener} {id : Nat} {listeners : List (Nat × Listener)}
    (others : ∀ i, (i, l) ∈ listeners → i ≠ id) :
    ((listeners.filter (·.1 ≠ id)).map (·.2)).count l = (listeners.map (·.2)).count l := by
  induction listeners with
  | nil => rfl
  | cons entry rest ih =>
    obtain ⟨i, m⟩ := entry
    have later := ih fun i member => others i (List.mem_cons_of_mem _ member)
    by_cases removed : i = id
    · have stranger : m ≠ l := fun mine => others i (mine ▸ List.mem_cons_self) removed
      rw [List.filter_cons_of_neg (by simpa using removed), later, List.map_cons,
        List.count_cons_of_ne stranger]
    · rw [List.filter_cons_of_pos (by simpa using removed), List.map_cons, List.map_cons,
        List.count_cons, List.count_cons, later]

def Handler.receive (t : Task) (a : Handler) : Handler :=
  if a.isOpen ∧ a.worker ≠ .lost then { a with queue := a.queue ++ [t] } else a

namespace Handler

variable {t : Task} {a : Handler}

theorem receive_of_open (isOpen : a.isOpen = true) (staffed : a.worker ≠ .lost) :
    receive t a = { a with queue := a.queue ++ [t] } := by
  simp [receive, isOpen, staffed]

theorem receive_of_closed (closed : a.isOpen = false) : receive t a = a := by
  simp [receive, closed]

/-- What a change to one handler leaves alone, it leaves alone in all of them. -/
theorem map_modify {β : Type} {g : Handler → β} (handlers : List Handler) (h : Nat)
    {f : Handler → Handler} (kept : ∀ a, g (f a) = g a) :
    (handlers.modify h f).map g = handlers.map g := by
  refine List.ext_getElem? fun k => ?_
  rw [List.getElem?_map, List.getElem?_map, List.getElem?_modify]
  by_cases same : h = k
  · cases handlers[k]? <;> simp [same, kept]
  · simp [same]

end Handler

/-- The handlers after a listener has been given an event. -/
def Event.hand (e : Event) (handlers : List Handler) : Listener → List Handler
  | .handler h => (e.task?.map fun t => handlers.modify h (Handler.receive t)).getD handlers
  | .observer _ => handlers

namespace Event

variable {e : Event} {handlers : List Handler} {k : Nat}

theorem hand_of_none (idle : e.task? = none) (l : Listener) : e.hand handlers l = handlers := by
  cases l <;> simp [hand, idle]

theorem foldl_hand_of_none (idle : e.task? = none) (handlers : List Handler)
    (listeners : List Listener) : listeners.foldl e.hand handlers = handlers := by
  induction listeners with
  | nil => rfl
  | cons l rest ih => rw [List.foldl_cons, hand_of_none idle, ih]

theorem map_hand {β : Type} {g : Handler → β} (kept : ∀ t a, g (Handler.receive t a) = g a)
    (handlers : List Handler) (l : Listener) :
    (e.hand handlers l).map g = handlers.map g := by
  cases l with
  | observer label => rfl
  | handler h =>
    cases task : e.task? with
    | none => rw [hand_of_none task]
    | some t => simpa [hand, task] using Handler.map_modify handlers h (kept t)

theorem getElem?_hand_self {t : Task} (task : e.task? = some t) :
    (e.hand handlers (.handler k))[k]? = (handlers[k]?).map (Handler.receive t) := by
  simp [hand, task]

theorem getElem?_hand_of_ne {l : Listener} (other : l ≠ .handler k) :
    (e.hand handlers l)[k]? = handlers[k]? := by
  cases l with
  | observer label => rfl
  | handler j =>
    have different : j ≠ k := fun same => other (same ▸ rfl)
    cases task : e.task? with
    | none => rw [hand_of_none task]
    | some t => simp [hand, task, different]

end Event

def Notice.IsNews : Notice → Prop
  | networkEvent .. | nodeEvent .. | droppedAfterStop _ | droppedWithoutWorker _ => True
  | _ => False

def Entry.IsNews : Entry → Prop
  | .log n => n.IsNews
  | .delivered .. => True
  | .call .. | .updated .. | .taken .. | .closed _ => False

namespace Controller

variable {h : Nat} {s : Controller}

theorem submit_spec (s : Controller) (h : Nat) (t : Task) : ∃ schedule entries,
    s.submit h t = { s with
      schedule, handlers := s.handlers.modify h (Handler.receive t)
      journal := s.journal ++ entries } ∧
    ∀ e ∈ entries, ∃ n : Notice, e = .log n ∧ n.IsNews := by
  cases present : s.handlers[h]? with
  | none =>
    have outside : s.handlers.modify h (Handler.receive t) = s.handlers :=
      List.modify_eq_self (List.getElem?_eq_none_iff.1 present)
    exact ⟨s.schedule, [], by simp [submit, present, outside], by simp⟩
  | some a =>
    have kept (no : ¬(a.isOpen ∧ a.worker ≠ .lost)) :
        s.handlers.modify h (Handler.receive t) = s.handlers := by
      refine List.ext_getElem? fun k => ?_
      rw [List.getElem?_modify]
      by_cases same : h = k
      · subst k
        simp [present, Handler.receive, no]
      · simp [same]
    by_cases isOpen : a.isOpen
    · by_cases lost : a.worker = .lost
      · refine ⟨s.schedule, [.log (.droppedWithoutWorker t)], ?_, by simp [Notice.IsNews]⟩
        rw [kept (by simp [lost])]
        simp [submit, present, isOpen, lost, log, note]
      · refine ⟨s.schedule.wake h, [], ?_, by simp⟩
        have received : s.handlers.modify h (Handler.receive t) =
            s.handlers.modify h fun a => { a with queue := a.queue ++ [t] } := by
          refine List.ext_getElem? fun k => ?_
          rw [List.getElem?_modify, List.getElem?_modify]
          by_cases same : h = k
          · subst k
            simp [present, Handler.receive, isOpen, lost]
          · simp [same]
        rw [received]
        simp [submit, present, isOpen, lost, modifyHandler]
    · refine ⟨s.schedule, [.log (.droppedAfterStop t)], ?_, by simp [Notice.IsNews]⟩
      rw [kept (by simp [isOpen])]
      simp [submit, present, isOpen, log, note]

theorem deliver_spec (e : Event) (s : Controller) (l : Listener) : ∃ schedule entries,
    deliver e s l = { s with
      schedule
      handlers := e.hand s.handlers l
      journal := s.journal ++ .delivered l e :: entries } ∧
    ∀ e ∈ entries, ∃ n : Notice, e = .log n ∧ n.IsNews := by
  have idle (same : deliver e s l = s.note (.delivered l e))
      (kept : e.hand s.handlers l = s.handlers) : ∃ schedule entries,
      deliver e s l = { s with
        schedule, handlers := e.hand s.handlers l
        journal := s.journal ++ .delivered l e :: entries } ∧
      ∀ e ∈ entries, ∃ n : Notice, e = .log n ∧ n.IsNews :=
    ⟨s.schedule, [], by rw [same, kept]; rfl, by simp⟩
  cases l with
  | observer label => exact idle rfl rfl
  | handler h =>
    cases task : e.task? with
    | none => exact idle (by simp [deliver, task]) (by simp [Event.hand, task])
    | some t =>
      obtain ⟨schedule, entries, same, logs⟩ := submit_spec (s.note (.delivered (.handler h) e)) h t
      refine ⟨schedule, entries, ?_, logs⟩
      have delivered :
          deliver e s (.handler h) = (s.note (.delivered (.handler h) e)).submit h t := by
        simp [deliver, task]
      rw [delivered, same]
      simp [Event.hand, task, note]

theorem deliver_registry (e : Event) (s : Controller) (l : Listener) :
    (deliver e s l).registry = s.registry := by
  obtain ⟨schedule, entries, same, -⟩ := deliver_spec e s l
  rw [same]

/-- Of an event its audience hears, everyone as often as registered. -/
theorem publish_spec (s : Controller) (e : Event) : ∃ schedule entries,
    s.publish e = { s with
      schedule, handlers := (s.registry.audience e).foldl e.hand s.handlers
      journal := s.journal ++ entries } ∧
    (∀ entry ∈ entries, entry.IsNews) ∧
    ∀ l, Journal.delivered l entries = List.replicate ((s.registry.audience e).count l) e := by
  have fold (listeners : List Listener) (s : Controller) : ∃ schedule entries,
      listeners.foldl (deliver e) s = { s with
        schedule, handlers := listeners.foldl e.hand s.handlers
        journal := s.journal ++ entries } ∧
      (∀ entry ∈ entries, entry.IsNews) ∧
      ∀ l, Journal.delivered l entries = List.replicate (listeners.count l) e := by
    induction listeners generalizing s with
    | nil => exact ⟨s.schedule, [], by simp, by simp, by simp [Journal.delivered]⟩
    | cons m rest ih =>
      obtain ⟨schedule₁, first, same₁, logs⟩ := deliver_spec e s m
      obtain ⟨schedule₂, second, same₂, news, heard⟩ := ih (deliver e s m)
      refine ⟨schedule₂, .delivered m e :: first ++ second, ?_, ?_, fun l => ?_⟩
      · rw [List.foldl_cons, same₂, same₁]
        simp
      · intro entry member
        rcases List.mem_cons.1 member with rfl | member
        · trivial
        rcases List.mem_append.1 member with member | member
        · obtain ⟨n, rfl, news⟩ := logs entry member
          exact news
        · exact news entry member
      · have quiet : Journal.delivered l first = [] := by
          refine List.filterMap_eq_nil_iff.2 fun entry member => ?_
          obtain ⟨n, rfl, -⟩ := logs entry member
          rfl
        rw [Journal.delivered_append, heard]
        by_cases same : m = l
        · subst m
          rw [Journal.delivered_cons_self, quiet, List.count_cons_self, List.replicate_succ]
          rfl
        · rw [Journal.delivered_cons_of_ne same, quiet, List.count_cons_of_ne same]
          rfl
  obtain ⟨schedule, entries, same, news, heard⟩ :=
    fold (s.registry.audience e) (s.log (eventNotice e))
  refine ⟨schedule, .log (eventNotice e) :: entries, ?_, ?_, heard⟩
  · unfold publish
    rw [same]
    simp [log, note]
  · intro entry member
    rcases List.mem_cons.1 member with rfl | member
    · cases e <;> trivial
    · exact news entry member

def afterUpdate (s : Controller) (u : Update) : List Handler :=
  match s.inventory.event? u with
  | some e => (s.registry.audience e).foldl e.hand s.handlers
  | none => s.handlers

theorem map_afterUpdate {β : Type} {g : Handler → β}
    (kept : ∀ t a, g (Handler.receive t a) = g a) (s : Controller) (u : Update) :
    (s.afterUpdate u).map g = s.handlers.map g := by
  have fold (e : Event) (listeners : List Listener) (handlers : List Handler) :
      (listeners.foldl e.hand handlers).map g = handlers.map g := by
    induction listeners generalizing handlers with
    | nil => rfl
    | cons l rest ih => rw [List.foldl_cons, ih, Event.map_hand kept]
  unfold afterUpdate
  split
  · exact fold _ _ _
  · rfl

theorem update_spec (s : Controller) (u : Update) : ∃ schedule entries,
    s.update u = { s with
      inventory := s.inventory.update u, schedule, handlers := s.afterUpdate u
      journal := s.journal ++ .updated u (s.inventory.event? u) :: entries } ∧
    (∀ entry ∈ entries, entry.IsNews) ∧
    ∀ l, Journal.delivered l entries = (match s.inventory.event? u with
      | some e => List.replicate ((s.registry.audience e).count l) e
      | none => []) := by
  cases raised : s.inventory.event? u with
  | none =>
    refine ⟨s.schedule, [], ?_, by simp, fun l => rfl⟩
    simp [update, afterUpdate, raised, note]
  | some e =>
    obtain ⟨schedule, entries, same, news, heard⟩ := publish_spec
      ({ s with inventory := s.inventory.update u }.note (.updated u (some e))) e
    refine ⟨schedule, entries, ?_, news, heard⟩
    simp only [update, raised]
    rw [same]
    simp [afterUpdate, raised, note]

theorem inventory_update (s : Controller) (u : Update) :
    (s.update u).inventory = s.inventory.update u := by
  obtain ⟨schedule, entries, same, -, -⟩ := update_spec s u
  rw [same]

theorem registry_update (s : Controller) (u : Update) : (s.update u).registry = s.registry := by
  obtain ⟨schedule, entries, same, -, -⟩ := update_spec s u
  rw [same]

theorem handlers_update (s : Controller) (u : Update) :
    (s.update u).handlers = s.afterUpdate u := by
  obtain ⟨schedule, entries, same, -, -⟩ := update_spec s u
  rw [same]

end Controller
end GatewayRules
