import GatewayRules.Proofs.Exhaustion
import GatewayRules.Proofs.Gating
import GatewayRules.Proofs.Queue
import GatewayRules.Proofs.Spans

/-!
Where drains end. A turn takes one task from one queue, and only a disturbance in a hook brings new
ones, which is then gone from the hooks. So turns come to an end in whatever order they are had, and
since a worker is there for whatever waits, nothing waits any more at the end.
-/
namespace GatewayRules
open Journal

def Disturbance.update? : Disturbance → Option Update
  | update u => some u
  | _ => none

namespace Handler

variable {a : Handler} {handlers : List Handler}

/-- Without a worker nothing waits, and nothing will. -/
def Tended (a : Handler) : Prop :=
  a.worker = .running ∨ a.queue = [] ∧ (a.isOpen = false ∨ a.worker = .lost)

theorem Tended.receive (tended : a.Tended) (t : Task) : (Handler.receive t a).Tended := by
  rcases tended with running | ⟨queue, closed | lost⟩
  · left
    unfold Handler.receive
    split <;> exact running
  · rw [receive_of_closed closed]
    exact .inr ⟨queue, .inl closed⟩
  · have kept : Handler.receive t a = a := by simp [Handler.receive, lost]
    rw [kept]
    exact .inr ⟨queue, .inr lost⟩

def AllTended (handlers : List Handler) : Prop :=
  ∀ (k : Nat) (a : Handler), handlers[k]? = some a → a.Tended

theorem AllTended.modify (tended : AllTended handlers) {h : Nat} {f : Handler → Handler}
    (kept : ∀ a, handlers[h]? = some a → a.Tended → (f a).Tended) :
    AllTended (handlers.modify h f) := by
  intro k a present
  rw [List.getElem?_modify] at present
  obtain ⟨b, before, same⟩ := Option.map_eq_some_iff.1 present
  have was : b.Tended := tended k b before
  split at same
  · next here =>
    subst here
    exact same ▸ kept b before was
  · exact same ▸ was

theorem AllTended.hand (tended : AllTended handlers) (e : Event) (l : Listener) :
    AllTended (e.hand handlers l) := by
  cases l with
  | observer label => exact tended
  | handler h =>
    cases task : e.task? with
    | none => rwa [Event.hand_of_none task]
    | some t =>
      have given : e.hand handlers (.handler h) = handlers.modify h (Handler.receive t) := by
        simp [Event.hand, task]
      rw [given]
      exact tended.modify fun a _ was => was.receive t

end Handler

/-- A listener puts on a queue at most the task of the event, as often as it listens. -/
theorem Event.queue_foldl_hand (e : Event) (listeners : List Listener) (handlers : List Handler)
    (k : Nat) : ∃ received,
      (((listeners.foldl e.hand handlers)[k]?).map Handler.queue).getD [] =
        ((handlers[k]?).map Handler.queue).getD [] ++ received ∧
      received.Sublist (List.replicate (listeners.count (.handler k)) e.task?.toList).flatten := by
  induction listeners generalizing handlers with
  | nil => exact ⟨[], by simp, List.nil_sublist _⟩
  | cons l rest ih =>
    obtain ⟨later, same, inside⟩ := ih (e.hand handlers l)
    rw [List.foldl_cons, same]
    by_cases mine : l = .handler k
    · subst mine
      rw [List.count_cons_self, List.replicate_succ, List.flatten_cons]
      cases task : e.task? with
      | none =>
        rw [hand_of_none task]
        exact ⟨later, rfl, by simpa [task] using inside⟩
      | some t =>
        rw [task] at inside
        rw [getElem?_hand_self task]
        cases present : handlers[k]? with
        | none => exact ⟨later, by simp, inside.trans (List.sublist_append_right _ _)⟩
        | some a =>
          by_cases open_ : a.isOpen ∧ a.worker ≠ .lost
          · refine ⟨[t] ++ later, ?_, (List.Sublist.refl _).append inside⟩
            simp [Handler.receive, open_]
          · refine ⟨later, ?_, inside.trans (List.sublist_append_right _ _)⟩
            simp [Handler.receive, open_]
    · rw [getElem?_hand_of_ne mine, List.count_cons_of_ne mine]
      exact ⟨later, rfl, inside⟩

namespace Controller

variable {h : Nat} {s t u : Controller} {ds : List Disturbance}

/-- No handler hears an event twice. -/
def Undoubled (s : Controller) : Prop :=
  ∀ e k, (s.registry.audience e).count (.handler k) ≤ 1

theorem Registered.undoubled (reg : Registered s) : s.Undoubled := by
  intro e k
  rw [Registry.audience_eq]
  by_cases listens : ∃ i, (i, .handler k) ∈ s.registry.enrolled e.kind
  · obtain ⟨i, member⟩ := listens
    have sole : ∀ j, (j, .handler k) ∈ s.registry.enrolled e.kind → j = i := by
      intro j other
      obtain ⟨a, seat, here, -⟩ := reg.known k e.kind i member
      obtain ⟨b, seat', there, -⟩ := reg.known k e.kind j other
      obtain rfl : a = b := Option.some.inj (seat.symm.trans seat')
      exact there.symm.trans here
    rw [reg.sound.count_of_sole member sole]
  · have absent : ∀ i, (i, .handler k) ∉ s.registry.enrolled e.kind :=
      fun i member => listens ⟨i, member⟩
    rw [Registry.count_of_absent absent]
    exact Nat.zero_le 1

theorem taken_update (s : Controller) (u : Update) (k : Nat) :
    taken k (s.update u).journal = taken k s.journal := by
  obtain ⟨entries, journal, silent, -⟩ := update_doings s u
  rw [journal, taken_append, taken_eq_doings k entries, silent k]
  exact List.append_nil _

theorem taken_working {allowed : Call → Prop} (w : Working h allowed s t) (k : Nat) :
    taken k t.journal = taken k s.journal := by
  obtain ⟨entries, body, journal, mine, -, others, -⟩ := w.doings
  have quiet : taken k entries = [] := by
    rw [taken_eq_doings]
    by_cases own : k = h
    · rw [own, mine, List.filterMap_map]
      exact List.filterMap_eq_nil_iff.2 fun c _ => rfl
    · rw [others k own]
      rfl
  rw [journal, taken_append, quiet, List.append_nil]

def unspent (s : Controller) : List Disturbance := s.hooks.flatMap Hook.actions

/-- The tasks that a handler has taken up, and those that wait. -/
def entrusted (s : Controller) (k : Nat) : List Task := taken k s.journal ++ s.queueOf k

/-- Disturbances have happened: they have changed the inventory, and for an event that they raised
a handler got its task once at most. It got no other task. -/
structure Disturbed (ds : List Disturbance) (s t : Controller) : Prop where
  registry : t.registry = s.registry
  inventory : t.inventory = s.inventory.after (ds.filterMap Disturbance.update?)
  given : ∀ k, ∃ received, t.entrusted k = s.entrusted k ++ received ∧
    received.Sublist
      ((s.inventory.raisedBy (ds.filterMap Disturbance.update?)).filterMap Event.task?)

namespace Disturbed

theorem same (registry : t.registry = s.registry) (inventory : t.inventory = s.inventory)
    (entrusted : ∀ k, t.entrusted k = s.entrusted k) : Disturbed [] s t where
  registry := registry
  inventory := inventory
  given k := ⟨[], by rw [entrusted, List.append_nil], List.nil_sublist _⟩

theorem trans {ds' : List Disturbance} (first : Disturbed ds s t) (second : Disturbed ds' t u) :
    Disturbed (ds ++ ds') s u where
  registry := second.registry.trans first.registry
  inventory := by
    rw [second.inventory, first.inventory, List.filterMap_append]
    exact List.foldl_append.symm
  given k := by
    obtain ⟨received, before, inside⟩ := first.given k
    obtain ⟨received', after, inside'⟩ := second.given k
    refine ⟨received ++ received', by rw [after, before, List.append_assoc], ?_⟩
    rw [List.filterMap_append, Inventory.raisedBy_append, List.filterMap_append,
      ← first.inventory]
    exact inside.append inside'

theorem undoubled (disturbed : Disturbed ds s t) (undoubled : s.Undoubled) : t.Undoubled := by
  unfold Undoubled
  rw [disturbed.registry]
  exact undoubled

theorem update (undoubled : s.Undoubled) (u : Update) :
    Disturbed [.update u] s (s.update u) := by
  refine ⟨registry_update s u, inventory_update s u, fun k => ?_⟩
  have queued : ∃ received, (s.update u).queueOf k = s.queueOf k ++ received ∧
      received.Sublist ((s.inventory.event? u).toList.filterMap Event.task?) := by
    unfold queueOf
    rw [handlers_update]
    unfold afterUpdate
    cases s.inventory.event? u with
    | none => exact ⟨[], by simp, List.nil_sublist _⟩
    | some e =>
      obtain ⟨received, grown, inside⟩ :=
        e.queue_foldl_hand (s.registry.audience e) s.handlers k
      refine ⟨received, grown, inside.trans ?_⟩
      have once := undoubled e k
      have task : (some e).toList.filterMap Event.task? = e.task?.toList := by
        cases task : e.task? <;> simp [task]
      rw [task]
      rcases Nat.le_one_iff_eq_zero_or_eq_one.1 once with never | once
      · simp [never]
      · simp [once]
  obtain ⟨received, grown, inside⟩ := queued
  refine ⟨received, ?_, ?_⟩
  · unfold entrusted
    rw [taken_update, grown, List.append_assoc]
  · simpa [Disturbance.update?, Inventory.raisedBy] using inside

theorem disturb (undoubled : s.Undoubled) (d : Disturbance) : Disturbed [d] s (s.disturb d) := by
  cases d with
  | update u => exact update undoubled u
  | appoint leader | refuse device reason | accept device =>
    have nothing : Disturbed [] s _ := same rfl rfl fun _ => rfl
    exact ⟨nothing.registry, nothing.inventory, nothing.given⟩

theorem foldl_disturb (undoubled : s.Undoubled) (ds : List Disturbance) :
    Disturbed ds s (ds.foldl Controller.disturb s) := by
  induction ds generalizing s with
  | nil => exact same rfl rfl fun _ => rfl
  | cons d rest ih =>
    have first : Disturbed [d] s (s.disturb d) := disturb undoubled d
    exact first.trans (ih (first.undoubled undoubled))

end Disturbed

/-- The disturbances that have happened were in hooks, and are gone from them. -/
structure Spends (ds : List Disturbance) (s t : Controller) : Prop extends Disturbed ds s t where
  spent : (ds ++ t.unspent).Perm s.unspent

namespace Spends

theorem same (registry : t.registry = s.registry) (inventory : t.inventory = s.inventory)
    (entrusted : ∀ k, t.entrusted k = s.entrusted k) (hooks : t.hooks = s.hooks) :
    Spends [] s t where
  toDisturbed := .same registry inventory entrusted
  spent := by
    unfold unspent
    rw [hooks]
    exact .refl _

theorem trans {ds' : List Disturbance} (first : Spends ds s t) (second : Spends ds' t u) :
    Spends (ds ++ ds') s u where
  toDisturbed := first.toDisturbed.trans second.toDisturbed
  spent := by
    rw [List.append_assoc]
    exact (second.spent.append_left ds).trans first.spent

theorem fireHooks (undoubled : s.Undoubled) :
    Spends ((Hook.countDown s.hooks).2.flatMap Hook.actions) s s.fireHooks where
  toDisturbed := by
    let waiting : Controller := { s with hooks := (Hook.countDown s.hooks).1 }
    have same : Disturbed [] s waiting := .same rfl rfl fun _ => rfl
    exact same.trans (.foldl_disturb (same.undoubled undoubled) _)
  spent := by
    have kept : s.fireHooks.hooks = (Hook.countDown s.hooks).1 :=
      (loads_foldl_disturb_le _ _).2.2
    unfold unspent
    rw [kept]
    exact Hook.perm_countDown s.hooks

end Spends

theorem entrusted_note {e : Entry} {k : Nat} (untaken : e.takenBy? k = none) :
    (s.note e).entrusted k = s.entrusted k := by
  unfold entrusted
  change taken k (s.journal ++ [e]) ++ s.queueOf k = _
  rw [taken_append_untaken untaken]

theorem spends_of_working {allowed : Call → Prop} (undoubled : s.Undoubled)
    (w : Working h allowed s t) : ∃ ds, Spends ds s t := by
  induction w with
  | refl => exact ⟨[], .same rfl rfl (fun _ => rfl) rfl⟩
  | log n _ _ ih =>
    obtain ⟨ds, before⟩ := ih
    exact ⟨ds ++ [], before.trans (.same rfl rfl (fun k => entrusted_note rfl) rfl)⟩
  | call c crashes _ _ ih =>
    obtain ⟨ds, before⟩ := ih
    exact ⟨ds ++ [], before.trans (.same rfl rfl (fun k => entrusted_note rfl) rfl)⟩
  | fireHooks _ ih =>
    obtain ⟨ds, before⟩ := ih
    exact ⟨_, before.trans (.fireHooks (before.undoubled undoubled))⟩

theorem taken_note_taken (s : Controller) (h : Nat) (task : Task) (k : Nat) :
    taken k (s.note (.taken h task)).journal =
      taken k s.journal ++ if k = h then [task] else [] := by
  change taken k (s.journal ++ [.taken h task]) = _
  rw [taken_append]
  by_cases mine : k = h
  · subst mine
    simp [taken, Entry.takenBy?]
  · have other : h ≠ k := Ne.symm mine
    simp [taken, Entry.takenBy?, mine, other]

/-- Taking a task up moves it from the queue of one handler. -/
theorem spends_take {a : Handler} {task : Task} {rest : List Task}
    (present : s.handlers[h]? = some a) (queue : a.queue = task :: rest) :
    Spends [] s (s.take h task rest) := by
  refine .same rfl rfl (fun k => ?_) rfl
  unfold entrusted
  rw [Controller.take, taken_note_taken]
  by_cases mine : k = h
  · subst mine
    have now : (s.take k task rest).handlers[k]? = some { a with queue := rest } := by
      simp [Controller.take, modifyHandler, note, present]
    change taken k s.journal ++ _ ++ (s.take k task rest).queueOf k = _
    rw [queueOf_of_present now, queueOf_of_present present, queue, if_pos rfl,
      List.append_assoc]
    rfl
  · have other : h ≠ k := Ne.symm mine
    rw [if_neg mine]
    simp [queueOf, note, modifyHandler, other]

/-- A worker for which nothing waits takes nothing up; it may end. -/
theorem spends_work_of_idle (idle : s.queueOf h = []) :
    Spends [] s (s.work h) ∧ ∀ k, taken k (s.work h).journal = taken k s.journal := by
  rcases work_turn s h with same | ⟨a, -, -, -, -, ended⟩ | ⟨a, task, rest, present, queue, -⟩
  · rw [same]
    exact ⟨.same rfl rfl (fun _ => rfl) rfl, fun _ => rfl⟩
  · rw [ended]
    let retire (a : Handler) : Handler := { a with worker := .ended }
    have untaken (k : Nat) : taken k (s.log .queueDrained).journal = taken k s.journal :=
      taken_append_untaken rfl
    have waits (k : Nat) :
        ((s.log .queueDrained).modifyHandler h retire).queueOf k = s.queueOf k := by
      have queues : (s.handlers.modify h retire).map Handler.queue =
          s.handlers.map Handler.queue := Handler.map_modify s.handlers h fun _ => rfl
      unfold queueOf
      rw [← List.getElem?_map, ← List.getElem?_map]
      exact congrArg (fun queues => (queues[k]?).getD []) queues
    have kept (k : Nat) :
        ((s.log .queueDrained).modifyHandler h retire).entrusted k = s.entrusted k := by
      unfold entrusted
      rw [waits]
      exact congrArg (· ++ s.queueOf k) (untaken k)
    exact ⟨.same rfl rfl kept rfl, untaken⟩
  · rw [queueOf_of_present present, queue] at idle
    cases idle

/-- A turn takes the first task from one queue. New tasks are from disturbances, which are spent. -/
theorem spends_work (undoubled : s.Undoubled) (h : Nat) :
    (∃ ds, Spends ds s (s.work h)) ∧ ∀ k, taken k (s.work h).journal =
      taken k s.journal ++ if k = h then (s.queueOf k).take 1 else [] := by
  cases waits : s.queueOf h with
  | nil =>
    obtain ⟨spends, untaken⟩ := spends_work_of_idle waits
    refine ⟨⟨[], spends⟩, fun k => ?_⟩
    rw [untaken]
    split
    · next mine => simp [mine, waits]
    · simp
  | cons task rest =>
    have handler : ∃ a, s.handlers[h]? = some a ∧ a.queue = task :: rest := by
      cases present : s.handlers[h]? with
      | none => simp [queueOf, present] at waits
      | some a => exact ⟨a, rfl, (queueOf_of_present present).symm.trans waits⟩
    obtain ⟨a, present, queue⟩ := handler
    have moved : Spends [] s (s.take h task rest) := spends_take present queue
    have w : Working h Call.IsOrderly (s.take h task rest) (s.work h) :=
      work_orderly present queue
    obtain ⟨ds, spends⟩ := spends_of_working (moved.undoubled undoubled) w
    refine ⟨⟨[] ++ ds, moved.trans spends⟩, fun k => ?_⟩
    rw [taken_working w, Controller.take, taken_note_taken]
    split
    · next mine =>
      subst mine
      rw [waits]
      rfl
    · rfl

/-- Turns of workers that are ready, in any order. -/
inductive Turns (s : Controller) : Nat → Controller → Prop where
  | refl : Turns s 0 s
  | turn {n : Nat} {t : Controller} (h : Nat) (schedule : Schedule) :
    Turns s n t → t.isReady h = true → Turns s (n + 1) ({ t with schedule }.work h)

namespace Turns

variable {n : Nat}

/-- There are no more turns than what is owed. -/
theorem owed_le (turns : Turns s n t) : n + t.owed ≤ s.owed := by
  induction turns with
  | refl => omega
  | @turn n t h schedule _ ready ih =>
    have less : ({ t with schedule }.work h).owed < t.owed :=
      owed_work_lt (s := { t with schedule }) ready
    omega

theorem spends (turns : Turns s n t) (undoubled : s.Undoubled) : ∃ ds, Spends ds s t := by
  induction turns with
  | refl => exact ⟨[], .same rfl rfl (fun _ => rfl) rfl⟩
  | @turn n t h schedule _ _ ih =>
    obtain ⟨ds, before⟩ := ih
    have arranged : Spends [] t { t with schedule } := .same rfl rfl (fun _ => rfl) rfl
    have whole := before.trans arranged
    obtain ⟨⟨ds', worked⟩, -⟩ := spends_work (whole.undoubled undoubled) h
    exact ⟨_, whole.trans worked⟩

end Turns

/-- A drain is turns until no worker is ready. -/
theorem drain_turns (s : Controller) : ∃ n t, Turns s n t ∧
    s.drain = { t with schedule := .empty } ∧ ∀ h, t.isReady h = false := by
  have repeated (m : Nat) : ∃ n, Turns s n (Nat.repeat workNext m s) := by
    induction m with
    | zero => exact ⟨0, .refl⟩
    | succ m ih =>
      obtain ⟨n, turns⟩ := ih
      rw [Nat.repeat]
      cases next : (Nat.repeat workNext m s).turn? with
      | none =>
        have same : (Nat.repeat workNext m s).workNext = Nat.repeat workNext m s := by
          simp [workNext, next]
        rw [same]
        exact ⟨n, turns⟩
      | some turn =>
        obtain ⟨h, schedule⟩ := turn
        have turned : (Nat.repeat workNext m s).workNext =
            { Nat.repeat workNext m s with schedule }.work h := by simp [workNext, next]
        rw [turned]
        exact ⟨n + 1, turns.turn h schedule (isReady_of_turn? next)⟩
  obtain ⟨n, turns⟩ := repeated s.owed
  exact ⟨n, _, turns, rfl, isReady_of_turn?_eq_none (turn?_repeat_workNext s)⟩

/-- Nothing waits anywhere without a worker. -/
def Tended (s : Controller) : Prop := Handler.AllTended s.handlers

namespace Tended

theorem disturb (tended : s.Tended) (d : Disturbance) : (s.disturb d).Tended := by
  cases d with
  | update u =>
    change Handler.AllTended (s.update u).handlers
    rw [handlers_update]
    have fold (e : Event) (listeners : List Listener) (handlers : List Handler)
        (tended : Handler.AllTended handlers) :
        Handler.AllTended (listeners.foldl e.hand handlers) := by
      induction listeners generalizing handlers with
      | nil => exact tended
      | cons l rest ih => exact ih _ (tended.hand e l)
    unfold afterUpdate
    split
    · exact fold _ _ _ tended
    · exact tended
  | appoint leader | refuse device reason | accept device => exact tended

theorem working {allowed : Call → Prop} (tended : s.Tended) (w : Working h allowed s t) :
    t.Tended :=
  w.keeps (fun _ _ _ tended => tended) (fun _ _ _ _ tended => tended)
    (fun _ _ tended => tended) (fun _ d tended => tended.disturb d) tended

theorem work (tended : s.Tended) (h : Nat) : (s.work h).Tended := by
  have all : Handler.AllTended s.handlers := tended
  rcases work_turn s h with same | ⟨a, present, queue, -, closed, ended⟩ |
    ⟨a, task, rest, present, queue, w⟩
  · rwa [same]
  · rw [ended]
    refine all.modify fun b found _ => ?_
    obtain rfl : a = b := Option.some.inj (present.symm.trans found)
    exact .inr ⟨queue, .inl closed⟩
  · have taken : (s.take h task rest).Tended := by
      refine all.modify fun b found was => ?_
      obtain rfl : a = b := Option.some.inj (present.symm.trans found)
      -- something waited, so that the worker cannot be gone
      rcases was with running | ⟨empty, -⟩
      · exact .inl running
      · rw [queue] at empty
        cases empty
    exact taken.working w

theorem act (tended : s.Tended) (act : Act) : (s.act act).Tended := by
  cases act with
  | log n => exact tended
  | disturb d => exact tended.disturb d
  | arrange schedule | armCrash crash | armHook hook | listen kind label | unlisten kind id =>
    exact tended
  | enroll label self p =>
    intro k a present
    rcases List.mem_append.1 (List.mem_of_getElem? present) with before | new
    · obtain ⟨j, found⟩ := List.mem_iff_getElem?.1 before
      exact tended j a found
    · obtain rfl := List.mem_singleton.1 new
      exact .inl rfl
  | stand h g =>
    have kept : (s.stand h g).handlers = s.handlers := by
      simp only [stand, logSome]
      split <;> rfl
    exact fun k a present => tended k a (kept ▸ present)
  | withdraw h g =>
    have kept : (s.withdraw h g).handlers = s.handlers := by
      simp only [withdraw, logSome]
      split <;> rfl
    exact fun k a present => tended k a (kept ▸ present)
  | close h =>
    unfold Controller.act
    dsimp only
    split
    · exact tended
    · have all : Handler.AllTended s.handlers := tended
      refine all.modify fun b _ was => ?_
      exact was.imp_right fun idle => ⟨idle.1, .inl rfl⟩
  | work h => exact tended.work h
  | loseWorkers =>
    intro k a present
    have found : (s.handlers[k]?).map (fun a : Handler =>
        if a.worker = .running then { a with worker := .lost, queue := [] } else a) = some a := by
      rw [← List.getElem?_map]
      exact present
    obtain ⟨b, before, same⟩ := Option.map_eq_some_iff.1 found
    split at same
    · subst same
      exact .inr ⟨rfl, .inr rfl⟩
    · exact same ▸ tended k b before
  | reconcile h n action =>
    simp only [Controller.act, Controller.reconcile]
    split
    · exact tended
    · exact tended.working (pass_working s h _ n action)

theorem turns {n : Nat} (tended : s.Tended) (turns : Turns s n t) : t.Tended := by
  induction turns with
  | refl => exact tended
  | @turn n t h schedule _ _ ih => exact work (s := { t with schedule }) ih h

theorem run (tended : s.Tended) (steps : List Step) : (s.run steps).Tended := by
  have acts : Acts (fun _ => True) s (s.run steps) := run_acts s steps fun _ _ _ _ => trivial
  exact acts.keeps (fun _ act _ tended => tended.act act) tended

/-- Whatever waits, its worker is ready for it. -/
theorem isReady (tended : s.Tended) {k : Nat} (waits : s.queueOf k ≠ []) :
    s.isReady k = true := by
  cases present : s.handlers[k]? with
  | none => exact absurd (by simp [queueOf, present]) waits
  | some a =>
    rw [queueOf_of_present present] at waits
    rcases tended k a present with running | ⟨empty, -⟩
    · simp [Controller.isReady, present, running, waits]
    · exact absurd empty waits

end Tended

/-- Work always comes to an end. From every state of a run, whatever waits on queues and is armed in
hooks, there are at most as many turns as are owed, in whatever order the workers have them, and a
worker is ready as long as anything waits for it. A turn takes the first task from the queue of its
handler and none from others; every task that is new on a queue is for an event that a disturbance
from a hook has raised, one for each event at most, and the disturbance is gone from the hooks. A
drain is such turns, and leaves no task on any queue. -/
theorem draining_ends (leadership : Leadership) (fixedPort : Option Port)
    (customPorts : Option (Inventory → Network → Node → Except RuleError Port))
    (keepsListeners logsRequests : Bool) (steps : List Step) :
    let s := { start leadership fixedPort keepsListeners logsRequests with customPorts }.run steps
    (∀ n t, Turns s n t →
      n + t.owed ≤ s.owed ∧ (∃ ds, Spends ds s t) ∧
      (∀ k, t.queueOf k ≠ [] → t.isReady k = true) ∧
      ∀ h schedule, t.isReady h = true →
        let u := { t with schedule }.work h
        (∃ ds, Spends ds t u) ∧ ∀ k, taken k u.journal =
          taken k t.journal ++ if k = h then (t.queueOf k).take 1 else []) ∧
    ∃ n t, Turns s n t ∧ s.drain = { t with schedule := .empty } ∧
      ∀ k, s.drain.queueOf k = [] := by
  intro s
  have reg := Registered.start leadership fixedPort keepsListeners logsRequests
  have begun : Registered
      { start leadership fixedPort keepsListeners logsRequests with customPorts } :=
    ⟨reg.sound, reg.held, reg.own, reg.known⟩
  have undoubled : s.Undoubled := (begun.run steps).undoubled
  have nobody : Tended
      { start leadership fixedPort keepsListeners logsRequests with customPorts } :=
    fun k a present => by cases present
  have tended : s.Tended := nobody.run steps
  have attended {n : Nat} {t : Controller} (turns : Turns s n t) (k : Nat)
      (waits : t.queueOf k ≠ []) : t.isReady k = true := (tended.turns turns).isReady waits
  constructor
  · intro n t turns
    obtain ⟨ds, spends⟩ := turns.spends undoubled
    refine ⟨turns.owed_le, ⟨ds, spends⟩, attended turns, fun h schedule _ => ?_⟩
    have arranged : Spends [] t { t with schedule } := .same rfl rfl (fun _ => rfl) rfl
    have still : Undoubled { t with schedule } :=
      (spends.trans arranged).undoubled undoubled
    obtain ⟨⟨ds', worked⟩, takes⟩ := spends_work still h
    exact ⟨⟨_, arranged.trans worked⟩, takes⟩
  · obtain ⟨n, t, turns, ends, rest⟩ := drain_turns s
    refine ⟨n, t, turns, ends, fun k => ?_⟩
    rw [ends]
    by_contra waits
    have ready : t.isReady k = true := attended turns k waits
    rw [rest k] at ready
    cases ready

/-- While the first of two handlers installs a network, another network comes up. Both handlers get
a task more, and the end of the drain finds both queues empty. -/
theorem draining_ends_rekindled :
    let x : Node := ⟨"host", ⟨"br"⟩, default, default, .complete, .none⟩
    let n : Network := ⟨"host", "blue", .vxlan, default, none⟩
    let m : Network := ⟨"host", "red", .vxlan, default, none⟩
    let s := { start (.appointed (some ⟨"a"⟩)) none false false with customPorts := none }.run
      [.disturb (.update (.upsertNode x)), .activate "one" ⟨"a"⟩ .default,
        .activate "two" ⟨"b"⟩ .default, .disturb (.update (.upsertNetwork n)),
        .armHook ⟨0, [.update (.upsertNetwork m)]⟩]
    s.owed = 8 ∧ s.queueOf 0 = [.install n] ∧ s.queueOf 1 = [.install n] ∧
      taken 0 s.drain.journal = [.install n, .install m] ∧
      taken 1 s.drain.journal = [.install n, .install m] ∧
      s.drain.queueOf 0 = [] ∧ s.drain.queueOf 1 = [] ∧ s.drain.unspent = [] := by
  intro x n m s
  obtain ⟨-, _, _, -, -, empty⟩ := draining_ends (.appointed (some ⟨"a"⟩)) none none false false
    [.disturb (.update (.upsertNode x)), .activate "one" ⟨"a"⟩ .default,
      .activate "two" ⟨"b"⟩ .default, .disturb (.update (.upsertNetwork n)),
      .armHook ⟨0, [.update (.upsertNetwork m)]⟩]
  exact ⟨by decide, by decide, by decide, by decide, by decide, empty 0, empty 1, by decide⟩

end Controller
end GatewayRules
