import GatewayRules.Proofs.Exhaustion
import GatewayRules.Proofs.Queue
import GatewayRules.Proofs.Registration
import GatewayRules.Proofs.TaskCalls

/-!
Handlers that share an inventory, an installer and a leadership service do not interfere. A run is
set beside the one in which a single handler is activated: what that handler finds is the same in
both, and so are its tasks and its calls.
-/
namespace GatewayRules
open Journal

def Inventory.tasksOf (v : Inventory) (u : Update) : List Task :=
  ((v.event? u).bind Event.task?).toList

def Step.IsPlain : Step → Prop
  | disturb _ | activate .. | drain => True
  | _ => False

def Step.member? : Step → Option Member
  | activate _ self _ => some self
  | _ => none

def Step.solo : Nat → List Step → List Step
  | _, [] => []
  | 0, activate label self p :: rest =>
    activate label self p :: rest.filter (·.member?.isNone)
  | k + 1, activate .. :: rest => solo k rest
  | k, step :: rest => step :: solo k rest

theorem Step.eq_activate {step : Step} {self : Member} (activation : step.member? = some self) :
    ∃ label placement, step = .activate label self placement := by
  cases step with
  | activate label self placement =>
    obtain rfl := Option.some.inj activation
    exact ⟨label, placement, rfl⟩
  | _ => cases activation

theorem Step.solo_cons_of_none {step : Step} (shared : step.member? = none) (k : Nat)
    (rest : List Step) : solo k (step :: rest) = step :: solo k rest := by
  cases step with
  | activate label self placement => cases shared
  | _ => cases k <;> rfl

theorem Step.solo_zero_cons {step : Step} {self : Member} (activation : step.member? = some self)
    (rest : List Step) : solo 0 (step :: rest) = step :: rest.filter (·.member?.isNone) := by
  obtain ⟨label, placement, rfl⟩ := eq_activate activation
  rfl

theorem Step.solo_succ_cons {step : Step} {self : Member} (activation : step.member? = some self)
    (k : Nat) (rest : List Step) : solo (k + 1) (step :: rest) = solo k rest := by
  obtain ⟨label, placement, rfl⟩ := eq_activate activation
  rfl

def Entry.installed? : Entry → Option Request
  | call _ c => c.accepted?
  | _ => none

def Journal.installed (journal : List Entry) : List Request :=
  journal.filterMap Entry.installed?

theorem Journal.installed_of_sole {k : Nat} {journal : List Entry}
    (sole : ∀ j ≠ k, accepted j journal = []) : installed journal = accepted k journal := by
  unfold installed accepted calls
  rw [List.filterMap_filterMap]
  refine List.filterMap_congr fun e member => ?_
  cases e with
  | call j c =>
    by_cases mine : j = k
    · simp [Entry.installed?, Entry.callBy?, mine]
    · have none : (Entry.callBy? j (.call j c)).bind Call.accepted? = none := by
        have silent := sole j mine
        rw [accepted, calls, List.filterMap_filterMap] at silent
        exact List.filterMap_eq_nil_iff.1 silent _ member
      simpa [Entry.installed?, Entry.callBy?, mine] using none
  | _ => rfl

/-- A handler that is at work has every task that it is handed. -/
theorem Event.getElem?_foldl_hand {e : Event} {t : Task} (task : e.task? = some t)
    {handlers : List Handler} {k : Nat} {a : Handler} (present : handlers[k]? = some a)
    (isOpen : a.isOpen = true) (running : a.worker = .running) (listeners : List Listener) :
    (listeners.foldl e.hand handlers)[k]? = some
      { a with queue := a.queue ++ List.replicate (listeners.count (.handler k)) t } := by
  induction listeners generalizing handlers a with
  | nil => simpa using present
  | cons l rest ih =>
    rw [List.foldl_cons]
    by_cases mine : l = .handler k
    · subst l
      have staffed : a.worker ≠ .lost := by rw [running]; decide
      have received : (e.hand handlers (.handler k))[k]? =
          some { a with queue := a.queue ++ [t] } := by
        rw [getElem?_hand_self task, present, Option.map_some,
          Handler.receive_of_open isOpen staffed]
      rw [ih received isOpen running, List.count_cons_self, List.replicate_succ]
      simp
    · have kept : (e.hand handlers l)[k]? = some a := (getElem?_hand_of_ne mine).trans present
      rw [ih kept isOpen running, List.count_cons_of_ne mine]

namespace Controller

variable {s t : Controller} {k : Nat} {g : Gate} {p : Placement} {q : List Task}

/-- Two controllers in which a task finds the same. -/
structure Alike (s t : Controller) : Prop where
  inventory : t.inventory = s.inventory
  leadership : t.leadership = s.leadership
  refusals : t.refusals = s.refusals
  fixedPort : t.fixedPort = s.fixedPort
  customPorts : t.customPorts = s.customPorts
  crashes : t.crashes = s.crashes
  hooks : t.hooks = s.hooks

namespace Alike

variable {u : Controller}

theorem refl (s : Controller) : Alike s s := ⟨rfl, rfl, rfl, rfl, rfl, rfl, rfl⟩

theorem symm (alike : Alike s t) : Alike t s where
  inventory := alike.inventory.symm
  leadership := alike.leadership.symm
  refusals := alike.refusals.symm
  fixedPort := alike.fixedPort.symm
  customPorts := alike.customPorts.symm
  crashes := alike.crashes.symm
  hooks := alike.hooks.symm

theorem trans (first : Alike s t) (second : Alike t u) : Alike s u where
  inventory := second.inventory.trans first.inventory
  leadership := second.leadership.trans first.leadership
  refusals := second.refusals.trans first.refusals
  fixedPort := second.fixedPort.trans first.fixedPort
  customPorts := second.customPorts.trans first.customPorts
  crashes := second.crashes.trans first.crashes
  hooks := second.hooks.trans first.hooks

theorem tame (alike : Alike s t) (tame : s.Tame) : t.Tame where
  uncrashed := alike.crashes.trans tame.uncrashed
  unhooked := alike.hooks.trans tame.unhooked
  appointed := by
    rw [alike.leadership]
    exact tame.appointed

theorem taskCalls (alike : Alike s t) : t.taskCalls = s.taskCalls := by
  refine taskCalls_congr alike.inventory alike.leadership alike.refusals ?_
  unfold resolver
  rw [alike.customPorts, alike.fixedPort, alike.inventory]

/-- A change to the inventory raises no event of its own for what a task finds. -/
theorem of_update (s : Controller) (u : Update) :
    Alike { s with inventory := s.inventory.update u } (s.update u) := by
  obtain ⟨schedule, entries, same, -, -⟩ := update_spec s u
  rw [same]
  exact ⟨rfl, rfl, rfl, rfl, rfl, rfl, rfl⟩

theorem disturb (alike : Alike s t) (d : Disturbance) : Alike (s.disturb d) (t.disturb d) := by
  cases d with
  | update u =>
    have changed : Alike { s with inventory := s.inventory.update u }
        { t with inventory := t.inventory.update u } :=
      { alike with inventory := congrArg (·.update u) alike.inventory }
    exact (of_update s u).symm.trans (changed.trans (of_update t u))
  | appoint leader =>
    exact { alike with leadership := congrArg (·.appoint leader) alike.leadership }
  | refuse device reason =>
    refine { alike with refusals := ?_ }
    change _ :: t.refusals.filter _ = _ :: s.refusals.filter _
    rw [alike.refusals]
  | accept device =>
    refine { alike with refusals := ?_ }
    change t.refusals.filter _ = s.refusals.filter _
    rw [alike.refusals]

end Alike

theorem Tame.disturb (tame : s.Tame) (d : Disturbance) : (s.disturb d).Tame := by
  cases d with
  | update u => exact (Alike.of_update s u).tame ⟨tame.uncrashed, tame.unhooked, tame.appointed⟩
  | appoint leader =>
    obtain ⟨former, appointed⟩ := tame.appointed
    exact ⟨tame.uncrashed, tame.unhooked, leader, congrArg (·.appoint leader) appointed⟩
  | refuse device reason | accept device => exact ⟨tame.uncrashed, tame.unhooked, tame.appointed⟩

/-- The handler is at its post with these tasks to do, and hears of every event once. -/
structure Serves (k : Nat) (g : Gate) (p : Placement) (q : List Task) (s : Controller) : Prop where
  handler : ∃ a, s.handlers[k]? = some a ∧ a.gate = g ∧ a.placement = p ∧ a.isOpen = true ∧
    a.worker = .running ∧ a.queue = q
  heard : ∀ e, (s.registry.audience e).count (.handler k) = 1

/-- The handler is still to come. -/
structure Awaited (k : Nat) (s : Controller) : Prop where
  absent : s.handlers.length ≤ k
  unheard : ∀ e, (s.registry.audience e).count (.handler k) = 0

/-- The tasks that a disturbance gives to a handler. -/
def given (s : Controller) : Disturbance → List Task
  | .update u => s.inventory.tasksOf u
  | _ => []

theorem Serves.disturb (serves : Serves k g p q s) (d : Disturbance) :
    Serves k g p (q ++ s.given d) (s.disturb d) := by
  cases d with
  | update u =>
    obtain ⟨a, present, gate, placement, isOpen, running, queue⟩ := serves.handler
    refine ⟨⟨{ a with queue := q ++ s.inventory.tasksOf u }, ?_, gate, placement, isOpen, running,
      rfl⟩, fun e => ?_⟩
    · change (s.update u).handlers[k]? = _
      rw [handlers_update, afterUpdate, Inventory.tasksOf]
      cases raised : s.inventory.event? u with
      | none => simp [present, ← queue]
      | some e =>
        cases task : e.task? with
        | none => simp [Event.foldl_hand_of_none task, task, present, ← queue]
        | some t =>
          dsimp only
          rw [Event.getElem?_foldl_hand task present isOpen running, serves.heard e, queue]
          simp [task]
    · change ((s.update u).registry.audience e).count _ = 1
      rw [registry_update]
      exact serves.heard e
  | appoint leader | refuse device reason | accept device =>
    change Serves k g p (q ++ []) _
    rw [List.append_nil]
    exact ⟨serves.handler, serves.heard⟩

theorem Awaited.disturb (awaited : Awaited k s) (d : Disturbance) : Awaited k (s.disturb d) := by
  cases d with
  | update u =>
    have length : (s.afterUpdate u).length = s.handlers.length := by
      simpa using congrArg List.length (map_afterUpdate (g := fun _ => ()) (fun _ _ => rfl) s u)
    refine ⟨?_, fun e => ?_⟩
    · change (s.update u).handlers.length ≤ k
      rw [handlers_update, length]
      exact awaited.absent
    · change ((s.update u).registry.audience e).count _ = 0
      rw [registry_update]
      exact awaited.unheard e
  | appoint leader | refuse device reason | accept device =>
    exact ⟨awaited.absent, awaited.unheard⟩

theorem activate_eq (tame : s.Tame) (label : String) (self : Member) (placement : Placement) :
    s.activate label self placement = { s.enroll label self placement with
      journal := s.journal ++ [.call s.handlers.length (.run placement.app), .log .started] } := by
  obtain ⟨leader, appointed⟩ := tame.appointed
  have runs : Gate.activate ⟨self, placement.app⟩ (s.enroll label self placement).leadership =
      ((s.enroll label self placement).leadership, none) := by
    have led : (s.enroll label self placement).leadership = .appointed leader := appointed
    rw [led]
    rfl
  unfold activate stand
  rw [runs]
  simp [note, log, logSome, enroll]

theorem Alike.activate (tame : s.Tame) (label : String) (self : Member) (placement : Placement) :
    Alike s (s.activate label self placement) := by
  rw [activate_eq tame]
  exact ⟨rfl, rfl, rfl, rfl, rfl, rfl, rfl⟩

theorem calls_activate (tame : s.Tame) (k : Nat) (label : String) (self : Member)
    (placement : Placement) : calls k (s.activate label self placement).journal =
      calls k s.journal ++ if s.handlers.length = k then [.run placement.app] else [] := by
  rw [activate_eq tame, calls_append]
  by_cases new : s.handlers.length = k <;> simp [calls, Entry.callBy?, new]

theorem audience_activate (tame : s.Tame) (label : String) (self : Member)
    (placement : Placement) (e : Event) :
    (s.activate label self placement).registry.audience e =
      s.registry.audience e ++ [.handler s.handlers.length] := by
  rw [activate_eq tame]
  exact audience_enroll s label self placement e

theorem handlers_activate (tame : s.Tame) (label : String) (self : Member)
    (placement : Placement) : (s.activate label self placement).handlers =
      s.handlers ++ [⟨label, ⟨self, placement.app⟩, placement, s.registry.nextId,
        s.registry.nextId + 1, true, .running, []⟩] := by
  rw [activate_eq tame]
  rfl

theorem Serves.activate (serves : Serves k g p q s) (tame : s.Tame) (label : String)
    (self : Member) (placement : Placement) :
    Serves k g p q (s.activate label self placement) := by
  obtain ⟨a, present, post⟩ := serves.handler
  have before : k < s.handlers.length := (List.getElem?_eq_some_iff.1 present).1
  refine ⟨⟨a, ?_, post⟩, fun e => ?_⟩
  · rw [handlers_activate tame, List.getElem?_append_left before]
    exact present
  · have other : Listener.handler s.handlers.length ≠ .handler k := by
      rintro ⟨⟩
      exact Nat.lt_irrefl _ before
    rw [audience_activate tame, List.count_append, serves.heard, List.count_cons_of_ne other]
    rfl

theorem Awaited.activate (awaited : Awaited k s) (tame : s.Tame) (other : s.handlers.length ≠ k)
    (label : String) (self : Member) (placement : Placement) :
    Awaited k (s.activate label self placement) := by
  refine ⟨?_, fun e => ?_⟩
  · rw [handlers_activate tame, List.length_append]
    exact Nat.lt_of_le_of_ne awaited.absent other
  · have other : Listener.handler s.handlers.length ≠ .handler k := by
      rintro ⟨⟩
      exact other rfl
    rw [audience_activate tame, List.count_append, awaited.unheard, List.count_cons_of_ne other]
    rfl

/-- A handler that is activated has asked for the lead, and has nothing to do yet. -/
theorem Awaited.serves (awaited : Awaited k s) (tame : s.Tame) (first : s.handlers.length = k)
    (label : String) (self : Member) (placement : Placement) :
    Serves k ⟨self, placement.app⟩ placement [] (s.activate label self placement) ∧
      calls k (s.activate label self placement).journal =
        calls k s.journal ++ [.run placement.app] := by
  subst first
  refine ⟨⟨⟨⟨label, ⟨self, placement.app⟩, placement, s.registry.nextId, s.registry.nextId + 1,
    true, .running, []⟩, ?_, rfl, rfl, rfl, rfl, rfl⟩, fun e => ?_⟩, ?_⟩
  · rw [handlers_activate tame, List.getElem?_concat_length]
  · rw [audience_activate tame, List.count_append, awaited.unheard, List.count_singleton_self]
  · rw [calls_activate tame, if_pos rfl]

theorem Alike.work (tame : s.Tame) (h : Nat) : Alike s (s.work h) := by
  rcases work_turn s h with same | ⟨a, -, -, -, -, ended⟩ | ⟨a, task, rest, present, queue, -⟩
  · rw [same]
    exact .refl s
  · rw [ended]
    exact ⟨rfl, rfl, rfl, rfl, rfl, rfl, rfl⟩
  · obtain ⟨entries, worked, -⟩ := writes_work tame present queue
    rw [worked]
    exact ⟨rfl, rfl, rfl, rfl, rfl, tame.uncrashed.symm, rfl⟩

theorem registry_work (tame : s.Tame) (h : Nat) : (s.work h).registry = s.registry := by
  rcases work_turn s h with same | ⟨a, -, -, -, -, ended⟩ | ⟨a, task, rest, present, queue, -⟩
  · rw [same]
  · rw [ended]
    rfl
  · obtain ⟨entries, worked, -⟩ := writes_work tame present queue
    rw [worked]
    rfl

/-- The turn of another worker. -/
theorem work_of_other (tame : s.Tame) {h : Nat} (other : h ≠ k) :
    (s.work h).handlers[k]? = s.handlers[k]? ∧ calls k (s.work h).journal = calls k s.journal := by
  have kept (f : Handler → Handler) : (s.handlers.modify h f)[k]? = s.handlers[k]? := by
    simp [other]
  rcases work_turn s h with same | ⟨a, -, -, -, -, ended⟩ | ⟨a, task, rest, present, queue, -⟩
  · rw [same]
    exact ⟨rfl, rfl⟩
  · rw [ended]
    exact ⟨kept _, (calls_append ..).trans (List.append_nil _)⟩
  · constructor
    · obtain ⟨entries, worked, -⟩ := writes_work tame present queue
      rw [worked]
      exact kept _
    · obtain ⟨entries, _, journal, -, -, -, silent, -⟩ := work_doings present queue
      rw [journal, calls_append, calls_eq_doings k entries, silent k other.symm]
      exact List.append_nil _

/-- A turn of its worker takes a handler one task further, and a turn of another one leaves it
where it is. -/
theorem Serves.work (serves : Serves k g p q s) (tame : s.Tame) (h : Nat) :
    ∃ done rest, q = done ++ rest ∧ Serves k g p rest (s.work h) ∧
      calls k (s.work h).journal = calls k s.journal ++ done.flatMap (s.taskCalls p g) := by
  obtain ⟨a, present, rfl, rfl, isOpen, running, rfl⟩ := serves.handler
  have heard (e : Event) : ((s.work h).registry.audience e).count (.handler k) = 1 := by
    rw [registry_work tame]
    exact serves.heard e
  have still (handler : (s.work h).handlers[k]? = s.handlers[k]?)
      (silent : calls k (s.work h).journal = calls k s.journal) :
      ∃ done rest, a.queue = done ++ rest ∧ Serves k a.gate a.placement rest (s.work h) ∧
        calls k (s.work h).journal =
          calls k s.journal ++ done.flatMap (s.taskCalls a.placement a.gate) :=
    ⟨[], a.queue, rfl, ⟨⟨a, handler.trans present, rfl, rfl, isOpen, running, rfl⟩, heard⟩,
      silent.trans (List.append_nil _).symm⟩
  by_cases mine : h = k
  · subst h
    cases queue : a.queue with
    | nil =>
      have idle : s.work k = s := by simp [Controller.work, present, queue, endWork, isOpen]
      rw [← queue]
      exact still (by rw [idle]) (by rw [idle])
    | cons task rest =>
      obtain ⟨entries, worked, written⟩ := writes_work tame present queue
      refine ⟨[task], rest, rfl, ⟨⟨{ a with queue := rest }, ?_, rfl, rfl, isOpen, running, rfl⟩,
        heard⟩, ?_⟩
      · rw [worked]
        change (s.handlers.modify k _)[k]? = _
        simp [present]
      · have journal : (s.work k).journal = s.journal ++ [.taken k task] ++ entries := by
          rw [worked]
          rfl
        have taken : calls k (s.journal ++ [.taken k task]) = calls k s.journal :=
          (calls_append ..).trans (List.append_nil _)
        rw [journal, calls_append, taken, written, List.flatMap_singleton]
  · obtain ⟨handler, silent⟩ := work_of_other tame mine
    exact still handler silent

theorem Awaited.work (awaited : Awaited k s) (tame : s.Tame) (h : Nat) :
    Awaited k (s.work h) ∧ calls k (s.work h).journal = calls k s.journal := by
  have unheard (e : Event) : ((s.work h).registry.audience e).count (.handler k) = 0 := by
    rw [registry_work tame]
    exact awaited.unheard e
  have absent : s.handlers[k]? = none := List.getElem?_eq_none awaited.absent
  by_cases mine : h = k
  · subst h
    have idle : s.work k = s := by simp [Controller.work, absent]
    rw [idle]
    exact ⟨awaited, rfl⟩
  · obtain ⟨handler, silent⟩ := work_of_other tame mine
    exact ⟨⟨List.getElem?_eq_none_iff.1 (handler.trans absent), unheard⟩, silent⟩

theorem Alike.turns {u : Controller} (tame : s.Tame) (turns : Acts Act.IsTurn s u) : Alike s u := by
  refine turns.keeps (P := Alike s) ?_ (.refl s)
  rintro v _ turn alike
  obtain ⟨h, rfl⟩ | ⟨schedule, rfl⟩ := turn
  · exact alike.trans (.work (alike.tame tame) h)
  · exact alike.trans ⟨rfl, rfl, rfl, rfl, rfl, rfl, rfl⟩

/-- Whatever turns there are, a handler does its tasks in order. -/
theorem Serves.turns {u : Controller} (serves : Serves k g p q s) (tame : s.Tame)
    (turns : Acts Act.IsTurn s u) : ∃ done rest, q = done ++ rest ∧ Serves k g p rest u ∧
      calls k u.journal = calls k s.journal ++ done.flatMap (s.taskCalls p g) := by
  refine (turns.keeps (P := fun u => Alike s u ∧ ∃ done rest, q = done ++ rest ∧
    Serves k g p rest u ∧
    calls k u.journal = calls k s.journal ++ done.flatMap (s.taskCalls p g)) ?_
    ⟨.refl s, [], q, rfl, serves, (List.append_nil _).symm⟩).2
  rintro v _ turn ⟨alike, done, rest, rfl, serving, made⟩
  obtain ⟨h, rfl⟩ | ⟨schedule, rfl⟩ := turn
  · have tame' := alike.tame tame
    obtain ⟨next, later, rfl, serving', made'⟩ := serving.work tame' h
    refine ⟨alike.trans (.work tame' h), done ++ next, later, (List.append_assoc ..).symm, serving',
      ?_⟩
    rw [alike.taskCalls, made] at made'
    change calls k (v.work h).journal = _
    rw [made', List.flatMap_append, List.append_assoc]
  · exact ⟨alike.trans ⟨rfl, rfl, rfl, rfl, rfl, rfl, rfl⟩, done, rest, rfl,
      ⟨serving.handler, serving.heard⟩, made⟩

/-- After a drain a handler has done all its tasks, each with the calls that it makes in the state
before the drain. -/
theorem Serves.drain (serves : Serves k g p q s) (tame : s.Tame) :
    Serves k g p [] s.drain ∧
      calls k s.drain.journal = calls k s.journal ++ q.flatMap (s.taskCalls p g) := by
  obtain ⟨done, rest, rfl, serving, made⟩ := serves.turns tame (drain_acts s)
  obtain ⟨a, present, gate, placement, isOpen, running, queue⟩ := serving.handler
  have ready := isReady_drain s k
  obtain rfl : rest = [] := by
    rw [isReady, present] at ready
    simpa [running, isOpen, queue] using ready
  rw [List.append_nil]
  exact ⟨serving, made⟩

theorem Awaited.drain (awaited : Awaited k s) (tame : s.Tame) :
    Awaited k s.drain ∧ calls k s.drain.journal = calls k s.journal := by
  refine ((drain_acts s).keeps (P := fun u => Alike s u ∧ Awaited k u ∧
    calls k u.journal = calls k s.journal) ?_ ⟨.refl s, awaited, rfl⟩).2
  rintro v _ turn ⟨alike, awaiting, silent⟩
  obtain ⟨h, rfl⟩ | ⟨schedule, rfl⟩ := turn
  · have tame' := alike.tame tame
    obtain ⟨awaiting', silent'⟩ := awaiting.work tame' h
    exact ⟨alike.trans (.work tame' h), awaiting', silent'.trans silent⟩
  · exact ⟨alike.trans ⟨rfl, rfl, rfl, rfl, rfl, rfl, rfl⟩,
      ⟨awaiting.absent, awaiting.unheard⟩, silent⟩

theorem Alike.given (alike : Alike s t) (d : Disturbance) : t.given d = s.given d := by
  cases d with
  | update u => exact congrArg (·.tasksOf u) alike.inventory
  | appoint leader | refuse device reason | accept device => rfl

theorem Serves.calls_activate (serves : Serves k g p q s) (tame : s.Tame) (label : String)
    (self : Member) (placement : Placement) :
    calls k (s.activate label self placement).journal = calls k s.journal := by
  obtain ⟨a, present, -⟩ := serves.handler
  have before : k < s.handlers.length := (List.getElem?_eq_some_iff.1 present).1
  rw [Controller.calls_activate tame, if_neg (Nat.ne_of_gt before)]
  exact List.append_nil _

def tasksAfter (s : Controller) (q : List Task) : Step → List Task
  | .disturb d => q ++ s.given d
  | .drain => []
  | _ => q

def callsDuring (s : Controller) (p : Placement) (g : Gate) (q : List Task) : Step → List Call
  | .drain => q.flatMap (s.taskCalls p g)
  | _ => []

section Steps
variable {next : Step}

theorem Tame.step (tame : s.Tame) (plain : next.IsPlain) : (s.step next).1.Tame := by
  cases next with
  | disturb d => exact tame.disturb d
  | activate label self placement => exact (Alike.activate tame label self placement).tame tame
  | drain => exact (Alike.turns tame (drain_acts s)).tame tame
  | _ => exact plain.elim

theorem Alike.of_activation {self : Member} (tame : s.Tame)
    (activation : next.member? = some self) : Alike s (s.step next).1 := by
  obtain ⟨label, placement, rfl⟩ := Step.eq_activate activation
  exact .activate tame label self placement

theorem Alike.step (alike : Alike s t) (tame : s.Tame) (plain : next.IsPlain) :
    Alike (s.step next).1 (t.step next).1 := by
  have tame' := alike.tame tame
  cases next with
  | disturb d => exact alike.disturb d
  | activate label self placement =>
    exact (Alike.activate tame label self placement).symm.trans
      (alike.trans (.activate tame' label self placement))
  | drain =>
    exact (Alike.turns tame (drain_acts s)).symm.trans
      (alike.trans (.turns tame' (drain_acts t)))
  | _ => exact plain.elim

theorem Alike.tasksAfter (alike : Alike s t) (q : List Task) (next : Step) :
    t.tasksAfter q next = s.tasksAfter q next := by
  cases next with
  | disturb d => exact congrArg (q ++ ·) (alike.given d)
  | _ => rfl

theorem Alike.callsDuring (alike : Alike s t) : t.callsDuring = s.callsDuring := by
  funext p g q next
  unfold Controller.callsDuring
  rw [alike.taskCalls]

theorem Serves.step (serves : Serves k g p q s) (tame : s.Tame) (plain : next.IsPlain) :
    Serves k g p (s.tasksAfter q next) (s.step next).1 ∧
      calls k (s.step next).1.journal = calls k s.journal ++ s.callsDuring p g q next := by
  cases next with
  | disturb d =>
    exact ⟨serves.disturb d, (calls_disturb s k d).trans (List.append_nil _).symm⟩
  | activate label self placement =>
    exact ⟨serves.activate tame label self placement,
      (serves.calls_activate tame label self placement).trans (List.append_nil _).symm⟩
  | drain => exact serves.drain tame
  | _ => exact plain.elim

/-- Unless a step is its activation, a handler still to come is so after it. -/
theorem Awaited.step (awaited : Awaited k s) (tame : s.Tame) (plain : next.IsPlain)
    (other : next.member? = none ∨ s.handlers.length ≠ k) :
    Awaited k (s.step next).1 ∧ calls k (s.step next).1.journal = calls k s.journal := by
  cases next with
  | disturb d => exact ⟨awaited.disturb d, calls_disturb s k d⟩
  | activate label self placement =>
    have other : s.handlers.length ≠ k := other.resolve_left (Option.some_ne_none self)
    refine ⟨awaited.activate tame other label self placement, ?_⟩
    exact (calls_activate tame ..).trans (by rw [if_neg other, List.append_nil])
  | drain => exact awaited.drain tame
  | _ => exact plain.elim

/-- Handlers are numbered in the order in which they are activated. -/
theorem length_handlers_of_isPlain (s : Controller) (plain : next.IsPlain) :
    (s.step next).1.handlers.length = s.handlers.length + next.member?.toList.length := by
  obtain ⟨_, aired⟩ := airing_step s next
  rw [← length_seats, ← length_seats, aired.seats]
  cases next with
  | disturb d => rfl
  | activate label self placement =>
    change (s.enroll label self placement).seats.length = _
    rw [seats_enroll, List.length_append]
    rfl
  | drain => rfl
  | _ => exact plain.elim

end Steps

/-- From where a handler is at its post in two runs, it makes the same calls, whether or not other
handlers are activated. -/
theorem calls_run_of_serves {j : Nat} {steps : List Step} (plain : ∀ step ∈ steps, step.IsPlain)
    (tame : s.Tame) (alike : Alike s t) (serves : Serves k g p q s) (serves' : Serves j g p q t)
    (same : calls k s.journal = calls j t.journal) : calls k (s.run steps).journal =
      calls j (t.run (steps.filter (·.member?.isNone))).journal := by
  induction steps generalizing s t q with
  | nil => exact same
  | cons step rest ih =>
    obtain ⟨plain, later⟩ := List.forall_mem_cons.1 plain
    obtain ⟨serving, made⟩ := serves.step tame plain
    cases activation : step.member? with
    | some self =>
      -- the second run stands still, and the handler has nothing from the step
      rw [List.filter_cons_of_neg (by simp [activation])]
      have moved := Alike.of_activation tame activation
      obtain ⟨label, placement, rfl⟩ := Step.eq_activate activation
      exact ih later (tame.step plain) (moved.symm.trans alike) serving serves'
        (made.trans ((List.append_nil _).trans same))
    | none =>
      rw [List.filter_cons_of_pos (by simp [activation])]
      obtain ⟨serving', made'⟩ := serves'.step (alike.tame tame) plain
      rw [alike.tasksAfter] at serving'
      rw [alike.callsDuring, ← same, ← made] at made'
      exact ih later (tame.step plain) (alike.step tame plain) serving serving' made'.symm

/-- A handler still to come makes the same calls in a run in which no other handler comes. -/
theorem calls_run_of_awaited {n : Nat} {steps : List Step} (plain : ∀ step ∈ steps, step.IsPlain)
    (tame : s.Tame) (alike : Alike s t) (number : k = s.handlers.length + n)
    (awaited : Awaited k s) (awaited' : Awaited 0 t)
    (same : calls k s.journal = calls 0 t.journal) :
    calls k (s.run steps).journal = calls 0 (t.run (Step.solo n steps)).journal := by
  induction steps generalizing s t n with
  | nil =>
    rw [Step.solo]
    exact same
  | cons step rest ih =>
    obtain ⟨plain, later⟩ := List.forall_mem_cons.1 plain
    have tame' := alike.tame tame
    have length := length_handlers_of_isPlain s plain
    cases activation : step.member? with
    | none =>
      rw [activation] at length
      obtain ⟨awaiting, silent⟩ := awaited.step tame plain (.inl activation)
      obtain ⟨awaiting', silent'⟩ := awaited'.step tame' plain (.inl activation)
      rw [Step.solo_cons_of_none activation]
      refine ih later (tame.step plain) (alike.step tame plain) ?_ awaiting awaiting'
        (silent.trans (same.trans silent'.symm))
      rw [length]
      exact number
    | some self =>
      cases n with
      | zero =>
        have first' : t.handlers.length = 0 := Nat.le_zero.1 awaited'.absent
        rw [Step.solo_zero_cons activation, run_cons, run_cons]
        have moved := alike.step tame plain
        obtain ⟨label, placement, rfl⟩ := Step.eq_activate activation
        obtain ⟨serves, made⟩ := awaited.serves tame number.symm label self placement
        obtain ⟨serves', made'⟩ := awaited'.serves tame' first' label self placement
        rw [← same, ← made] at made'
        exact calls_run_of_serves later (tame.step plain) moved serves serves' made'.symm
      | succ n =>
        rw [activation] at length
        have other : s.handlers.length ≠ k := by omega
        obtain ⟨awaiting, silent⟩ := awaited.step tame plain (.inr other)
        rw [Step.solo_succ_cons activation]
        refine ih later (tame.step plain) ((Alike.of_activation tame activation).symm.trans alike)
          ?_ awaiting awaited' (silent.trans same)
        rw [length, Option.toList_some, List.length_singleton]
        omega

/-- The leader is not moved from its place. -/
def Steady (leader : Option Member) (steps : List Step) : Prop :=
  ∀ l, .disturb (.appoint l) ∈ steps → l = leader

theorem leadership_step {leader : Option Member} {step : Step} (plain : step.IsPlain)
    (tame : s.Tame) (steady : ∀ l, step = .disturb (.appoint l) → l = leader)
    (leads : s.leadership = .appointed leader) :
    (s.step step).1.leadership = .appointed leader := by
  cases step with
  | disturb d =>
    cases d with
    | update u => exact (Alike.of_update s u).leadership.trans leads
    | appoint l =>
      obtain rfl := steady l rfl
      exact congrArg (·.appoint l) leads
    | refuse device reason | accept device => exact leads
  | activate label self placement => exact (Alike.of_activation tame rfl).leadership.trans leads
  | drain => exact (Alike.turns tame (drain_acts s)).leadership.trans leads
  | _ => exact plain.elim

/-- A handler that is not the leader's asks who leads, and that is all. -/
theorem not_isWork_of_taskCalls {leader : Option Member} (leads : s.leadership = .appointed leader)
    (other : leader ≠ some g.self) {task : Task} {c : Call} (made : c ∈ s.taskCalls p g task) :
    ¬c.IsWork := by
  have follows : g.isLeader s.leadership = false := by
    rw [leads]
    simpa [Gate.isLeader, Leadership.leader] using other
  rw [taskCalls, follows, if_neg Bool.false_ne_true, List.mem_singleton] at made
  rw [made]
  exact id

theorem not_isWork_of_callsDuring {leader : Option Member}
    (leads : s.leadership = .appointed leader) (other : leader ≠ some g.self) {step : Step}
    {c : Call} (made : c ∈ s.callsDuring p g q step) : ¬c.IsWork := by
  cases step with
  | drain =>
    obtain ⟨task, -, call⟩ := List.mem_flatMap.1 made
    exact not_isWork_of_taskCalls leads other call
  | _ => cases made

/-- A handler that is not the leader's stays without work. -/
theorem idle_run_of_serves {leader : Option Member} {steps : List Step}
    (plain : ∀ step ∈ steps, step.IsPlain) (steady : Steady leader steps) (tame : s.Tame)
    (leads : s.leadership = .appointed leader) (serves : Serves k g p q s)
    (other : leader ≠ some g.self) (idle : ∀ c ∈ calls k s.journal, ¬c.IsWork) :
    ∀ c ∈ calls k (s.run steps).journal, ¬c.IsWork := by
  induction steps generalizing s q with
  | nil => exact idle
  | cons step rest ih =>
    obtain ⟨plain, later⟩ := List.forall_mem_cons.1 plain
    obtain ⟨serving, made⟩ := serves.step tame plain
    refine ih later (fun l member => steady l (List.mem_cons_of_mem _ member)) (tame.step plain)
      (leadership_step plain tame (fun l same => steady l (same ▸ List.mem_cons_self)) leads)
      serving ?_
    rw [made]
    exact List.forall_mem_append.2
      ⟨idle, fun _ call => not_isWork_of_callsDuring leads other call⟩

theorem idle_run_of_awaited {leader : Option Member} {n : Nat} {steps : List Step}
    (plain : ∀ step ∈ steps, step.IsPlain) (steady : Steady leader steps) (tame : s.Tame)
    (leads : s.leadership = .appointed leader) (number : k = s.handlers.length + n)
    (awaited : Awaited k s) (silent : calls k s.journal = [])
    (other : ∀ self, (steps.filterMap Step.member?)[n]? = some self → leader ≠ some self) :
    ∀ c ∈ calls k (s.run steps).journal, ¬c.IsWork := by
  induction steps generalizing s n with
  | nil =>
    rw [run_nil, silent]
    exact List.forall_mem_nil _
  | cons step rest ih =>
    obtain ⟨plain, later⟩ := List.forall_mem_cons.1 plain
    have steady' : Steady leader rest := fun l member => steady l (List.mem_cons_of_mem _ member)
    have leads' := leadership_step plain tame
      (fun l same => steady l (same ▸ List.mem_cons_self)) leads
    have length := length_handlers_of_isPlain s plain
    cases activation : step.member? with
    | none =>
      rw [List.filterMap_cons_none activation] at other
      rw [activation] at length
      obtain ⟨awaiting, quiet⟩ := awaited.step tame plain (.inl activation)
      refine ih later steady' (tame.step plain) leads' ?_ awaiting (quiet.trans silent) other
      rw [length]
      exact number
    | some self =>
      rw [List.filterMap_cons_some activation] at other
      cases n with
      | zero =>
        obtain ⟨label, placement, rfl⟩ := Step.eq_activate activation
        obtain ⟨serves, made⟩ := awaited.serves tame number.symm label self placement
        rw [silent, List.nil_append] at made
        rw [run_cons]
        refine idle_run_of_serves later steady' (tame.step plain) leads' serves (other self rfl)
          fun c call => ?_
        obtain rfl := List.mem_singleton.1 (made ▸ call)
        exact id
      | succ n =>
        rw [activation] at length
        have stranger : s.handlers.length ≠ k := by omega
        obtain ⟨awaiting, quiet⟩ := awaited.step tame plain (.inr stranger)
        refine ih later steady' (tame.step plain) leads' ?_ awaiting (quiet.trans silent) other
        rw [length, Option.toList_some, List.length_singleton]
        omega

theorem accepted_of_idle {journal : List Entry} (idle : ∀ c ∈ calls k journal, ¬c.IsWork) :
    accepted k journal = [] := by
  refine List.filterMap_eq_nil_iff.2 fun c member => ?_
  cases c with
  | accepted r => exact (idle _ member trivial).elim
  | _ => rfl

/-- Handlers do not interfere. A run is made of activations, of changes to the inventory, to the
leader and to what is refused, and of drains. Whatever other handlers there are, a handler makes the
calls that it makes in the run in which no other is activated.

If moreover the leader is not moved, a handler that is not the leader's has no work to do: it
neither reads for rules nor submits any. So where every member has one handler, the requests that
the installer accepts are those of a run with the leader's handler alone. -/
theorem handlers_do_not_interfere (leader : Option Member) (fixedPort : Option Port)
    (customPorts : Option (Inventory → Network → Node → Except RuleError Port))
    (keepsListeners logsRequests : Bool) (steps : List Step)
    (plain : ∀ step ∈ steps, step.IsPlain) :
    let s : Controller :=
      { start (.appointed leader) fixedPort keepsListeners logsRequests with customPorts }
    let members := steps.filterMap Step.member?
    (∀ k, calls k (s.run steps).journal = calls 0 (s.run (Step.solo k steps)).journal) ∧
    ((∀ l, .disturb (.appoint l) ∈ steps → l = leader) →
      (∀ k, (∀ self, members[k]? = some self → leader ≠ some self) →
        ∀ c ∈ calls k (s.run steps).journal, ¬c.IsWork) ∧
      ∀ k self, members.Nodup → members[k]? = some self → leader = some self →
        installed (s.run steps).journal =
          accepted 0 (s.run (Step.solo k steps)).journal) := by
  intro s members
  have tame : s.Tame := ⟨rfl, rfl, leader, rfl⟩
  have awaited (k : Nat) : Awaited k s := by
    refine ⟨Nat.zero_le k, fun e => ?_⟩
    cases e <;> rfl
  have number (k : Nat) : k = s.handlers.length + k := (Nat.zero_add k).symm
  have alone (k : Nat) :
      calls k (s.run steps).journal = calls 0 (s.run (Step.solo k steps)).journal :=
    calls_run_of_awaited plain tame (.refl s) (number k) (awaited k) (awaited 0) rfl
  refine ⟨alone, fun steady => ?_⟩
  have idle (k : Nat) (other : ∀ self, members[k]? = some self → leader ≠ some self) :
      ∀ c ∈ calls k (s.run steps).journal, ¬c.IsWork :=
    idle_run_of_awaited plain steady tame rfl (number k) (awaited k) rfl other
  refine ⟨idle, fun k self distinct mine leads => ?_⟩
  have sole : ∀ j ≠ k, accepted j (s.run steps).journal = [] := by
    intro j stranger
    refine accepted_of_idle (idle j fun self' found => ?_)
    rintro same
    obtain rfl : self = self' := Option.some.inj (leads.symm.trans same)
    have inside := (List.getElem?_eq_some_iff.1 found).1
    exact stranger ((List.getElem?_inj inside distinct).1 (found.trans mine.symm))
  rw [installed_of_sole sole, accepted, alone k]
  rfl

/-- The leader's handler installs the rule, and another one, activated before it, does not. -/
theorem handlers_do_not_interfere_two :
    let n : Network := ⟨"host", "blue", .vxlan, default, none⟩
    let x : Node := ⟨"host", ⟨"br"⟩, default, default, .complete, .none⟩
    let first : Step := .activate "one" ⟨"b"⟩ .default
    let second : Step := .activate "two" ⟨"a"⟩ .default
    let later : List Step := [.disturb (.update (.upsertNode x)),
      .disturb (.update (.upsertNetwork n)), .drain]
    let s := start (.appointed (some ⟨"a"⟩)) none false false
    (∀ step ∈ first :: second :: later, step.IsPlain) ∧
      calls 0 (s.run (first :: second :: later)).journal =
        calls 0 (s.run (first :: later)).journal ∧
      installed (s.run (first :: second :: later)).journal =
        accepted 0 (s.run (second :: later)).journal ∧
      (accepted 0 (s.run (second :: later)).journal).length = 2 := by
  intro n x first second later s
  have plain : ∀ step ∈ first :: second :: later, step.IsPlain := by
    simp [first, second, later, Step.IsPlain]
  obtain ⟨alone, led⟩ := handlers_do_not_interfere (some ⟨"a"⟩) none none false false
    (first :: second :: later) plain
  have steady : ∀ l, Step.disturb (.appoint l) ∈ first :: second :: later → l = some ⟨"a"⟩ := by
    simp [first, second, later]
  exact ⟨plain, alone 0, (led steady).2 1 ⟨"a"⟩ (by decide) rfl rfl, by decide⟩

end Controller
end GatewayRules
