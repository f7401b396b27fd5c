import GatewayRules.Proofs.Queue

/-!
From an event to the worker: every handler hears events in the order in which they are raised, and
its worker takes up their tasks in that order, each of them once.
-/
namespace GatewayRules
open Journal

namespace Controller

/-- A handler has at most one listener of each kind, and has heard events in order. -/
structure Attentive (k : Nat) (s : Controller) : Prop where
  once : ∀ e, (s.registry.audience e).count (.handler k) ≤ 1
  ordered : (delivered (.handler k) s.journal).Sublist (raised s.journal)

namespace Attentive

variable {k : Nat} {s t : Controller}

/-- What adds no listener and tells the handler nothing keeps the order. -/
theorem quiet (att : Attentive k s)
    (registry : ∀ e, (t.registry.audience e).Sublist (s.registry.audience e))
    (entries : List Entry) (journal : t.journal = s.journal ++ entries)
    (silent : ∀ e ∈ entries, e.deliveredTo? (.handler k) = none) : Attentive k t where
  once e := (registry e).count_le _ |>.trans (att.once e)
  ordered := by
    have unheard : delivered (.handler k) entries = [] := List.filterMap_eq_nil_iff.2 silent
    rw [journal, delivered_append, raised_append, unheard, List.append_nil]
    exact att.ordered.trans (List.sublist_append_left _ _)

theorem same (att : Attentive k s) (registry : t.registry = s.registry)
    (journal : t.journal = s.journal) : Attentive k t where
  once := by rw [registry]; exact att.once
  ordered := by rw [journal]; exact att.ordered

theorem note (att : Attentive k s) {e : Entry} (silent : e.deliveredTo? (.handler k) = none) :
    Attentive k (s.note e) :=
  att.quiet (fun _ => .refl _) [e] rfl fun _ member => List.mem_singleton.1 member ▸ silent

theorem logSome (att : Attentive k s) (n : Option Notice) : Attentive k (s.logSome n) := by
  cases n with
  | none => exact att
  | some n => exact att.note rfl

/-- An update tells the handler of the event that it raises, once at most. -/
theorem update (att : Attentive k s) (u : Update) : Attentive k (s.update u) := by
  obtain ⟨schedule, entries, same, news, heard⟩ := update_spec s u
  rw [same]
  refine ⟨att.once, ?_⟩
  let change : Entry := .updated u (s.inventory.event? u)
  have untold : delivered (.handler k) (change :: entries) = delivered (.handler k) entries := rfl
  have one : (delivered (.handler k) entries).Sublist (raised (change :: entries)) := by
    rw [heard]
    cases event : s.inventory.event? u with
    | none => exact List.nil_sublist _
    | some e =>
      have raises : raised (change :: entries) = e :: raised entries := by
        simp [raised, change, Entry.raised?, event]
      rw [raises]
      exact (List.replicate_sublist_replicate e).2 (att.once e) |>.trans
        (List.singleton_sublist.2 List.mem_cons_self)
  change (delivered (.handler k) (s.journal ++ change :: entries)).Sublist
    (raised (s.journal ++ change :: entries))
  rw [delivered_append, raised_append, untold]
  exact att.ordered.append one

theorem lead (att : Attentive k s) (leadership : Leadership) :
    Attentive k { s with leadership } := att.same rfl rfl

theorem disturb (att : Attentive k s) (d : Disturbance) : Attentive k (s.disturb d) := by
  cases d with
  | update u => exact att.update u
  | appoint leader => exact att.lead _
  | refuse device reason | accept device => exact att.same rfl rfl

theorem working (att : Attentive k s) {h : Nat} {allowed : Call → Prop}
    (w : Working h allowed s t) : Attentive k t := by
  refine w.keeps (fun t n _ att => att.note rfl) (fun t c crashes _ att => ?_)
    (fun t hooks att => ?_) (fun t d att => att.disturb d) att
  · exact (att.note (e := .call h c) rfl).same rfl rfl
  · exact att.same rfl rfl

theorem work (att : Attentive k s) (h : Nat) : Attentive k (s.work h) := by
  rcases work_cases s h with same | ended | ⟨a, task, rest, -, -, w⟩
  · rwa [same]
  · rw [ended]
    exact (att.note (e := .log .queueDrained) rfl).same rfl rfl
  · have taken : Attentive k (s.take h task rest) :=
      (att.note (e := .taken h task) rfl).same rfl rfl
    exact taken.working w

theorem enroll (att : Attentive k s) (acc : Accounted k s) (label : String) (self : Member)
    (p : Placement) : Attentive k (s.enroll label self p) := by
  refine ⟨fun e => ?_, att.ordered⟩
  rw [audience_enroll, List.count_append]
  by_cases new : k = s.handlers.length
  · subst k
    have unheard : (s.registry.audience e).count (.handler s.handlers.length) = 0 := by
      refine List.count_eq_zero.2 fun heard => ?_
      obtain ⟨a, present⟩ := acc.known e heard
      simp at present
    rw [unheard]
    simp
  · have other : [Listener.handler s.handlers.length].count (.handler k) = 0 := by
      simpa [List.count_eq_zero] using new
    rw [other]
    exact att.once e

theorem act (att : Attentive k s) (acc : Accounted k s) (act : Act) : Attentive k (s.act act) := by
  cases act with
  | log n => exact att.note rfl
  | disturb d => exact att.disturb d
  | arrange schedule | armCrash crash | armHook hook | loseWorkers => exact att.same rfl rfl
  | listen kind label =>
    refine ⟨fun e => ?_, att.ordered⟩
    have once := att.once e
    cases kind <;> cases e <;>
      simpa [Controller.act, Registry.add, Registry.audience, List.count_append] using once
  | unlisten kind id =>
    exact ⟨fun e => ((Registry.audience_remove _ id kind e).count_le _).trans (att.once e),
      att.ordered⟩
  | enroll label self p => exact att.enroll acc label self p
  | stand h g => exact ((att.lead _).note (e := .call h (.run g.topic)) rfl).logSome _
  | withdraw h g => exact ((att.lead _).note (e := .call h (.withdraw g.topic)) rfl).logSome _
  | close h =>
    unfold Controller.act
    dsimp only
    split
    · exact att
    · next a _ =>
      exact att.quiet (audience_closeIntake s h a) [.closed h] rfl
        fun e member => List.mem_singleton.1 member ▸ rfl
  | work h => exact att.work h
  | reconcile h n action =>
    simp only [Controller.act, Controller.reconcile]
    split
    · exact att
    · exact att.working (pass_working s h _ n action)

end Attentive

variable (leadership : Leadership) (fixedPort : Option Port) (keepsListeners logsRequests : Bool)

theorem accounted_start (k : Nat) :
    Accounted k (start leadership fixedPort keepsListeners logsRequests) where
  balance := rfl
  timely earlier before := by
    obtain rfl := List.prefix_nil.1 before
    exact List.prefix_refl _
  closed_iff := by simp [start, initial]
  staffed := by simp [start, initial]
  known e := by cases e <;> exact fun heard => absurd heard List.not_mem_nil

theorem attentive_start (k : Nat) :
    Attentive k (start leadership fixedPort keepsListeners logsRequests) where
  once e := by cases e <;> exact Nat.zero_le 1
  ordered := .slnil

/-- As long as no worker is lost, the books of every handler are in order at every moment. -/
theorem run_accounted (steps : List Step) (alive : .loseWorkers ∉ steps) (k : Nat) :
    let s := (start leadership fixedPort keepsListeners logsRequests).run steps
    Accounted k s ∧ Attentive k s := by
  have keep (s : Controller) (act : Act) (ok : act ≠ .loseWorkers)
      (kept : Accounted k s ∧ Attentive k s) : Accounted k (s.act act) ∧ Attentive k (s.act act) :=
    ⟨kept.1.act ok, kept.2.act kept.1 act⟩
  refine (run_acts _ steps fun step member act ok => ?_).keeps keep
    ⟨accounted_start leadership fixedPort keepsListeners logsRequests k,
      attentive_start leadership fixedPort keepsListeners logsRequests k⟩
  rintro rfl
  exact alive (Step.of_allows_loseWorkers ok ▸ member)

theorem intake_sublist_delivered (k : Nat) (journal : List Entry) :
    (intake k journal).Sublist (delivered (.handler k) journal) :=
  (List.takeWhile_prefix _).sublist.filterMap _

/-- The pipeline neither loses nor repeats nor reorders work. Whatever happens in a run without the
loss of workers, what the worker of a handler has taken up and what still waits on its queue are
together the tasks of the events that its listeners were given before it was closed, and these
events come in the order in which they were raised. In the middle of a step, too, the worker has
taken up nothing but the first of these tasks. -/
theorem tasks_of_events (steps : List Step) (alive : .loseWorkers ∉ steps) (k : Nat) :
    let s := (start leadership fixedPort keepsListeners logsRequests).run steps
    let task : Event → Option Task := fun
      | .network .created n => some (.install n)
      | .network .updated n => some (.install n)
      | .network .removed n => some (.uninstall n)
      | .node .complete x => some (.backfill x)
      | .node .incomplete _ => none
    (∀ a, s.handlers[k]? = some a →
      taken k s.journal ++ a.queue = (intake k s.journal).filterMap task) ∧
    (intake k s.journal).Sublist (raised s.journal) ∧
    ∀ earlier, earlier <+: s.journal → taken k earlier <+: (intake k earlier).filterMap task := by
  intro s task
  obtain ⟨acc, att⟩ := run_accounted leadership fixedPort keepsListeners logsRequests steps alive k
  have table : task = Event.task? := by
    funext e
    rcases e with ⟨_ | _ | _, n⟩ | ⟨_ | _, x⟩ <;> rfl
  refine ⟨fun a present => ?_, (intake_sublist_delivered k _).trans att.ordered, ?_⟩
  · rw [table, ← queueOf_of_present present]
    exact acc.balance
  · rw [table]
    exact acc.timely

/-- A node that turns up inside the installer call for a network is backfilled after it. -/
theorem tasks_of_events_reentrant :
    let n : Network := ⟨"host", "blue", .vxlan, default, none⟩
    let x : Node := ⟨"host", ⟨"br"⟩, default, default, .complete, .none⟩
    let y : Node := ⟨"other", ⟨"br"⟩, default, default, .complete, .none⟩
    let steps : List Step := [.disturb (.update (.upsertNode x)), .activate "one" ⟨"a"⟩ .default,
      .armHook ⟨0, [.update (.upsertNode y)]⟩, .disturb (.update (.upsertNetwork n)), .work 0]
    let s := (start (.appointed (some ⟨"a"⟩)) none false false).run steps
    .loseWorkers ∉ steps ∧ intake 0 s.journal = [.network .created n, .node .complete y] ∧
      ∀ a, s.handlers[0]? = some a →
        [.install n] ++ a.queue = [.install n, .backfill y] := by
  intro n x y steps s
  have alive : .loseWorkers ∉ steps := by decide
  have heard : intake 0 s.journal = [.network .created n, .node .complete y] := by decide
  have worked : taken 0 s.journal = [.install n] := by decide
  obtain ⟨balance, -, -⟩ :=
    tasks_of_events (.appointed (some ⟨"a"⟩)) none false false steps alive 0
  refine ⟨alive, heard, fun a present => ?_⟩
  rw [← worked, balance a present, heard]
  rfl

end Controller
end GatewayRules
