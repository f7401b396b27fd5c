import GatewayRules.Proofs.Exhaustion
import GatewayRules.Proofs.Gating
import GatewayRules.Proofs.Pipeline
import Mathlib.Data.List.Induction

/-!
Shutdown. A handler that is deactivated works off its queue while it is a candidate, then withdraws,
and does nothing ever after.
-/
namespace GatewayRules
open Journal

/-- A record of tasks taken up one after the other, each with a question who leads of its own and no
work but for the answer that the handler itself leads. -/
inductive Attended (g : Gate) : List Task → List (Task ⊕ Call) → Prop where
  | nil : Attended g [] []
  | concat {tasks : List Task} {record : List (Task ⊕ Call)} (t : Task) (current : Option Member)
    (body : List Call) :
    Attended g tasks record → (∀ c ∈ body, c.IsWork) → (current ≠ some g.self → body = []) →
      Attended g (tasks ++ [t])
        (record ++ .inl t :: .inr (.leader g.topic current) :: body.map .inr)

/-- The life of the handler is over. -/
structure Handler.Retired (a : Handler) : Prop where
  closed : a.isOpen = false
  ended : a.worker = .ended
  idle : a.queue = []

theorem Event.getElem?_hand_of_closed {handlers : List Handler} {k : Nat} {a : Handler}
    (present : handlers[k]? = some a) (closed : a.isOpen = false) (e : Event) (l : Listener) :
    (e.hand handlers l)[k]? = some a := by
  by_cases mine : l = .handler k
  · subst l
    cases task : e.task? with
    | none => rw [hand_of_none task, present]
    | some t =>
      rw [getElem?_hand_self task, present, Option.map_some, Handler.receive_of_closed closed]
  · rw [getElem?_hand_of_ne mine, present]

theorem Event.getElem?_foldl_hand_of_closed {k : Nat} {a : Handler} (closed : a.isOpen = false)
    (e : Event) (listeners : List Listener) {handlers : List Handler}
    (present : handlers[k]? = some a) : (listeners.foldl e.hand handlers)[k]? = some a := by
  induction listeners generalizing handlers with
  | nil => exact present
  | cons l rest ih => exact ih (e.getElem?_hand_of_closed present closed l)

theorem Acts.journal_prefix {allowed : Act → Prop} {s t : Controller} (acts : Acts allowed s t) :
    s.journal <+: t.journal := by
  have keep (t : Controller) (act : Act) (_ : allowed act) (grown : s.journal <+: t.journal) :
      s.journal <+: (t.act act).journal := by
    obtain ⟨entries, records⟩ := Controller.act_records t act 0
    exact grown.trans ⟨entries, records.journal.symm⟩
  exact acts.keeps keep List.prefix_rfl

namespace Controller

variable {k : Nat} {s t : Controller} {a : Handler}

theorem getElem?_disturb_of_closed (present : s.handlers[k]? = some a) (closed : a.isOpen = false)
    (d : Disturbance) : (s.disturb d).handlers[k]? = some a := by
  cases d with
  | appoint leader | refuse device reason | accept device => exact present
  | update u =>
    obtain ⟨schedule, entries, same, -, -⟩ := update_spec s u
    rw [disturb, same]
    change (s.afterUpdate u)[k]? = some a
    unfold afterUpdate
    split
    · exact Event.getElem?_foldl_hand_of_closed closed _ _ present
    · exact present

/-- A handler that is closed is changed by nothing but the taking up of its own tasks. -/
theorem getElem?_working_of_closed {h : Nat} {allowed : Call → Prop} (w : Working h allowed s t)
    (present : s.handlers[k]? = some a) (closed : a.isOpen = false) :
    t.handlers[k]? = some a :=
  w.keeps (fun _ _ _ => id) (fun _ _ _ _ => id) (fun _ _ => id)
    (fun _ d present => getElem?_disturb_of_closed present closed d) present

theorem getElem?_work_of_ne {h : Nat} (other : h ≠ k) (present : s.handlers[k]? = some a)
    (closed : a.isOpen = false) : (s.work h).handlers[k]? = some a := by
  have untouched (f : Handler → Handler) : (s.handlers.modify h f)[k]? = some a := by
    simp [other, present]
  rcases work_cases s h with same | ended | ⟨b, task, rest, -, -, w⟩
  · rwa [same]
  · rw [ended]
    exact untouched _
  · exact getElem?_working_of_closed w (untouched _) closed

theorem work_of_retired (present : s.handlers[k]? = some a) (retired : a.Retired) :
    s.work k = s := by
  simp [work, present, retired.idle, endWork, retired.ended]

/-- A handler that has retired stays as it is. -/
theorem getElem?_act_of_retired (present : s.handlers[k]? = some a) (retired : a.Retired)
    (act : Act) : (s.act act).handlers[k]? = some a := by
  cases act with
  | log n | arrange schedule | armCrash crash | armHook hook | listen kind label
  | unlisten kind id => exact present
  | disturb d => exact getElem?_disturb_of_closed present retired.closed d
  | enroll label self p =>
    exact (List.getElem?_append_left (List.getElem?_eq_some_iff.1 present).1).trans present
  | stand h g =>
    simp only [Controller.act, stand]
    cases (g.activate s.leadership).2 <;> exact present
  | withdraw h g =>
    simp only [Controller.act, withdraw]
    cases (g.deactivate s.leadership).2 <;> exact present
  | close h =>
    simp only [Controller.act]
    split
    · exact present
    · change (s.handlers.modify h _)[k]? = some a
      by_cases mine : h = k
      · subst h
        rw [List.getElem?_modify_eq, present, ← retired.closed]
        rfl
      · simp [mine, present]
  | work h =>
    by_cases mine : h = k
    · subst h
      rw [Controller.act, work_of_retired present retired]
      exact present
    · exact getElem?_work_of_ne mine present retired.closed
  | loseWorkers =>
    change (s.handlers.map _)[k]? = some a
    rw [List.getElem?_map, present, Option.map_some, if_neg (by simp [retired.ended])]
  | reconcile h n action =>
    simp only [Controller.act, reconcile]
    split
    · exact present
    · exact getElem?_working_of_closed (pass_working s h _ n action) present retired.closed

theorem doings_act_of_ne {act : Act} (other : act.actor? ≠ some k) :
    doings k (s.act act).journal = doings k s.journal := by
  obtain ⟨entries, records⟩ := act_records s act k
  rw [records.journal, doings_append, records.own other, List.append_nil]

/-- A handler that has retired does nothing in any step, unless it is given a pass. -/
theorem step_of_retired (present : s.handlers[k]? = some a) (retired : a.Retired) {step : Step}
    (released : ∀ n action, step ≠ .reconcile k n action) :
    (s.step step).1.handlers[k]? = some a ∧
    doings k (s.step step).1.journal = doings k s.journal := by
  have keep (t : Controller) (act : Act) (ok : act.actor? ≠ some k ∨ act = .work k)
      (still : t.handlers[k]? = some a ∧ doings k t.journal = doings k s.journal) :
      (t.act act).handlers[k]? = some a ∧ doings k (t.act act).journal = doings k s.journal := by
    refine ⟨getElem?_act_of_retired still.1 retired act, ?_⟩
    rcases ok with other | rfl
    · rw [doings_act_of_ne other, still.2]
    · rw [Controller.act, work_of_retired still.1 retired, still.2]
  by_cases begins : ∃ label self p, step = .activate label self p
  · obtain ⟨label, self, p, rfl⟩ := begins
    -- The new handler runs for leadership, but its number is another.
    have later : s.handlers.length ≠ k := by
      have bound := (List.getElem?_eq_some_iff.1 present).1
      omega
    have enrolled : Acts (fun act => act.actor? ≠ some k ∨ act = .work k) s
        (s.act (.enroll label self p)) := .single _ (.inl (by simp [Act.actor?]))
    have stood := enrolled.tail (.stand s.handlers.length ⟨self, p.app⟩)
      (.inl (by simpa [Act.actor?] using later))
    have begun := stood.tail (.log .started) (.inl (by simp [Act.actor?]))
    exact begun.keeps keep ⟨present, rfl⟩
  by_cases again : step = .deactivate k
  · -- Who is closed does not withdraw again.
    have same : s.deactivate k = s := by simp [deactivate, present, retired.closed]
    rw [again, Controller.step, same]
    exact ⟨present, rfl⟩
  have foreign (act : Act) (ok : step.Allows act) : act.actor? ≠ some k ∨ act = .work k := by
    refine or_iff_not_imp_left.2 fun mine => ?_
    cases act <;> simp only [Act.actor?, not_not, Option.some.injEq, reduceCtorEq] at mine
    case work h => rw [mine]
    case stand h g => exact absurd (Step.of_allows_stand ok) begins
    case withdraw h g => exact absurd (mine ▸ Step.of_allows_withdraw ok) again
    case reconcile h n action =>
      exact absurd (mine ▸ Step.of_allows_reconcile ok) (released n action)
  exact ((step_acts s step).mono foreign).keeps keep ⟨present, rfl⟩

theorem run_of_retired (present : s.handlers[k]? = some a) (retired : a.Retired)
    (steps : List Step) (released : ∀ n action, .reconcile k n action ∉ steps) :
    (s.run steps).handlers[k]? = some a ∧
    doings k (s.run steps).journal = doings k s.journal := by
  induction steps generalizing s with
  | nil => exact ⟨present, rfl⟩
  | cons step rest ih =>
    have foreign (n : Network) (action : Action) : step ≠ .reconcile k n action :=
      fun this => released n action (this ▸ List.mem_cons_self)
    obtain ⟨present', same⟩ := step_of_retired present retired foreign
    obtain ⟨still, same'⟩ := ih present'
      fun n action member => released n action (List.mem_cons_of_mem _ member)
    exact ⟨still, same'.trans same⟩

/-- How far the worker of a closed handler has come with the tasks on its queue. -/
structure Draining (k : Nat) (a : Handler) (before : List (Task ⊕ Call)) (s : Controller)
    (done : List Task) (worked : List (Task ⊕ Call)) (b : Handler) : Prop where
  present : s.handlers[k]? = some b
  gate : b.gate = a.gate
  closed : b.isOpen = false
  worker : b.worker = .running ∨ b.worker = .ended ∧ b.queue = []
  queue : a.queue = done ++ b.queue
  record : doings k s.journal = before ++ worked
  attended : Attended a.gate done worked

namespace Draining

variable {before worked : List (Task ⊕ Call)} {done : List Task} {b : Handler}

/-- The worker takes up one task more, or ends. -/
theorem work (drains : Draining k a before s done worked b) :
    ∃ done worked b, Draining k a before (s.work k) done worked b := by
  rcases work_turn s k with same | ⟨c, present, queue, -, -, ends⟩ |
    ⟨c, t, rest, present, queue, w⟩
  · exact ⟨done, worked, b, by rwa [same]⟩
  · obtain rfl := Option.some.inj (drains.present.symm.trans present)
    have quiet : doings k (s.journal ++ [.log .queueDrained]) = doings k s.journal := by
      rw [doings_append]
      exact List.append_nil _
    rw [ends]
    exact ⟨done, worked, { b with worker := .ended }, { drains with
      present := by simp [modifyHandler, Controller.log, Controller.note, present]
      worker := .inr ⟨rfl, queue⟩
      record := quiet.trans drains.record }⟩
  · obtain rfl := Option.some.inj (drains.present.symm.trans present)
    obtain ⟨entries, body, journal, mine, works, dropped, -, -⟩ := work_doings present queue
    have taken : (s.take k t rest).handlers[k]? = some { b with queue := rest } := by
      simp [Controller.take, modifyHandler, Controller.note, present]
    have running : b.worker = .running :=
      drains.worker.resolve_right fun ended => by simp [queue] at ended
    refine ⟨done ++ [t], worked ++ doings k entries, { b with queue := rest },
      getElem?_working_of_closed w taken drains.closed, drains.gate, drains.closed,
      .inl running, ?_, ?_, ?_⟩
    · rw [drains.queue, queue, List.append_assoc]
      rfl
    · rw [journal, doings_append, drains.record, List.append_assoc]
    · rw [mine, drains.gate]
      exact .concat t _ body drains.attended works fun other =>
        dropped (.inl (by rwa [drains.gate]))

theorem turn (drains : Draining k a before s done worked b) {act : Act} (turn : act.IsTurn) :
    ∃ done worked b, Draining k a before (s.act act) done worked b := by
  rcases turn with ⟨h, rfl⟩ | ⟨schedule, rfl⟩
  · by_cases mine : h = k
    · exact mine ▸ drains.work
    · refine ⟨done, worked, b, { drains with
        present := getElem?_work_of_ne mine drains.present drains.closed
        record := ?_ }⟩
      rw [doings_act_of_ne (by simpa [Act.actor?] using mine)]
      exact drains.record
  · exact ⟨done, worked, b, { drains with }⟩

end Draining

/-- A handler is deactivated in turns of workers, in which its own worker works off the queue and
ends, and then its candidacy is withdrawn. -/
theorem deactivate_drains (present : s.handlers[k]? = some a) (isOpen : a.isOpen = true)
    (running : a.worker = .running) : ∃ v worked b,
    Acts Act.IsTurn (s.closeIntake k a) v ∧
    s.deactivate k = (v.withdraw k a.gate).log .stopped ∧
    Draining k a (doings k s.journal) v a.queue worked b ∧ b.Retired := by
  let v := (s.closeIntake k a).awaitEnd k a
  have turns : Acts Act.IsTurn (s.closeIntake k a) v := by
    have waits : Acts _ (s.closeIntake k a) v := awaitEnd_acts _ k a
    refine waits.mono fun act ok => ok.resolve_right fun lost => ?_
    simp [running] at lost
  have begins : Draining k a (doings k s.journal) (s.closeIntake k a) [] []
      { a with isOpen := false } := by
    refine ⟨by simp [closeIntake, modifyHandler, note, present], rfl, rfl, .inl running, rfl, ?_,
      .nil⟩
    have closing : doings k [.closed k] = [] := rfl
    change doings k (s.journal ++ [.closed k]) = _
    rw [doings_append, closing]
  have keep (t : Controller) (act : Act) (turn : act.IsTurn)
      (drains : ∃ done worked b, Draining k a (doings k s.journal) t done worked b) :
      ∃ done worked b, Draining k a (doings k s.journal) (t.act act) done worked b := by
    obtain ⟨done, worked, b, drains⟩ := drains
    exact drains.turn turn
  obtain ⟨done, worked, b, drains⟩ := turns.keeps keep ⟨_, _, _, begins⟩
  have idle : v.isReady k = false := by
    have drained : v = { s.closeIntake k a with
        schedule := (s.closeIntake k a).schedule.rouse k }.drain := by
      simp only [v, awaitEnd, running]
    rw [drained]
    exact isReady_drain _ k
  have ended : b.worker = .ended ∧ b.queue = [] := by
    refine drains.worker.resolve_left fun running => ?_
    simp [isReady, drains.present, running, drains.closed] at idle
  have all : done = a.queue := by rw [drains.queue, ended.2, List.append_nil]
  refine ⟨v, worked, b, turns, ?_, all ▸ drains, ⟨drains.closed, ended.1, ended.2⟩⟩
  simp [deactivate, present, isOpen, v]

/-- Every handler has run for leadership, and none has withdrawn that is still open. -/
structure Candidate (k : Nat) (s : Controller) : Prop where
  ran : ∀ post, s.posts[k]? = some post → .inr (.run post.1.topic) ∈ doings k s.journal
  standing : ∀ topic, .inr (.withdraw topic) ∈ doings k s.journal → .closed k ∈ s.journal

namespace Candidate

theorem act (cand : Candidate k s) (act : Act) (filled : act.post? = none)
    (stays : (∃ g, act = .withdraw k g) → .closed k ∈ s.journal) : Candidate k (s.act act) := by
  obtain ⟨entries, records⟩ := act_records s act k
  refine ⟨fun post found => ?_, fun topic withdrawn => ?_⟩
  · rw [records.posts, filled, Option.toList_none, List.append_nil] at found
    rw [records.journal, doings_append]
    exact List.mem_append_left _ (cand.ran post found)
  · rw [records.journal, doings_append, List.mem_append] at withdrawn
    rw [records.journal]
    refine List.mem_append_left _ ?_
    rcases withdrawn with before | now
    · exact cand.standing topic before
    · exact stays (records.withdrawn topic now)

theorem activate (cand : Candidate k s) (label : String) (self : Member) (p : Placement) :
    Candidate k (s.activate label self p) := by
  let g : Gate := ⟨self, p.app⟩
  let begun := (s.enroll label self p).stand s.handlers.length g
  obtain ⟨entries, records⟩ :=
    act_records (s.enroll label self p) (.stand s.handlers.length g) k
  have posts : begun.posts = s.posts ++ [(g, p)] :=
    records.posts.trans ((List.append_nil _).trans List.map_append)
  have record : doings k begun.journal = doings k s.journal ++
      if s.handlers.length = k then [.inr (.run g.topic)] else [] := by
    rw [← doings_candidacy, ← doings_append]
    exact congrArg (doings k) (journal_stand _ _ g)
  have stood : Candidate k begun := by
    refine ⟨fun post found => ?_, fun topic withdrawn => ?_⟩
    · rw [record, List.mem_append]
      rw [posts] at found
      by_cases old : k < s.posts.length
      · rw [List.getElem?_append_left old] at found
        exact .inl (cand.ran post found)
      · have bound := (List.getElem?_eq_some_iff.1 found).1
        have length : s.posts.length = s.handlers.length := List.length_map ..
        have new : s.handlers.length = k := by simp at bound; omega
        rw [← new, ← length, List.getElem?_concat_length] at found
        obtain rfl := Option.some.inj found
        exact .inr (by simp [new])
    · rw [record, List.mem_append] at withdrawn
      have before := withdrawn.resolve_right fun now => by split at now <;> simp at now
      exact records.journal ▸ List.mem_append_left _ (cand.standing topic before)
  exact stood.act (.log .started) rfl nofun

/-- A handler is closed before it withdraws. -/
theorem deactivate (cand : Candidate k s) (h : Nat) : Candidate k (s.deactivate h) := by
  unfold Controller.deactivate
  split
  · exact cand
  · next a present =>
    split
    · exact cand
    · have closing : s.act (.close h) = s.closeIntake h a := by
        simp only [Controller.act, present]
      have closed : Candidate k (s.act (.close h)) := by
        refine cand.act (.close h) rfl ?_
        rintro ⟨g, ⟨⟩⟩
      have shut : Candidate k (s.closeIntake h a) := closing ▸ closed
      have turns := awaitEnd_acts (s.closeIntake h a) h a
      have keep (t : Controller) (act : Act)
          (ok : act.IsTurn ∨ act = .log .workerLost ∧ a.worker = .lost) (cand : Candidate k t) :
          Candidate k (t.act act) := by
        rcases ok with (⟨j, rfl⟩ | ⟨schedule, rfl⟩) | ⟨rfl, -⟩ <;>
        · refine cand.act _ rfl ?_
          rintro ⟨g, ⟨⟩⟩
      have waited : Candidate k ((s.closeIntake h a).awaitEnd h a) := turns.keeps keep shut
      refine (waited.act (.withdraw h a.gate) rfl ?_).act (.log .stopped) rfl ?_
      · rintro ⟨g, same⟩
        obtain ⟨rfl, -⟩ := Act.withdraw.inj same
        exact turns.journal_prefix.subset (List.mem_append_right _ List.mem_cons_self)
      · rintro ⟨g, ⟨⟩⟩

theorem step (cand : Candidate k s) (step : Step) : Candidate k (s.step step).1 := by
  by_cases begins : ∃ label self p, step = .activate label self p
  · obtain ⟨label, self, p, rfl⟩ := begins
    exact cand.activate label self p
  by_cases ends : ∃ h, step = .deactivate h
  · obtain ⟨h, rfl⟩ := ends
    exact cand.deactivate h
  refine (step_acts s step).keeps (fun t act ok cand => cand.act act ?_ ?_) cand
  · cases act <;> try rfl
    exact absurd ⟨_, _, _, Step.of_allows_enroll ok⟩ begins
  · rintro ⟨g, rfl⟩
    exact absurd ⟨_, Step.of_allows_withdraw ok⟩ ends

theorem run (cand : Candidate k s) (steps : List Step) : Candidate k (s.run steps) := by
  induction steps generalizing s with
  | nil => exact cand
  | cons step rest ih => exact ih (cand.step step)

end Candidate

/-- No worker has been found lost at the end of its handler. -/
def Unlost (s : Controller) : Prop := .log .workerLost ∉ s.journal

namespace Unlost

theorem append (unlost : s.Unlost) {entries : List Entry}
    (journal : t.journal = s.journal ++ entries) (quiet : .log .workerLost ∉ entries) :
    t.Unlost := by
  unfold Unlost
  rw [journal]
  exact fun member => (List.mem_append.1 member).elim unlost quiet

theorem disturb (unlost : s.Unlost) (d : Disturbance) : (s.disturb d).Unlost := by
  cases d with
  | appoint leader | refuse device reason | accept device => exact unlost
  | update u =>
    obtain ⟨schedule, entries, same, news, -⟩ := update_spec s u
    refine unlost.append (congrArg journal same) fun member => ?_
    exact news _ ((List.mem_cons.1 member).resolve_left nofun)

theorem working (unlost : s.Unlost) {h : Nat} {allowed : Call → Prop}
    (w : Working h allowed s t) : t.Unlost := by
  refine w.keeps (fun t n works unlost => ?_) (fun t c crashes _ unlost => ?_) (fun _ _ => id)
    (fun t d unlost => unlost.disturb d) unlost
  · refine unlost.append rfl fun member => ?_
    obtain rfl := Entry.log.inj (List.mem_singleton.1 member)
    exact works
  · have called : .log .workerLost ∉ [Entry.call h c] := by simp
    exact unlost.append rfl called

theorem work (unlost : s.Unlost) (h : Nat) : (s.work h).Unlost := by
  rcases work_cases s h with same | ended | ⟨a, task, rest, -, -, w⟩
  · rwa [same]
  · exact unlost.append (congrArg journal ended) (by simp)
  · exact (unlost.append (t := s.take h task rest) rfl (by simp)).working w

theorem act (unlost : s.Unlost) {act : Act} (other : act ≠ .log .workerLost) :
    (s.act act).Unlost := by
  cases act with
  | log n => exact unlost.append rfl (by simpa using fun same => other (by rw [← same]))
  | disturb d => exact unlost.disturb d
  | arrange schedule | armCrash crash | armHook hook | listen kind label | unlisten kind id
  | enroll label self p | loseWorkers => exact unlost
  | stand h g =>
    refine unlost.append (journal_stand s h g) ?_
    cases (g.activate s.leadership).2 <;> simp
  | withdraw h g =>
    refine unlost.append (journal_withdraw s h g) ?_
    cases (g.deactivate s.leadership).2 <;> simp
  | close h =>
    unfold Controller.act
    dsimp only
    split
    · exact unlost
    · exact unlost.append rfl (by simp)
  | work h => exact unlost.work h
  | reconcile h n action =>
    simp only [Controller.act, reconcile]
    split
    · exact unlost
    · exact unlost.working (pass_working s h _ n action)

theorem step (unlost : s.Unlost)
    (staffed : ∀ (h : Nat) (a : Handler), s.handlers[h]? = some a → a.worker ≠ .lost)
    (step : Step) :
    (s.step step).1.Unlost := by
  by_cases ends : ∃ h, step = .deactivate h
  · obtain ⟨h, rfl⟩ := ends
    refine (deactivate_acts s h).keeps (fun t act ok unlost => unlost.act fun lost => ?_) unlost
    obtain ⟨a, present, gone⟩ := ok.2 lost
    exact staffed h a present gone
  · refine (step_acts s step).keeps (fun t act ok unlost => unlost.act fun lost => ?_) unlost
    exact ends (Step.of_allows_workerLost (lost ▸ ok))

end Unlost

variable (leadership : Leadership) (fixedPort : Option Port) (keepsListeners logsRequests : Bool)

theorem run_candidate (steps : List Step) (k : Nat) :
    Candidate k ((start leadership fixedPort keepsListeners logsRequests).run steps) :=
  Candidate.run ⟨by simp [start, initial, posts], by simp [start, initial, doings]⟩ steps

/-- As long as no worker is lost, none is found lost. -/
theorem run_unlost (steps : List Step) (alive : .loseWorkers ∉ steps) :
    ((start leadership fixedPort keepsListeners logsRequests).run steps).Unlost := by
  induction steps using List.reverseRecOn with
  | nil => exact List.not_mem_nil
  | append_singleton steps step ih =>
    rw [List.mem_append, not_or] at alive
    rw [run_append]
    refine (ih alive.1).step (fun h a present => ?_) step
    obtain ⟨acc, -⟩ :=
      run_accounted leadership fixedPort keepsListeners logsRequests steps alive.1 h
    exact (acc.staffed a present).not_lost

/-- Shutdown is clean. In every run without the loss of workers, an open handler that is
deactivated takes up the tasks that are on its queue at that moment, in order and no others, in
turns of workers after its intake is closed; each task has a question who leads of its own, asked
after the handler has run for leadership and before it withdraws. The withdrawal is its only one and
the last that it does: whatever happens later, except for a pass that is asked of it directly, which
nobody can who has deactivated it, no event gives it a task or a call, also if its listeners stay.
No worker is found lost, whatever breaks off inside the tasks. -/
theorem shutdown_is_clean (steps later : List Step) (alive : .loseWorkers ∉ steps) {h : Nat}
    {a : Handler} (present : ((start leadership fixedPort keepsListeners logsRequests).run
      steps).handlers[h]? = some a) (isOpen : a.isOpen = true)
    (released : ∀ n action, .reconcile h n action ∉ later) :
    let s := (start leadership fixedPort keepsListeners logsRequests).run steps
    let t := (s.step (.deactivate h)).1
    (∃ v worked, Acts Act.IsTurn (s.closeIntake h a) v ∧
      t = (v.withdraw h a.gate).log .stopped ∧
      Attended a.gate a.queue worked ∧
      doings h t.journal = doings h s.journal ++ worked ++ [.inr (.withdraw a.gate.topic)]) ∧
    .run a.gate.topic ∈ calls h s.journal ∧ (∀ topic, .withdraw topic ∉ calls h s.journal) ∧
    (∃ b, (t.run later).handlers[h]? = some b ∧ b.Retired) ∧
    doings h (t.run later).journal = doings h t.journal ∧
    t.Unlost ∧ (.loseWorkers ∉ later → (t.run later).Unlost) := by
  intro s t
  obtain ⟨acc, -⟩ := run_accounted leadership fixedPort keepsListeners logsRequests steps alive h
  have cand : Candidate h s :=
    run_candidate leadership fixedPort keepsListeners logsRequests steps h
  obtain ⟨v, worked, b, turns, ends, drains, retired⟩ :=
    deactivate_drains present isOpen ((acc.staffed a present).running isOpen)
  have record : doings h t.journal =
      doings h s.journal ++ worked ++ [.inr (.withdraw a.gate.topic)] := by
    have logged : doings h [.log .stopped] = [] := rfl
    have last : t.journal = (v.withdraw h a.gate).journal ++ [.log .stopped] :=
      congrArg journal ends
    rw [last, doings_append, logged, List.append_nil, journal_withdraw, doings_append,
      doings_candidacy, if_pos rfl, drains.record]
  have handler : t.handlers[h]? = some b := by
    have kept : t.handlers = v.handlers := by
      refine (congrArg handlers ends).trans ?_
      simp only [Controller.log, note, withdraw]
      cases (a.gate.deactivate v.leadership).2 <;> rfl
    rw [kept]
    exact drains.present
  obtain ⟨still, quiet⟩ := run_of_retired handler retired later released
  have unlost := run_unlost leadership fixedPort keepsListeners logsRequests
  refine ⟨⟨v, worked, turns, ends, drains.attended, record⟩, ?_, fun topic withdrawn => ?_,
    ⟨b, still, retired⟩, quiet, ?_, fun alive' => ?_⟩
  · have ran := cand.ran a.post (by simpa [posts] using ⟨a, present, rfl⟩)
    rw [calls_eq_doings, List.mem_filterMap]
    exact ⟨_, ran, rfl⟩
  · rw [calls_eq_doings, List.mem_filterMap] at withdrawn
    obtain ⟨d, member, same⟩ := withdrawn
    obtain rfl := Sum.getRight?_eq_some_iff.1 same
    exact (acc.isOpen_iff present).1 isOpen (cand.standing topic member)
  · have whole := unlost (steps ++ [.deactivate h]) (by simpa using alive)
    rwa [run_append] at whole
  · have whole := unlost (steps ++ .deactivate h :: later) (by simpa using ⟨alive, alive'⟩)
    rwa [run_append] at whole

/-- Two tasks wait when the handler is deactivated, the installer breaks off in the first and lets
another network come up, and the listeners stay: the third task is dropped, inside the shutdown as
well as after it. -/
theorem shutdown_is_clean_listeners_kept :
    let x : Node := ⟨"host", ⟨"br"⟩, default, default, .complete, .none⟩
    let y : Node := ⟨"other", ⟨"br"⟩, default, default, .complete, ⟨some ⟨1⟩, none, none⟩⟩
    let n : Network := ⟨"host", "blue", .vxlan, default, none⟩
    let m : Network := ⟨"host", "red", .vxlan, default, none⟩
    let steps : List Step := [.disturb (.update (.upsertNode x)),
      .disturb (.update (.upsertNode y)), .activate "one" ⟨"a"⟩ .default,
      .disturb (.update (.upsertNetwork n)), .disturb (.update (.removeNetwork "blue")),
      .armHook ⟨0, [.update (.upsertNetwork m)]⟩, .armCrash ⟨.installer, 1, .wordless⟩]
    let later : List Step := [.disturb (.update (.removeNetwork "red")), .drain]
    let s := (start (.appointed (some ⟨"a"⟩)) none true false).run steps
    let t := (s.step (.deactivate 0)).1
    let g : Gate := ⟨⟨"a"⟩, Placement.default.app⟩
    .loseWorkers ∉ steps ∧ (∀ n action, .reconcile 0 n action ∉ later) ∧
      (∃ worked, Attended g [.install n, .uninstall n] worked ∧
        doings 0 (t.run later).journal =
          .inr (.run g.topic) :: worked ++ [.inr (.withdraw g.topic)]) ∧
      .log (.droppedAfterStop (.install m)) ∈ t.journal ∧
      .log (.droppedAfterStop (.uninstall m)) ∈ (t.run later).journal ∧
      .log .workerLost ∉ (t.run later).journal := by
  intro x y n m steps later s t g
  have alive : .loseWorkers ∉ steps := by decide
  have released (n : Network) (action : Action) : .reconcile 0 n action ∉ later := by simp [later]
  have present : s.handlers[0]? = some ⟨"one", g, .default, 0, 1, true, .running,
      [.install n, .uninstall n]⟩ := by decide
  have begun : doings 0 s.journal = [.inr (.run g.topic)] := by decide
  obtain ⟨⟨v, worked, -, -, attended, record⟩, -, -, -, quiet, -, unlost⟩ :=
    shutdown_is_clean (.appointed (some ⟨"a"⟩)) none true false steps later alive present rfl
      released
  refine ⟨alive, released, ⟨worked, attended, ?_⟩, by decide, by decide, unlost (by decide)⟩
  rw [quiet, record, begun]
  rfl

end Controller
end GatewayRules
