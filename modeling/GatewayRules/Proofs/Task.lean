import GatewayRules.Controller.Handler
import GatewayRules.Proofs.Delivery

/-!
What can go on while a handler is at work. A task and a pass are sequences of a few kinds of moves,
so a property that these moves keep survives every task, whatever breaks off inside it.
-/
namespace GatewayRules

def Call.IsWork : Call → Prop
  | .read _ | .submit _ | .accepted _ | .refused _ => True
  | .run _ | .withdraw _ | .leader .. => False

def Request.IsSynthesized (r : Request) : Prop :=
  ∃ resolver n x owner, synthesize resolver n x owner = .ok r.rule

/-- If the call is about a request, its rule is synthesized. -/
def Call.IsOrderly : Call → Prop
  | .submit r | .accepted r => r.IsSynthesized
  | .read _ | .refused _ | .run _ | .withdraw _ | .leader .. => True

/-- A call for the rules of a task, and for none that is not synthesized. -/
def Call.IsOrder (c : Call) : Prop := c.IsWork ∧ c.IsOrderly

def Notice.IsWork : Notice → Prop
  | taskCrashed _ | nodeDetected _ | ruleSkipped .. | ruleRefused .. | ruleCrashed .. | passed ..
  | requested _ => True
  | _ => False

theorem PairFault.isWork_notice (fault : PairFault) (n : Network) (x : Node) (action : Action) :
    (fault.notice n x action).IsWork := by
  cases fault <;> trivial

/-- The states that a handler at work leads to, if its calls are among the allowed ones. -/
inductive Working (h : Nat) (allowed : Call → Prop) (s : Controller) : Controller → Prop where
  | refl : Working h allowed s s
  | log {t : Controller} (n : Notice) :
    n.IsWork → Working h allowed s t → Working h allowed s (t.log n)
  | call {t : Controller} (c : Call) (crashes : List ArmedCrash) :
    allowed c → Working h allowed s t →
      Working h allowed s { t.note (.call h c) with crashes }
  | fireHooks {t : Controller} : Working h allowed s t → Working h allowed s t.fireHooks

/-- A property that changes of the hooks and disturbances keep survives the hooks that are due. -/
theorem Controller.fireHooks_keeps {P : Controller → Prop} {s : Controller}
    (hooks : ∀ t hooks, P t → P { t with hooks }) (disturb : ∀ t d, P t → P (t.disturb d))
    (holds : P s) : P s.fireHooks := by
  have fold (ds : List Disturbance) (t : Controller) (holds : P t) : P (ds.foldl .disturb t) := by
    induction ds generalizing t with
    | nil => exact holds
    | cons d rest ih => exact ih _ (disturb t d holds)
  exact fold _ _ (hooks s _ holds)

namespace Working

variable {h : Nat} {allowed wider : Call → Prop} {s t u : Controller}

/-- A property survives work if notices, calls, changes of the hooks and disturbances keep it. -/
@[elab_as_elim]
theorem keeps {P : Controller → Prop} (w : Working h allowed s t)
    (log : ∀ t (n : Notice), n.IsWork → P t → P (t.log n))
    (call : ∀ t c crashes, allowed c → P t → P { t.note (.call h c) with crashes })
    (hooks : ∀ t hooks, P t → P { t with hooks })
    (disturb : ∀ t d, P t → P (t.disturb d)) (holds : P s) : P t := by
  induction w with
  | refl => exact holds
  | log n works _ ih => exact log _ n works ih
  | call c crashes ok _ ih => exact call _ c crashes ok ih
  | fireHooks _ ih => exact Controller.fireHooks_keeps hooks disturb ih

theorem trans (first : Working h allowed s t) (second : Working h allowed t u) :
    Working h allowed s u := by
  induction second with
  | refl => exact first
  | log n works _ ih => exact .log n works ih
  | call c crashes ok _ ih => exact .call c crashes ok ih
  | fireHooks _ ih => exact .fireHooks ih

theorem mono (wide : ∀ c, allowed c → wider c) (w : Working h allowed s t) :
    Working h wider s t := by
  induction w with
  | refl => exact .refl
  | log n works _ ih => exact .log n works ih
  | call c crashes ok _ ih => exact .call c crashes (wide c ok) ih
  | fireHooks _ ih => exact .fireHooks ih

theorem logCrash (w : Working h allowed s t) (crash : Option Crash) :
    Working h allowed s (t.logSome (crash.map .taskCrashed)) := by
  cases crash with
  | none => exact w
  | some crash => exact w.log (.taskCrashed crash) trivial

theorem enter (seam : Seam) {c : Call} (ok : allowed c) :
    Working h allowed s (s.enter h seam c).1 :=
  .call c _ ok .refl

theorem of_enter {seam : Seam} {c : Call} {crash : Option Crash}
    (entered : s.enter h seam c = (t, crash)) (ok : allowed c) : Working h allowed s t := by
  have moved : Working h allowed s (s.enter h seam c).1 := enter seam ok
  rwa [entered] at moved

end Working

namespace Controller

variable {h : Nat}

theorem buildRule_ordered (s : Controller) (h : Nat) (n : Network) (x : Node)
    (owner : Option Node) : Working h Call.IsOrder s (s.buildRule h n x owner).1 := by
  unfold buildRule
  split
  · exact .refl
  · split
    · next entered => exact .of_enter entered ⟨trivial, trivial⟩
    · next entered => exact .of_enter entered ⟨trivial, trivial⟩

theorem isSynthesized_of_buildRule {s t : Controller} {n : Network} {x : Node} {owner : Option Node}
    {rule : Rule} (built : s.buildRule h n x owner = (t, .ok rule)) (p : Placement)
    (action : Action) : Request.IsSynthesized ⟨rule, p, action⟩ := by
  have made {v : Controller}
      (same : (synthesize v.resolver n x owner).mapError PairFault.skipped = .ok rule) :
      Request.IsSynthesized ⟨rule, p, action⟩ := by
    cases result : synthesize v.resolver n x owner with
    | error e =>
      rw [result] at same
      cases same
    | ok r =>
      rw [result] at same
      cases same
      exact ⟨v.resolver, n, x, owner, result⟩
  unfold buildRule at built
  split at built
  · exact made (congrArg Prod.snd built)
  · split at built
    · cases congrArg Prod.snd built
    · exact made (congrArg Prod.snd built)

theorem request_ordered (s : Controller) (h : Nat) {r : Request} (made : r.IsSynthesized) :
    Working h Call.IsOrder s (s.request h r).1 := by
  unfold request
  split
  · next entered => exact .of_enter entered ⟨trivial, made⟩
  · next t entered =>
    have submitted : Working h Call.IsOrder s t := .of_enter entered ⟨trivial, made⟩
    split
    · exact submitted.call (.refused r.rule.device) t.crashes ⟨trivial, trivial⟩
    · have accepted := submitted.call (.accepted r) t.crashes ⟨trivial, made⟩
      dsimp only
      split
      · exact accepted.fireHooks.log (.requested r) trivial
      · exact accepted.fireHooks

theorem pair_ordered (s : Controller) (h : Nat) (p : Placement) (n : Network) (x : Node)
    (owner : Option Node) (action : Action) :
    Working h Call.IsOrder s (s.pair h p n x owner action).1 := by
  have built := buildRule_ordered s h n x owner
  unfold pair
  split
  · next same => rwa [same] at built
  · next t rule same =>
    have made : Request.IsSynthesized ⟨rule, p, action⟩ := isSynthesized_of_buildRule same p action
    rw [same] at built
    exact built.trans (request_ordered t h made)

theorem settlePair_ordered (h : Nat) (p : Placement) (n : Network) (owner : Option Node)
    (action : Action) (sr : Controller × Report) (x : Node) :
    Working h Call.IsOrder sr.1 (settlePair h p n owner action sr x).1 := by
  obtain ⟨s, report⟩ := sr
  have paired := pair_ordered s h p n x owner action
  unfold settlePair
  dsimp only
  split
  · next same => rwa [same] at paired
  · next fault same =>
    rw [same] at paired
    exact paired.log _ (fault.isWork_notice n x action)

theorem pass_ordered (s : Controller) (h : Nat) (p : Placement) (n : Network) (action : Action) :
    Working h Call.IsOrder s (s.pass h p n action).1 := by
  have settled (nodes : List Node) (owner : Option Node) (sr : Controller × Report) :
      Working h Call.IsOrder sr.1 (nodes.foldl (settlePair h p n owner action) sr).1 := by
    induction nodes generalizing sr with
    | nil => exact .refl
    | cons x rest ih => exact (settlePair_ordered h p n owner action sr x).trans (ih _)
  unfold pass
  split
  · next entered => exact .of_enter entered ⟨trivial, trivial⟩
  · next t entered =>
    have listed : Working h Call.IsOrder s t := .of_enter entered ⟨trivial, trivial⟩
    dsimp only
    split
    · next entered => exact listed.trans (.of_enter entered ⟨trivial, trivial⟩)
    · next v entered =>
      have found : Working h Call.IsOrder s v :=
        listed.trans (.of_enter entered ⟨trivial, trivial⟩)
      exact (found.trans (settled t.inventory.completeNodes _ (v, ⟨0, 0⟩))).log _ trivial

theorem passEach_ordered (h : Nat) (p : Placement) (networks : List Network) (s : Controller) :
    Working h Call.IsOrder s (passEach h p s networks).1 := by
  induction networks generalizing s with
  | nil => exact .refl
  | cons n rest ih =>
    have passed := pass_ordered s h p n .install
    unfold passEach
    split
    · next same => rwa [same] at passed
    · next same =>
      rw [same] at passed
      exact passed.trans (ih _)

theorem perform_ordered (s : Controller) (h : Nat) (p : Placement) (t : Task) :
    Working h Call.IsOrder s (s.perform h p t).1 := by
  cases t with
  | install n =>
    have passed := pass_ordered s h p n .install
    simp only [perform]
    split <;> next same => rwa [same] at passed
  | uninstall n =>
    have passed := pass_ordered s h p n .remove
    simp only [perform]
    split <;> next same => rwa [same] at passed
  | backfill x =>
    simp only [perform]
    split
    · next entered => exact .of_enter entered ⟨trivial, trivial⟩
    · next v entered =>
      have found : Working h Call.IsOrder s v := .of_enter entered ⟨trivial, trivial⟩
      exact found.trans (passEach_ordered h p _ v)

theorem settlePair_working (h : Nat) (p : Placement) (n : Network) (owner : Option Node)
    (action : Action) (sr : Controller × Report) (x : Node) :
    Working h Call.IsWork sr.1 (settlePair h p n owner action sr x).1 :=
  (settlePair_ordered h p n owner action sr x).mono fun _ => And.left

theorem pass_working (s : Controller) (h : Nat) (p : Placement) (n : Network) (action : Action) :
    Working h Call.IsWork s (s.pass h p n action).1 :=
  (pass_ordered s h p n action).mono fun _ => And.left

theorem passEach_working (h : Nat) (p : Placement) (networks : List Network) (s : Controller) :
    Working h Call.IsWork s (passEach h p s networks).1 :=
  (passEach_ordered h p networks s).mono fun _ => And.left

theorem perform_working (s : Controller) (h : Nat) (p : Placement) (t : Task) :
    Working h Call.IsWork s (s.perform h p t).1 :=
  (perform_ordered s h p t).mono fun _ => And.left

/-- The state in which a task has asked for the leader, and whether the question broke off. -/
def asked (s : Controller) (h : Nat) (g : Gate) (t : Task) : Controller × Option Crash :=
  (s.announce t).enter h .leader (.leader g.topic (s.leadership.leader g.topic))

theorem announce_leadership (s : Controller) (t : Task) :
    (s.announce t).leadership = s.leadership := by
  cases t <;> rfl

theorem askLeader_announce (s : Controller) (h : Nat) (g : Gate) (t : Task) :
    (s.announce t).askLeader h g = ((s.asked h g t).1,
      (s.asked h g t).2.elim (.ok (g.isLeader s.leadership)) .error) := by
  have same : (s.asked h g t).1.leadership = s.leadership := announce_leadership s t
  have question : (s.announce t).enter h .leader (.leader g.topic
      ((s.announce t).leadership.leader g.topic)) = s.asked h g t := by
    rw [announce_leadership]
    rfl
  unfold askLeader
  rw [question, ← same]
  rcases s.asked h g t with ⟨v, _ | crash⟩ <;> rfl

/-- A task of a handler that leads goes on after the question. -/
theorem process_of_leader {s : Controller} {g : Gate} {t : Task} (p : Placement)
    (answered : (s.asked h g t).2 = none) (leads : g.isLeader s.leadership) :
    s.process h g p t = (s.asked h g t).1.perform h p t := by
  unfold process
  rw [askLeader_announce, answered, leads]
  rfl

/-- A task of a handler that does not lead, or gets no answer, ends with the question. -/
theorem process_of_not_leader {s : Controller} {g : Gate} {t : Task} (p : Placement)
    (dropped : (s.asked h g t).2 ≠ none ∨ ¬g.isLeader s.leadership) :
    (s.process h g p t).1 = (s.asked h g t).1 := by
  unfold process
  rw [askLeader_announce]
  cases answered : (s.asked h g t).2 with
  | some crash => rfl
  | none =>
    have follows : g.isLeader s.leadership = false := by simpa [answered] using dropped
    rw [follows]
    rfl

theorem process_orderly (s : Controller) (h : Nat) (g : Gate) (p : Placement) (t : Task) :
    Working h Call.IsOrderly s (s.process h g p t).1 := by
  have announced : Working h Call.IsOrderly s (s.announce t) := by
    cases t with
    | backfill x => exact .log _ trivial .refl
    | install n | uninstall n => exact .refl
  have asking : Working h Call.IsOrderly s (s.asked h g t).1 :=
    announced.trans (.enter .leader trivial)
  by_cases leads : (s.asked h g t).2 = none ∧ g.isLeader s.leadership
  · rw [process_of_leader p leads.1 leads.2]
    exact asking.trans ((perform_ordered _ h p t).mono fun _ => And.right)
  · rw [process_of_not_leader p (Classical.not_and_iff_not_or_not.1 leads)]
    exact asking

/-- A turn with a task: what breaks off inside the task is told to the log. -/
theorem work_of_task {s : Controller} {h : Nat} {a : Handler} {t : Task} {rest : List Task}
    (present : s.handlers[h]? = some a) (queue : a.queue = t :: rest) :
    s.work h = ((s.take h t rest).process h a.gate a.placement t).1.logSome
      (((s.take h t rest).process h a.gate a.placement t).2.map .taskCrashed) := by
  simp only [work, present, queue]
  split <;> next same => rw [same]; rfl

theorem work_orderly {s : Controller} {h : Nat} {a : Handler} {t : Task} {rest : List Task}
    (present : s.handlers[h]? = some a) (queue : a.queue = t :: rest) :
    Working h Call.IsOrderly (s.take h t rest) (s.work h) := by
  rw [work_of_task present queue]
  exact (process_orderly _ h a.gate a.placement t).logCrash _

/-- A turn finds nothing to do, or ends the worker of a closed handler, or takes up the first task
and works on it. -/
theorem work_turn (s : Controller) (h : Nat) :
    s.work h = s ∨
    (∃ a, s.handlers[h]? = some a ∧ a.queue = [] ∧ a.worker = .running ∧ a.isOpen = false ∧
      s.work h = (s.log .queueDrained).modifyHandler h fun a => { a with worker := .ended }) ∨
    ∃ a t rest, s.handlers[h]? = some a ∧ a.queue = t :: rest ∧
      Working h (fun _ => True) (s.take h t rest) (s.work h) := by
  cases present : s.handlers[h]? with
  | none => exact .inl (by simp [work, present])
  | some a =>
    cases queue : a.queue with
    | nil =>
      simp only [work, present, queue, endWork]
      split
      · next ends => exact .inr (.inl ⟨a, rfl, queue, ends.1, by simpa using ends.2, rfl⟩)
      · exact .inl rfl
    | cons t rest =>
      have worked := (work_orderly present queue).mono fun _ _ => trivial
      exact .inr (.inr ⟨a, t, rest, rfl, queue, worked⟩)

theorem work_cases (s : Controller) (h : Nat) :
    s.work h = s ∨
    s.work h = (s.log .queueDrained).modifyHandler h (fun a => { a with worker := .ended }) ∨
    ∃ a t rest, s.handlers[h]? = some a ∧ a.queue = t :: rest ∧
      Working h (fun _ => True) (s.take h t rest) (s.work h) := by
  rcases work_turn s h with same | ⟨a, -, -, -, -, ended⟩ | worked
  · exact .inl same
  · exact .inr (.inl ended)
  · exact .inr (.inr worked)

end Controller
end GatewayRules
