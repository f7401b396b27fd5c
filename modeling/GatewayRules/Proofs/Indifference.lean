import GatewayRules.Proofs.Task

/-!
A handler at work does not look at who leads: with leadership and every later change of it taken out
of the state, the same calls are made. Each operation of a pass commutes with taking it out.
-/
namespace GatewayRules

def Disturbance.isAppointment : Disturbance → Bool
  | .appoint _ => true
  | .update _ | .refuse .. | .accept _ => false

def Hook.withoutAppointments (k : Hook) : Hook :=
  { k with actions := k.actions.filter fun d => !d.isAppointment }

theorem Hook.countDown_withoutAppointments (hooks : List Hook) :
    countDown (hooks.map withoutAppointments) =
      ((countDown hooks).1.map withoutAppointments,
        (countDown hooks).2.map withoutAppointments) := by
  have waiting : (hooks.map withoutAppointments).filterMap
      (fun k => if k.after = 0 then none else some { k with after := k.after - 1 }) =
      (hooks.filterMap fun k =>
        if k.after = 0 then none else some { k with after := k.after - 1 }).map
          withoutAppointments := by
    rw [List.filterMap_map, List.map_filterMap]
    congr 1
    funext k
    by_cases due : k.after = 0 <;> simp [withoutAppointments, due]
  have due : (hooks.map withoutAppointments).filter (·.after = 0) =
      (hooks.filter (·.after = 0)).map withoutAppointments := List.filter_map
  exact Prod.ext waiting due

namespace Controller

/-- The state with leadership, and every armed change of it, taken out. -/
def leaderless (s : Controller) : Controller :=
  { s with leadership := .appointed none, hooks := s.hooks.map Hook.withoutAppointments }

variable (s : Controller) (h : Nat)

theorem journal_leaderless : s.leaderless.journal = s.journal := rfl

theorem submit_leaderless (t : Task) : s.leaderless.submit h t = (s.submit h t).leaderless := by
  have handlers : s.leaderless.handlers = s.handlers := rfl
  unfold submit
  rw [handlers]
  cases s.handlers[h]? with
  | none => rfl
  | some a =>
    dsimp only
    rw [apply_ite leaderless, apply_ite leaderless]
    rfl

theorem deliver_leaderless (e : Event) (l : Listener) :
    deliver e s.leaderless l = (deliver e s l).leaderless := by
  cases l with
  | observer label => rfl
  | handler k =>
    cases task : e.task? with
    | none => simp only [deliver, task]; rfl
    | some t =>
      simp only [deliver, task]
      exact submit_leaderless (s.note (.delivered (.handler k) e)) k t

theorem publish_leaderless (e : Event) : s.leaderless.publish e = (s.publish e).leaderless := by
  have fold (listeners : List Listener) (s : Controller) :
      listeners.foldl (deliver e) s.leaderless = (listeners.foldl (deliver e) s).leaderless := by
    induction listeners generalizing s with
    | nil => rfl
    | cons l rest ih => rw [List.foldl_cons, deliver_leaderless, ih, List.foldl_cons]
  exact fold _ (s.log (eventNotice e))

theorem update_leaderless (u : Update) : s.leaderless.update u = (s.update u).leaderless := by
  unfold update
  cases event : s.inventory.event? u with
  | none =>
    have same : s.leaderless.inventory.event? u = none := event
    simp only [same]
    rfl
  | some e =>
    have same : s.leaderless.inventory.event? u = some e := event
    simp only [same]
    exact publish_leaderless
      ({ s with inventory := s.inventory.update u }.note (.updated u (some e))) e

theorem disturb_leaderless {d : Disturbance} (other : d.isAppointment = false) :
    s.leaderless.disturb d = (s.disturb d).leaderless := by
  cases d with
  | update u => exact update_leaderless s u
  | appoint leader => cases other
  | refuse device reason | accept device => rfl

theorem disturbAll_leaderless (ds : List Disturbance) :
    (ds.filter fun d => !d.isAppointment).foldl disturb s.leaderless =
      (ds.foldl disturb s).leaderless := by
  induction ds generalizing s with
  | nil => rfl
  | cons d rest ih =>
    cases appoints : d.isAppointment with
    | false =>
      rw [List.filter_cons_of_pos (by simp [appoints]), List.foldl_cons,
        disturb_leaderless s appoints, ih, List.foldl_cons]
    | true =>
      have same : (s.disturb d).leaderless = s.leaderless := by
        cases d with
        | appoint leader => rfl
        | update u | refuse device reason | accept device => cases appoints
      rw [List.filter_cons_of_neg (by simp [appoints]), List.foldl_cons, ← ih, same]

theorem fireHooks_leaderless : s.leaderless.fireHooks = s.fireHooks.leaderless := by
  have due (hooks : List Hook) : (hooks.map Hook.withoutAppointments).flatMap Hook.actions =
      (hooks.flatMap Hook.actions).filter fun d => !d.isAppointment := by
    rw [List.flatMap_map, List.filter_flatMap]
    rfl
  unfold fireHooks
  change (((Hook.countDown (s.hooks.map Hook.withoutAppointments)).2.flatMap Hook.actions).foldl
    disturb { s.leaderless with
      hooks := (Hook.countDown (s.hooks.map Hook.withoutAppointments)).1 }) = _
  rw [Hook.countDown_withoutAppointments, due]
  exact disturbAll_leaderless { s with hooks := (Hook.countDown s.hooks).1 } _

theorem enter_leaderless (seam : Seam) (c : Call) :
    s.leaderless.enter h seam c = (s.enter h seam c).map leaderless id := rfl

theorem buildRule_leaderless (n : Network) (x : Node) (owner : Option Node) :
    s.leaderless.buildRule h n x owner = (s.buildRule h n x owner).map leaderless id := by
  unfold buildRule
  rw [enter_leaderless]
  by_cases owns : x.Owns n
  · rw [if_pos owns, if_pos owns]
    rfl
  · rw [if_neg owns, if_neg owns]
    rcases s.enter h .resolver (.read .resolver) with ⟨t, _ | crash⟩ <;> rfl

theorem request_leaderless (r : Request) :
    s.leaderless.request h r = (s.request h r).map leaderless id := by
  unfold request
  rw [enter_leaderless]
  rcases s.enter h .installer (.submit r) with ⟨t, _ | crash⟩
  · have refusals : t.leaderless.refusals = t.refusals := rfl
    simp only [Prod.map_apply, id_eq]
    rw [refusals]
    cases t.refusals.lookup r.rule.device with
    | some reason => rfl
    | none =>
      have fired : (t.leaderless.note (.call h (.accepted r))).fireHooks =
          (t.note (.call h (.accepted r))).fireHooks.leaderless :=
        fireHooks_leaderless (t.note (.call h (.accepted r)))
      dsimp only
      rw [fired, Prod.map_apply, apply_ite leaderless]
      rfl
  · rfl

theorem pair_leaderless (p : Placement) (n : Network) (x : Node) (owner : Option Node)
    (action : Action) :
    s.leaderless.pair h p n x owner action = (s.pair h p n x owner action).map leaderless id := by
  unfold pair
  rw [buildRule_leaderless]
  rcases s.buildRule h n x owner with ⟨t, fault | rule⟩
  · rfl
  · exact request_leaderless t h ⟨rule, p, action⟩

theorem settlePair_leaderless (p : Placement) (n : Network) (owner : Option Node) (action : Action)
    (report : Report) (x : Node) :
    settlePair h p n owner action (s.leaderless, report) x =
      (settlePair h p n owner action (s, report) x).map leaderless id := by
  unfold settlePair
  dsimp only
  rw [pair_leaderless]
  rcases s.pair h p n x owner action with ⟨t, fault | done⟩ <;> rfl

theorem pass_leaderless (p : Placement) (n : Network) (action : Action) :
    s.leaderless.pass h p n action = (s.pass h p n action).map leaderless id := by
  have settled (owner : Option Node) (nodes : List Node) (sr : Controller × Report) :
      nodes.foldl (settlePair h p n owner action) (sr.map leaderless id) =
        (nodes.foldl (settlePair h p n owner action) sr).map leaderless id := by
    induction nodes generalizing sr with
    | nil => rfl
    | cons x rest ih =>
      have first : settlePair h p n owner action (sr.map leaderless id) x =
          (settlePair h p n owner action sr x).map leaderless id :=
        settlePair_leaderless sr.1 h p n owner action sr.2 x
      rw [List.foldl_cons, List.foldl_cons, first, ih]
  unfold pass
  rw [enter_leaderless]
  rcases s.enter h .completeNodes (.read .completeNodes) with ⟨t, _ | crash⟩
  · simp only [Prod.map_apply, id_eq]
    rw [enter_leaderless]
    rcases t.enter h .node (.read .node) with ⟨v, _ | crash⟩
    · have pairs : t.leaderless.inventory.completeNodes.foldl
          (settlePair h p n (v.leaderless.inventory.node? n.name) action) (v.leaderless, ⟨0, 0⟩) =
          (t.inventory.completeNodes.foldl (settlePair h p n (v.inventory.node? n.name) action)
            (v, ⟨0, 0⟩)).map leaderless id := settled _ _ (v, ⟨0, 0⟩)
      simp only [Prod.map_apply, id_eq]
      rw [pairs]
      rfl
    · rfl
  · rfl

theorem passEach_leaderless (p : Placement) (networks : List Network) :
    passEach h p s.leaderless networks = (passEach h p s networks).map leaderless id := by
  induction networks generalizing s with
  | nil => rfl
  | cons n rest ih =>
    unfold passEach
    rw [pass_leaderless]
    rcases s.pass h p n .install with ⟨t, crash | report⟩
    · rfl
    · exact ih t

/-- The work of a task comes to the same, whoever leads and comes to lead meanwhile. -/
theorem perform_leaderless (p : Placement) (t : Task) :
    s.leaderless.perform h p t = (s.perform h p t).map leaderless id := by
  cases t with
  | install n =>
    unfold perform
    dsimp only
    rw [pass_leaderless]
    rcases s.pass h p n .install with ⟨t, crash | report⟩ <;> rfl
  | uninstall n =>
    unfold perform
    dsimp only
    rw [pass_leaderless]
    rcases s.pass h p n .remove with ⟨t, crash | report⟩ <;> rfl
  | backfill x =>
    unfold perform
    dsimp only
    rw [enter_leaderless]
    rcases s.enter h .networks (.read .networks) with ⟨t, _ | crash⟩
    · exact passEach_leaderless t h p _
    · rfl

theorem announce_leaderless (t : Task) : s.leaderless.announce t = (s.announce t).leaderless := by
  cases t <;> rfl

theorem process_leaderless {g : Gate} (leads : s.leadership.leader g.topic = some g.self)
    (p : Placement) (t : Task) :
    (s.process h g p t).map leaderless id =
      match (s.leaderless.announce t).enter h .leader (.leader g.topic (some g.self)) with
      | (v, some crash) => (v, some crash)
      | (v, none) => v.perform h p t := by
  have asking : (s.leaderless.announce t).enter h .leader (.leader g.topic (some g.self)) =
      (s.asked h g t).map leaderless id := by
    rw [announce_leaderless, enter_leaderless, ← leads]
    rfl
  rw [asking]
  unfold process
  rw [askLeader_announce]
  have isLeader : g.isLeader s.leadership = true := by simp [Gate.isLeader, leads]
  rcases s.asked h g t with ⟨v, _ | crash⟩
  · simp only [isLeader]
    exact (perform_leaderless v h p t).symm
  · rfl

/-- Of two states that differ in leadership only, now and later, the handler makes the same of a
task if it leads in both when it asks. -/
theorem work_leaderless {s v : Controller} (same : v.leaderless = s.leaderless) {a : Handler}
    {t : Task} {rest : List Task} (present : s.handlers[h]? = some a) (queue : a.queue = t :: rest)
    (leads : s.leadership.leader a.gate.topic = some a.gate.self)
    (leads' : v.leadership.leader a.gate.topic = some a.gate.self) :
    (v.work h).leaderless = (s.work h).leaderless := by
  have present' : v.handlers[h]? = some a :=
    (congrArg (fun s : Controller => s.handlers[h]?) same).trans present
  have turn (s : Controller) (present : s.handlers[h]? = some a) :
      (s.work h).leaderless = (fun x : Controller × Option Crash =>
        x.1.logSome (x.2.map .taskCrashed))
          (((s.take h t rest).process h a.gate a.placement t).map leaderless id) := by
    rw [work_of_task present queue]
    rcases (s.take h t rest).process h a.gate a.placement t with ⟨w, _ | crash⟩ <;> rfl
  have taken : (v.take h t rest).leaderless = (s.take h t rest).leaderless :=
    congrArg (fun s : Controller => s.take h t rest) same
  rw [turn s present, turn v present', process_leaderless (s.take h t rest) h leads,
    process_leaderless (v.take h t rest) h leads', taken]

end Controller
end GatewayRules
