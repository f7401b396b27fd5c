import GatewayRules.Proofs.Standstill
import GatewayRules.Proofs.TaskCalls

/-!
Passes that nothing disturbs: no collaborator breaks off, and what a pass goes by is not changed.
Other things may well happen inside installer calls. Such a pass makes the calls and comes to the
report that its beginning shows.
-/
namespace GatewayRules
open Journal

def Action.task (n : Network) : Action → Task
  | install => .install n
  | remove => .uninstall n

namespace Controller

variable {s t : Controller} {h : Nat} {p : Placement} {n : Network} {action : Action}
  {harmless : Disturbance → Prop}

/-- All that the hooks can bring is harmless. -/
def Hooked (harmless : Disturbance → Prop) (s : Controller) : Prop :=
  ∀ k ∈ s.hooks, ∀ d ∈ k.actions, harmless d

theorem hooked_of_unhooked (unhooked : s.hooks = []) : s.Hooked harmless := by
  unfold Hooked
  rw [unhooked]
  exact List.forall_mem_nil _

/-- What disturbances that are harmless keep survives the hooks that are due, and the hooks that are
left are harmless as before. -/
theorem fireHooks_keeps_of_hooked {P : Controller → Prop} (hooked : s.Hooked harmless)
    (hooks : ∀ t hooks, P t → P { t with hooks })
    (disturb : ∀ t d, harmless d → P t → P (t.disturb d)) (holds : P s) :
    P s.fireHooks ∧ s.fireHooks.Hooked harmless := by
  let counted := Hook.countDown s.hooks
  have waiting : ∀ k ∈ counted.1, ∀ d ∈ k.actions, harmless d := by
    intro k left
    obtain ⟨k', armed, kept⟩ := List.mem_filterMap.1 left
    split at kept
    · cases kept
    · obtain rfl := Option.some.inj kept
      exact hooked k' armed
  have due : ∀ d ∈ counted.2.flatMap Hook.actions, harmless d := by
    intro d listed
    obtain ⟨k, fires, listed⟩ := List.mem_flatMap.1 listed
    exact hooked k (List.mem_filter.1 fires).1 d listed
  have fold (ds : List Disturbance) (quiet : ∀ d ∈ ds, harmless d) (t : Controller)
      (holds : P t ∧ t.Hooked harmless) :
      P (ds.foldl Controller.disturb t) ∧ (ds.foldl Controller.disturb t).Hooked harmless := by
    induction ds generalizing t with
    | nil => exact holds
    | cons d rest ih =>
      have next : (t.disturb d).Hooked harmless := by
        unfold Hooked
        rw [hooks_disturb t d]
        exact holds.2
      apply ih
      · exact fun e later => quiet e (List.mem_cons_of_mem _ later)
      · exact ⟨disturb t d (quiet d List.mem_cons_self) holds.1, next⟩
  exact fold _ due _ ⟨hooks s _ holds, waiting⟩

/-- The state in which the worker has taken a task up and has been told who leads. -/
def briefed (s : Controller) (h : Nat) (a : Handler) (task : Task) (rest : List Task) :
    Controller :=
  ((s.take h task rest).announce task).note
    (.call h (.leader a.gate.topic (s.leadership.leader a.gate.topic)))

/-- A worker that leads carries its task out. -/
theorem work_of_leader {a : Handler} {task : Task} {rest : List Task}
    (unarmed : ∀ c ∈ s.crashes, c.seam ≠ .leader) (present : s.handlers[h]? = some a)
    (queue : a.queue = task :: rest) (leads : a.gate.isLeader s.leadership) : s.work h =
      ((s.briefed h a task rest).perform h a.placement task).1.logSome
        (((s.briefed h a task rest).perform h a.placement task).2.map .taskCrashed) := by
  have unbroken : ∀ c ∈ ((s.take h task rest).announce task).crashes, c.seam ≠ .leader := by
    cases task <;> exact unarmed
  have asked : (s.take h task rest).asked h a.gate task = (s.briefed h a task rest, none) :=
    enter_of_unarmed unbroken h _
  have carried := process_of_leader (s := s.take h task rest) a.placement
    (congrArg Prod.snd asked) leads
  rw [work_of_task present queue, carried, asked]

theorem briefed_journal (s : Controller) (h : Nat) (a : Handler) (task : Task)
    (rest : List Task) : ∃ entries,
      (s.briefed h a task rest).journal = s.journal ++ entries ∧
      calls h entries = [.leader a.gate.topic (s.leadership.leader a.gate.topic)] := by
  have announced : ∃ told, ((s.take h task rest).announce task).journal =
      s.journal ++ .taken h task :: told ∧ Journal.calls h told = [] := by
    cases task with
    | install n | uninstall n => exact ⟨[], rfl, rfl⟩
    | backfill x => exact ⟨[.log (.nodeDetected x.hostname)], List.append_assoc .., rfl⟩
  obtain ⟨told, journal, silent⟩ := announced
  let question : Call := .leader a.gate.topic (s.leadership.leader a.gate.topic)
  refine ⟨.taken h task :: told ++ [.call h question], ?_, ?_⟩
  · rw [← List.append_assoc, ← journal]
    rfl
  · rw [calls_append, calls_call]
    exact congrArg (· ++ [question]) silent

def outcome (s : Controller) (p : Placement) (n : Network) (action : Action) : Report :=
  (s.inventory.completeNodes.map fun x =>
    s.fate p n (s.inventory.node? n.name) action x ⟨none, none⟩).foldl count ⟨0, 0⟩

/-- A pair that nothing disturbs hands over the request that it comes to. -/
theorem submitted_pairCalls (s : Controller) (owner : Option Node) (x : Node) :
    (s.pairCalls p n action owner x).filterMap Call.submitted? =
      (s.requestOf p n owner action x ⟨none, none⟩).toOption.toList := by
  rw [← calls_minutes s 0 owner x]
  exact submitted_minutes ..

/-- The requests of a pass that nothing disturbs, by hostname. -/
theorem submitted_passCalls (s : Controller) (p : Placement) (n : Network) (action : Action) :
    (s.passCalls p n action).filterMap Call.submitted? =
      s.inventory.completeNodes.filterMap fun x =>
        (s.requestOf p n (s.inventory.node? n.name) action x ⟨none, none⟩).toOption := by
  unfold passCalls
  rw [List.filterMap_append, List.filterMap_flatMap]
  simp only [submitted_pairCalls]
  exact (List.filterMap_eq_flatMap_toList ..).symm

/-- Among these states a pass over the network finds what it finds in the first one. Nothing breaks
off, and neither what is written down nor a hook that is due leads out of them. -/
structure Undisturbed (n : Network) (s : Controller) (among : Controller → Prop) : Prop where
  uncrashed : ∀ t, among t → t.crashes = []
  note : ∀ t e, among t → among (t.note e)
  fireHooks : ∀ t, among t → among t.fireHooks
  nodes : ∀ t, among t → t.inventory.nodes = s.inventory.nodes
  port : ∀ t, among t → t.resolver.port n = s.resolver.port n
  refusals : ∀ t, among t → t.refusals = s.refusals

/-- What an operation of a handler does among such states: these calls, and no other harm. -/
structure Reaches (among : Controller → Prop) (h : Nat) (cs : List Call) (s t : Controller) :
    Prop where
  inside : among t
  written : ∃ entries, t.journal = s.journal ++ entries ∧ calls h entries = cs

namespace Reaches

variable {among : Controller → Prop} {cs cs' : List Call} {u : Controller}

theorem refl (inside : among s) : Reaches among h [] s s :=
  ⟨inside, [], (List.append_nil _).symm, rfl⟩

theorem trans (first : Reaches among h cs s t) (second : Reaches among h cs' t u) :
    Reaches among h (cs ++ cs') s u := by
  obtain ⟨-, entries, journal, rfl⟩ := first
  obtain ⟨inside, entries', journal', rfl⟩ := second
  exact ⟨inside, entries ++ entries', by rw [journal', journal, List.append_assoc],
    calls_append ..⟩

theorem silently (first : Reaches among h cs s t) (second : Reaches among h [] t u) :
    Reaches among h cs s u := by
  simpa using first.trans second

end Reaches

namespace Undisturbed

variable {among : Controller → Prop}

theorem call (lull : Undisturbed n s among) (inside : among t) (h : Nat) (c : Call) :
    Reaches among h [c] t (t.note (.call h c)) :=
  ⟨lull.note t _ inside, [.call h c], rfl, calls_call h c⟩

theorem silent (lull : Undisturbed n s among) (inside : among t) (h : Nat) {e : Entry}
    (other : e.callBy? h = none) : Reaches among h [] t (t.note e) :=
  ⟨lull.note t e inside, [e], rfl, List.filterMap_cons_none other⟩

theorem hooks (lull : Undisturbed n s among) (inside : among t) (h : Nat) :
    Reaches among h [] t t.fireHooks := by
  obtain ⟨entries, journal, silent, -⟩ := fireHooks_silent t h
  exact ⟨lull.fireHooks t inside, entries, journal, silent⟩

/-- The installer gets the request, and answers as it would have at the beginning. -/
theorem request (lull : Undisturbed n s among) (inside : among t) (h : Nat) (r : Request) :
    ∃ v, t.request h r = (v, s.verdict r) ∧
      Reaches among h [.submit r, match s.refusals.lookup r.rule.device with
        | some _ => .refused r.rule.device
        | none => .accepted r] t v := by
  have submitted := lull.call inside h (.submit r)
  have same : (t.note (.call h (.submit r))).refusals = s.refusals :=
    lull.refusals _ submitted.inside
  unfold Controller.request verdict
  rw [enter_of_uncrashed (lull.uncrashed t inside)]
  dsimp only
  rw [same]
  cases s.refusals.lookup r.rule.device with
  | some reason => exact ⟨_, rfl, submitted.trans (lull.call submitted.inside h _)⟩
  | none =>
    have accepted := submitted.trans (lull.call submitted.inside h (.accepted r))
    have fired := accepted.silently (lull.hooks accepted.inside h)
    refine ⟨_, rfl, ?_⟩
    dsimp only
    split
    · exact fired.silently (lull.silent fired.inside h rfl)
    · exact fired

theorem place (lull : Undisturbed n s among) (inside : among t) (h : Nat) (p : Placement)
    (owner : Option Node) (action : Action) (x : Node) :
    ∃ v cs, t.place h p n x owner action = (v, s.fate p n owner action x ⟨none, none⟩) ∧
      Reaches among h cs t v ∧ s.pairCalls p n action owner x =
        (if x.Owns n then [] else [.read .resolver]) ++ cs := by
  have same : synthesize t.resolver n x owner = synthesize s.resolver n x owner :=
    synthesize_congr_port (congrFun (lull.port t inside) x)
  unfold Controller.place fate pairCalls
  rw [same, requestOf_of_unstruck]
  cases synthesize s.resolver n x owner with
  | error e => exact ⟨t, [], rfl, .refl inside, rfl⟩
  | ok rule =>
    obtain ⟨v, done, reaches⟩ := lull.request inside h ⟨rule, p, action⟩
    exact ⟨v, _, done, reaches, rfl⟩

theorem pair (lull : Undisturbed n s among) (inside : among t) (h : Nat) (p : Placement)
    (owner : Option Node) (action : Action) (x : Node) :
    ∃ v, t.pair h p n x owner action = (v, s.fate p n owner action x ⟨none, none⟩) ∧
      Reaches among h (s.pairCalls p n action owner x) t v := by
  rw [pair_eq]
  by_cases owns : x.Owns n
  · obtain ⟨v, cs, done, reaches, made⟩ := lull.place inside h p owner action x
    rw [made, if_pos owns, if_pos owns]
    exact ⟨v, done, reaches⟩
  · have asked := lull.call inside h (.read .resolver)
    obtain ⟨v, cs, done, reaches, made⟩ := lull.place asked.inside h p owner action x
    rw [made, if_neg owns, if_neg owns, enter_of_uncrashed (lull.uncrashed t inside)]
    exact ⟨v, done, asked.trans reaches⟩

theorem pairs (lull : Undisturbed n s among) (inside : among t) (h : Nat) (p : Placement)
    (owner : Option Node) (action : Action) (nodes : List Node) (report : Report) :
    ∃ v, nodes.foldl (settlePair h p n owner action) (t, report) =
        (v, (nodes.map fun x => s.fate p n owner action x ⟨none, none⟩).foldl count report) ∧
      Reaches among h (nodes.flatMap (s.pairCalls p n action owner)) t v := by
  induction nodes generalizing t report with
  | nil => exact ⟨t, rfl, .refl inside⟩
  | cons x rest ih =>
    obtain ⟨u, done, first⟩ := lull.pair inside h p owner action x
    let notice := complaint? n x action (s.fate p n owner action x ⟨none, none⟩)
    have told : Reaches among h [] u (u.logSome notice) := by
      cases notice with
      | none => exact .refl first.inside
      | some notice => exact lull.silent first.inside h rfl
    obtain ⟨v, settled, later⟩ :=
      ih told.inside (count report (s.fate p n owner action x ⟨none, none⟩))
    refine ⟨v, ?_, ?_⟩
    · rw [List.foldl_cons, settlePair_eq, done]
      exact settled
    · rw [List.flatMap_cons]
      exact (first.silently told).trans later

/-- A pass comes to its end, with the report that its beginning shows, and tells it to the log
last. -/
theorem pass (lull : Undisturbed n s among) (inside : among t) (h : Nat) (p : Placement)
    (action : Action) : ∃ v made, t.pass h p n action = (v, .ok (s.outcome p n action)) ∧
      among v ∧ v.journal = t.journal ++ made ∧ calls h made = s.passCalls p n action ∧
      made.getLast? = some (.log (.passed n.name action (s.outcome p n action))) := by
  have listed := lull.call inside h (.read .completeNodes)
  have found := lull.call listed.inside h (.read .node)
  have nodes (t : Controller) (inside : among t) :
      t.inventory.completeNodes = s.inventory.completeNodes ∧
        t.inventory.node? n.name = s.inventory.node? n.name := by
    unfold Inventory.completeNodes Inventory.node?
    rw [lull.nodes t inside]
    exact ⟨rfl, rfl⟩
  obtain ⟨v, settled, reaches⟩ := lull.pairs found.inside h p (s.inventory.node? n.name) action
    s.inventory.completeNodes ⟨0, 0⟩
  obtain ⟨inside', made, journal, calls⟩ := listed.trans (found.trans reaches)
  let last : Entry := .log (.passed n.name action (s.outcome p n action))
  refine ⟨v.note last, made ++ [last], ?_, lull.note v last inside', ?_, ?_,
    List.getLast?_concat⟩
  · rw [pass_eq, enter_of_uncrashed (lull.uncrashed t inside)]
    dsimp only [proceed]
    rw [enter_of_uncrashed (lull.uncrashed _ listed.inside)]
    dsimp only
    rw [(nodes _ listed.inside).1, (nodes _ found.inside).2, settled]
    rfl
  · rw [← List.append_assoc, ← journal]
    rfl
  · rw [calls_append, calls]
    exact List.append_nil _

/-- The turn of a worker that leads and has a pass to make. -/
theorem work {u : Controller} {a : Handler} {rest : List Task} (lull : Undisturbed n s among)
    (action : Action) (uncrashed : u.crashes = []) (present : u.handlers[h]? = some a)
    (queue : a.queue = action.task n :: rest) (leads : a.gate.isLeader u.leadership)
    (inside : among (u.briefed h a (action.task n) rest)) :
    among (u.work h) ∧ ∃ entries, (u.work h).journal = u.journal ++ entries ∧
      calls h entries =
        .leader a.gate.topic (some a.gate.self) :: s.passCalls a.placement n action ∧
      entries.getLast? = some (.log (.passed n.name action (s.outcome a.placement n action))) := by
  obtain ⟨v, made, passed, inside', journal, calls, reported⟩ :=
    lull.pass inside h a.placement action
  obtain ⟨opening, briefed, question⟩ := briefed_journal u h a (action.task n) rest
  have asked : u.leadership.leader a.gate.topic = some a.gate.self := beq_iff_eq.1 leads
  have performed : (u.briefed h a (action.task n) rest).perform h a.placement (action.task n) =
      (v, none) := by
    cases action with
    | install => exact (perform_install ..).trans (by rw [passed]; rfl)
    | remove => exact (perform_uninstall ..).trans (by rw [passed]; rfl)
  have done : u.work h = v := by
    rw [work_of_leader (unarmed_of_uncrashed uncrashed) present queue leads, performed]
    rfl
  rw [done]
  refine ⟨inside', opening ++ made, ?_, ?_, ?_⟩
  · rw [journal, briefed, List.append_assoc]
  · rw [calls_append, question, asked, calls]
    rfl
  · rw [List.getLast?_append, reported]
    rfl

end Undisturbed

end Controller
end GatewayRules
