import GatewayRules.Proofs.Acts
import GatewayRules.Proofs.Solo
import GatewayRules.Proofs.Task

/-!
Calm runs: one handler, which leads throughout, an installer that accepts every request, and nothing
that breaks off. What such a run does is made of the moves of a handler on its own.
-/
namespace GatewayRules
open Journal

/-- What may happen in a calm run at any time. A new leader is the same one again. -/
def Disturbance.Mild (g : Gate) (l : Leadership) : Disturbance → Prop
  | .update _ | .accept _ => True
  | .appoint leader => g.isLeader (l.appoint leader)
  | .refuse .. => False

def ListenerKind.ownId : ListenerKind → Nat
  | network => 0
  | node => 1

/-- The steps of a calm run after its handler has begun. -/
def Step.Mild (g : Gate) (l : Leadership) : Step → Prop
  | .disturb d => d.Mild g l
  | .armHook hook => ∀ d ∈ hook.actions, d.Mild g l
  | .unlisten kind id => id ≠ kind.ownId
  | .work _ | .drain | .feed _ | .seed _ | .listen .. => True
  | .activate .. | .deactivate _ | .loseWorkers | .reconcile .. | .armCrash _ => False

def Act.Mild (g : Gate) (l : Leadership) : Act → Prop
  | .disturb d => d.Mild g l
  | .armHook hook => ∀ d ∈ hook.actions, d.Mild g l
  | .unlisten kind id => id ≠ kind.ownId
  | .work _ | .log _ | .arrange _ | .listen .. => True
  | .enroll .. | .stand .. | .close _ | .withdraw .. | .loseWorkers | .reconcile ..
  | .armCrash _ => False

theorem Step.Mild.acts {g : Gate} {l : Leadership} {step : Step} (mild : step.Mild g l) {act : Act}
    (ok : step.Allows act) : act.Mild g l := by
  cases step <;> simp only [Step.Mild, Step.Allows, Act.IsTurn] at mild ok
  case disturb d => exact ok ▸ mild
  case armHook hook => exact ok ▸ mild
  case unlisten kind id => exact ok ▸ mild
  case work h => exact ok ▸ trivial
  case listen kind label => exact ok ▸ trivial
  case drain =>
    rcases ok with ⟨h, rfl⟩ | ⟨schedule, rfl⟩
    · trivial
    · trivial
  case feed bytes => rcases ok with ⟨n, -, rfl⟩ | ⟨u, rfl⟩ | ⟨schedule, rfl⟩ <;> trivial
  case seed file =>
    obtain ⟨u, rfl⟩ := ok
    trivial

theorem Event.foldl_hand {e : Event} {t : Task} (task : e.task? = some t) {a : Handler}
    (isOpen : a.isOpen = true) (running : a.worker = .running) (listeners : List Listener) :
    listeners.foldl e.hand [a] =
      [{ a with queue := a.queue ++ List.replicate (listeners.count (.handler 0)) t }] := by
  induction listeners generalizing a with
  | nil => simp
  | cons l rest ih =>
    by_cases mine : l = .handler 0
    · subst l
      have received : e.hand [a] (.handler 0) = [{ a with queue := a.queue ++ [t] }] := by
        simp [hand, task, Handler.receive_of_open isOpen (by simp [running])]
      have later := ih (a := { a with queue := a.queue ++ [t] }) isOpen running
      rw [List.foldl_cons, received, later, List.count_cons_self, List.replicate_succ]
      simp
    · have kept : e.hand [a] l = [a] := by
        cases l with
        | observer label => rfl
        | handler h =>
          have other : h ≠ 0 := fun same => mine (same ▸ rfl)
          obtain ⟨k, rfl⟩ := Nat.exists_eq_succ_of_ne_zero other
          simp [hand, task]
      rw [List.foldl_cons, kept, ih isOpen running, List.count_cons_of_ne mine]

theorem Entry.IsNews.callBy? {e : Entry} (news : e.IsNews) (h : Nat) : e.callBy? h = none := by
  cases e <;> first | rfl | exact news.elim

theorem Entry.IsNews.update? {e : Entry} (news : e.IsNews) : e.update? = none := by
  cases e <;> first | rfl | exact news.elim

theorem Entry.IsNews.takenBy? {e : Entry} (news : e.IsNews) (h : Nat) : e.takenBy? h = none := by
  cases e <;> first | rfl | exact news.elim

theorem Entry.IsNews.inWork {e : Entry} (news : e.IsNews) (h : Nat) (t : Option Task) :
    e.inWork h t = t := by
  cases e with
  | log n => cases n <;> first | rfl | exact news.elim
  | delivered l e => rfl
  | call h c | updated u e | taken h t | closed h => exact news.elim

/-- Entries that neither requests nor updates belong to, and that no task begins or ends with. -/
def Entry.IsMute : Entry → Prop
  | .call _ c => c.accepted? = none ∧ c.submitted? = none
  | .log (.passed ..) | .updated .. | .delivered .. | .taken .. => False
  | .log _ | .closed _ => True

/-- What the journal says about the only handler is how the solo handler stands. -/
structure Tells (journal : List Entry) (v : Solo) : Prop where
  accepted : accepted 0 journal = v.requests
  submitted : submitted 0 journal = v.requests
  updates : updates journal = v.updates
  given : given 0 journal = taken 0 journal ++ v.queue
  removing : ∀ q ∈ v.pairs, q.action = .remove → inWork 0 journal = some (.uninstall q.network)
  overtaken : v.overtaken ⊆ overtaken 0 journal

namespace Tells

variable {journal entries : List Entry} {v : Solo}

theorem planning (tells : Tells journal v) {pairs : List Pair} (later : List Network)
    (removing : ∀ q ∈ pairs, q.action = .remove →
      inWork 0 journal = some (.uninstall q.network)) :
    Tells journal { v with pairs, later } := { tells with removing }

theorem planningInstalls (tells : Tells journal v) (n : Network) (later : List Network) :
    Tells journal { v with pairs := v.passOver n .install, later } := by
  apply tells.planning
  intro q due removes
  exact absurd removes (Solo.not_remove_of_mem_passOver due)

/-- Entries that tell nothing of the handler but what it may do about its task. -/
theorem append (tells : Tells journal v) (unaccepted : Journal.accepted 0 entries = [])
    (unsubmitted : Journal.submitted 0 entries = []) (unchanged : Journal.updates entries = [])
    (ungiven : Journal.given 0 entries = []) (untaken : taken 0 entries = [])
    (removing : ∀ q ∈ v.pairs, q.action = .remove →
      inWork 0 (journal ++ entries) = some (.uninstall q.network)) :
    Tells (journal ++ entries) v where
  accepted := by rw [accepted_append, unaccepted, List.append_nil, tells.accepted]
  submitted := by rw [submitted_append, unsubmitted, List.append_nil, tells.submitted]
  updates := by rw [updates_append, unchanged, List.append_nil, tells.updates]
  given := by rw [given_append, taken_append, ungiven, untaken, List.append_nil, List.append_nil,
    tells.given]
  removing
  overtaken := List.Subset.trans tells.overtaken (overtaken_subset_append 0 journal entries)

theorem note (tells : Tells journal v) {e : Entry} (mute : e.IsMute) :
    Tells (journal ++ [e]) v := by
  have uncalled : Journal.accepted 0 [e] = [] ∧ Journal.submitted 0 [e] = [] := by
    cases e with
    | call k c =>
      by_cases mine : k = 0
      · simp [Journal.accepted, Journal.submitted, calls, Entry.callBy?, mine, mute.1, mute.2]
      · simp [Journal.accepted, Journal.submitted, calls, Entry.callBy?, mine]
    | log n | closed k => exact ⟨rfl, rfl⟩
    | updated u e | delivered l e | taken k t => exact mute.elim
  have unmoved (t : Option Task) : e.inWork 0 t = t := by
    cases e with
    | call k c | closed k => rfl
    | log n => cases n <;> first | rfl | exact mute.elim
    | updated u e | delivered l e | taken k t => exact mute.elim
  apply tells.append uncalled.1 uncalled.2
  · cases e <;> first | rfl | exact mute.elim
  · cases e <;> first | rfl | exact mute.elim
  · cases e <;> first | rfl | exact mute.elim
  · intro q due removes
    rw [inWork_concat, unmoved]
    exact tells.removing q due removes

theorem report (tells : Tells journal v) (done : v.pairs = []) (network : String) (action : Action)
    (report : Report) : Tells (journal ++ [.log (.passed network action report)]) v := by
  apply tells.append rfl rfl rfl rfl rfl
  intro q due
  rw [done] at due
  exact absurd due List.not_mem_nil

theorem request (tells : Tells journal v) (r : Request) :
    Tells (journal ++ [.call 0 (.submit r), .call 0 (.accepted r)])
      { v with requests := v.requests ++ [r] } where
  accepted := by rw [accepted_append, tells.accepted]; rfl
  submitted := by rw [submitted_append, tells.submitted]; rfl
  updates := by rw [updates_append, tells.updates]; exact List.append_nil _
  given := by
    rw [given_append, taken_append, tells.given]
    exact (List.append_nil _).trans (congrArg (· ++ v.queue) (List.append_nil _).symm)
  removing q due removes := by
    rw [inWork, List.foldl_append]
    exact tells.removing q due removes
  overtaken := List.Subset.trans tells.overtaken (overtaken_subset_append 0 journal _)

/-- A task that is taken up goes from the queue to the pairs. -/
theorem take (tells : Tells journal v) {t : Task} {rest : List Task} (idle : v.pairs = [])
    (queue : v.queue = t :: rest) :
    Tells (journal ++ [.taken 0 t]) ({ v with queue := rest }.begin t) := by
  have begun : Tells (journal ++ [.taken 0 t]) { v with queue := rest } :=
    { accepted := by rw [accepted_append, tells.accepted]; exact List.append_nil _
      submitted := by rw [submitted_append, tells.submitted]; exact List.append_nil _
      updates := by rw [updates_append, tells.updates]; exact List.append_nil _
      given := by
        rw [given_append, taken_append, tells.given, queue]
        change (taken 0 journal ++ t :: rest) ++ [] = (taken 0 journal ++ [t]) ++ rest
        simp
      removing := fun q due => absurd (idle ▸ due) List.not_mem_nil
      overtaken := List.Subset.trans tells.overtaken (overtaken_subset_append 0 journal _) }
  have now : inWork 0 (journal ++ [.taken 0 t]) = some t := inWork_concat ..
  cases t with
  | install n => exact begun.planningInstalls n v.later
  | uninstall n =>
    apply begun.planning
    intro q due _
    obtain ⟨rfl, -⟩ := Solo.of_mem_passOver due
    exact now
  | backfill x => exact begun.planning _ begun.removing

theorem removals_subset (tells : Tells journal v) : v.removals ⊆ removals 0 journal := by
  have waiting : (Journal.given 0 journal).drop (taken 0 journal).length = v.queue := by
    rw [tells.given, List.drop_left]
  intro n member
  unfold removals
  rw [waiting, List.filterMap_append]
  rcases List.mem_append.1 member with due | waits
  · obtain ⟨q, kept, rfl⟩ := List.mem_map.1 due
    obtain ⟨member, removes⟩ := List.mem_filter.1 kept
    rw [tells.removing q member (of_decide_eq_true removes)]
    exact List.mem_append_left _ List.mem_cons_self
  · exact List.mem_append_right _ waits

theorem update (tells : Tells journal v) (u : Update) (raised : Option Event)
    (news : ∀ e ∈ entries, e.IsNews)
    (heard : Journal.given 0 entries = (v.inventory.task? u).toList) :
    Tells (journal ++ .updated u raised :: entries) (v.update u) := by
  have uncalled : calls 0 (.updated u raised :: entries) = [] :=
    List.filterMap_eq_nil_iff.2 <| List.forall_mem_cons.2
      ⟨rfl, fun e member => (news e member).callBy? 0⟩
  have unchanged : Journal.updates entries = [] :=
    List.filterMap_eq_nil_iff.2 fun e member => (news e member).update?
  have untaken : taken 0 (.updated u raised :: entries) = [] :=
    List.filterMap_eq_nil_iff.2 <| List.forall_mem_cons.2
      ⟨rfl, fun e member => (news e member).takenBy? 0⟩
  exact
    { accepted := by
        rw [accepted_append, Journal.accepted, Journal.accepted, uncalled]
        exact (List.append_nil _).trans tells.accepted
      submitted := by
        rw [submitted_append, Journal.submitted, Journal.submitted, uncalled]
        exact (List.append_nil _).trans tells.submitted
      updates := by
        rw [updates_append, tells.updates]
        change v.updates ++ u :: Journal.updates entries = v.updates ++ [u]
        rw [unchanged]
      given := by
        rw [given_append, taken_append, untaken, List.append_nil, tells.given]
        change (_ ++ v.queue) ++ Journal.given 0 entries = _
        rw [heard, List.append_assoc]
        rfl
      removing := by
        intro q due removes
        have unmoved : ∀ e ∈ Entry.updated u raised :: entries, ∀ t, e.inWork 0 t = t :=
          List.forall_mem_cons.2 ⟨fun _ => rfl, fun e member => (news e member).inWork 0⟩
        rw [inWork_append_of_unmoved unmoved]
        exact tells.removing q due removes
      overtaken := by
        rw [overtaken_append]
        apply List.append_subset.2
        constructor
        · exact List.subset_append_of_subset_left _ tells.overtaken
        · apply List.subset_append_of_subset_right
          apply List.subset_append_of_subset_left
          intro o member
          obtain ⟨m, stored, paired⟩ := List.mem_flatMap.1 member
          exact List.mem_flatMap.2 ⟨m, stored, List.map_subset _ tells.removals_subset paired⟩ }

end Tells

/-- The only handler of the controller is at work in calm, and stands as the solo handler does. -/
structure Shows (g : Gate) (l : Leadership) (p : Placement) (s : Controller) (v : Solo) :
    Prop extends Tells s.journal v where
  unfixed : s.fixedPort = none
  uncustomized : s.customPorts = none
  uncrashed : s.crashes = []
  unrefused : s.refusals = []
  hooks : ∀ k ∈ s.hooks, ∀ d ∈ k.actions, d.Mild g l
  leads : g.isLeader s.leadership
  appoint : ∀ leader, s.leadership.appoint leader = l.appoint leader
  handler : ∃ a, s.handlers = [a] ∧ a.gate = g ∧ a.placement = p ∧ a.isOpen = true ∧
    a.worker = .running ∧ a.queue = v.queue
  heard : ∀ e, (s.registry.audience e).count (.handler 0) = 1
  networkIds : ∀ i, (i, .handler 0) ∈ s.registry.networks → i = ListenerKind.network.ownId
  nodeIds : ∀ i, (i, .handler 0) ∈ s.registry.nodes → i = ListenerKind.node.ownId
  inventory : s.inventory = v.inventory

namespace Shows

variable {g : Gate} {l : Leadership} {p : Placement} {s : Controller} {v : Solo}

theorem planningInstalls (shows : Shows g l p s v) (n : Network) (later : List Network) :
    Shows g l p s { v with pairs := v.passOver n .install, later } :=
  { shows with toTells := shows.toTells.planningInstalls n later }

theorem note (shows : Shows g l p s v) {e : Entry} (mute : e.IsMute) :
    Shows g l p (s.note e) v := { shows with toTells := shows.toTells.note mute }

theorem log (shows : Shows g l p s v) {n : Notice} (mute : Entry.IsMute (.log n)) :
    Shows g l p (s.log n) v := shows.note mute

theorem logIdle (shows : Shows g l p s v) (idle : v.pairs = []) (n : Notice) :
    Shows g l p (s.log n) v := by
  cases n with
  | passed network action report =>
    exact { shows with toTells := shows.toTells.report idle network action report }
  | _ => exact shows.log trivial

theorem logSome (shows : Shows g l p s v) (idle : v.pairs = []) (n : Option Notice) :
    Shows g l p (s.logSome n) v := by
  cases n with
  | none => exact shows
  | some n => exact shows.logIdle idle n

theorem afterUpdate (shows : Shows g l p s v) (u : Update) : ∃ a, s.afterUpdate u = [a] ∧
    a.gate = g ∧ a.placement = p ∧ a.isOpen = true ∧ a.worker = .running ∧
    a.queue = v.queue ++ (v.inventory.task? u).toList := by
  obtain ⟨a, alone, gate, placement, isOpen, running, queue⟩ := shows.handler
  have given : v.inventory.task? u = (s.inventory.event? u).bind Event.task? := by
    rw [shows.inventory]
    rfl
  rw [given]
  unfold Controller.afterUpdate
  rw [alone]
  cases s.inventory.event? u with
  | none => exact ⟨a, rfl, gate, placement, isOpen, running, by simpa using queue⟩
  | some e =>
    cases task : e.task? with
    | none =>
      refine ⟨a, Event.foldl_hand_of_none task _ _, gate, placement, isOpen, running, ?_⟩
      simpa [task] using queue
    | some t =>
      refine ⟨_, Event.foldl_hand task isOpen running _, gate, placement, isOpen, running, ?_⟩
      rw [shows.heard, queue]
      simp [task]

theorem update (shows : Shows g l p s v) (u : Update) : Shows g l p (s.update u) (v.update u) := by
  have handler := shows.afterUpdate u
  obtain ⟨schedule, entries, same, news, heard⟩ := Controller.update_spec s u
  have given : Journal.given 0 entries = (v.inventory.task? u).toList := by
    unfold Journal.given Inventory.task?
    rw [heard, ← shows.inventory]
    cases s.inventory.event? u with
    | none => rfl
    | some e =>
      dsimp only
      rw [shows.heard]
      cases task : e.task? <;> simp [task]
  have inventory : s.inventory.update u = v.inventory.update u := by rw [shows.inventory]
  rw [same]
  exact { shows with handler, inventory, toTells := shows.toTells.update u _ news given }

theorem disturb (shows : Shows g l p s v) {d : Disturbance} (mild : d.Mild g l) :
    ∃ us : List Update, Shows g l p (s.disturb d) (us.foldl Solo.update v) := by
  cases d with
  | update u => exact ⟨[u], shows.update u⟩
  | appoint leader =>
    refine ⟨[], ?_⟩
    have appoint (other : Option Member) :
        (s.leadership.appoint leader).appoint other = l.appoint other := by
      rw [← shows.appoint other]
      cases s.leadership <;> rfl
    have leads : g.isLeader (s.leadership.appoint leader) := by
      rw [shows.appoint]
      exact mild
    exact { shows with leads, appoint }
  | refuse device reason => exact mild.elim
  | accept device =>
    refine ⟨[], ?_⟩
    have unrefused : s.refusals.filter (·.1 ≠ device) = [] := by
      rw [shows.unrefused]
      rfl
    exact { shows with unrefused }

theorem disturbAll (shows : Shows g l p s v) {ds : List Disturbance}
    (mild : ∀ d ∈ ds, d.Mild g l) : ∃ us : List Update,
      Shows g l p (ds.foldl Controller.disturb s) (us.foldl Solo.update v) := by
  induction ds generalizing s v with
  | nil => exact ⟨[], shows⟩
  | cons d rest ih =>
    obtain ⟨mild, milder⟩ := List.forall_mem_cons.1 mild
    obtain ⟨us, shows⟩ := shows.disturb mild
    obtain ⟨more, shows⟩ := ih shows milder
    exact ⟨us ++ more, by rwa [List.foldl_append]⟩

theorem fireHooks (shows : Shows g l p s v) : ∃ us : List Update,
    Shows g l p s.fireHooks (us.foldl Solo.update v) := by
  have waiting : Shows g l p { s with hooks := (Hook.countDown s.hooks).1 } v := by
    have hooks (k : Hook) (armed : k ∈ (Hook.countDown s.hooks).1) (d : Disturbance)
        (due : d ∈ k.actions) : d.Mild g l := by
      obtain ⟨before, member, counted⟩ := List.mem_filterMap.1 armed
      split at counted
      · cases counted
      · cases counted
        exact shows.hooks before member d due
    exact { shows with hooks }
  refine waiting.disturbAll fun d due => ?_
  obtain ⟨k, member, action⟩ := List.mem_flatMap.1 due
  exact shows.hooks k (List.mem_of_mem_filter member) d action

theorem enter (shows : Shows g l p s v) (seam : Seam) {c : Call} (accepted : c.accepted? = none)
    (submitted : c.submitted? = none) : ∃ t, s.enter 0 seam c = (t, none) ∧ Shows g l p t v := by
  have entered : Shows g l p (s.note (.call 0 c)) v := shows.note ⟨accepted, submitted⟩
  refine ⟨{ s.note (.call 0 c) with crashes := [] }, ?_, { entered with uncrashed := rfl }⟩
  unfold Controller.enter
  rw [shows.uncrashed]
  rfl

/-- Every request is accepted; updates may come with it. -/
theorem request (shows : Shows g l p s v) (r : Request) : ∃ t, ∃ us : List Update,
    s.request 0 r = (t, .ok ()) ∧
    Shows g l p t (us.foldl Solo.update { v with requests := v.requests ++ [r] }) := by
  let t : Controller := { s.note (.call 0 (.submit r)) with crashes := [] }
  have entered : s.enter 0 .installer (.submit r) = (t, none) := by
    unfold Controller.enter
    rw [shows.uncrashed]
    rfl
  have accepting : Shows g l p (t.note (.call 0 (.accepted r)))
      { v with requests := v.requests ++ [r] } := by
    have journal : (t.note (.call 0 (.accepted r))).journal =
        s.journal ++ [.call 0 (.submit r), .call 0 (.accepted r)] := List.append_assoc ..
    exact { shows with uncrashed := rfl, toTells := journal ▸ shows.toTells.request r }
  obtain ⟨us, fired⟩ := accepting.fireHooks
  have unrefused : t.refusals.lookup r.rule.device = none := by
    change s.refusals.lookup _ = none
    rw [shows.unrefused]
    rfl
  have answer : s.request 0 r =
      (if (t.note (.call 0 (.accepted r))).fireHooks.logsRequests then
        (t.note (.call 0 (.accepted r))).fireHooks.log (.requested r)
      else (t.note (.call 0 (.accepted r))).fireHooks, .ok ()) := by
    unfold Controller.request
    simp only [entered, unrefused]
  refine ⟨_, us, answer, ?_⟩
  split
  · exact fired.log trivial
  · exact fired

theorem buildRule (shows : Shows g l p s v) (n : Network) (x : Node) (owner : Option Node)
    (action : Action) : ∃ t, s.buildRule 0 n x owner =
      (t, (v.rule ⟨n, x, owner, action⟩).mapError .skipped) ∧ Shows g l p t v := by
  have resolver (t : Controller) (shown : Shows g l p t v) :
      synthesize t.resolver n x owner = v.rule ⟨n, x, owner, action⟩ := by
    unfold Controller.resolver Solo.rule
    rw [shown.uncustomized, shown.unfixed, shown.inventory]
  unfold Controller.buildRule
  by_cases owns : x.Owns n
  · exact ⟨s, by rw [if_pos owns, resolver s shows], shows⟩
  · obtain ⟨t, answer, shown⟩ := shows.enter .resolver (c := .read .resolver) rfl rfl
    refine ⟨t, ?_, shown⟩
    rw [if_neg owns, answer]
    simp only [resolver t shown]

/-- One pair of a pass is one move, with the updates that come inside it. -/
theorem settlePair (shows : Shows g l p s v) {n : Network} {x : Node} {owner : Option Node}
    {action : Action} {rest : List Pair} (pairs : v.pairs = ⟨n, x, owner, action⟩ :: rest)
    (report : Report) : ∃ t report' w,
      Controller.settlePair 0 p n owner action (s, report) x = (t, report') ∧
      Solo.Moves p v w ∧ Shows g l p t w ∧ w.pairs = rest ∧ w.later = v.later := by
  obtain ⟨t, built, shown⟩ := shows.buildRule n x owner action
  have planned : Shows g l p t { v with pairs := rest } :=
    { shown with
      removing := fun q left => shown.removing q (pairs ▸ List.mem_cons_of_mem _ left) }
  unfold Controller.settlePair Controller.pair
  cases ruled : v.rule ⟨n, x, owner, action⟩ with
  | error e =>
    rw [ruled] at built
    refine ⟨t.log ((PairFault.skipped e).notice n x action),
      { report with failed := report.failed + 1 }, { v with pairs := rest },
      by simp only [built, Except.mapError], .single (.skip pairs ruled), ?_, rfl, rfl⟩
    exact planned.log trivial
  | ok rule =>
    rw [ruled] at built
    obtain ⟨u, us, asked, done⟩ := planned.request ⟨rule, p, action⟩
    let w : Solo := { v with pairs := rest, requests := v.requests ++ [⟨rule, p, action⟩] }
    obtain ⟨moves, pairs', later⟩ := Solo.foldl_update p w us
    refine ⟨u, { report with applied := report.applied + 1 }, us.foldl Solo.update w, ?_,
      .head (.request pairs ruled) moves, done, pairs', later⟩
    simp only [built, Except.mapError, asked]

theorem settlePairs {n : Network} {owner : Option Node} {action : Action} {nodes : List Node}
    (shows : Shows g l p s v) (pairs : v.pairs = nodes.map fun x => ⟨n, x, owner, action⟩)
    (report : Report) : ∃ t report' w,
      nodes.foldl (Controller.settlePair 0 p n owner action) (s, report) = (t, report') ∧
      Solo.Moves p v w ∧ Shows g l p t w ∧ w.pairs = [] ∧ w.later = v.later := by
  induction nodes generalizing s v report with
  | nil => exact ⟨s, report, v, rfl, .refl, shows, pairs, rfl⟩
  | cons x rest ih =>
    obtain ⟨t, report', w, settled, moves, shown, left, later⟩ := shows.settlePair pairs report
    obtain ⟨u, report'', z, done, more, shown', finished, later'⟩ := ih shown left report'
    refine ⟨u, report'', z, ?_, moves.trans more, shown', finished, later'.trans later⟩
    rw [List.foldl_cons, settled, done]

theorem pass (shows : Shows g l p s v) {n : Network} {action : Action}
    (pairs : v.pairs = v.passOver n action) : ∃ t report w,
      s.pass 0 p n action = (t, .ok report) ∧
      Solo.Moves p v w ∧ Shows g l p t w ∧ w.pairs = [] ∧ w.later = v.later := by
  obtain ⟨t, listed, shown⟩ := shows.enter .completeNodes (c := .read .completeNodes) rfl rfl
  obtain ⟨u, found, shown'⟩ := shown.enter .node (c := .read .node) rfl rfl
  have same : v.pairs = t.inventory.completeNodes.map
      fun x => ⟨n, x, u.inventory.node? n.name, action⟩ := by
    rw [pairs, shown.inventory, shown'.inventory]
    rfl
  obtain ⟨z, report, w, settled, moves, done, finished, later⟩ := shown'.settlePairs same ⟨0, 0⟩
  refine ⟨z.log (.passed n.name action report), report, w, ?_, moves,
    done.logIdle finished _, finished, later⟩
  unfold Controller.pass
  simp only [listed, found, settled]

theorem passEach (shows : Shows g l p s v) (idle : v.pairs = []) : ∃ t w,
    Controller.passEach 0 p s v.later = (t, none) ∧
    Solo.Moves p v w ∧ Shows g l p t w ∧ w.pairs = [] ∧ w.later = [] := by
  generalize networks : v.later = later
  induction later generalizing s v with
  | nil => exact ⟨s, v, rfl, .refl, shows, idle, networks⟩
  | cons n rest ih =>
    have planned := shows.planningInstalls n rest
    obtain ⟨t, report, w, passed, moves, shown, finished, later⟩ := planned.pass (n := n) rfl
    obtain ⟨u, z, done, more, shown', finished', free⟩ := ih shown finished later
    refine ⟨u, z, ?_, (moves.trans more).head (.next idle networks), shown', finished', free⟩
    simp only [Controller.passEach, passed, done]

/-- A task that has been begun is worked off to its end. -/
theorem perform {t : Task} (shows : Shows g l p s (v.begin t)) (idle : v.pairs = [])
    (free : v.later = []) : ∃ u w, s.perform 0 p t = (u, none) ∧ Solo.Moves p (v.begin t) w ∧
      Shows g l p u w ∧ w.pairs = [] ∧ w.later = [] := by
  cases t with
  | install n =>
    obtain ⟨u, report, w, passed, moves, shown, finished, later⟩ := shows.pass (n := n) rfl
    exact ⟨u, w, by simp only [Controller.perform, passed], moves, shown, finished,
      later.trans free⟩
  | uninstall n =>
    obtain ⟨u, report, w, passed, moves, shown, finished, later⟩ := shows.pass (n := n) rfl
    exact ⟨u, w, by simp only [Controller.perform, passed], moves, shown, finished,
      later.trans free⟩
  | backfill x =>
    obtain ⟨t, listed, shown⟩ := shows.enter .networks (c := .read .networks) rfl rfl
    obtain ⟨u, w, passed, moves, shown', finished, later⟩ := shown.passEach idle
    refine ⟨u, w, ?_, moves, shown', finished, later⟩
    simp only [Controller.perform, listed]
    rw [shown.inventory]
    exact passed

/-- A turn of the worker is the moves of one task, if there is one. -/
theorem work (shows : Shows g l p s v) (idle : v.pairs = []) (free : v.later = []) (h : Nat) :
    ∃ w, Solo.Moves p v w ∧ Shows g l p (s.work h) w ∧ w.pairs = [] ∧ w.later = [] := by
  obtain ⟨a, alone, gate, placement, isOpen, running, queue⟩ := shows.handler
  have untouched (same : s.work h = s) :
      ∃ w, Solo.Moves p v w ∧ Shows g l p (s.work h) w ∧ w.pairs = [] ∧ w.later = [] :=
    ⟨v, .refl, by rwa [same], idle, free⟩
  cases h with
  | succ h => exact untouched (by simp [Controller.work, alone])
  | zero =>
    have present : s.handlers[0]? = some a := by simp [alone]
    cases tasks : v.queue with
    | nil =>
      rw [tasks] at queue
      exact untouched (by simp [Controller.work, present, queue, Controller.endWork, isOpen])
    | cons t rest =>
      rw [tasks] at queue
      have taken : Shows g l p (s.take 0 t rest) ({ v with queue := rest }.begin t) := by
        have handler : ∃ b, (s.take 0 t rest).handlers = [b] ∧ b.gate = g ∧ b.placement = p ∧
            b.isOpen = true ∧ b.worker = .running ∧
            b.queue = ({ v with queue := rest }.begin t).queue :=
          ⟨{ a with queue := rest }, by simp [Controller.take, Controller.modifyHandler,
            Controller.note, alone], gate, placement, isOpen, running, by cases t <;> rfl⟩
        have inventory : s.inventory = ({ v with queue := rest }.begin t).inventory := by
          rw [shows.inventory]
          cases t <;> rfl
        exact { shows with handler, inventory, toTells := shows.toTells.take idle tasks }
      have announced : Shows g l p ((s.take 0 t rest).announce t)
          ({ v with queue := rest }.begin t) := by
        cases t with
        | backfill x => exact taken.log trivial
        | install n | uninstall n => exact taken
      obtain ⟨asked, answer, shown⟩ := announced.enter .leader (c := .leader g.topic
        ((s.take 0 t rest).leadership.leader g.topic)) rfl rfl
      obtain ⟨u, w, performed, moves, done, finished, later⟩ := shown.perform idle free
      have processed : (s.take 0 t rest).process 0 a.gate a.placement t = (u, none) := by
        have question : (s.take 0 t rest).asked 0 g t = (asked, none) := answer
        rw [gate, placement, Controller.process_of_leader p (by rw [question]) taken.leads,
          question]
        exact performed
      refine ⟨w, moves.head (.take idle free tasks), ?_, finished, later⟩
      rw [Controller.work_of_task present queue, processed]
      exact done

theorem reregister (shows : Shows g l p s v) (registry : Registry)
    (heard : ∀ e, (registry.audience e).count (.handler 0) =
      (s.registry.audience e).count (.handler 0))
    (networkIds : ∀ i, (i, .handler 0) ∈ registry.networks → (i, .handler 0) ∈ s.registry.networks)
    (nodeIds : ∀ i, (i, .handler 0) ∈ registry.nodes → (i, .handler 0) ∈ s.registry.nodes) :
    Shows g l p { s with registry } v :=
  { shows with
    heard := fun e => (heard e).trans (shows.heard e)
    networkIds := fun i member => shows.networkIds i (networkIds i member)
    nodeIds := fun i member => shows.nodeIds i (nodeIds i member) }

theorem listen (shows : Shows g l p s v) (kind : ListenerKind) (label : String) :
    Shows g l p (s.act (.listen kind label)) v := by
  refine shows.reregister _ (fun e => ?_) (fun i member => ?_) (fun i member => ?_)
  · cases kind <;> cases e <;> simp [Registry.add, Registry.audience, List.count_append]
  · cases kind <;> simpa [Registry.add] using member
  · cases kind <;> simpa [Registry.add] using member

theorem unlisten (shows : Shows g l p s v) {kind : ListenerKind} {id : Nat}
    (other : id ≠ kind.ownId) : Shows g l p (s.act (.unlisten kind id)) v := by
  refine shows.reregister _ (fun e => ?_) (fun i member => ?_) (fun i member => ?_)
  · cases kind <;> cases e <;> first
      | rfl
      | exact Registry.count_filter fun i member same =>
          other (same.symm.trans (shows.networkIds i member))
      | exact Registry.count_filter fun i member same =>
          other (same.symm.trans (shows.nodeIds i member))
  · cases kind <;> first | exact member | exact List.mem_of_mem_filter member
  · cases kind <;> first | exact member | exact List.mem_of_mem_filter member

theorem act (shows : Shows g l p s v) (idle : v.pairs = []) (free : v.later = []) {act : Act}
    (mild : act.Mild g l) :
    ∃ w, Solo.Moves p v w ∧ Shows g l p (s.act act) w ∧ w.pairs = [] ∧ w.later = [] := by
  cases act with
  | log n => exact ⟨v, .refl, shows.logIdle idle n, idle, free⟩
  | disturb d =>
    obtain ⟨us, shown⟩ := shows.disturb mild
    obtain ⟨moves, pairs, later⟩ := Solo.foldl_update p v us
    exact ⟨_, moves, shown, pairs.trans idle, later.trans free⟩
  | arrange schedule => exact ⟨v, .refl, { shows with }, idle, free⟩
  | armHook hook =>
    have hooks : ∀ k ∈ s.hooks ++ [hook], ∀ d ∈ k.actions, d.Mild g l :=
      List.forall_mem_append.2 ⟨shows.hooks, List.forall_mem_singleton.2 mild⟩
    exact ⟨v, .refl, { shows with hooks }, idle, free⟩
  | listen kind label => exact ⟨v, .refl, shows.listen kind label, idle, free⟩
  | unlisten kind id => exact ⟨v, .refl, shows.unlisten mild, idle, free⟩
  | work h => exact shows.work idle free h
  | armCrash _ | enroll _ _ _ | stand _ _ | close _ | withdraw _ _ | loseWorkers
  | reconcile _ _ _ => exact mild.elim

end Shows

namespace Controller

variable (leadership : Leadership) (keepsListeners logsRequests : Bool) (label : String)
  (self : Member) (p : Placement)

/-- A controller with one handler, which has just begun with nodes in the inventory and no
networks. -/
def begunAmong (nodes : Catalog Node) : Controller :=
  { start leadership none keepsListeners logsRequests with
    inventory := ⟨∅, nodes⟩ }.activate label self p

theorem shows_begunAmong (nodes : Catalog Node)
    (leads : Gate.isLeader ⟨self, p.app⟩ (leadership.run p.app).1) :
    Shows ⟨self, p.app⟩ (leadership.run p.app).1 p
      (begunAmong leadership keepsListeners logsRequests label self p nodes) (.among nodes) := by
  have enrolled : Shows ⟨self, p.app⟩ (leadership.run p.app).1 p
      { ({ start leadership none keepsListeners logsRequests with
          inventory := ⟨∅, nodes⟩ }.enroll label self p) with
        leadership := (leadership.run p.app).1 } (.among nodes) :=
    { unfixed := rfl
      uncustomized := rfl
      uncrashed := rfl
      unrefused := rfl
      hooks := List.forall_mem_nil _
      leads
      appoint := fun _ => rfl
      handler := ⟨_, rfl, rfl, rfl, rfl, rfl, rfl⟩
      heard := fun e => by cases e <;> rfl
      networkIds := by
        simp [enroll, Registry.add, start, initial, Registry.empty, ListenerKind.ownId]
      nodeIds := by
        simp [enroll, Registry.add, start, initial, Registry.empty, ListenerKind.ownId]
      inventory := rfl
      accepted := rfl
      submitted := rfl
      updates := rfl
      given := rfl
      removing := List.forall_mem_nil _
      overtaken := List.nil_subset _ }
  have stood := enrolled.note (e := .call 0 (.run p.app)) ⟨rfl, rfl⟩
  exact (stood.logSome rfl _).log trivial

/-- A calm run goes where the handler can go on its own. -/
theorem run_shows_among (nodes : Catalog Node)
    (leads : Gate.isLeader ⟨self, p.app⟩ (leadership.run p.app).1) (steps : List Step)
    (mild : ∀ step ∈ steps, step.Mild ⟨self, p.app⟩ (leadership.run p.app).1) : ∃ v,
    Solo.Moves p (.among nodes) v ∧
    Shows ⟨self, p.app⟩ (leadership.run p.app).1 p
      ((begunAmong leadership keepsListeners logsRequests label self p nodes).run steps) v ∧
    v.pairs = [] ∧ v.later = [] := by
  have keep (s : Controller) (act : Act) (mild : act.Mild ⟨self, p.app⟩ (leadership.run p.app).1)
      (before : ∃ v, Solo.Moves p (.among nodes) v ∧
        Shows ⟨self, p.app⟩ (leadership.run p.app).1 p s v ∧ v.pairs = [] ∧ v.later = []) :
      ∃ v, Solo.Moves p (.among nodes) v ∧
        Shows ⟨self, p.app⟩ (leadership.run p.app).1 p (s.act act) v ∧
        v.pairs = [] ∧ v.later = [] := by
    obtain ⟨v, moves, shows, idle, free⟩ := before
    obtain ⟨w, more, shown, idle', free'⟩ := shows.act idle free mild
    exact ⟨w, moves.trans more, shown, idle', free'⟩
  exact (run_acts _ steps fun step member act ok => (mild step member).acts ok).keeps keep
    ⟨.among nodes, .refl,
      shows_begunAmong leadership keepsListeners logsRequests label self p nodes leads, rfl, rfl⟩

def begun : Controller := (start leadership none keepsListeners logsRequests).activate label self p

theorem run_shows (leads : Gate.isLeader ⟨self, p.app⟩ (leadership.run p.app).1)
    (steps : List Step)
    (mild : ∀ step ∈ steps, step.Mild ⟨self, p.app⟩ (leadership.run p.app).1) : ∃ v,
    Solo.Moves p .empty v ∧
    Shows ⟨self, p.app⟩ (leadership.run p.app).1 p
      ((begun leadership keepsListeners logsRequests label self p).run steps) v ∧
    v.pairs = [] ∧ v.later = [] :=
  run_shows_among leadership keepsListeners logsRequests label self p ∅ leads steps mild

end Controller
end GatewayRules
