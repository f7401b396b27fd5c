import GatewayRules.Proofs.Calm
import GatewayRules.Proofs.Current
import GatewayRules.Proofs.Replay

/-!
No rule is missing. Whatever happens to networks, the rule of a stored network on a complete node is
in place, or the queue holds a task that will put it there and no later one that could take it away.
-/
namespace GatewayRules

/-- A task that puts all rules of a network in place. -/
def Task.Renews (n : Network) : Task → Prop
  | .install m => m = n
  | .backfill _ => True
  | .uninstall _ => False

/-- A task that could take rules of a network away. -/
def Task.Threatens (n : Network) : Task → Prop
  | .uninstall m => m.id = n.id
  | .install _ | .backfill _ => False

def Safe (n : Network) (queue : List Task) : Prop := ∀ t ∈ queue, ¬t.Threatens n

/-- A waiting task will put the rules of the network in place, and no later one could take them
away. -/
inductive Covered (n : Network) : List Task → Prop where
  | here {t : Task} {rest : List Task} : t.Renews n → Safe n rest → Covered n (t :: rest)
  | later {t : Task} {rest : List Task} : Covered n rest → Covered n (t :: rest)

namespace Covered

variable {n : Network} {queue : List Task} {t : Task}

theorem append (covered : Covered n queue) (harmless : ¬t.Threatens n) :
    Covered n (queue ++ [t]) := by
  induction covered with
  | here renews safe =>
    exact .here renews (List.forall_mem_append.2 ⟨safe, List.forall_mem_singleton.2 harmless⟩)
  | later _ ih => exact .later ih

theorem of_renews (queue : List Task) (renews : t.Renews n) : Covered n (queue ++ [t]) := by
  induction queue with
  | nil => exact .here renews (List.forall_mem_nil _)
  | cons s rest ih => exact .later ih

theorem not_nil (covered : Covered n []) : False := by cases covered

end Covered

theorem nodup_append_last {α : Type} {record : Update → Option α} {name : α → String}
    {updates : List Update} {u : Update}
    (once : (((updates ++ [u]).filterMap record).map name).Nodup) :
    ((updates.filterMap record).map name).Nodup ∧
    ∀ e ∈ updates, ∀ r r', record e = some r → record u = some r' → name r ≠ name r' := by
  rw [List.filterMap_append, List.map_append, List.nodup_append] at once
  obtain ⟨earlier, -, apart⟩ := once
  refine ⟨earlier, fun e member r r' first last => ?_⟩
  refine apart _ (List.mem_map_of_mem (List.mem_filterMap.2 ⟨e, member, first⟩)) _ ?_
  simp [last]

/-- Updates that keep every node, complete, as it was stored, and every gateway to one network if
networks are removed. -/
structure Orderly (updates : List Update) : Prop where
  kept : ∀ hostname, .removeNode hostname ∉ updates
  complete : ∀ x, .upsertNode x ∈ updates → x.isComplete
  hostnames : ((updates.filterMap Update.node?).map Node.hostname).Nodup
  apart : (∃ id, .removeNetwork id ∈ updates) → ∀ n m, .upsertNetwork n ∈ updates →
    .upsertNetwork m ∈ updates → n.gateway = m.gateway → n.id = m.id

namespace Orderly

variable {updates : List Update} {u : Update}

theorem before (orderly : Orderly (updates ++ [u])) : Orderly updates := by
  have kept {e : Update} : e ∈ updates → e ∈ updates ++ [u] := List.mem_append_left [u]
  refine ⟨fun hostname removed => orderly.kept hostname (kept removed),
    fun x upserted => orderly.complete x (kept upserted),
    (nodup_append_last orderly.hostnames).1, ?_⟩
  rintro ⟨id, removed⟩ n m first second
  exact orderly.apart ⟨id, kept removed⟩ n m (kept first) (kept second)

theorem before_move {p : Placement} {v w : Solo} (orderly : Orderly w.updates)
    (m : Solo.Move p v w) : Orderly v.updates := by
  rcases m.updates with same | ⟨u, same⟩
  · rwa [same] at orderly
  · rw [same] at orderly
    exact orderly.before

theorem fresh {x y : Node} (orderly : Orderly (updates ++ [.upsertNode x]))
    (upserted : .upsertNode y ∈ updates) : y.hostname ≠ x.hostname :=
  (nodup_append_last orderly.hostnames).2 _ upserted y x rfl rfl

end Orderly

/-- No node that comes has the name of one that has been known from the beginning. -/
def Newcomers (known : Catalog Node) (updates : List Update) : Prop :=
  ∀ x, .upsertNode x ∈ updates → ∀ y ∈ known, y.hostname ≠ x.hostname

theorem Newcomers.before_move {known : Catalog Node} {p : Placement} {v w : Solo}
    (newcomers : Newcomers known w.updates) (m : Solo.Move p v w) :
    Newcomers known v.updates :=
  fun x upserted => newcomers x (m.updates_subset upserted)

namespace Solo

/-- The rule is in place or will be before the present task ends, and nothing known could take it
away. -/
structure Settled (p : Placement) (v : Solo) (n : Network) (x : Node) (rule : Rule) : Prop where
  safe : Safe n v.queue
  unthreatened : ∀ q ∈ v.pairs, q.action = .remove → q.network.id ≠ n.id
  due : (rule, p.priority, p.table) ∈ replay v.requests ∨ n ∈ v.later ∨
    ⟨n, x, v.inventory.node? n.name, .install⟩ ∈ v.pairs

/-- Every rule that should be in place is, or will be. -/
def Present (p : Placement) (v : Solo) : Prop :=
  ∀ n x rule, v.inventory.Current n x rule → Covered n v.queue ∨ Settled p v n x rule

namespace Present

variable {known : Catalog Node} {p : Placement} {v w : Solo}

theorem harmless {n : Network} {x : Node} {rule : Rule} {u : Update}
    (secure : Covered n v.queue ∨ Settled p v n x rule)
    (harmless : ∀ t, v.inventory.task? u = some t → ¬t.Threatens n)
    (owner : (v.inventory.update u).node? n.name = v.inventory.node? n.name) :
    Covered n (v.update u).queue ∨ Settled p (v.update u) n x rule := by
  refine secure.imp (fun covered => ?_) fun settled => ⟨?_, settled.unthreatened, ?_⟩
  · change Covered n (v.queue ++ (v.inventory.task? u).toList)
    cases given : v.inventory.task? u with
    | none => simpa using covered
    | some t => exact covered.append (harmless t given)
  · exact List.forall_mem_append.2
      ⟨settled.safe, fun t given => harmless t (Option.mem_toList.1 given)⟩
  · change _ ∨ _ ∨ ⟨n, x, (v.inventory.update u).node? n.name, .install⟩ ∈ v.pairs
    rw [owner]
    exact settled.due

theorem update (present : Present p v) (filed : Filed known v) {u : Update}
    (orderly : Orderly (v.updates ++ [u])) (newcomers : Newcomers known (v.updates ++ [u])) :
    Present p (v.update u) := by
  intro n x rule cur
  cases u with
  | upsertNetwork m =>
    by_cases stored : m ∈ v.inventory.networks
    · refine harmless (present n x rule (cur.of_upsertNetwork_stored stored)) ?_ rfl
      simp [Inventory.task?_upsertNetwork_of_stored stored]
    · have given := Inventory.task?_upsertNetwork_of_new stored
      by_cases same : n = m
      · left
        change Covered n (v.queue ++ (v.inventory.task? (.upsertNetwork m)).toList)
        rw [given]
        exact .of_renews v.queue same.symm
      · refine harmless (present n x rule (cur.of_upsertNetwork same)) ?_ rfl
        rw [given]
        rintro t ⟨⟩
        exact id
  | removeNetwork id =>
    obtain ⟨before, other⟩ := cur.of_removeNetwork
    refine harmless (present n x rule before) ?_ rfl
    rw [Inventory.task?_removeNetwork]
    intro t given threatens
    obtain ⟨m, found, rfl⟩ := Option.map_eq_some_iff.1 given
    exact other (threatens.symm.trans (Inventory.network?_eq_some_iff.1 found).2)
  | upsertNode y =>
    left
    have last : .upsertNode y ∈ v.updates ++ [.upsertNode y] :=
      List.mem_append_right _ List.mem_cons_self
    have new : ∀ z ∈ v.inventory.nodes, z.hostname ≠ y.hostname := fun z stored =>
      (filed.nodes z stored).elim (newcomers y last z) orderly.fresh
    have complete := orderly.complete y last
    change Covered n (v.queue ++ (v.inventory.task? (.upsertNode y)).toList)
    rw [Inventory.task?_upsertNode_of_new new complete]
    exact .of_renews v.queue trivial
  | removeNode hostname =>
    exact (orderly.kept hostname (List.mem_append_right _ List.mem_cons_self)).elim

theorem install_of_mem_passOver {n m : Network} {q : Pair} (due : q ∈ v.passOver m .install) :
    q.action = .remove → q.network.id ≠ n.id :=
  fun removes => absurd removes (not_remove_of_mem_passOver due)

/-- A task that is taken up renews rules, or leaves alone those that no later task renews. -/
theorem take (present : Present p v) (idle : v.pairs = []) (free : v.later = []) {t : Task}
    {rest : List Task} (queue : v.queue = t :: rest) :
    Present p ({ v with queue := rest }.begin t) := by
  intro n x rule cur
  have before : v.inventory.Current n x rule := by cases t <;> exact cur
  rcases present n x rule before with covered | settled
  · rw [queue] at covered
    cases covered with
    | later covered => exact .inl (by cases t <;> exact covered)
    | here renews safe =>
      right
      cases t with
      | install m =>
        obtain rfl : m = n := renews
        refine ⟨safe, fun q => install_of_mem_passOver, .inr (.inr ?_)⟩
        exact mem_passOver.2 ⟨x, before.node, rfl⟩
      | uninstall m => exact renews.elim
      | backfill y =>
        refine ⟨safe, ?_, .inr (.inl before.network)⟩
        intro q due
        have none : q ∈ ([] : List Pair) := idle ▸ due
        cases none
  · have safe : Safe n rest := fun s waits => settled.safe s (queue ▸ List.mem_cons_of_mem t waits)
    have harmless : ¬t.Threatens n := settled.safe t (queue ▸ List.mem_cons_self)
    have inPlace : (rule, p.priority, p.table) ∈ replay v.requests := by
      have due := settled.due
      rw [idle, free] at due
      simpa using due
    right
    cases t with
    | install m => exact ⟨safe, fun q => install_of_mem_passOver, .inl inPlace⟩
    | uninstall m =>
      refine ⟨safe, fun q due _ same => ?_, .inl inPlace⟩
      obtain ⟨y, -, rfl⟩ := mem_passOver.1 due
      exact harmless same
    | backfill y => exact ⟨safe, settled.unthreatened, .inl inPlace⟩

theorem next (present : Present p v) (idle : v.pairs = []) {m : Network} {rest : List Network}
    (later : v.later = m :: rest) :
    Present p { v with pairs := v.passOver m .install, later := rest } := by
  intro n x rule cur
  refine (present n x rule cur).imp_right fun settled => ?_
  refine ⟨settled.safe, fun q => install_of_mem_passOver, ?_⟩
  have due := settled.due
  rw [idle, later, List.mem_cons] at due
  rcases due with inPlace | (rfl | waits) | planned
  · exact .inl inPlace
  · exact .inr (.inr (mem_passOver.2 ⟨x, cur.node, rfl⟩))
  · exact .inr (.inl waits)
  · cases planned

theorem skip (present : Present p v) {q : Pair} {rest : List Pair} {error : RuleError}
    (pairs : v.pairs = q :: rest) (fails : v.rule q = .error error) :
    Present p { v with pairs := rest } := by
  intro n x rule cur
  refine (present n x rule cur).imp_right fun settled => ?_
  have unthreatened (r : Pair) (due : r ∈ rest) : r.action = .remove → r.network.id ≠ n.id :=
    settled.unthreatened r (pairs ▸ List.mem_cons_of_mem q due)
  refine ⟨settled.safe, unthreatened, ?_⟩
  have due := settled.due
  rw [pairs, List.mem_cons] at due
  rcases due with inPlace | waits | rfl | planned
  · exact .inl inPlace
  · exact .inr (.inl waits)
  · -- a current rule does not fail
    cases fails.symm.trans cur.built
  · exact .inr (.inr planned)

theorem request (present : Present p v) (filed : Filed known v) (orderly : Orderly v.updates) {q : Pair}
    {rest : List Pair} {made : Rule} (pairs : v.pairs = q :: rest) (built : v.rule q = .ok made) :
    Present p { v with pairs := rest, requests := v.requests ++ [⟨made, p, q.action⟩] } := by
  intro n x rule cur
  refine (present n x rule cur).imp_right fun settled => ?_
  have unthreatened (r : Pair) (due : r ∈ rest) : r.action = .remove → r.network.id ≠ n.id :=
    settled.unthreatened r (pairs ▸ List.mem_cons_of_mem q due)
  refine ⟨settled.safe, unthreatened, ?_⟩
  change (rule, p.priority, p.table) ∈ replay (v.requests ++ [⟨made, p, q.action⟩]) ∨ _
  have due := settled.due
  rw [pairs, List.mem_cons] at due
  cases action : q.action with
  | install =>
    rw [replay_append_install]
    rcases due with inPlace | waits | same | planned
    · exact .inl (Finset.mem_insert_of_mem inPlace)
    · exact .inr (.inl waits)
    · have equal : made = rule := by
        rw [← same] at built
        exact Except.ok.inj (built.symm.trans cur.built)
      exact .inl (equal ▸ Finset.mem_insert_self _ _)
    · exact .inr (.inr planned)
  | remove =>
    rw [replay_append_remove]
    rcases due with inPlace | waits | same | planned
    · -- the rule that goes is for the gateway of another network
      refine .inl (Finset.mem_erase.2 ⟨fun same => ?_, inPlace⟩)
      have head : q ∈ v.pairs := pairs ▸ List.mem_cons_self
      obtain ⟨upserted, removed⟩ := filed.removals q head action
      have selectors : n.selector = q.network.selector := by
        rw [← selector_of_synthesize cur.built, ← selector_of_synthesize built]
        exact congrArg (fun key => key.1.selector) same
      have gateways : n.gateway = q.network.gateway :=
        congrArg (fun s : Selector => s.destination.address) selectors
      exact settled.unthreatened q head action
        (orderly.apart removed n q.network (filed.networks n cur.network) upserted gateways).symm
    · exact .inr (.inl waits)
    · rw [← same] at action
      cases action
    · exact .inr (.inr planned)

theorem move (present : Present p v) (filed : Filed known v) (m : Move p v w)
    (orderly : Orderly w.updates) (newcomers : Newcomers known w.updates) : Present p w := by
  cases m with
  | update u => exact present.update filed orderly newcomers
  | take idle free queue => exact present.take idle free queue
  | next idle later => exact present.next idle later
  | skip pairs fails => exact present.skip pairs fails
  | request pairs built => exact present.request filed orderly pairs built

end Present

/-- Wherever the handler comes to, no rule is missing for which no task waits. -/
theorem Moves.present_among {known : Catalog Node} {p : Placement} {v : Solo}
    (moves : Moves p (.among known) v) (orderly : Orderly v.updates)
    (newcomers : Newcomers known v.updates) : Present p v := by
  induction moves with
  | refl => exact fun n x rule cur => absurd cur.network List.not_mem_nil
  | tail earlier m ih =>
    exact (ih (orderly.before_move m) (newcomers.before_move m)).move (Moves.filed earlier) m
      orderly newcomers

theorem Moves.present {p : Placement} {v : Solo} (moves : Moves p .empty v)
    (orderly : Orderly v.updates) : Present p v := by
  have newcomers : Newcomers ∅ v.updates := fun _ _ _ stored => absurd stored List.not_mem_nil
  exact Moves.present_among moves orderly newcomers

/-- When all work is done, every rule that should be in place is. -/
theorem Present.done {p : Placement} {v : Solo} (present : Present p v) (queue : v.queue = [])
    (idle : v.pairs = []) (free : v.later = []) {n : Network} {x : Node} {rule : Rule}
    (cur : v.inventory.Current n x rule) :
    (rule, p.priority, p.table) ∈ replay v.requests := by
  rcases present n x rule cur with covered | settled
  · exact (queue ▸ covered).not_nil.elim
  · have due := settled.due
    rw [idle, free] at due
    simpa using due

end Solo

open Journal

theorem Shows.queue_eq_nil {g : Gate} {l : Leadership} {p : Placement} {s : Controller} {v : Solo}
    (shows : Shows g l p s v) (idle : ∀ a, s.handlers[0]? = some a → a.queue = []) :
    v.queue = [] := by
  obtain ⟨a, alone, -, -, -, -, queue⟩ := shows.handler
  rw [← queue]
  exact idle a (by simp [alone])

theorem Controller.idle_of_queue {s : Controller}
    (emptied : (s.handlers[0]?).map Handler.queue = some []) :
    ∀ a, s.handlers[0]? = some a → a.queue = [] := by
  intro a present
  rw [present] at emptied
  exact Option.some.inj emptied

/-- Networks come, change and go; nodes come once and complete, and no gateway is ever used by two
networks. -/
structure Churning (updates : List Update) : Prop where
  kept : ∀ hostname, .removeNode hostname ∉ updates
  complete : ∀ x, .upsertNode x ∈ updates → x.isComplete
  hostnames : ((updates.filterMap Update.node?).map Node.hostname).Nodup
  apart : ∀ n m, .upsertNetwork n ∈ updates → .upsertNetwork m ∈ updates →
    n.gateway = m.gateway → n.id = m.id

namespace Controller

/-- No rule is missing under network churn. One handler leads from its beginning in an empty
inventory, the installer accepts everything and nothing breaks off. Whatever order updates and turns
of the worker come in, also with updates from inside the installer, once the queue is empty the
accepted requests leave in place every rule that the inventory calls for. -/
theorem no_rule_missing (leadership : Leadership) (keepsListeners logsRequests : Bool)
    (label : String) (self : Member) (p : Placement) (steps : List Step)
    (leads : Gate.isLeader ⟨self, p.app⟩ (leadership.run p.app).1)
    (mild : ∀ step ∈ steps, step.Mild ⟨self, p.app⟩ (leadership.run p.app).1) :
    let s := (start leadership none keepsListeners logsRequests).run
      (.activate label self p :: steps)
    Churning (updates s.journal) → (∀ a, s.handlers[0]? = some a → a.queue = []) →
    ∀ n ∈ s.inventory.networks, ∀ x ∈ s.inventory.completeNodes, ∀ rule,
      synthesize (.byEncapsulation s.inventory) n x (s.inventory.node? n.name) = .ok rule →
      (rule, p.priority, p.table) ∈ replay (accepted 0 s.journal) := by
  intro s churning idle n stored x complete rule built
  obtain ⟨v, moves, shows, done, free⟩ :=
    run_shows leadership keepsListeners logsRequests label self p leads steps mild
  change Shows _ _ p s v at shows
  have orderly : Orderly v.updates := by
    rw [← shows.updates]
    exact ⟨churning.kept, churning.complete, churning.hostnames, fun _ => churning.apart⟩
  have cur : v.inventory.Current n x rule := shows.inventory ▸ ⟨stored, complete, built⟩
  rw [shows.accepted]
  exact (moves.present orderly).done (shows.queue_eq_nil idle) done free cur

/-- A network that is removed and made again with another encapsulation, both inside the installer
call for its owner, has its rule for the new encapsulation in the end. -/
theorem no_rule_missing_recreated :
    let l : Leadership := .appointed (some ⟨"a"⟩)
    let n : Network := ⟨"host", "blue", .vxlan, default, none⟩
    let x : Node := ⟨"host", ⟨"br1"⟩, default, default, .complete, .none⟩
    let y : Node := ⟨"other", ⟨"br2"⟩, default, default, .complete, ⟨some ⟨1⟩, some ⟨2⟩, none⟩⟩
    let steps : List Step := [.disturb (.update (.upsertNetwork n)),
      .disturb (.update (.upsertNode y)),
      .armHook ⟨0, [.update (.removeNetwork "blue"),
        .update (.upsertNetwork { n with encapsulation := .gre })]⟩,
      .disturb (.update (.upsertNode x)), .drain]
    let s := (start l none false false).run
      (.activate "one" ⟨"a"⟩ .default :: steps)
    Gate.isLeader ⟨⟨"a"⟩, Placement.default.app⟩ (l.run Placement.default.app).1 ∧
      (∀ step ∈ steps, step.Mild ⟨⟨"a"⟩, Placement.default.app⟩ (l.run Placement.default.app).1) ∧
      Churning (updates s.journal) ∧ (∀ a, s.handlers[0]? = some a → a.queue = []) ∧
      (⟨⟨"br2"⟩, n.selector, ⟨[.tunnelTo ⟨"br2"⟩ default, .output ⟨2⟩]⟩⟩,
        Placement.default.priority, Placement.default.table) ∈ replay (accepted 0 s.journal) := by
  intro l n x y steps s
  have leads : Gate.isLeader ⟨⟨"a"⟩, Placement.default.app⟩ (l.run Placement.default.app).1 := by
    decide
  have mild : ∀ step ∈ steps,
      step.Mild ⟨⟨"a"⟩, Placement.default.app⟩ (l.run Placement.default.app).1 := by
    simp [steps, Step.Mild, Disturbance.Mild]
  have changes : updates s.journal = [.upsertNetwork n, .upsertNode y, .upsertNode x,
      .removeNetwork "blue", .upsertNetwork { n with encapsulation := .gre }] := by decide
  have churning : Churning (updates s.journal) := by
    rw [changes]
    refine ⟨by simp, by simp [x, y, Node.isComplete], by decide, fun m m' first second _ => ?_⟩
    have one (m : Network) (upserted : .upsertNetwork m ∈ ([.upsertNetwork n, .upsertNode y,
        .upsertNode x, .removeNetwork "blue",
        .upsertNetwork { n with encapsulation := .gre }] : List Update)) : m.id = "blue" := by
      rcases (by simpa using upserted : m = n ∨ m = { n with encapsulation := .gre }) with rfl | rfl
      · rfl
      · rfl
    rw [one m first, one m' second]
  have idle : ∀ a, s.handlers[0]? = some a → a.queue = [] := idle_of_queue (by decide)
  refine ⟨leads, mild, churning, idle, ?_⟩
  have stored : { n with encapsulation := .gre } ∈ s.inventory.networks := by
    have all : s.inventory.networks.toList = [{ n with encapsulation := .gre }] := by decide
    rw [← Catalog.mem_toList, all]
    exact List.mem_cons_self
  have complete : y ∈ s.inventory.completeNodes := by
    have all : s.inventory.completeNodes = [x, y] := by decide
    rw [all]
    exact List.mem_cons_of_mem x List.mem_cons_self
  have built : synthesize (.byEncapsulation s.inventory) { n with encapsulation := .gre } y
      (s.inventory.node? n.name) =
        .ok ⟨⟨"br2"⟩, n.selector, ⟨[.tunnelTo ⟨"br2"⟩ default, .output ⟨2⟩]⟩⟩ := by decide
  -- the run itself is not to be evaluated any more
  clear_value steps
  exact no_rule_missing l false false "one" ⟨"a"⟩ .default steps leads mild churning idle
    _ stored y complete _ built

end Controller
end GatewayRules
