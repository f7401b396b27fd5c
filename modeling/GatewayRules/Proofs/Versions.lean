import GatewayRules.Proofs.Steady

/-!
Networks that come and change. A change is answered by an installation and never by a removal, so
what earlier versions of a network have called for stays in place.
-/
namespace GatewayRules
open Journal

/-- Networks come and change, and no gateway is ever used by two identifiers. -/
structure Evolving (updates : List Update) : Prop where
  comes : ∀ u ∈ updates, ∃ n, u = .upsertNetwork n
  apart : Apart updates

namespace Evolving

variable {updates : List Update}

theorem only (evolving : Evolving updates) : NetworksOnly updates :=
  fun u member => .inl (evolving.comes u member)

theorem kept (evolving : Evolving updates) (id : String) : .removeNetwork id ∉ updates := by
  intro removed
  obtain ⟨n, same⟩ := evolving.comes _ removed
  cases same

theorem before_move {p : Placement} {v w : Solo} (evolving : Evolving w.updates)
    (m : Solo.Move p v w) : Evolving v.updates where
  comes u member := evolving.comes u (m.updates_subset member)
  apart := evolving.apart.of_subset m.updates_subset

end Evolving

/-- The second network has been stored under the identifier of the first one, at the same time or
later. -/
inductive Follows (updates : List Update) (n : Network) : Network → Prop where
  | self : .upsertNetwork n ∈ updates → Follows updates n n
  | later {m : Network} : m.id = n.id → List.Sublist [.upsertNetwork n, .upsertNetwork m] updates →
    Follows updates n m

namespace Follows

variable {updates : List Update} {n m : Network}

theorem id_eq (follows : Follows updates n m) : m.id = n.id := by
  cases follows with
  | self => rfl
  | later same _ => exact same

theorem upserted (follows : Follows updates n m) :
    .upsertNetwork n ∈ updates ∧ .upsertNetwork m ∈ updates := by
  cases follows with
  | self stored => exact ⟨stored, stored⟩
  | later _ order =>
    exact ⟨order.subset List.mem_cons_self,
      order.subset (List.mem_cons_of_mem _ List.mem_cons_self)⟩

theorem concat (follows : Follows updates n m) (u : Update) : Follows (updates ++ [u]) n m := by
  cases follows with
  | self stored => exact .self (List.mem_append_left [u] stored)
  | later same order => exact .later same (order.trans (List.sublist_append_left updates [u]))

theorem of_upserted (stored : .upsertNetwork n ∈ updates) (same : m.id = n.id) :
    Follows (updates ++ [.upsertNetwork m]) n m :=
  .later same ((List.singleton_sublist.2 stored).append_right [.upsertNetwork m])

end Follows

/-- Every network that has ever had this traffic has always had the same gateway, name and
encapsulation. -/
def Unaltered (updates : List Update) (s : Selector) : Prop :=
  ∀ n m, .upsertNetwork n ∈ updates → .upsertNetwork m ∈ updates → n.selector = s → m.id = n.id →
    m.gateway = n.gateway ∧ m.name = n.name ∧ m.encapsulation = n.encapsulation

/-- The rule is one that a version of a network calls for, with its own encapsulation or the one of
a later version. -/
def Inventory.Recalls (v : Inventory) (updates : List Update) (rule : Rule) : Prop :=
  ∃ n m, Follows updates n m ∧ ∃ x ∈ v.completeNodes,
    synthesize (.byEncapsulation .empty) { n with encapsulation := m.encapsulation } x
      (v.node? n.name) = .ok rule

theorem Inventory.Recalls.current {v : Inventory} {updates : List Update} {rule : Rule}
    (recalls : v.Recalls updates rule) (unaltered : Unaltered updates rule.selector)
    (latest : ∀ n, .upsertNetwork n ∈ updates → ∃ m ∈ v.networks, Follows updates n m) :
    ∃ n x, v.Current n x rule := by
  obtain ⟨n, m, follows, x, complete, built⟩ := recalls
  obtain ⟨k, stored, last⟩ := latest n follows.upserted.1
  have selector : n.selector = rule.selector := (selector_of_synthesize built).symm
  have encapsulation := (unaltered n m follows.upserted.1 follows.upserted.2 selector
    follows.id_eq).2.2
  obtain ⟨gateway, name, own⟩ := unaltered n k follows.upserted.1 last.upserted.2 selector last.id_eq
  have same : { n with encapsulation := m.encapsulation } = { k with cidr := n.cidr } := by
    rw [encapsulation, ← gateway, ← name, ← own, ← last.id_eq]
  refine ⟨k, x, (current_iff stored).2 ⟨complete, ?_⟩⟩
  rw [name]
  rwa [same] at built

namespace Solo

/-- Every version has a latest one that is stored, and all that is requested is to install what
versions call for. -/
structure Versioned (p : Placement) (v : Solo) : Prop where
  latest : ∀ n, .upsertNetwork n ∈ v.updates → ∃ m ∈ v.inventory.networks, Follows v.updates n m
  requests : ∀ r ∈ v.requests, ∃ rule, r = ⟨rule, p, .install⟩ ∧
    v.inventory.Recalls v.updates rule

namespace Versioned

variable {known : Catalog Node} {p : Placement} {v w : Solo}

theorem upsertNetwork (versioned : Versioned p v) (m : Network) :
    Versioned p (v.update (.upsertNetwork m)) := by
  have now : m ∈ (v.inventory.update (.upsertNetwork m)).networks := Catalog.mem_insert.2 (.inl rfl)
  refine ⟨fun n stored => ?_, fun r made => ?_⟩
  · rcases List.mem_append.1 stored with old | new
    · by_cases same : m.id = n.id
      · exact ⟨m, now, .of_upserted old same⟩
      · obtain ⟨k, kept, follows⟩ := versioned.latest n old
        have other : k.id ≠ m.id := fun equal => same (equal.symm.trans follows.id_eq)
        exact ⟨k, Catalog.mem_insert.2 (.inr ⟨kept, other⟩), follows.concat _⟩
    · cases List.mem_singleton.1 new
      exact ⟨m, now, .self stored⟩
  · obtain ⟨rule, rfl, n, k, follows, x, complete, built⟩ := versioned.requests r made
    exact ⟨rule, rfl, n, k, follows.concat _, x, complete, built⟩

/-- The rule of a pair is for a version: the encapsulation is the one of the latest version. -/
theorem recalls (versioned : Versioned p v) (steady : Steady v) {q : Pair} (due : q ∈ v.pairs)
    {rule : Rule} (built : v.rule q = .ok rule) : v.inventory.Recalls v.updates rule := by
  obtain ⟨upserted, planned⟩ := steady.pairs q due
  obtain ⟨m, stored, follows⟩ := versioned.latest q.network upserted
  have own : Resolver.encapsulation v.inventory q.network = m.encapsulation := by
    have found : v.inventory.network? q.network.id = some m :=
      Inventory.network?_eq_some_iff.2 ⟨stored, follows.id_eq⟩
    simp [Resolver.encapsulation, found]
  obtain ⟨x, complete, pair⟩ := mem_passOver.1 planned
  refine ⟨q.network, m, follows, x, complete, ?_⟩
  rw [← own, ← synthesize_eq_snapshot]
  unfold Solo.rule at built
  rwa [← pair] at built ⊢

theorem move (versioned : Versioned p v) (filed : Filed known v) (steady : Steady v)
    (m : Move p v w) (evolving : Evolving w.updates) : Versioned p w := by
  cases m with
  | update u =>
    obtain ⟨n, rfl⟩ := evolving.comes u (List.mem_append_right _ List.mem_cons_self)
    exact versioned.upsertNetwork n
  | @take t rest idle free queue =>
    cases t <;> exact ⟨versioned.latest, versioned.requests⟩
  | next _ _ | skip _ _ => exact ⟨versioned.latest, versioned.requests⟩
  | @request q rest rule pairs built =>
    have due : q ∈ v.pairs := pairs ▸ List.mem_cons_self
    have installs : q.action = .install := by
      cases action : q.action with
      | install => rfl
      | remove =>
        obtain ⟨id, removed⟩ := (filed.removals q due action).2
        exact absurd removed (evolving.kept id)
    refine ⟨versioned.latest, fun r made => ?_⟩
    rcases List.mem_append.1 made with old | new
    · exact versioned.requests r old
    · obtain rfl := List.mem_singleton.1 new
      exact ⟨rule, by rw [installs], versioned.recalls steady due built⟩

end Versioned

theorem Moves.versioned {known : Catalog Node} {p : Placement} {v : Solo}
    (moves : Moves p (.among known) v) (evolving : Evolving v.updates) : Versioned p v := by
  induction moves with
  | refl =>
    exact ⟨fun n stored => absurd stored List.not_mem_nil,
      fun r made => absurd made List.not_mem_nil⟩
  | tail earlier m ih =>
    have before := evolving.before_move m
    exact (ih before).move (Moves.filed earlier) (Moves.steady earlier before.only) m evolving

end Solo

namespace Controller

/-- What changes of networks leave. One handler leads from its beginning, with nodes in the inventory
that stay as they are and no networks, the installer accepts everything and nothing breaks off.
Whatever networks come and change and whenever the worker has its turns, also with updates from
inside the installer, no removal is requested, and every rule in place is one that a version of a
network calls for. Where no version differs in gateway, name or encapsulation from another one of
its identifier, only what the inventory calls for is in place. Once the queue is empty, all that the
inventory calls for is. -/
theorem leftovers_are_of_versions (leadership : Leadership) (keepsListeners logsRequests : Bool)
    (label : String) (self : Member) (p : Placement) (nodes : Catalog Node) (steps : List Step)
    (leads : Gate.isLeader ⟨self, p.app⟩ (leadership.run p.app).1)
    (mild : ∀ step ∈ steps, step.Mild ⟨self, p.app⟩ (leadership.run p.app).1) :
    let s := { start leadership none keepsListeners logsRequests with
      inventory := ⟨∅, nodes⟩ }.run (.activate label self p :: steps)
    Evolving (updates s.journal) →
    (∀ r ∈ submitted 0 s.journal, r.action = .install) ∧
    (∀ key ∈ replay (accepted 0 s.journal),
      (∃ n m, Follows (updates s.journal) n m ∧ ∃ x ∈ s.inventory.completeNodes, ∃ rule,
        synthesize (.byEncapsulation .empty) { n with encapsulation := m.encapsulation } x
          (s.inventory.node? n.name) = .ok rule ∧
        key = (rule, p.priority, p.table)) ∧
      (Unaltered (updates s.journal) key.1.selector →
        ∃ n ∈ s.inventory.networks, ∃ x ∈ s.inventory.completeNodes, ∃ rule,
          synthesize (.byEncapsulation s.inventory) n x (s.inventory.node? n.name) = .ok rule ∧
          key = (rule, p.priority, p.table))) ∧
    ((∀ a, s.handlers[0]? = some a → a.queue = []) →
      ∀ n ∈ s.inventory.networks, ∀ x ∈ s.inventory.completeNodes, ∀ rule,
        synthesize (.byEncapsulation s.inventory) n x (s.inventory.node? n.name) = .ok rule →
        (rule, p.priority, p.table) ∈ replay (accepted 0 s.journal)) := by
  intro s evolving
  obtain ⟨v, moves, shows, done, free⟩ :=
    run_shows_among leadership keepsListeners logsRequests label self p nodes leads steps mild
  change Shows _ _ p s v at shows
  rw [shows.updates] at evolving ⊢
  rw [shows.inventory, shows.accepted, shows.submitted]
  have versioned := moves.versioned evolving
  refine ⟨fun r made => ?_, fun key inPlace => ?_, fun idle n stored x complete rule built => ?_⟩
  · obtain ⟨rule, rfl, -⟩ := versioned.requests r made
    rfl
  · obtain ⟨r, made, rfl⟩ := of_mem_replay inPlace
    obtain ⟨rule, rfl, recalls⟩ := versioned.requests r made
    refine ⟨?_, fun unaltered => ?_⟩
    · obtain ⟨n, m, follows, x, complete, built⟩ := recalls
      exact ⟨n, m, follows, x, complete, rule, built, rfl⟩
    · obtain ⟨n, x, cur⟩ := recalls.current unaltered versioned.latest
      exact ⟨n, cur.network, x, cur.node, rule, cur.built, rfl⟩
  · have present := moves.present_steady evolving.only evolving.apart
    exact present.done (shows.queue_eq_nil idle) done free ⟨stored, complete, built⟩

/-- Two networks change inside the installer call for the first rule. The one that only gets its
address range keeps nothing old. -/
theorem leftovers_are_of_versions_two_networks :
    let l : Leadership := .solitary (.ofMember ⟨"a"⟩)
    let x : Node := ⟨"host", ⟨"br1"⟩, default, default, .complete, .none⟩
    let y : Node := ⟨"other", ⟨"br2"⟩, default, default, .complete, ⟨some ⟨1⟩, none, none⟩⟩
    let nodes : Catalog Node := (Catalog.empty.insert x).insert y
    let n : Network := ⟨"host", "blue", .vxlan, ⟨10, 0, 1, 1⟩, none⟩
    let m : Network := ⟨"host", "green", .vxlan, ⟨10, 0, 2, 1⟩, none⟩
    let n' : Network := { n with cidr := some "10.0.1.0/24" }
    let m' : Network := { m with gateway := ⟨10, 0, 3, 1⟩ }
    let steps : List Step := [.armHook ⟨0, [.update (.upsertNetwork n'),
      .update (.upsertNetwork m')]⟩, .disturb (.update (.upsertNetwork n)),
      .disturb (.update (.upsertNetwork m)), .drain]
    let s := { start l none false false with inventory := ⟨∅, nodes⟩ }.run
      (.activate "one" ⟨"a"⟩ .default :: steps)
    Gate.isLeader ⟨⟨"a"⟩, Placement.default.app⟩ (l.run Placement.default.app).1 ∧
      (∀ step ∈ steps, step.Mild ⟨⟨"a"⟩, Placement.default.app⟩ (l.run Placement.default.app).1) ∧
      Evolving (updates s.journal) ∧
      (∀ a, s.handlers[0]? = some a → a.queue = []) ∧
      (⟨⟨"br2"⟩, m'.selector, ⟨[.tunnelTo ⟨"br2"⟩ default, .output ⟨1⟩]⟩⟩,
        Placement.default.priority, Placement.default.table) ∈ replay (accepted 0 s.journal) ∧
      ∀ key ∈ replay (accepted 0 s.journal), key.1.selector = n.selector →
        ∃ k ∈ s.inventory.networks, ∃ z ∈ s.inventory.completeNodes, ∃ rule,
          synthesize (.byEncapsulation s.inventory) k z (s.inventory.node? k.name) = .ok rule ∧
          key = (rule, Placement.default.priority, Placement.default.table) := by
  intro l x y nodes n m n' m' steps s
  have leads : Gate.isLeader ⟨⟨"a"⟩, Placement.default.app⟩ (l.run Placement.default.app).1 := by
    decide
  have mild : ∀ step ∈ steps,
      step.Mild ⟨⟨"a"⟩, Placement.default.app⟩ (l.run Placement.default.app).1 := by
    simp [steps, Step.Mild, Disturbance.Mild]
  have changes : updates s.journal = [.upsertNetwork n, .upsertNetwork m, .upsertNetwork n',
      .upsertNetwork m'] := by decide
  have versions (k : Network) (upserted : .upsertNetwork k ∈ updates s.journal) :
      k ∈ [n, m, n', m'] := by
    rw [changes] at upserted
    simpa using upserted
  have apart : ∀ k ∈ [n, m, n', m'], ∀ k' ∈ [n, m, n', m'], k.gateway = k'.gateway →
      k.id = k'.id := by decide
  have unaltered : ∀ k ∈ [n, m, n', m'], ∀ k' ∈ [n, m, n', m'], k.selector = n.selector →
      k'.id = k.id → k'.gateway = k.gateway ∧ k'.name = k.name ∧
        k'.encapsulation = k.encapsulation := by decide
  have evolving : Evolving (updates s.journal) := by
    refine ⟨fun u member => ?_, fun k k' up up' => apart k (versions k up) k' (versions k' up')⟩
    rw [changes] at member
    rcases (by simpa using member : u = _ ∨ u = _ ∨ u = _ ∨ u = _) with rfl | rfl | rfl | rfl
    all_goals exact ⟨_, rfl⟩
  have idle : ∀ a, s.handlers[0]? = some a → a.queue = [] := idle_of_queue (by decide)
  have networks : s.inventory.networks.toList = [n', m'] := by decide
  have complete : s.inventory.completeNodes = [x, y] := by decide
  have built : synthesize (.byEncapsulation s.inventory) m' y (s.inventory.node? m'.name) =
      .ok ⟨⟨"br2"⟩, m'.selector, ⟨[.tunnelTo ⟨"br2"⟩ default, .output ⟨1⟩]⟩⟩ := by decide
  -- the run itself is not to be evaluated any more
  clear_value steps
  obtain ⟨-, inPlace, present⟩ := leftovers_are_of_versions l false false "one" ⟨"a"⟩ .default nodes
    steps leads mild evolving
  refine ⟨leads, mild, evolving, idle, ?_, fun key member same => ?_⟩
  · refine present idle m' ?_ y ?_ _ built
    · exact Catalog.mem_toList.1 (networks ▸ List.mem_cons_of_mem n' List.mem_cons_self)
    · exact complete ▸ List.mem_cons_of_mem x List.mem_cons_self
  · exact (inPlace key member).2 fun k k' up up' selector =>
      unaltered k (versions k up) k' (versions k' up') (selector.trans same)

/-- A rule for a gateway that the network has no longer stays in place. -/
theorem changed_gateway_leaves_rule :
    let l : Leadership := .solitary (.ofMember ⟨"a"⟩)
    let x : Node := ⟨"host", ⟨"br1"⟩, default, default, .complete, .none⟩
    let nodes : Catalog Node := Catalog.empty.insert x
    let n : Network := ⟨"host", "blue", .vxlan, ⟨10, 0, 1, 1⟩, none⟩
    let m : Network := { n with gateway := ⟨10, 0, 1, 254⟩ }
    let steps : List Step := [.disturb (.update (.upsertNetwork n)), .drain,
      .disturb (.update (.upsertNetwork m)), .drain]
    let s := { start l none false false with inventory := ⟨∅, nodes⟩ }.run
      (.activate "one" ⟨"a"⟩ .default :: steps)
    let stale : Rule := ⟨⟨"br1"⟩, n.selector, ⟨[.setMac default, .output Port.host]⟩⟩
    Gate.isLeader ⟨⟨"a"⟩, Placement.default.app⟩ (l.run Placement.default.app).1 ∧
      (∀ step ∈ steps, step.Mild ⟨⟨"a"⟩, Placement.default.app⟩ (l.run Placement.default.app).1) ∧
      Evolving (updates s.journal) ∧
      (∀ a, s.handlers[0]? = some a → a.queue = []) ∧
      (stale, Placement.default.priority, Placement.default.table) ∈
        replay (accepted 0 s.journal) ∧
      ∀ k ∈ s.inventory.networks, ∀ z ∈ s.inventory.completeNodes,
        synthesize (.byEncapsulation s.inventory) k z (s.inventory.node? k.name) ≠ .ok stale := by
  intro l x nodes n m steps s stale
  have changes : updates s.journal = [.upsertNetwork n, .upsertNetwork m] := by decide
  have networks : s.inventory.networks.toList = [m] := by decide
  refine ⟨by decide, ?_, ?_, idle_of_queue (by decide), by decide, fun k stored z _ built => ?_⟩
  · simp [steps, Step.Mild, Disturbance.Mild]
  · have one (k : Network) (upserted : .upsertNetwork k ∈ updates s.journal) : k.id = n.id := by
      rw [changes] at upserted
      rcases (by simpa using upserted : k = n ∨ k = m) with rfl | rfl <;> rfl
    refine ⟨fun u member => ?_, fun k k' up up' _ => (one k up).trans (one k' up').symm⟩
    rw [changes] at member
    rcases (by simpa using member : u = _ ∨ u = _) with rfl | rfl
    all_goals exact ⟨_, rfl⟩
  · have listed : k ∈ s.inventory.networks.toList := stored
    rw [networks] at listed
    obtain rfl : k = m := List.mem_singleton.1 listed
    cases selector_of_synthesize built

end Controller
end GatewayRules
