import GatewayRules.Proofs.Overtaking

/-!
Networks that come and go. A removal takes away what the installation has put in place, unless the
identifier comes back with another encapsulation before it is worked off: the port for a removal is
the one for the network that is stored under the identifier by then, if there is one.
-/
namespace GatewayRules
open Journal

/-- The inventory calls for the key. -/
def Inventory.Calls (v : Inventory) (p : Placement) (key : Rule × UInt32 × UInt32) : Prop :=
  ∃ n x rule, v.Current n x rule ∧ key = (rule, p.priority, p.table)

namespace Pair

/-- The rule of a pair if the network is still what its record says. -/
def rule (q : Pair) : Except RuleError Rule :=
  synthesize (.byEncapsulation .empty) q.network q.node q.owner

def request? (p : Placement) (q : Pair) : Option Request :=
  q.rule.toOption.map fun rule => ⟨rule, p, q.action⟩

theorem request?_of_ok {p : Placement} {q : Pair} {rule : Rule} (built : q.rule = .ok rule) :
    q.request? p = some ⟨rule, p, q.action⟩ := by
  simp [request?, built, Except.toOption]

theorem request?_of_error {p : Placement} {q : Pair} {error : RuleError}
    (fails : q.rule = .error error) : q.request? p = none := by
  simp [request?, fails, Except.toOption]

theorem of_request? {p : Placement} {q : Pair} {r : Request} (made : q.request? p = some r) :
    ∃ rule, q.rule = .ok rule ∧ r = ⟨rule, p, q.action⟩ := by
  cases built : q.rule with
  | error e => simp [request?_of_error built] at made
  | ok rule => exact ⟨rule, rfl, (Option.some.inj (made.symm.trans (request?_of_ok built)))⟩

end Pair

namespace Solo

variable {known : Catalog Node} {p : Placement} {v w : Solo} {key : Rule × UInt32 × UInt32}

def pairsOf (v : Solo) : Task → List Pair
  | .install n => v.passOver n .install
  | .uninstall n => v.passOver n .remove
  | .backfill _ => []

/-- The requests made and those to come, if every network is still what its record says by then. -/
def outlook (p : Placement) (v : Solo) : List Request :=
  v.requests ++ (v.pairs ++ v.queue.flatMap v.pairsOf).filterMap (Pair.request? p)

theorem outlook_update {u : Update} (only : NetworksOnly (v.updates ++ [u])) :
    outlook p (v.update u) = outlook p v ++
      ((v.inventory.task? u).toList.flatMap v.pairsOf).filterMap (Pair.request? p) := by
  have pairsOf (t : Task) : (v.update u).pairsOf t = v.pairsOf t := by
    cases t with
    | install n | uninstall n => exact passOver_update only n _
    | backfill x => rfl
  have same : (v.update u).pairsOf = v.pairsOf := funext pairsOf
  unfold outlook
  rw [same]
  change v.requests ++
    (v.pairs ++ (v.queue ++ (v.inventory.task? u).toList).flatMap v.pairsOf).filterMap _ = _
  simp only [List.flatMap_append, List.filterMap_append, List.append_assoc]

theorem outlook_take {t : Task} {rest : List Task} (idle : v.pairs = []) (queue : v.queue = t :: rest)
    (network : ∃ n, t = .install n ∨ t = .uninstall n) :
    outlook p ({ v with queue := rest }.begin t) = outlook p v := by
  unfold outlook
  rw [idle, queue]
  obtain ⟨n, rfl | rfl⟩ := network <;> rfl

/-- The requests of a pass over a network are for the rules that its record calls for. -/
theorem mem_requests_passOver {n : Network} {action : Action} {r : Request} :
    r ∈ (v.passOver n action).filterMap (Pair.request? p) ↔
      ∃ x ∈ v.inventory.completeNodes, ∃ rule,
        synthesize (.byEncapsulation .empty) n x (v.inventory.node? n.name) = .ok rule ∧
        r = ⟨rule, p, action⟩ := by
  rw [List.mem_filterMap]
  constructor
  · rintro ⟨q, due, made⟩
    obtain ⟨x, listed, rfl⟩ := mem_passOver.1 due
    obtain ⟨rule, built, rfl⟩ := Pair.of_request? made
    exact ⟨x, listed, rule, built, rfl⟩
  · rintro ⟨x, listed, rule, built, rfl⟩
    exact ⟨_, mem_passOver.2 ⟨x, listed, rfl⟩, Pair.request?_of_ok built⟩

/-- What has been requested and will be decides about a key as the inventory does. -/
def Faithful (p : Placement) (v : Solo) : Prop :=
  ∀ key, Unhurried v.overtaken key.1.selector →
    (key ∈ replay (outlook p v) ↔ v.inventory.Calls p key)

namespace Faithful

theorem upsertNetwork (faithful : Faithful p v) {n : Network}
    (only : NetworksOnly (v.updates ++ [.upsertNetwork n]))
    (free : v.inventory.network? n.id = none) : Faithful p (v.update (.upsertNetwork n)) := by
  intro key unhurried
  have before : Unhurried v.overtaken key.1.selector :=
    unhurried.of_subset (List.subset_append_left ..)
  have fresh : ∀ m ∈ v.inventory.networks, m.id ≠ n.id := Catalog.find?_eq_none_iff.1 free
  have new : n ∉ v.inventory.networks := fun stored => fresh n stored rfl
  have stored : n ∈ (v.inventory.update (.upsertNetwork n)).networks :=
    Catalog.mem_insert.2 (.inl rfl)
  have installs : ∀ r ∈ (v.passOver n .install).filterMap (Pair.request? p),
      r.action = .install := by
    intro r member
    obtain ⟨x, -, rule, -, rfl⟩ := mem_requests_passOver.1 member
    rfl
  rw [outlook_update only, Inventory.task?_upsertNetwork_of_new new]
  change key ∈ replay (_ ++ ((v.passOver n .install) ++ []).filterMap _) ↔ _
  rw [List.append_nil, mem_replay_append_installs installs, faithful key before]
  constructor
  · rintro (⟨m, x, rule, cur, rfl⟩ | ⟨r, member, rfl⟩)
    · exact ⟨m, x, rule, cur.grow (Inventory.grows_upsertNetwork fresh), rfl⟩
    · obtain ⟨x, listed, rule, built, rfl⟩ := mem_requests_passOver.1 member
      exact ⟨n, x, rule, (Inventory.current_iff stored).2 ⟨listed, built⟩, rfl⟩
  · rintro ⟨m, x, rule, cur, rfl⟩
    by_cases same : m = n
    · subst m
      obtain ⟨listed, built⟩ := (Inventory.current_iff stored).1 cur
      exact .inr ⟨_, mem_requests_passOver.2 ⟨x, listed, rule, built, rfl⟩, rfl⟩
    · exact .inl ⟨m, x, rule, cur.of_upsertNetwork same, rfl⟩

theorem removeNetwork (faithful : Faithful p v) (filed : Filed known v) {id : String}
    (only : NetworksOnly (v.updates ++ [.removeNetwork id]))
    (apart : Apart v.updates) : Faithful p (v.update (.removeNetwork id)) := by
  intro key unhurried
  have before : Unhurried v.overtaken key.1.selector :=
    unhurried.of_subset (List.subset_append_left ..)
  rw [outlook_update only, Inventory.task?_removeNetwork]
  cases found : v.inventory.network? id with
  | none =>
    change key ∈ replay (_ ++ []) ↔ _
    rw [List.append_nil, faithful key before]
    constructor
    · rintro ⟨m, x, rule, cur, rfl⟩
      exact ⟨m, x, rule, cur.removeNetwork (Catalog.find?_eq_none_iff.1 found m cur.network), rfl⟩
    · rintro ⟨m, x, rule, cur, rfl⟩
      exact ⟨m, x, rule, cur.of_removeNetwork.1, rfl⟩
  | some n =>
    obtain ⟨stored, rfl⟩ := Inventory.network?_eq_some_iff.1 found
    have removes : ∀ r ∈ (v.passOver n .remove).filterMap (Pair.request? p),
        r.action = .remove := by
      intro r member
      obtain ⟨x, -, rule, -, rfl⟩ := mem_requests_passOver.1 member
      rfl
    change key ∈ replay (_ ++ ((v.passOver n .remove) ++ []).filterMap _) ↔ _
    rw [List.append_nil, mem_replay_append_removes removes, faithful key before]
    constructor
    · rintro ⟨⟨m, x, rule, cur, rfl⟩, kept⟩
      have other : m.id ≠ n.id := by
        intro same
        obtain rfl : m = n := Catalog.eq_of_key cur.network stored same
        obtain ⟨listed, built⟩ := (Inventory.current_iff stored).1 cur
        exact kept _ (mem_requests_passOver.2 ⟨x, listed, rule, built, rfl⟩) rfl
      exact ⟨m, x, rule, cur.removeNetwork other, rfl⟩
    · rintro ⟨m, x, rule, cur, rfl⟩
      obtain ⟨stands, other⟩ := cur.of_removeNetwork
      refine ⟨⟨m, x, rule, stands, rfl⟩, fun r member same => other ?_⟩
      -- a rule for the same gateway is for the same identifier
      obtain ⟨y, -, removed, built, rfl⟩ := mem_requests_passOver.1 member
      have selectors : m.selector = n.selector := by
        rw [← selector_of_synthesize stands.built, ← selector_of_synthesize built]
        exact congrArg (fun key => key.1.selector) same.symm
      exact apart m n (filed.networks m stands.network) (filed.networks n stored)
        (congrArg (fun s : Selector => s.destination.address) selectors)

/-- One pair is settled by the requests that its record calls for, unless it has been overtaken. -/
theorem settle (faithful : Faithful p v) (aligned : Aligned v) {q : Pair}
    {rest : List Pair} (pairs : v.pairs = q :: rest) {made : List Request}
    (asks : ∀ r ∈ made, ∃ rule, v.rule q = .ok rule ∧ r = ⟨rule, p, q.action⟩)
    (expected : v.rule q = q.rule → made = (q.request? p).toList) :
    Faithful p { v with pairs := rest, requests := v.requests ++ made } := by
  intro key unhurried
  rw [← faithful key unhurried]
  refine mem_replay_congr ?_
  have split : outlook p v = v.requests ++ ((q.request? p).toList ++
      (rest ++ v.queue.flatMap v.pairsOf).filterMap (Pair.request? p)) := by
    unfold outlook
    rw [pairs, List.cons_append, List.filterMap_cons]
    cases q.request? p <;> rfl
  have now : outlook p { v with pairs := rest, requests := v.requests ++ made } =
      v.requests ++ (made ++ (rest ++ v.queue.flatMap v.pairsOf).filterMap (Pair.request? p)) :=
    List.append_assoc ..
  have same : made.filter (·.key = key) = (q.request? p).toList.filter (·.key = key) := by
    by_cases about : q.network.selector = key.1.selector
    · have due : q ∈ v.pairs := pairs ▸ List.mem_cons_self
      rw [expected (aligned.rule_eq due (about ▸ unhurried))]
    · -- neither list has a request about the key
      have others (rule : Rule) (selector : rule.selector = q.network.selector) :
          Request.key ⟨rule, p, q.action⟩ ≠ key := by
        rintro rfl
        exact about selector.symm
      have none₁ : made.filter (·.key = key) = [] := by
        refine List.filter_eq_nil_iff.2 fun r member => ?_
        obtain ⟨rule, built, rfl⟩ := asks r member
        simpa using others rule (selector_of_synthesize built)
      have none₂ : (q.request? p).toList.filter (·.key = key) = [] := by
        refine List.filter_eq_nil_iff.2 fun r member => ?_
        obtain ⟨rule, built, rfl⟩ := Pair.of_request? (Option.mem_toList.1 member)
        simpa using others rule (selector_of_synthesize built)
      rw [none₁, none₂]
  rw [split, now]
  simp only [List.filter_append, same]

theorem move (faithful : Faithful p v) (filed : Filed known v) (steady : Steady v)
    (aligned : Aligned v) (m : Move p v w) (alternating : Alternating ⟨∅, known⟩ w.updates)
    (inventory : v.inventory = (Inventory.mk ∅ known).after v.updates) : Faithful p w := by
  cases m with
  | update u =>
    have only : NetworksOnly (v.updates ++ [u]) := alternating.only
    rcases only u (List.mem_append_right _ List.mem_cons_self) with ⟨n, rfl⟩ | ⟨id, rfl⟩
    · refine faithful.upsertNetwork only ?_
      rw [inventory]
      exact alternating.free v.updates n [] rfl
    · exact faithful.removeNetwork filed only
        (alternating.apart.of_subset (List.subset_append_left _ _))
  | @take t rest idle free queue =>
    obtain ⟨n, -, task⟩ := steady.queue t (queue ▸ List.mem_cons_self)
    intro key unhurried
    rw [outlook_take idle queue ⟨n, task⟩]
    rcases task with rfl | rfl
    · exact faithful key unhurried
    · exact faithful key unhurried
  | next idle later => cases later.symm.trans steady.free
  | @skip q rest error pairs fails =>
    have settled : Faithful p { v with pairs := rest, requests := v.requests ++ [] } := by
      refine faithful.settle aligned pairs (List.forall_mem_nil _) fun same => ?_
      rw [Pair.request?_of_error (same ▸ fails)]
      rfl
    rwa [List.append_nil] at settled
  | @request q rest rule pairs built =>
    refine faithful.settle aligned pairs ?_ fun same => ?_
    · exact List.forall_mem_singleton.2 ⟨rule, built, rfl⟩
    · rw [Pair.request?_of_ok (same ▸ built)]
      rfl

end Faithful

theorem Moves.faithful (moves : Moves p (.among known) v)
    (alternating : Alternating ⟨∅, known⟩ v.updates) : Faithful p v := by
  induction moves with
  | refl =>
    refine fun key _ => ⟨fun inPlace => ?_, ?_⟩
    · cases Finset.notMem_empty key inPlace
    · rintro ⟨n, x, rule, cur, -⟩
      exact absurd cur.network List.not_mem_nil
  | @tail v w earlier m ih =>
    have before := alternating.before_move m
    exact (ih before).move (Moves.filed earlier) (Moves.steady earlier before.only)
      (Moves.aligned earlier before) m alternating (Moves.inventory earlier)

end Solo

namespace Controller

/-- A removal undoes an installation. One handler leads from its beginning, with nodes in the
inventory that stay as they are and no networks, the installer accepts everything and nothing breaks
off. Whatever order networks come and go in and whenever the worker has its turns, also with updates
from inside the installer, once the queue is empty every rule that the inventory calls for is in
place. No other rule is, except for a gateway whose identifier has come back with another
encapsulation while its removal was still to be worked off. -/
theorem removals_undo_installations (leadership : Leadership) (keepsListeners logsRequests : Bool)
    (label : String) (self : Member) (p : Placement) (nodes : Catalog Node) (steps : List Step)
    (leads : Gate.isLeader ⟨self, p.app⟩ (leadership.run p.app).1)
    (mild : ∀ step ∈ steps, step.Mild ⟨self, p.app⟩ (leadership.run p.app).1) :
    let s := { start leadership none keepsListeners logsRequests with
      inventory := ⟨∅, nodes⟩ }.run (.activate label self p :: steps)
    Alternating ⟨∅, nodes⟩ (updates s.journal) →
    (∀ a, s.handlers[0]? = some a → a.queue = []) →
    (∀ n ∈ s.inventory.networks, ∀ x ∈ s.inventory.completeNodes, ∀ rule,
      synthesize (.byEncapsulation s.inventory) n x (s.inventory.node? n.name) = .ok rule →
      (rule, p.priority, p.table) ∈ replay (accepted 0 s.journal)) ∧
    ∀ key ∈ replay (accepted 0 s.journal), Unhurried (overtaken 0 s.journal) key.1.selector →
      ∃ n ∈ s.inventory.networks, ∃ x ∈ s.inventory.completeNodes, ∃ rule,
        synthesize (.byEncapsulation s.inventory) n x (s.inventory.node? n.name) = .ok rule ∧
        key = (rule, p.priority, p.table) := by
  intro s alternating idle
  obtain ⟨v, moves, shows, done, free⟩ :=
    run_shows_among leadership keepsListeners logsRequests label self p nodes leads steps mild
  change Shows _ _ p s v at shows
  rw [shows.updates] at alternating
  rw [shows.inventory, shows.accepted]
  have queue := shows.queue_eq_nil idle
  refine ⟨fun n stored x complete rule built => ?_, fun key inPlace unhurried => ?_⟩
  · have present := moves.present_steady alternating.only alternating.apart
    exact present.done queue done free ⟨stored, complete, built⟩
  · have nothing : Solo.outlook p v = v.requests := by simp [Solo.outlook, queue, done]
    have calls := moves.faithful alternating key (unhurried.of_subset shows.overtaken)
    obtain ⟨n, x, rule, cur, same⟩ := calls.1 (nothing ▸ inPlace)
    exact ⟨n, cur.network, x, cur.node, rule, cur.built, same⟩

/-- A network goes inside the installer call for its owner, and comes again behind another gateway
and with another owner. When it has gone once more and its removal is worked off, it comes with
another encapsulation. Nothing is left of what it was. -/
theorem removals_undo_installations_reused_id :
    let l : Leadership := .appointed (some ⟨"a"⟩)
    let x : Node := ⟨"host", ⟨"br1"⟩, default, default, .complete, ⟨some ⟨1⟩, some ⟨2⟩, none⟩⟩
    let y : Node := ⟨"other", ⟨"br2"⟩, default, default, .complete, ⟨some ⟨1⟩, none, none⟩⟩
    let nodes : Catalog Node := (Catalog.empty.insert x).insert y
    let n : Network := ⟨"host", "blue", .vxlan, ⟨10, 0, 1, 1⟩, none⟩
    let m : Network := ⟨"other", "blue", .vxlan, ⟨10, 0, 2, 1⟩, none⟩
    let k : Network := { m with encapsulation := .gre }
    let steps : List Step := [.armHook ⟨0, [.update (.removeNetwork "blue"),
      .update (.upsertNetwork m)]⟩, .disturb (.update (.upsertNetwork n)), .drain,
      .disturb (.update (.removeNetwork "blue")), .drain,
      .disturb (.update (.upsertNetwork k)), .drain]
    let s := { start l none false false with inventory := ⟨∅, nodes⟩ }.run
      (.activate "one" ⟨"a"⟩ .default :: steps)
    let tunnel (port : Port) : Rule := ⟨⟨"br1"⟩, k.selector, ⟨[.tunnelTo ⟨"br1"⟩ default, .output port]⟩⟩
    Gate.isLeader ⟨⟨"a"⟩, Placement.default.app⟩ (l.run Placement.default.app).1 ∧
      (∀ step ∈ steps, step.Mild ⟨⟨"a"⟩, Placement.default.app⟩ (l.run Placement.default.app).1) ∧
      Alternating ⟨∅, nodes⟩ (updates s.journal) ∧
      (∀ a, s.handlers[0]? = some a → a.queue = []) ∧
      overtaken 0 s.journal = [(n, m)] ∧
      (tunnel ⟨2⟩, Placement.default.priority, Placement.default.table) ∈
        replay (accepted 0 s.journal) ∧
      ∀ key ∈ replay (accepted 0 s.journal), key.1.selector ≠ n.selector ∧ key.1 ≠ tunnel ⟨1⟩ := by
  intro l x y nodes n m k steps s tunnel
  have leads : Gate.isLeader ⟨⟨"a"⟩, Placement.default.app⟩ (l.run Placement.default.app).1 := by
    decide
  have mild : ∀ step ∈ steps,
      step.Mild ⟨⟨"a"⟩, Placement.default.app⟩ (l.run Placement.default.app).1 := by
    simp [steps, Step.Mild, Disturbance.Mild]
  have changes : updates s.journal = [.upsertNetwork n, .removeNetwork "blue", .upsertNetwork m,
      .removeNetwork "blue", .upsertNetwork k] := by decide
  have hurried : overtaken 0 s.journal = [(n, m)] := by decide
  have alternating : Alternating ⟨∅, nodes⟩ (updates s.journal) := by
    rw [changes]
    have first := (Alternating.nil ⟨∅, nodes⟩).comes (n := n) rfl (by simp)
    have second := (first.goes "blue").comes (n := m) (by decide) (by simp [n, m])
    exact (second.goes "blue").comes (n := k) (by decide) (by simp [n, m, k])
  have idle : ∀ a, s.handlers[0]? = some a → a.queue = [] := idle_of_queue (by decide)
  have networks : s.inventory.networks.toList = [k] := by decide
  have complete : s.inventory.completeNodes = [x, y] := by decide
  have built : synthesize (.byEncapsulation s.inventory) k x (s.inventory.node? k.name) =
      .ok (tunnel ⟨2⟩) := by decide
  have other : synthesize (.byEncapsulation s.inventory) k y (s.inventory.node? k.name) ≠
      .ok (tunnel ⟨1⟩) := by decide
  -- the run itself is not to be evaluated any more
  clear_value steps
  obtain ⟨present, current⟩ := removals_undo_installations l false false "one" ⟨"a"⟩ .default nodes
    steps leads mild alternating idle
  refine ⟨leads, mild, alternating, idle, hurried, ?_, fun key inPlace => ?_⟩
  · exact present k (Catalog.mem_toList.1 (networks ▸ List.mem_cons_self)) x
      (complete ▸ List.mem_cons_self) _ built
  · have unhurried : Unhurried (overtaken 0 s.journal) key.1.selector := by
      intro o member _ _
      rw [hurried] at member
      cases List.mem_singleton.1 member
      rfl
    obtain ⟨k', stored, z, listed, rule, made, rfl⟩ := current key inPlace unhurried
    have alone : k' ∈ s.inventory.networks.toList := stored
    rw [networks] at alone
    obtain rfl : k' = k := List.mem_singleton.1 alone
    constructor
    · rw [selector_of_synthesize made]
      decide
    · rintro rfl
      rw [complete] at listed
      rcases (by simpa using listed : z = x ∨ z = y) with rfl | rfl
      · cases built.symm.trans made
      · exact other made

/-- With another encapsulation a rule can stay behind: the removal finds the network stored again
already, and takes the rule away that the new one calls for. -/
theorem recreated_network_leaves_rule :
    let l : Leadership := .solitary (.ofMember ⟨"a"⟩)
    let x : Node := ⟨"host", ⟨"br1"⟩, default, default, .complete, .none⟩
    let y : Node := ⟨"other", ⟨"br2"⟩, default, default, .complete, ⟨some ⟨1⟩, some ⟨2⟩, none⟩⟩
    let nodes : Catalog Node := (Catalog.empty.insert x).insert y
    let n : Network := ⟨"host", "blue", .vxlan, default, none⟩
    let m : Network := { n with encapsulation := .gre }
    let steps : List Step := [.disturb (.update (.upsertNetwork n)), .drain,
      .disturb (.update (.removeNetwork "blue")), .disturb (.update (.upsertNetwork m)), .drain]
    let s := { start l none false false with inventory := ⟨∅, nodes⟩ }.run
      (.activate "one" ⟨"a"⟩ .default :: steps)
    let stale : Rule := ⟨⟨"br2"⟩, n.selector, ⟨[.tunnelTo ⟨"br2"⟩ default, .output ⟨1⟩]⟩⟩
    Gate.isLeader ⟨⟨"a"⟩, Placement.default.app⟩ (l.run Placement.default.app).1 ∧
      (∀ step ∈ steps, step.Mild ⟨⟨"a"⟩, Placement.default.app⟩ (l.run Placement.default.app).1) ∧
      Alternating ⟨∅, nodes⟩ (updates s.journal) ∧
      (∀ a, s.handlers[0]? = some a → a.queue = []) ∧
      (stale, Placement.default.priority, Placement.default.table) ∈
        replay (accepted 0 s.journal) ∧
      ∀ k ∈ s.inventory.networks, ∀ z ∈ s.inventory.completeNodes,
        synthesize (.byEncapsulation s.inventory) k z (s.inventory.node? k.name) ≠ .ok stale := by
  intro l x y nodes n m steps s stale
  have changes : updates s.journal =
      [.upsertNetwork n, .removeNetwork "blue", .upsertNetwork m] := by decide
  have alternating : Alternating ⟨∅, nodes⟩ (updates s.journal) := by
    rw [changes]
    have first := (Alternating.nil ⟨∅, nodes⟩).comes (n := n) rfl (by simp)
    exact (first.goes "blue").comes (n := m) (by decide) (by simp [n, m])
  refine ⟨by decide, ?_, alternating, idle_of_queue (by decide), by decide,
    fun k stored z complete => ?_⟩
  · simp [steps, Step.Mild, Disturbance.Mild]
  · have networks : s.inventory.networks.toList = [m] := by decide
    have nodes : s.inventory.completeNodes = [x, y] := by decide
    have listed : k ∈ s.inventory.networks.toList := stored
    rw [networks] at listed
    rw [nodes] at complete
    obtain rfl : k = m := List.mem_singleton.1 listed
    rcases (by simpa using complete : z = x ∨ z = y) with rfl | rfl
    · decide
    · decide

end Controller
end GatewayRules
