import GatewayRules.Proofs.Presence

/-!
What reaches the devices for sure. A node that changes without becoming complete raises no work, so
not every current rule is installed; one that the inventory has called for without a break since
work for its network came up is.
-/
namespace GatewayRules
open Journal

/-- Since an update that gave work to renew the rules of the network, the inventory has called for
the rule at every moment before the last. -/
def Lasting (updates : List Update) (n : Network) (rule : Rule) : Prop :=
  ∃ first u rest t, updates = first ++ u :: rest ∧
    (Inventory.empty.after first).task? u = some t ∧ t.Renews n ∧
    ∀ more, more <+: rest → more ≠ rest →
      ∃ x, (Inventory.empty.after (first ++ u :: more)).Current n x rule

namespace Lasting

variable {updates : List Update} {u : Update} {n : Network} {rule : Rule}

/-- Either the last update has given the work, or the rule has been called for before it. -/
theorem of_concat (lasting : Lasting (updates ++ [u]) n rule) :
    (∃ t, (Inventory.empty.after updates).task? u = some t ∧ t.Renews n) ∨
    (Lasting updates n rule ∧ ∃ x, (Inventory.empty.after updates).Current n x rule) := by
  obtain ⟨first, v, rest, t, split, given, renews, called⟩ := lasting
  rcases List.eq_nil_or_concat rest with rfl | ⟨before, last, rfl⟩
  · obtain ⟨rfl, same⟩ := List.append_inj' split rfl
    cases same
    exact .inl ⟨t, given, renews⟩
  · right
    rw [List.concat_eq_append] at split called
    have split' : updates ++ [u] = (first ++ v :: before) ++ [last] := by
      rw [split, List.append_assoc, List.cons_append]
    obtain ⟨rfl, -⟩ := List.append_inj' split' rfl
    have shorter (more : List Update) (within : more <+: before) : more ≠ before ++ [last] := by
      rintro rfl
      exact absurd within.length_le (by simp)
    have earlier (more : List Update) (within : more <+: before) :
        ∃ x, (Inventory.empty.after (first ++ v :: more)).Current n x rule :=
      called more (within.trans (List.prefix_append _ _)) (shorter more within)
    exact ⟨⟨first, v, before, t, rfl, given, renews, fun more within _ => earlier more within⟩,
      earlier before List.prefix_rfl⟩

end Lasting

namespace Solo

/-- The rule has been requested, or it will be, if the inventory still calls for it then. -/
inductive Due (p : Placement) (v : Solo) (n : Network) (rule : Rule) : Prop where
  | requested : ⟨rule, p, .install⟩ ∈ v.requests → Due p v n rule
  | waiting (t : Task) : t ∈ v.queue → t.Renews n → Due p v n rule
  | listed : n ∈ v.later → Due p v n rule
  | planned (q : Pair) : q ∈ v.pairs → q.network = n → q.action = .install → v.rule q = .ok rule →
    Due p v n rule

namespace Due

variable {p : Placement} {v w : Solo} {n : Network} {x : Node} {rule : Rule}

theorem update (due : Due p v n rule) {u : Update} (before : n ∈ v.inventory.networks)
    (after : n ∈ (v.inventory.update u).networks) : Due p (v.update u) n rule := by
  cases due with
  | requested done => exact .requested done
  | waiting t waits renews => exact .waiting t (List.mem_append_left _ waits) renews
  | listed member => exact .listed member
  | planned q member same action built =>
    have kept : (v.inventory.update u).network? q.network.id = v.inventory.network? q.network.id := by
      rw [same, Inventory.network?_eq_some_iff.2 ⟨before, rfl⟩,
        Inventory.network?_eq_some_iff.2 ⟨after, rfl⟩]
    exact .planned q member same action ((synthesize_congr kept q.node q.owner).trans built)

/-- A pass over the network plans the rule if the inventory calls for it. -/
theorem passOver (cur : v.inventory.Current n x rule) (w : Solo) (same : w.inventory = v.inventory)
    (pairs : w.pairs = v.passOver n .install) : Due p w n rule := by
  refine .planned ⟨n, x, v.inventory.node? n.name, .install⟩ ?_ rfl rfl ?_
  · rw [pairs]
    exact mem_passOver.2 ⟨x, cur.node, rfl⟩
  · unfold Solo.rule
    rw [same]
    exact cur.built

theorem take (due : Due p v n rule) (cur : v.inventory.Current n x rule) (idle : v.pairs = [])
    (free : v.later = []) {t : Task} {rest : List Task} (queue : v.queue = t :: rest) :
    Due p ({ v with queue := rest }.begin t) n rule := by
  cases due with
  | requested done => cases t <;> exact .requested done
  | waiting s waits renews =>
    rw [queue] at waits
    rcases List.mem_cons.1 waits with rfl | later
    · cases s with
      | install m =>
        obtain rfl : m = n := renews
        exact passOver cur _ rfl rfl
      | uninstall m => exact renews.elim
      | backfill y => exact .listed cur.network
    · cases t <;> exact .waiting s later renews
  | listed member =>
    rw [free] at member
    cases member
  | planned q member same action built =>
    rw [idle] at member
    cases member

theorem next (due : Due p v n rule) (cur : v.inventory.Current n x rule) (idle : v.pairs = [])
    {m : Network} {rest : List Network} (later : v.later = m :: rest) :
    Due p { v with pairs := v.passOver m .install, later := rest } n rule := by
  cases due with
  | requested done => exact .requested done
  | waiting t waits renews => exact .waiting t waits renews
  | listed member =>
    rw [later] at member
    rcases List.mem_cons.1 member with rfl | member
    · exact passOver cur _ rfl rfl
    · exact .listed member
  | planned q member same action built =>
    rw [idle] at member
    cases member

theorem settle (due : Due p v n rule) {q : Pair} {rest : List Pair} (pairs : v.pairs = q :: rest)
    {requests : List Request} (kept : v.requests <+: requests)
    (made : q.action = .install → v.rule q = .ok rule → ⟨rule, p, .install⟩ ∈ requests) :
    Due p { v with pairs := rest, requests } n rule := by
  cases due with
  | requested done => exact .requested (kept.subset done)
  | waiting t waits renews => exact .waiting t waits renews
  | listed member => exact .listed member
  | planned r member same action built =>
    rw [pairs] at member
    rcases List.mem_cons.1 member with rfl | member
    · exact .requested (made action built)
    · exact .planned r member same action built

end Due

/-- Wherever the handler comes to, a rule that has been called for since work for its network came
up is due. -/
theorem Moves.due {p : Placement} {v : Solo} (moves : Moves p .empty v) {n : Network} {rule : Rule}
    (lasting : Lasting v.updates n rule) (called : ∃ x, v.inventory.Current n x rule) :
    Due p v n rule := by
  induction moves with
  | refl =>
    obtain ⟨first, u, rest, t, split, -⟩ := lasting
    exact absurd split.symm (List.append_ne_nil_of_right_ne_nil _ (List.cons_ne_nil _ _))
  | @tail v w earlier m ih =>
    have inventory : v.inventory = Inventory.empty.after v.updates := Moves.inventory earlier
    obtain ⟨x, cur⟩ := called
    cases m with
    | update u =>
      rcases lasting.of_concat with ⟨t, given, renews⟩ | ⟨lasted, y, earlier⟩
      · rw [← inventory] at given
        exact .waiting t (List.mem_append_right _ (Option.mem_toList.2 given)) renews
      · rw [← inventory] at earlier
        exact (ih lasted ⟨y, earlier⟩).update earlier.network cur.network
    | @take t rest idle free queue =>
      have before : v.inventory.Current n x rule := by cases t <;> exact cur
      have same : Lasting v.updates n rule := by cases t <;> exact lasting
      exact (ih same ⟨x, before⟩).take before idle free queue
    | next idle later => exact (ih lasting ⟨x, cur⟩).next cur idle later
    | skip pairs fails =>
      refine (ih lasting ⟨x, cur⟩).settle pairs List.prefix_rfl fun _ built => ?_
      cases fails.symm.trans built
    | request pairs made =>
      refine (ih lasting ⟨x, cur⟩).settle pairs (List.prefix_append _ _) fun action built => ?_
      obtain rfl := Except.ok.inj (made.symm.trans built)
      exact List.mem_append_right _ (List.mem_singleton.2 (by rw [action]))

end Solo

namespace Controller

/-- What node changes bring about. One handler leads from its beginning in an empty inventory, the
installer accepts everything and nothing breaks off. Whatever updates come and whenever the worker
has its turns, also with updates from inside the installer, once the queue is empty every current
rule has been installed that the inventory has called for at every moment since an update that gave
work for its network. The first storing of the network is such an update, and so is any node that
becomes complete; all other changes of nodes are silent. -/
theorem lasting_rules_installed (leadership : Leadership) (keepsListeners logsRequests : Bool)
    (label : String) (self : Member) (p : Placement) (steps : List Step)
    (leads : Gate.isLeader ⟨self, p.app⟩ (leadership.run p.app).1)
    (mild : ∀ step ∈ steps, step.Mild ⟨self, p.app⟩ (leadership.run p.app).1) :
    let s := (start leadership none keepsListeners logsRequests).run
      (.activate label self p :: steps)
    (∀ a, s.handlers[0]? = some a → a.queue = []) →
    ∀ n ∈ s.inventory.networks, ∀ x ∈ s.inventory.completeNodes, ∀ rule,
      synthesize (.byEncapsulation s.inventory) n x (s.inventory.node? n.name) = .ok rule →
      Lasting (updates s.journal) n rule → ⟨rule, p, .install⟩ ∈ accepted 0 s.journal := by
  intro s idle n stored x complete rule built lasting
  obtain ⟨v, moves, shows, done, free⟩ :=
    run_shows leadership keepsListeners logsRequests label self p leads steps mild
  change Shows _ _ p s v at shows
  rw [shows.updates] at lasting
  have cur : v.inventory.Current n x rule := shows.inventory ▸ ⟨stored, complete, built⟩
  rw [shows.accepted]
  cases moves.due lasting ⟨x, cur⟩ with
  | requested done => exact done
  | waiting t waits renews =>
    rw [shows.queue_eq_nil idle] at waits
    cases waits
  | listed member =>
    rw [free] at member
    cases member
  | planned q member _ _ _ =>
    rw [done] at member
    cases member

/-- The owner moves in silence. A third node that becomes complete later makes the rule for the
other one known, which a silent change of the other one's own record does not touch. -/
theorem lasting_rules_installed_moved_owner :
    let l : Leadership := .solitary (.ofMember ⟨"a"⟩)
    let n : Network := ⟨"host", "blue", .vxlan, default, none⟩
    let x : Node := ⟨"host", ⟨"br1"⟩, default, default, .complete, .none⟩
    let y : Node := ⟨"other", ⟨"br2"⟩, default, default, .complete, ⟨some ⟨1⟩, none, none⟩⟩
    let x' : Node := { x with dataAddress := ⟨172, 16, 0, 9⟩ }
    let y' : Node := { y with dataAddress := ⟨172, 16, 0, 8⟩ }
    let z : Node := ⟨"third", ⟨"br3"⟩, default, default, .complete, .none⟩
    let steps : List Step := [.disturb (.update (.upsertNetwork n)),
      .disturb (.update (.upsertNode x)), .disturb (.update (.upsertNode y)), .drain,
      .disturb (.update (.upsertNode x')), .disturb (.update (.upsertNode z)),
      .disturb (.update (.upsertNode y')), .drain]
    let s := (start l none false false).run (.activate "one" ⟨"a"⟩ .default :: steps)
    Gate.isLeader ⟨⟨"a"⟩, Placement.default.app⟩ (l.run Placement.default.app).1 ∧
      (∀ step ∈ steps, step.Mild ⟨⟨"a"⟩, Placement.default.app⟩ (l.run Placement.default.app).1) ∧
      (∀ a, s.handlers[0]? = some a → a.queue = []) ∧
      ⟨⟨⟨"br2"⟩, n.selector, ⟨[.tunnelTo ⟨"br2"⟩ ⟨172, 16, 0, 9⟩, .output ⟨1⟩]⟩⟩, .default, .install⟩ ∈
        accepted 0 s.journal := by
  intro l n x y x' y' z steps s
  have leads : Gate.isLeader ⟨⟨"a"⟩, Placement.default.app⟩ (l.run Placement.default.app).1 := by
    decide
  have mild : ∀ step ∈ steps,
      step.Mild ⟨⟨"a"⟩, Placement.default.app⟩ (l.run Placement.default.app).1 := by
    simp [steps, Step.Mild, Disturbance.Mild]
  have changes : updates s.journal = [.upsertNetwork n, .upsertNode x, .upsertNode y,
      .upsertNode x', .upsertNode z, .upsertNode y'] := by decide
  have idle : ∀ a, s.handlers[0]? = some a → a.queue = [] := idle_of_queue (by decide)
  refine ⟨leads, mild, idle, ?_⟩
  have stored : n ∈ s.inventory.networks := by
    have all : s.inventory.networks.toList = [n] := by decide
    rw [← Catalog.mem_toList, all]
    exact List.mem_cons_self
  have complete : y' ∈ s.inventory.completeNodes := by
    have all : s.inventory.completeNodes = [x', y', z] := by decide
    rw [all]
    exact List.mem_cons_of_mem x' List.mem_cons_self
  have built : synthesize (.byEncapsulation s.inventory) n y' (s.inventory.node? n.name) =
      .ok ⟨⟨"br2"⟩, n.selector, ⟨[.tunnelTo ⟨"br2"⟩ ⟨172, 16, 0, 9⟩, .output ⟨1⟩]⟩⟩ := by decide
  have lasting : Lasting (updates s.journal) n
      ⟨⟨"br2"⟩, n.selector, ⟨[.tunnelTo ⟨"br2"⟩ ⟨172, 16, 0, 9⟩, .output ⟨1⟩]⟩⟩ := by
    rw [changes]
    refine ⟨[.upsertNetwork n, .upsertNode x, .upsertNode y, .upsertNode x'], .upsertNode z,
      [.upsertNode y'], .backfill z, rfl, by decide, trivial, fun more within other => ?_⟩
    obtain rfl : more = [] := by
      rcases List.prefix_cons_iff.1 within with none | ⟨tail, same, end_⟩
      · exact none
      · rw [List.prefix_nil.1 end_] at same
        exact absurd same other
    let v := Inventory.empty.after [.upsertNetwork n, .upsertNode x, .upsertNode y,
      .upsertNode x', .upsertNode z]
    have listed : v.completeNodes = [x', y, z] := by decide
    have known : v.networks.toList = [n] := by decide
    exact ⟨y, Catalog.mem_toList.1 (known ▸ List.mem_cons_self),
      listed ▸ List.mem_cons_of_mem x' List.mem_cons_self, by decide⟩
  -- the run itself is not to be evaluated any more
  clear_value steps
  exact lasting_rules_installed l false false "one" ⟨"a"⟩ .default steps leads mild idle
    n stored y' complete _ built lasting

/-- Without such an update a current rule can be missing for good: the owner moves in silence, and
the other node goes on sending to where the owner was. -/
theorem moved_owner_unnoticed :
    let l : Leadership := .solitary (.ofMember ⟨"a"⟩)
    let n : Network := ⟨"host", "blue", .vxlan, default, none⟩
    let x : Node := ⟨"host", ⟨"br1"⟩, default, default, .complete, .none⟩
    let y : Node := ⟨"other", ⟨"br2"⟩, default, default, .complete, ⟨some ⟨1⟩, none, none⟩⟩
    let x' : Node := { x with dataAddress := ⟨172, 16, 0, 9⟩ }
    let steps : List Step := [.disturb (.update (.upsertNetwork n)),
      .disturb (.update (.upsertNode x)), .disturb (.update (.upsertNode y)), .drain,
      .disturb (.update (.upsertNode x')), .drain]
    let s := (start l none false false).run (.activate "one" ⟨"a"⟩ .default :: steps)
    let current : Rule := ⟨⟨"br2"⟩, n.selector, ⟨[.tunnelTo ⟨"br2"⟩ ⟨172, 16, 0, 9⟩, .output ⟨1⟩]⟩⟩
    Gate.isLeader ⟨⟨"a"⟩, Placement.default.app⟩ (l.run Placement.default.app).1 ∧
      (∀ step ∈ steps, step.Mild ⟨⟨"a"⟩, Placement.default.app⟩ (l.run Placement.default.app).1) ∧
      updates s.journal = [.upsertNetwork n, .upsertNode x, .upsertNode y, .upsertNode x'] ∧
      (∀ a, s.handlers[0]? = some a → a.queue = []) ∧
      n ∈ s.inventory.networks ∧ y ∈ s.inventory.completeNodes ∧
      synthesize (.byEncapsulation s.inventory) n y (s.inventory.node? n.name) = .ok current ∧
      ⟨current, .default, .install⟩ ∉ accepted 0 s.journal := by
  intro l n x y x' steps s current
  refine ⟨by decide, ?_, by decide, idle_of_queue (by decide), ?_, ?_, by decide, by decide⟩
  · simp [steps, Step.Mild, Disturbance.Mild]
  · have all : s.inventory.networks.toList = [n] := by decide
    rw [← Catalog.mem_toList, all]
    exact List.mem_cons_self
  · have all : s.inventory.completeNodes = [x', y] := by decide
    rw [all]
    exact List.mem_cons_of_mem x' List.mem_cons_self

end Controller
end GatewayRules
