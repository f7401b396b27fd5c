import GatewayRules.Proofs.Trace
import Mathlib.Data.List.Nodup
import Mathlib.Logic.Relation

/-!
A handler on its own, with a leadership that it keeps and collaborators that do not fail. Its passes
are cut into moves that settle one pair of network and node each, and the inventory may change
between any two of them.
-/
namespace GatewayRules

/-- A pair that a pass has still to settle, with the owner that the pass has read. -/
structure Pair where
  network : Network
  node : Node
  owner : Option Node
  action : Action

structure Solo where
  inventory : Inventory
  queue : List Task
  pairs : List Pair
  /-- Networks that the present task has still to pass over. -/
  later : List Network
  requests : List Request
  updates : List Update
  /-- Each network whose removal was not worked off yet when another one was stored, with that
  one. -/
  overtaken : List (Network × Network)

namespace Inventory

def task? (v : Inventory) (u : Update) : Option Task := (v.event? u).bind Event.task?

variable {v : Inventory}

theorem task?_upsertNetwork_of_stored {n : Network} (stored : n ∈ v.networks) :
    v.task? (.upsertNetwork n) = none := by
  simp [task?, event?, network?_eq_some_iff.2 ⟨stored, rfl⟩]

theorem task?_upsertNetwork_of_new {n : Network} (new : n ∉ v.networks) :
    v.task? (.upsertNetwork n) = some (.install n) := by
  cases found : v.network? n.id with
  | none => simp [task?, event?, found, Event.task?]
  | some m =>
    have other : m ≠ n := fun same => new (same ▸ (network?_eq_some_iff.1 found).1)
    simp [task?, event?, found, other, Event.task?]

theorem task?_removeNetwork (id : String) :
    v.task? (.removeNetwork id) = (v.network? id).map .uninstall := by
  cases found : v.network? id <;> simp [task?, event?, found, Event.task?]

theorem task?_upsertNode_of_new {x : Node} (new : ∀ y ∈ v.nodes, y.hostname ≠ x.hostname)
    (complete : x.isComplete) : v.task? (.upsertNode x) = some (.backfill x) := by
  have unknown : v.node? x.hostname = none := Catalog.find?_eq_none_iff.2 new
  have ready : x.readiness = .complete := by simpa [Node.isComplete] using complete
  simp [task?, event?, unknown, ready, Event.task?]

theorem task?_upsertNode (x : Node) :
    v.task? (.upsertNode x) = none ∨ v.task? (.upsertNode x) = some (.backfill x) := by
  simp only [task?, event?]
  split <;> simp [Event.task?]

theorem task?_removeNode (hostname : String) : v.task? (.removeNode hostname) = none := rfl

/-- Only a removal gives the task to uninstall, and only for a network that was stored. -/
theorem of_task?_eq_uninstall {u : Update} {n : Network}
    (raised : v.task? u = some (.uninstall n)) :
    u = .removeNetwork n.id ∧ n ∈ v.networks := by
  cases u with
  | upsertNetwork m =>
    by_cases stored : m ∈ v.networks
    · simp [task?_upsertNetwork_of_stored stored] at raised
    · simp [task?_upsertNetwork_of_new stored] at raised
  | removeNetwork id =>
    rw [task?_removeNetwork, Option.map_eq_some_iff] at raised
    obtain ⟨m, found, same⟩ := raised
    cases same
    obtain ⟨stored, filed⟩ := network?_eq_some_iff.1 found
    exact ⟨by rw [filed], stored⟩
  | upsertNode x =>
    rcases task?_upsertNode (v := v) x with same | same <;> simp [same] at raised
  | removeNode hostname => simp [task?_removeNode] at raised

theorem of_mem_networks_update {u : Update} {n : Network} (stored : n ∈ (v.update u).networks) :
    u = .upsertNetwork n ∨ n ∈ v.networks := by
  cases u with
  | upsertNetwork m =>
    have inserted : n ∈ v.networks.insert m := stored
    rcases Catalog.mem_insert.1 inserted with rfl | ⟨old, -⟩
    · exact .inl rfl
    · exact .inr old
  | removeNetwork id =>
    have left : n ∈ v.networks.erase id := stored
    exact .inr (Catalog.mem_erase.1 left).1
  | upsertNode x | removeNode hostname => exact .inr stored

theorem of_mem_nodes_update {u : Update} {x : Node} (stored : x ∈ (v.update u).nodes) :
    u = .upsertNode x ∨ x ∈ v.nodes := by
  cases u with
  | upsertNode y =>
    have inserted : x ∈ v.nodes.insert y := stored
    rcases Catalog.mem_insert.1 inserted with rfl | ⟨old, -⟩
    · exact .inl rfl
    · exact .inr old
  | removeNode hostname =>
    have left : x ∈ v.nodes.erase hostname := stored
    exact .inr (Catalog.mem_erase.1 left).1
  | upsertNetwork n | removeNetwork id => exact .inr stored

def after (v : Inventory) (updates : List Update) : Inventory := updates.foldl update v

theorem after_concat (v : Inventory) (updates : List Update) (u : Update) :
    v.after (updates ++ [u]) = (v.after updates).update u := List.foldl_concat ..

end Inventory

namespace Solo

def empty : Solo := ⟨.empty, [], [], [], [], [], []⟩

def among (nodes : Catalog Node) : Solo := ⟨⟨∅, nodes⟩, [], [], [], [], [], []⟩

/-- The networks whose removal is still to be worked off. -/
def removals (v : Solo) : List Network :=
  (v.pairs.filter (·.action = .remove)).map Pair.network ++ v.queue.filterMap Task.removal?

def update (v : Solo) (u : Update) : Solo :=
  { v with
    inventory := v.inventory.update u
    queue := v.queue ++ (v.inventory.task? u).toList
    updates := v.updates ++ [u]
    overtaken := v.overtaken ++ u.network?.toList.flatMap fun m => v.removals.map (·, m) }

def passOver (v : Solo) (n : Network) (action : Action) : List Pair :=
  v.inventory.completeNodes.map fun x => ⟨n, x, v.inventory.node? n.name, action⟩

def begin (v : Solo) : Task → Solo
  | .install n => { v with pairs := v.passOver n .install }
  | .uninstall n => { v with pairs := v.passOver n .remove }
  | .backfill _ => { v with later := v.inventory.networks.toList }

def rule (v : Solo) (q : Pair) : Except RuleError Rule :=
  synthesize (.byEncapsulation v.inventory) q.network q.node q.owner

/-- One move of a handler whose rules go to the placement. -/
inductive Move (p : Placement) (v : Solo) : Solo → Prop where
  | update (u : Update) : Move p v (v.update u)
  | take {t : Task} {rest : List Task} : v.pairs = [] → v.later = [] → v.queue = t :: rest →
    Move p v ({ v with queue := rest }.begin t)
  | next {n : Network} {rest : List Network} : v.pairs = [] → v.later = n :: rest →
    Move p v { v with pairs := v.passOver n .install, later := rest }
  | skip {q : Pair} {rest : List Pair} {error : RuleError} : v.pairs = q :: rest →
    v.rule q = .error error → Move p v { v with pairs := rest }
  | request {q : Pair} {rest : List Pair} {rule : Rule} : v.pairs = q :: rest →
    v.rule q = .ok rule →
      Move p v { v with pairs := rest, requests := v.requests ++ [⟨rule, p, q.action⟩] }

abbrev Moves (p : Placement) : Solo → Solo → Prop := Relation.ReflTransGen (Move p)

theorem foldl_update (p : Placement) (v : Solo) (us : List Update) :
    Moves p v (us.foldl update v) ∧ (us.foldl update v).pairs = v.pairs ∧
    (us.foldl update v).later = v.later := by
  induction us generalizing v with
  | nil => exact ⟨.refl, rfl, rfl⟩
  | cons u rest ih =>
    obtain ⟨moves, pairs, later⟩ := ih (v.update u)
    exact ⟨.head (.update u) moves, pairs, later⟩

theorem mem_passOver {v : Solo} {n : Network} {action : Action} {q : Pair} :
    q ∈ v.passOver n action ↔
      ∃ x ∈ v.inventory.completeNodes, ⟨n, x, v.inventory.node? n.name, action⟩ = q :=
  List.mem_map

theorem of_mem_passOver {v : Solo} {n : Network} {action : Action} {q : Pair}
    (due : q ∈ v.passOver n action) : q.network = n ∧ q.action = action := by
  obtain ⟨x, -, rfl⟩ := mem_passOver.1 due
  exact ⟨rfl, rfl⟩

theorem not_remove_of_mem_passOver {v : Solo} {n : Network} {q : Pair}
    (due : q ∈ v.passOver n .install) : q.action ≠ .remove := by
  rw [(of_mem_passOver due).2]
  decide

theorem mem_removals {v : Solo} {n : Network} : n ∈ v.removals ↔
    (∃ q ∈ v.pairs, q.action = .remove ∧ q.network = n) ∨ .uninstall n ∈ v.queue := by
  have waiting (t : Task) : t.removal? = some n ↔ t = .uninstall n := by
    cases t <;> simp [Task.removal?]
  simp [removals, waiting, and_assoc]

theorem removals_update (v : Solo) (u : Update) : (v.update u).removals =
    v.removals ++ (v.inventory.task? u).toList.filterMap Task.removal? := by
  simp [removals, update]

/-- Everything in play comes from an update, or is a node that has been known from the beginning. -/
structure Filed (known : Catalog Node) (v : Solo) : Prop where
  networks : ∀ n ∈ v.inventory.networks, .upsertNetwork n ∈ v.updates
  nodes : ∀ x ∈ v.inventory.nodes, x ∈ known ∨ .upsertNode x ∈ v.updates
  uninstalls : ∀ n, .uninstall n ∈ v.queue →
    .upsertNetwork n ∈ v.updates ∧ ∃ id, .removeNetwork id ∈ v.updates
  removals : ∀ q ∈ v.pairs, q.action = .remove →
    .upsertNetwork q.network ∈ v.updates ∧ ∃ id, .removeNetwork id ∈ v.updates

namespace Filed

variable {known : Catalog Node} {p : Placement} {v w : Solo}

theorem among : Filed known (Solo.among known) where
  networks _ stored := absurd stored List.not_mem_nil
  nodes _ := .inl
  uninstalls _ waits := absurd waits List.not_mem_nil
  removals _ due := absurd due List.not_mem_nil

theorem update (filed : Filed known v) (u : Update) : Filed known (v.update u) := by
  have kept {e : Update} : e ∈ v.updates → e ∈ v.updates ++ [u] := List.mem_append_left [u]
  have now : u ∈ v.updates ++ [u] := List.mem_append_right _ List.mem_cons_self
  refine ⟨fun n stored => ?_, fun x stored => ?_, fun n waits => ?_, fun q due removes => ?_⟩
  · rcases Inventory.of_mem_networks_update stored with rfl | old
    · exact now
    · exact kept (filed.networks n old)
  · rcases Inventory.of_mem_nodes_update stored with rfl | old
    · exact .inr now
    · exact (filed.nodes x old).imp_right kept
  · rcases List.mem_append.1 waits with old | new
    · obtain ⟨upserted, id, removed⟩ := filed.uninstalls n old
      exact ⟨kept upserted, id, kept removed⟩
    · obtain ⟨rfl, stored⟩ := Inventory.of_task?_eq_uninstall (Option.mem_toList.1 new)
      exact ⟨kept (filed.networks n stored), n.id, now⟩
  · obtain ⟨upserted, id, removed⟩ := filed.removals q due removes
    exact ⟨kept upserted, id, kept removed⟩

theorem move (filed : Filed known v) (m : Move p v w) : Filed known w := by
  cases m with
  | update u => exact filed.update u
  | take idle free queue =>
    next t rest =>
    have waiting (n : Network) (waits : .uninstall n ∈ rest) :=
      filed.uninstalls n (queue ▸ List.mem_cons_of_mem t waits)
    cases t with
    | install n =>
      exact ⟨filed.networks, filed.nodes, waiting,
        fun q due removes => absurd removes (not_remove_of_mem_passOver due)⟩
    | uninstall n =>
      refine ⟨filed.networks, filed.nodes, waiting, fun q due _ => ?_⟩
      rw [(of_mem_passOver due).1]
      exact filed.uninstalls n (queue ▸ List.mem_cons_self)
    | backfill x =>
      exact ⟨filed.networks, filed.nodes, waiting, filed.removals⟩
  | next idle more =>
    exact ⟨filed.networks, filed.nodes, filed.uninstalls,
      fun q due removes => absurd removes (not_remove_of_mem_passOver due)⟩
  | skip pairs _ | request pairs _ =>
    exact ⟨filed.networks, filed.nodes, filed.uninstalls,
      fun q due => filed.removals q (pairs ▸ List.mem_cons_of_mem _ due)⟩

end Filed

theorem Moves.filed {known : Catalog Node} {p : Placement} {v : Solo}
    (moves : Moves p (.among known) v) : Filed known v := by
  induction moves with
  | refl => exact .among
  | tail _ m ih => exact ih.move m

theorem Move.updates {p : Placement} {v w : Solo} (m : Move p v w) :
    w.updates = v.updates ∨ ∃ u, w.updates = v.updates ++ [u] := by
  cases m with
  | update u => exact .inr ⟨u, rfl⟩
  | @take t rest idle free queue => cases t <;> exact .inl rfl
  | next _ _ | skip _ _ | request _ _ => exact .inl rfl

theorem Move.updates_subset {p : Placement} {v w : Solo} (m : Move p v w) :
    v.updates ⊆ w.updates := by
  rcases m.updates with same | ⟨u, same⟩ <;> rw [same]
  · exact List.Subset.refl _
  · exact List.subset_append_left v.updates [u]

/-- The inventory is what the updates have made of the first one. -/
theorem Moves.inventory {known : Catalog Node} {p : Placement} {v : Solo}
    (moves : Moves p (.among known) v) :
    v.inventory = (Inventory.mk ∅ known).after v.updates := by
  induction moves with
  | refl => rfl
  | tail _ m ih =>
    cases m with
    | update u => exact (congrArg (·.update u) ih).trans (Inventory.after_concat _ _ u).symm
    | @take t rest idle free queue => cases t <;> exact ih
    | next _ _ | skip _ _ | request _ _ => exact ih

end Solo
end GatewayRules
