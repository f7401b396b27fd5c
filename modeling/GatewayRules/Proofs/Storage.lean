import Mathlib.Data.List.Induction
import GatewayRules.Proofs.ChangeLog
import GatewayRules.Proofs.OctetOrder
import GatewayRules.Proofs.Registration

/-!
The inventory as two finite maps. What is stored under a key is the record of the last upsert under
it, unless the key has been removed since, and the listings are in order of the octets of the keys.
-/
namespace GatewayRules
open Journal Text Update

namespace Update

def ForNetwork (id : String) : Update → Prop
  | upsertNetwork n => n.id = id
  | removeNetwork k => k = id
  | upsertNode _ | removeNode _ => False

def ForNode (hostname : String) : Update → Prop
  | upsertNode x => x.hostname = hostname
  | removeNode k => k = hostname
  | upsertNetwork _ | removeNetwork _ => False

instance (id : String) : DecidablePred (ForNetwork id)
  | upsertNetwork n => inferInstanceAs (Decidable (n.id = id))
  | removeNetwork k => inferInstanceAs (Decidable (k = id))
  | upsertNode _ | removeNode _ => inferInstanceAs (Decidable False)

instance (hostname : String) : DecidablePred (ForNode hostname)
  | upsertNode x => inferInstanceAs (Decidable (x.hostname = hostname))
  | removeNode k => inferInstanceAs (Decidable (k = hostname))
  | upsertNetwork _ | removeNetwork _ => inferInstanceAs (Decidable False)

def Latest (p : Update → Prop) (us : List Update) (u : Update) : Prop :=
  ∃ earlier later, us = earlier ++ u :: later ∧ p u ∧ ∀ w ∈ later, ¬p w

section
variable {p : Update → Prop} {us : List Update} {u w : Update}

theorem not_latest_nil : ¬Latest p [] u := by
  rintro ⟨earlier, later, split, -⟩
  exact List.append_ne_nil_of_right_ne_nil _ (List.cons_ne_nil _ _) split.symm

theorem latest_concat_of_pos (about : p w) : Latest p (us ++ [w]) u ↔ u = w := by
  constructor
  · rintro ⟨earlier, later, split, -, others⟩
    rcases List.eq_nil_or_concat' later with rfl | ⟨rest, last, rfl⟩
    · exact (List.append_singleton_inj.1 split).2.symm
    · rw [← List.cons_append, ← List.append_assoc] at split
      obtain rfl := (List.append_singleton_inj.1 split).2
      exact absurd about (others w (List.mem_append_right _ List.mem_cons_self))
  · rintro rfl
    exact ⟨us, [], rfl, about, List.forall_mem_nil _⟩

theorem latest_concat_of_neg (other : ¬p w) : Latest p (us ++ [w]) u ↔ Latest p us u := by
  constructor
  · rintro ⟨earlier, later, split, about, others⟩
    rcases List.eq_nil_or_concat' later with rfl | ⟨rest, last, rfl⟩
    · obtain rfl := (List.append_singleton_inj.1 split).2
      exact absurd about other
    · rw [← List.cons_append, ← List.append_assoc] at split
      have same := (List.append_singleton_inj.1 split).1
      exact ⟨earlier, rest, same, about, fun v member => others v (List.mem_append_left _ member)⟩
  · rintro ⟨earlier, later, rfl, about, others⟩
    refine ⟨earlier, later ++ [w], by simp, about, fun v member => ?_⟩
    rcases List.mem_append.1 member with before | last
    · exact others v before
    · exact List.mem_singleton.1 last ▸ other

end
end Update

namespace Catalog

variable {α : Type} [Keyed α]

theorem pairwise_octets (c : Catalog α) :
    c.toList.Pairwise fun r x => toUtf8 (key r).toList < toUtf8 (key x).toList :=
  c.sorted.imp fun less => toUtf8_lt_of_lt (String.lt_iff.1 less)

theorem mem_toList_iff_find? {c : Catalog α} {r : α} : r ∈ c.toList ↔ c.find? (key r) = some r := by
  rw [mem_toList, find?_eq_some_iff]
  exact (and_iff_left rfl).symm

end Catalog

namespace Inventory

/-- What an update leaves under an identifier: what it brings if it is about the network, and
otherwise what was there. -/
theorem network?_update (v : Inventory) (u : Update) (id : String) :
    (v.update u).network? id = if u.ForNetwork id then u.network? else v.network? id := by
  cases u with
  | upsertNetwork n =>
    rw [network?_upsertNetwork, Function.update_apply]
    exact if_congr eq_comm rfl rfl
  | removeNetwork k =>
    rw [network?_removeNetwork, Function.update_apply]
    exact if_congr eq_comm rfl rfl
  | upsertNode x | removeNode k => rfl

theorem node?_update (v : Inventory) (u : Update) (hostname : String) :
    (v.update u).node? hostname = if u.ForNode hostname then u.node? else v.node? hostname := by
  cases u with
  | upsertNode x =>
    by_cases same : x.hostname = hostname
    · subst same
      rw [if_pos (show (Update.upsertNode x).ForNode x.hostname from rfl)]
      exact v.nodes.find?_insert_self x
    · rw [if_neg (show ¬(Update.upsertNode x).ForNode hostname from same)]
      exact v.nodes.find?_insert_of_ne same
  | removeNode k =>
    by_cases same : k = hostname
    · subst same
      rw [if_pos (show (Update.removeNode k).ForNode k from rfl)]
      exact v.nodes.find?_erase_self k
    · rw [if_neg (show ¬(Update.removeNode k).ForNode hostname from same)]
      exact v.nodes.find?_erase_of_ne (Ne.symm same)
  | upsertNetwork n | removeNetwork k => rfl

theorem network?_after (us : List Update) (id : String) (n : Network) :
    (empty.after us).network? id = some n ↔ Latest (ForNetwork id) us (.upsertNetwork n) := by
  induction us using List.reverseRecOn with
  | nil => exact iff_of_false nofun not_latest_nil
  | append_singleton us w ih =>
    rw [after_concat, network?_update]
    split
    · next about =>
      rw [latest_concat_of_pos about]
      cases w <;> simp [Update.network?, eq_comm]
    · next other =>
      rw [latest_concat_of_neg other]
      exact ih

theorem node?_after (us : List Update) (hostname : String) (x : Node) :
    (empty.after us).node? hostname = some x ↔ Latest (ForNode hostname) us (.upsertNode x) := by
  induction us using List.reverseRecOn with
  | nil => exact iff_of_false nofun not_latest_nil
  | append_singleton us w ih =>
    rw [after_concat, node?_update]
    split
    · next about =>
      rw [latest_concat_of_pos about]
      cases w <;> simp [Update.node?, eq_comm]
    · next other =>
      rw [latest_concat_of_neg other]
      exact ih

/-- The inventory stores what updates leave of an empty one, each record under its own key, and
lists the stored networks and the complete nodes in order, each of them once. -/
structure Stores (v : Inventory) (us : List Update) : Prop where
  network : ∀ id n, v.network? id = some n ↔ Latest (ForNetwork id) us (.upsertNetwork n)
  node : ∀ hostname x, v.node? hostname = some x ↔ Latest (ForNode hostname) us (.upsertNode x)
  network_id : ∀ id n, v.network? id = some n → n.id = id
  node_hostname : ∀ hostname x, v.node? hostname = some x → x.hostname = hostname
  networks : ∀ n, n ∈ v.networks.toList ↔ v.network? n.id = some n
  completeNodes : ∀ x, x ∈ v.completeNodes ↔
    v.node? x.hostname = some x ∧ x.readiness = .complete
  networksInOrder : v.networks.toList.Pairwise fun m n => toUtf8 m.id.toList < toUtf8 n.id.toList
  completeNodesInOrder : v.completeNodes.Pairwise fun x y =>
    toUtf8 x.hostname.toList < toUtf8 y.hostname.toList

theorem stores_after (us : List Update) : (empty.after us).Stores us where
  network := network?_after us
  node := node?_after us
  network_id _ _ stored := (network?_eq_some_iff.1 stored).2
  node_hostname _ _ stored := (node?_eq_some_iff.1 stored).2
  networks _ := Catalog.mem_toList_iff_find?
  completeNodes x := by
    rw [mem_completeNodes, node?_eq_some_iff, Node.isComplete, beq_iff_eq]
    exact and_congr_left' (and_iff_left rfl).symm
  networksInOrder := Catalog.pairwise_octets _
  completeNodesInOrder := (Catalog.pairwise_octets _).filter _

theorem nodes_of_forNetwork (v : Inventory) {u : Update} {id : String} (about : u.ForNetwork id) :
    (v.update u).nodes = v.nodes := by
  cases u with
  | upsertNetwork n | removeNetwork k => rfl
  | upsertNode x | removeNode k => exact about.elim

theorem networks_of_forNode (v : Inventory) {u : Update} {hostname : String}
    (about : u.ForNode hostname) : (v.update u).networks = v.networks := by
  cases u with
  | upsertNode x | removeNode k => rfl
  | upsertNetwork n | removeNetwork k => exact about.elim

end Inventory

namespace Controller

/-- The inventory of a run is what the updates in its journal leave of an empty one. -/
theorem inventory_run (leadership : Leadership) (fixedPort : Option Port)
    (keepsListeners logsRequests : Bool) (steps : List Step) :
    let s := (start leadership fixedPort keepsListeners logsRequests).run steps
    s.inventory = Inventory.empty.after (updates s.journal) := by
  intro s
  have recorded := recorded_run (start leadership fixedPort keepsListeners logsRequests) steps
  have whole : s.journal = since (start leadership fixedPort keepsListeners logsRequests) s :=
    recorded.journal
  rw [whole]
  exact recorded.inventory

theorem updates_update (s : Controller) (u : Update) :
    updates (s.update u).journal = updates s.journal ++ [u] := by
  obtain ⟨schedule, entries, same, news, -⟩ := update_spec s u
  have noted : (s.update u).journal = s.journal ++ .updated u (s.inventory.event? u) :: entries := by
    rw [same]
  rw [noted, updates_append, (raised_of_news news).1]

/-- At every point of a run the inventory stores exactly what the updates so far leave, and so it
does after one more. A removal gives back the record that it removes, which is the last one put
under the key, and what is about networks leaves the nodes alone and the other way round. -/
theorem store_is_two_maps (leadership : Leadership) (fixedPort : Option Port)
    (keepsListeners logsRequests : Bool) (steps : List Step) (u : Update) :
    let s := (start leadership fixedPort keepsListeners logsRequests).run steps
    let us := updates s.journal
    let (t, reply) := s.step (.disturb (.update u))
    s.inventory.Stores us ∧ updates t.journal = us ++ [u] ∧ t.inventory.Stores (us ++ [u]) ∧
    (∀ id, u = .removeNetwork id → ∃ removed, reply = .removedNetwork removed ∧
      ∀ n, removed = some n ↔ Latest (ForNetwork id) us (.upsertNetwork n)) ∧
    (∀ hostname, u = .removeNode hostname → ∃ removed, reply = .removedNode removed ∧
      ∀ x, removed = some x ↔ Latest (ForNode hostname) us (.upsertNode x)) ∧
    (∀ id, u.ForNetwork id → t.inventory.nodes = s.inventory.nodes) ∧
    (∀ hostname, u.ForNode hostname → t.inventory.networks = s.inventory.networks) := by
  intro s us
  have inventory : s.inventory = Inventory.empty.after us :=
    inventory_run leadership fixedPort keepsListeners logsRequests steps
  have stores : s.inventory.Stores us := inventory ▸ Inventory.stores_after us
  have changed : (s.update u).inventory = s.inventory.update u := by
    obtain ⟨schedule, entries, same, -, -⟩ := update_spec s u
    rw [same]
  refine ⟨stores, updates_update s u, ?_, ?_, ?_, fun id about => ?_, fun hostname about => ?_⟩
  · change (s.update u).inventory.Stores (us ++ [u])
    rw [changed, inventory, ← Inventory.after_concat]
    exact Inventory.stores_after _
  · rintro id rfl
    exact ⟨_, rfl, stores.network id⟩
  · rintro hostname rfl
    exact ⟨_, rfl, stores.node hostname⟩
  · exact (congrArg Inventory.nodes changed).trans (s.inventory.nodes_of_forNetwork about)
  · exact (congrArg Inventory.networks changed).trans (s.inventory.networks_of_forNode about)

end Controller
end GatewayRules
