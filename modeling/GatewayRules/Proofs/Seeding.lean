import Mathlib.Data.List.Sort
import GatewayRules.Proofs.Storage

/-!
Contents that are put into an inventory again. Under each key they leave their last record, whatever
was there before, so a second time changes nothing; and if no key comes twice in them, nobody is
told anything the second time.
-/
namespace GatewayRules
open Journal

namespace Catalog

variable {α : Type} [Keyed α] {c d : Catalog α} {r : α} {rs : List α}

/-- A catalog is known by what is found in it. -/
theorem ext_find? (same : ∀ k, c.find? k = d.find? k) : c = d := by
  have antisymm : Std.Antisymm fun r x : α => key r < key x :=
    ⟨fun r x before after => absurd (String.lt_trans before after) (String.lt_irrefl _)⟩
  have irrefl : Std.Irrefl fun r x : α => key r < key x := ⟨fun r => String.lt_irrefl (key r)⟩
  apply ext
  apply List.Pairwise.eq_of_mem_iff c.sorted d.sorted
  intro r
  have inC : r ∈ c.toList ↔ c.find? (key r) = some r := mem_toList_iff_find?
  have inD : r ∈ d.toList ↔ d.find? (key r) = some r := mem_toList_iff_find?
  rw [same] at inC
  exact inC.trans inD.symm

theorem insert_of_mem (stored : r ∈ c) : c.insert r = c := by
  apply ext_find?
  intro k
  by_cases mine : key r = k
  · subst mine
    have before : c.find? (key r) = some r := find?_eq_some_iff.2 ⟨stored, rfl⟩
    rw [find?_insert_self, before]
  · exact c.find?_insert_of_ne mine

def insertAll (c : Catalog α) (rs : List α) : Catalog α := rs.foldl insert c

/-- The last record under a key decides, and what was there before if there is none. -/
theorem find?_insertAll (c : Catalog α) (rs : List α) (k : String) :
    (c.insertAll rs).find? k = (rs.reverse.find? (key · = k)).or (c.find? k) := by
  induction rs generalizing c with
  | nil => rfl
  | cons r rest ih =>
    have later : (c.insertAll (r :: rest)).find? k =
        (rest.reverse.find? (key · = k)).or ((c.insert r).find? k) := ih (c.insert r)
    have split : (r :: rest).reverse.find? (key · = k) =
        (rest.reverse.find? (key · = k)).or ([r].find? (key · = k)) := by
      rw [List.reverse_cons, List.find?_append]
    rw [later, split, Option.or_assoc]
    congr 1
    by_cases mine : key r = k
    · subst mine
      rw [find?_insert_self, List.find?_cons_of_pos (by simp)]
      rfl
    · rw [c.find?_insert_of_ne mine, List.find?_cons_of_neg (by simpa using mine)]
      rfl

theorem insertAll_insertAll (c : Catalog α) (rs : List α) :
    (c.insertAll rs).insertAll rs = c.insertAll rs := by
  apply ext_find?
  intro k
  rw [find?_insertAll, find?_insertAll]
  cases rs.reverse.find? (key · = k) <;> rfl

/-- Where no key comes twice, every record stays. -/
theorem mem_insertAll (distinct : (rs.map key).Nodup) (listed : r ∈ rs) : r ∈ c.insertAll rs := by
  have found : rs.reverse.find? (key · = key r) = some r := by
    cases first : rs.reverse.find? (key · = key r) with
    | none =>
      have absent := List.find?_eq_none.1 first r (List.mem_reverse.2 listed)
      simp at absent
    | some x =>
      have same : key x = key r := by simpa using List.find?_some first
      have member : x ∈ rs := List.mem_reverse.1 (List.mem_of_find?_eq_some first)
      have one : x = r := List.inj_on_of_nodup_map distinct member listed same
      rw [one]
  have decided := find?_insertAll c rs (key r)
  rw [found] at decided
  exact mem_of_find? decided

end Catalog

namespace Inventory

variable {v : Inventory}

theorem after_updates (v : Inventory) (contents : Snapshot) : v.after contents.updates =
    ⟨v.networks.insertAll contents.networks, v.nodes.insertAll contents.nodes⟩ := by
  have nodes (xs : List Node) (v : Inventory) :
      v.after (xs.map .upsertNode) = ⟨v.networks, v.nodes.insertAll xs⟩ := by
    induction xs generalizing v with
    | nil => rfl
    | cons x rest ih => exact ih (v.update (.upsertNode x))
  have networks (ns : List Network) (v : Inventory) :
      v.after (ns.map .upsertNetwork) = ⟨v.networks.insertAll ns, v.nodes⟩ := by
    induction ns generalizing v with
    | nil => rfl
    | cons n rest ih => exact ih (v.update (.upsertNetwork n))
  have parts : v.after contents.updates =
      (v.after (contents.nodes.map .upsertNode)).after (contents.networks.map .upsertNetwork) :=
    List.foldl_append
  rw [parts, nodes, networks]

/-- The update brings what is stored already. -/
def Settled (v : Inventory) (u : Update) : Prop := v.update u = v ∧ v.event? u = none

theorem settled_upsertNetwork {n : Network} (stored : n ∈ v.networks) :
    v.Settled (.upsertNetwork n) := by
  have found : v.network? n.id = some n := network?_eq_some_iff.2 ⟨stored, rfl⟩
  constructor
  · simp only [update, Catalog.insert_of_mem stored]
  · simp only [event?, found, if_true]

theorem settled_upsertNode {x : Node} (stored : x ∈ v.nodes) : v.Settled (.upsertNode x) := by
  have found : v.node? x.hostname = some x := node?_eq_some_iff.2 ⟨stored, rfl⟩
  constructor
  · simp only [update, Catalog.insert_of_mem stored]
  · simp only [event?, found, Option.map_some]
    cases x.readiness <;> rfl

/-- Contents in which no key comes twice are settled when they have been put in. -/
theorem settled_after_updates {contents : Snapshot}
    (ids : (contents.networks.map Network.id).Nodup)
    (hostnames : (contents.nodes.map Node.hostname).Nodup) :
    ∀ u ∈ contents.updates, (v.after contents.updates).Settled u := by
  intro u listed
  rw [after_updates]
  rcases List.mem_append.1 listed with node | network
  · obtain ⟨x, member, rfl⟩ := List.mem_map.1 node
    apply settled_upsertNode
    exact Catalog.mem_insertAll hostnames member
  · obtain ⟨n, member, rfl⟩ := List.mem_map.1 network
    apply settled_upsertNetwork
    exact Catalog.mem_insertAll ids member

end Inventory

namespace Controller

variable {s : Controller}

theorem inventory_seed (s : Controller) (contents : Snapshot) :
    (s.seed contents).inventory = s.inventory.after contents.updates := by
  have fold (us : List Update) (s : Controller) :
      (us.foldl update s).inventory = s.inventory.after us := by
    induction us generalizing s with
    | nil => rfl
    | cons u rest ih =>
      rw [List.foldl_cons, ih, inventory_update]
      rfl
  exact fold contents.updates s

/-- Updates that bring what is stored already leave a note in the journal, and nothing else. -/
theorem foldl_update_of_settled {us : List Update} (settled : ∀ u ∈ us, s.inventory.Settled u) :
    us.foldl update s = { s with journal := s.journal ++ us.map (.updated · none) } := by
  induction us generalizing s with
  | nil => simp
  | cons u rest ih =>
    obtain ⟨same, silent⟩ := settled u List.mem_cons_self
    have first : s.update u = s.note (.updated u none) := by
      simp only [update, silent, same]
    have later := ih (s := s.note (.updated u none)) fun w member =>
      settled w (List.mem_cons_of_mem _ member)
    rw [List.foldl_cons, first, later]
    simp [note]

/-- Seeding twice is seeding once. Whatever is stored, contents leave under each key their last record
with it, or what was there, and the same contents once more leave the networks and nodes as they
are. If no identifier and no hostname comes twice in them, the second time leaves everything as it
is but the journal, which notes updates that raise nothing, so nobody is told anything and no handler
is given a task. -/
theorem seeding_again_is_silent (s : Controller) (contents : Snapshot) :
    let once := s.seed contents
    let twice := once.seed contents
    (∀ id, once.inventory.network? id =
      (contents.networks.reverse.find? (·.id = id)).or (s.inventory.network? id)) ∧
    (∀ hostname, once.inventory.node? hostname =
      (contents.nodes.reverse.find? (·.hostname = hostname)).or (s.inventory.node? hostname)) ∧
    twice.inventory = once.inventory ∧
    ((contents.networks.map Network.id).Nodup → (contents.nodes.map Node.hostname).Nodup →
      twice = { once with journal := once.journal ++ contents.updates.map (.updated · none) } ∧
      (∀ l, delivered l twice.journal = delivered l once.journal) ∧
      ∀ k, twice.queueOf k = once.queueOf k) := by
  intro once twice
  have stored : once.inventory =
      ⟨s.inventory.networks.insertAll contents.networks,
        s.inventory.nodes.insertAll contents.nodes⟩ :=
    (inventory_seed s contents).trans (Inventory.after_updates _ _)
  have again : twice.inventory =
      ⟨once.inventory.networks.insertAll contents.networks,
        once.inventory.nodes.insertAll contents.nodes⟩ :=
    (inventory_seed once contents).trans (Inventory.after_updates _ _)
  refine ⟨fun id => ?_, fun hostname => ?_, ?_, fun ids hostnames => ?_⟩
  · rw [stored]
    exact Catalog.find?_insertAll _ _ id
  · rw [stored]
    exact Catalog.find?_insertAll _ _ hostname
  · rw [again, stored, Catalog.insertAll_insertAll, Catalog.insertAll_insertAll]
  · have settled : ∀ u ∈ contents.updates, once.inventory.Settled u := by
      rw [inventory_seed s contents]
      exact Inventory.settled_after_updates ids hostnames
    have same : twice =
        { once with journal := once.journal ++ contents.updates.map (.updated · none) } :=
      foldl_update_of_settled settled
    have untold (l : Listener) :
        delivered l (contents.updates.map (.updated · none)) = [] := by
      apply List.filterMap_eq_nil_iff.2
      intro e noted
      obtain ⟨u, -, rfl⟩ := List.mem_map.1 noted
      rfl
    refine ⟨same, fun l => ?_, fun k => ?_⟩
    · rw [same]
      show delivered l (once.journal ++ contents.updates.map (.updated · none)) = _
      rw [delivered_append, untold, List.append_nil]
    · rw [same]
      rfl

/-- An observer and a handler hear of what the contents change, of a network that is stored already
and of one that is new, and of nothing when the contents come again. -/
theorem seeding_again_is_silent_changed :
    let stored : Network := ⟨"host", "blue", .vxlan, default, none⟩
    let changed : Network := ⟨"host", "blue", .gre, default, none⟩
    let new : Network := ⟨"host", "red", .vxlan, default, none⟩
    let x : Node := ⟨"host", ⟨"br"⟩, default, default, .complete, .none⟩
    let contents : Snapshot := ⟨[changed, new], [x]⟩
    let s := (start (.appointed none) none false false).run [.listen .network "all",
      .activate "one" ⟨"a"⟩ .default, .disturb (.update (.upsertNetwork stored)), .drain]
    let once := s.seed contents
    let twice := once.seed contents
    (contents.networks.map Network.id).Nodup ∧ (contents.nodes.map Node.hostname).Nodup ∧
      delivered (.observer "all") once.journal = [.network .created stored,
        .network .updated changed, .network .created new] ∧
      once.queueOf 0 = [.backfill x, .install changed, .install new] ∧
      delivered (.observer "all") twice.journal = delivered (.observer "all") once.journal ∧
      twice.queueOf 0 = once.queueOf 0 := by
  intro stored changed new x contents s once twice
  have ids : (contents.networks.map Network.id).Nodup := by decide
  have hostnames : (contents.nodes.map Node.hostname).Nodup := by decide
  obtain ⟨-, -, -, silent⟩ := seeding_again_is_silent s contents
  obtain ⟨-, unheard, idle⟩ := silent ids hostnames
  exact ⟨ids, hostnames, by decide, by decide, unheard _, idle 0⟩

end Controller
end GatewayRules
