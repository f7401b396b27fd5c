import GatewayRules.Synthesis

/-!
The rules that an inventory calls for, one for every stored network on every complete node, and what
an update makes of them.
-/
namespace GatewayRules

theorem synthesize_congr {v w : Inventory} {n : Network} (same : v.network? n.id = w.network? n.id)
    (x : Node) (owner : Option Node) :
    synthesize (.byEncapsulation v) n x owner = synthesize (.byEncapsulation w) n x owner := by
  simp only [synthesize, treatment, Resolver.port, Resolver.encapsulation, same]

/-- The rule is the one for a network that has the encapsulation in use. -/
theorem synthesize_eq_snapshot (v : Inventory) (n : Network) (x : Node) (owner : Option Node) :
    synthesize (.byEncapsulation v) n x owner = synthesize (.byEncapsulation .empty)
      { n with encapsulation := Resolver.encapsulation v n } x owner := rfl

theorem selector_of_synthesize {r : Resolver} {n : Network} {x : Node} {owner : Option Node}
    {rule : Rule} (built : synthesize r n x owner = .ok rule) : rule.selector = n.selector := by
  unfold synthesize at built
  cases treated : treatment r n x owner with
  | error e => simp [treated, bind, Except.bind] at built
  | ok t =>
    simp only [treated, bind, Except.bind, pure, Except.pure, Except.ok.injEq] at built
    rw [← built]

theorem synthesize_of_none {r : Resolver} {n : Network} {x : Node} {rule : Rule}
    (built : synthesize r n x none = .ok rule) (owner : Option Node) :
    synthesize r n x owner = .ok rule := by
  by_cases owns : x.Owns n
  · simpa [synthesize, treatment, owns] using built
  · unfold synthesize treatment at built
    rw [if_neg owns] at built
    cases port : r.port n x <;> simp [port, bind, Except.bind] at built

namespace Inventory

/-- The rule is the one for a stored network on a complete node. -/
structure Current (v : Inventory) (n : Network) (x : Node) (rule : Rule) : Prop where
  network : n ∈ v.networks
  node : x ∈ v.completeNodes
  built : synthesize (.byEncapsulation v) n x (v.node? n.name) = .ok rule

variable {v w : Inventory} {n : Network} {x : Node} {rule : Rule}

namespace Current

theorem of_upsertNetwork {m : Network} (cur : (v.update (.upsertNetwork m)).Current n x rule)
    (other : n ≠ m) : v.Current n x rule := by
  have inserted : n ∈ v.networks.insert m := cur.network
  obtain ⟨stored, apart⟩ := (Catalog.mem_insert.1 inserted).resolve_left other
  have same : (v.update (.upsertNetwork m)).network? n.id = v.network? n.id :=
    Catalog.find?_insert_of_ne v.networks apart.symm
  exact ⟨stored, cur.node, (synthesize_congr same x _).symm.trans cur.built⟩

theorem of_upsertNetwork_stored {m : Network} (stored : m ∈ v.networks)
    (cur : (v.update (.upsertNetwork m)).Current n x rule) : v.Current n x rule := by
  by_cases same : n = m
  · subst m
    have kept : (v.update (.upsertNetwork n)).network? n.id = v.network? n.id :=
      (Catalog.find?_insert_self v.networks n).trans (network?_eq_some_iff.2 ⟨stored, rfl⟩).symm
    exact ⟨stored, cur.node, (synthesize_congr kept x _).symm.trans cur.built⟩
  · exact cur.of_upsertNetwork same

theorem of_removeNetwork {id : String} (cur : (v.update (.removeNetwork id)).Current n x rule) :
    v.Current n x rule ∧ n.id ≠ id := by
  have left : n ∈ v.networks.erase id := cur.network
  obtain ⟨stored, other⟩ := Catalog.mem_erase.1 left
  have same : (v.update (.removeNetwork id)).network? n.id = v.network? n.id :=
    Catalog.find?_erase_of_ne v.networks other
  exact ⟨⟨stored, cur.node, (synthesize_congr same x _).symm.trans cur.built⟩, other⟩

theorem removeNetwork (cur : v.Current n x rule) {id : String} (other : n.id ≠ id) :
    (v.update (.removeNetwork id)).Current n x rule := by
  have same : (v.update (.removeNetwork id)).network? n.id = v.network? n.id :=
    Catalog.find?_erase_of_ne v.networks other
  exact ⟨Catalog.mem_erase.2 ⟨cur.network, other⟩, cur.node,
    (synthesize_congr same x _).trans cur.built⟩

end Current

/-- For a stored network the rule is the one that its record alone calls for. -/
theorem current_iff (stored : n ∈ v.networks) : v.Current n x rule ↔
    x ∈ v.completeNodes ∧ synthesize (.byEncapsulation .empty) n x (v.node? n.name) = .ok rule := by
  have own : Resolver.encapsulation v n = n.encapsulation := by
    simp [Resolver.encapsulation, network?_eq_some_iff.2 ⟨stored, rfl⟩]
  have same : synthesize (.byEncapsulation v) n x (v.node? n.name) =
      synthesize (.byEncapsulation .empty) n x (v.node? n.name) := by
    rw [synthesize_eq_snapshot, own]
  exact ⟨fun cur => ⟨cur.node, same ▸ cur.built⟩, fun ⟨node, built⟩ => ⟨stored, node, same ▸ built⟩⟩

structure Grows (v w : Inventory) : Prop where
  networks : ∀ n ∈ v.networks, n ∈ w.networks
  completeNodes : ∀ x ∈ v.completeNodes, x ∈ w.completeNodes
  node? : ∀ hostname x, v.node? hostname = some x → w.node? hostname = some x

theorem Grows.network? (grows : v.Grows w) (stored : n ∈ v.networks) :
    w.network? n.id = v.network? n.id :=
  (network?_eq_some_iff.2 ⟨grows.networks n stored, rfl⟩).trans
    (network?_eq_some_iff.2 ⟨stored, rfl⟩).symm

theorem Current.grow (cur : v.Current n x rule) (grows : v.Grows w) : w.Current n x rule := by
  refine ⟨grows.networks n cur.network, grows.completeNodes x cur.node, ?_⟩
  rw [synthesize_congr (grows.network? cur.network)]
  have built := cur.built
  cases owner : v.node? n.name with
  | none =>
    rw [owner] at built
    exact synthesize_of_none built _
  | some o =>
    rw [owner] at built
    rwa [grows.node? n.name o owner]

theorem grows_upsertNetwork {m : Network} (fresh : ∀ n ∈ v.networks, n.id ≠ m.id) :
    v.Grows (v.update (.upsertNetwork m)) where
  networks n stored := Catalog.mem_insert.2 (.inr ⟨stored, fresh n stored⟩)
  completeNodes _ := id
  node? _ _ := id

theorem grows_upsertNode {y : Node} (fresh : ∀ x ∈ v.nodes, x.hostname ≠ y.hostname) :
    v.Grows (v.update (.upsertNode y)) where
  networks _ := id
  completeNodes x listed := by
    obtain ⟨stored, complete⟩ := mem_completeNodes.1 listed
    exact mem_completeNodes.2 ⟨Catalog.mem_insert.2 (.inr ⟨stored, fresh x stored⟩), complete⟩
  node? hostname x found := by
    obtain ⟨stored, filed⟩ := node?_eq_some_iff.1 found
    exact (Catalog.find?_insert_of_ne v.nodes fun same =>
      fresh x stored (filed.trans same.symm)).trans found

end Inventory
end GatewayRules
