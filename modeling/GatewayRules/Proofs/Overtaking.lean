import GatewayRules.Proofs.Steady

/-!
Networks that come back while their removal still waits. The port for a removal is then the one for
the network that is stored by now. Apart from that, a pass finds the encapsulation in use that the
record of its network has, even a pass to install that runs late: behind it waits the removal.
-/
namespace GatewayRules

/-- Networks come under identifiers that are free at the moment and go again, and no gateway is ever
used by two identifiers. -/
structure Alternating (v : Inventory) (updates : List Update) : Prop where
  only : NetworksOnly updates
  free : ∀ first n rest, updates = first ++ .upsertNetwork n :: rest →
    (v.after first).network? n.id = none
  apart : Apart updates

theorem Alternating.before_move {v : Inventory} {p : Placement} {first second : Solo}
    (alternating : Alternating v second.updates) (m : Solo.Move p first second) :
    Alternating v first.updates where
  only := alternating.only.before_move m
  free before n rest split := by
    rcases m.updates with same | ⟨u, same⟩
    · exact alternating.free before n rest (same.trans split)
    · refine alternating.free before n (rest ++ [u]) ?_
      rw [same, split, List.append_assoc, List.cons_append]
  apart := alternating.apart.of_subset m.updates_subset

namespace Alternating

variable {v : Inventory} {updates : List Update}

theorem nil (v : Inventory) : Alternating v [] where
  only := List.forall_mem_nil _
  free first n rest split := by simp at split
  apart n m first := absurd first List.not_mem_nil

theorem concat (alternating : Alternating v updates) {u : Update}
    (only : (∃ n, u = .upsertNetwork n) ∨ ∃ id, u = .removeNetwork id)
    (free : ∀ n, u = .upsertNetwork n → (v.after updates).network? n.id = none)
    (apart : Apart (updates ++ [u])) : Alternating v (updates ++ [u]) where
  only := List.forall_mem_append.2 ⟨alternating.only, List.forall_mem_singleton.2 only⟩
  free first n rest split := by
    rcases List.eq_nil_or_concat rest with rfl | ⟨rest, e, rfl⟩
    · obtain ⟨rfl, same⟩ := List.append_inj' split rfl
      exact free n (List.singleton_inj.1 same)
    · have whole : updates ++ [u] = (first ++ .upsertNetwork n :: rest) ++ [e] := by
        simpa using split
      exact alternating.free first n rest (List.append_inj' whole rfl).1
  apart

theorem goes (alternating : Alternating v updates) (id : String) :
    Alternating v (updates ++ [.removeNetwork id]) := by
  apply alternating.concat (.inr ⟨id, rfl⟩)
  · intro n same
    cases same
  · intro n m first second
    exact alternating.apart n m (by simpa using first) (by simpa using second)

theorem comes (alternating : Alternating v updates) {n : Network}
    (free : (v.after updates).network? n.id = none)
    (apart : ∀ m, .upsertNetwork m ∈ updates → m.gateway = n.gateway → m.id = n.id) :
    Alternating v (updates ++ [.upsertNetwork n]) := by
  apply alternating.concat (.inl ⟨n, rfl⟩)
  · intro m same
    cases same
    exact free
  · intro m k first second same
    rcases (by simpa using first : .upsertNetwork m ∈ updates ∨ m = n) with old | rfl
    · rcases (by simpa using second : .upsertNetwork k ∈ updates ∨ k = n) with old' | rfl
      · exact alternating.apart m k old old' same
      · exact apart m old same
    · rcases (by simpa using second : .upsertNetwork k ∈ updates ∨ k = m) with old' | rfl
      · exact (apart k old' same.symm).symm
      · rfl

end Alternating

/-- No network has come while one with this traffic, under the same identifier but with another
encapsulation, was still to be removed. -/
def Unhurried (overtaken : List (Network × Network)) (s : Selector) : Prop :=
  ∀ o ∈ overtaken, o.1.selector = s → o.2.id = o.1.id → o.2.encapsulation = o.1.encapsulation

theorem Unhurried.of_subset {fewer overtaken : List (Network × Network)} {s : Selector}
    (unhurried : Unhurried overtaken s) (within : fewer ⊆ overtaken) : Unhurried fewer s :=
  fun o member => unhurried o (within member)

namespace Solo

/-- What there is to do fits what is stored. -/
structure Aligned (v : Solo) : Prop where
  /-- A network stored under the identifier of one that is to be removed has come since. -/
  removals : ∀ n ∈ v.removals, ∀ m ∈ v.inventory.networks, m.id = n.id → (n, m) ∈ v.overtaken
  /-- From any place in the queue on, a network that is to be installed is stored or is to be
  removed later. -/
  queue : ∀ rest, rest <:+ v.queue → ∀ n, .install n ∈ rest →
    n ∈ v.inventory.networks ∨ .uninstall n ∈ rest
  pairs : ∀ q ∈ v.pairs, q.action = .install →
    q.network ∈ v.inventory.networks ∨ .uninstall q.network ∈ v.queue

namespace Aligned

variable {known : Catalog Node} {p : Placement} {v w : Solo}

theorem among : Aligned (Solo.among known) where
  removals n waits := absurd waits List.not_mem_nil
  queue rest ending n waits := by
    rw [List.suffix_nil.1 ending] at waits
    exact absurd waits List.not_mem_nil
  pairs q due := absurd due List.not_mem_nil

/-- A stored network is stored after the update as well, or the update has it removed. -/
theorem stored_or_uninstall {u : Update} (only : NetworksOnly (v.updates ++ [u]))
    (free : ∀ n, u = .upsertNetwork n → v.inventory.network? n.id = none) {n : Network}
    (stored : n ∈ v.inventory.networks) :
    n ∈ (v.inventory.update u).networks ∨ v.inventory.task? u = some (.uninstall n) := by
  rcases only u (List.mem_append_right _ List.mem_cons_self) with ⟨m, rfl⟩ | ⟨id, rfl⟩
  · have other : n.id ≠ m.id := Catalog.find?_eq_none_iff.1 (free m rfl) n stored
    exact .inl (Catalog.mem_insert.2 (.inr ⟨stored, other⟩))
  · by_cases same : n.id = id
    · right
      rw [Inventory.task?_removeNetwork, Inventory.network?_eq_some_iff.2 ⟨stored, same⟩]
      rfl
    · exact .inl (Catalog.mem_erase.2 ⟨stored, same⟩)

theorem stored_or_uninstall_later {u : Update} (only : NetworksOnly (v.updates ++ [u]))
    (free : ∀ n, u = .upsertNetwork n → v.inventory.network? n.id = none) {n : Network}
    {rest : List Task} (before : n ∈ v.inventory.networks ∨ .uninstall n ∈ rest) :
    n ∈ (v.inventory.update u).networks ∨ .uninstall n ∈ rest ++ (v.inventory.task? u).toList := by
  rcases before with stored | waits
  · rcases stored_or_uninstall only free stored with kept | removed
    · exact .inl kept
    · exact .inr (List.mem_append_right _ (Option.mem_toList.2 removed))
  · exact .inr (List.mem_append_left _ waits)

theorem stored_of_install {u : Update} (only : NetworksOnly (v.updates ++ [u])) {n : Network}
    (given : .install n ∈ (v.inventory.task? u).toList) :
    n ∈ (v.inventory.update u).networks := by
  rcases only.task (Option.mem_toList.1 given) with ⟨m, rfl, same⟩ | ⟨m, -, -, same⟩
  · cases same
    exact Catalog.mem_insert.2 (.inl rfl)
  · cases same

/-- Whatever is stored under the identifier of a network that is to be removed has overtaken it. -/
theorem overtaken_of_removal (aligned : Aligned v) {u : Update} {n m : Network}
    (waits : n ∈ (v.update u).removals) (stored : m ∈ (v.inventory.update u).networks)
    (same : m.id = n.id) : (n, m) ∈ (v.update u).overtaken := by
  rw [removals_update] at waits
  rcases List.mem_append.1 waits with old | new
  · rcases Inventory.of_mem_networks_update stored with rfl | before
    · apply List.mem_append_right
      exact List.mem_flatMap.2 ⟨m, List.mem_cons_self, List.mem_map.2 ⟨n, old, rfl⟩⟩
    · exact List.mem_append_left _ (aligned.removals n old m before same)
  · obtain ⟨t, given, removes⟩ := List.mem_filterMap.1 new
    have removal : t = .uninstall n := by cases t <;> simp [Task.removal?] at removes; rw [removes]
    obtain ⟨rfl, -⟩ := Inventory.of_task?_eq_uninstall (removal ▸ Option.mem_toList.1 given)
    exact absurd same (Catalog.mem_erase.1 stored).2

theorem update (aligned : Aligned v) {u : Update} (only : NetworksOnly (v.updates ++ [u]))
    (free : ∀ n, u = .upsertNetwork n → v.inventory.network? n.id = none) :
    Aligned (v.update u) where
  removals n waits m stored same := aligned.overtaken_of_removal waits stored same
  queue rest ending n waits := by
    obtain ⟨first, split⟩ := ending
    -- either the place is in the queue as it was, or nothing but the new task is behind it
    rcases List.append_eq_append_iff.1 split with ⟨before, queue, rfl⟩ | ⟨before, -, given⟩
    · rcases List.mem_append.1 waits with old | new
      · exact stored_or_uninstall_later only free (aligned.queue before ⟨first, queue.symm⟩ n old)
      · exact .inl (stored_of_install only new)
    · have new : .install n ∈ (v.inventory.task? u).toList :=
        given ▸ List.mem_append_right before waits
      exact .inl (stored_of_install only new)
  pairs q due installs := stored_or_uninstall_later only free (aligned.pairs q due installs)

theorem settle (aligned : Aligned v) {pairs : List Pair} {requests : List Request}
    (within : pairs ⊆ v.pairs) : Aligned { v with pairs, requests } where
  removals n member := by
    apply aligned.removals n
    rcases mem_removals.1 member with ⟨q, due, removal⟩ | waits
    · exact mem_removals.2 (.inl ⟨q, within due, removal⟩)
    · exact mem_removals.2 (.inr waits)
  queue := aligned.queue
  pairs q due := aligned.pairs q (within due)

theorem move (aligned : Aligned v) (steady : Steady v) (m : Move p v w)
    (alternating : Alternating ⟨∅, known⟩ w.updates)
    (inventory : v.inventory = (Inventory.mk ∅ known).after v.updates) : Aligned w := by
  cases m with
  | update u =>
    apply aligned.update alternating.only
    intro n same
    rw [inventory]
    exact alternating.free v.updates n [] (same ▸ rfl)
  | @take t rest idle free queue =>
    have tail : rest <:+ v.queue := queue ▸ List.suffix_cons t rest
    have waiting (ending : List Task) (within : ending <:+ rest) :=
      aligned.queue ending (within.trans tail)
    obtain ⟨n, -, rfl | rfl⟩ := steady.queue t (queue ▸ List.mem_cons_self)
    · refine ⟨fun m member => aligned.removals m ?_, waiting, fun q due _ => ?_⟩
      · rcases mem_removals.1 member with ⟨q, due, removes, -⟩ | waits
        · exact absurd removes (not_remove_of_mem_passOver due)
        · exact mem_removals.2 (.inr (tail.subset waits))
      · have named : q.network = n := (of_mem_passOver due).1
        rw [named]
        rcases aligned.queue v.queue List.suffix_rfl n (queue ▸ List.mem_cons_self) with
          stored | waits
        · exact .inl stored
        · have behind : .uninstall n ∈ rest := by simpa [queue] using waits
          exact .inr behind
    · refine ⟨fun m member => aligned.removals m ?_, waiting, fun q due installs => ?_⟩
      · rcases mem_removals.1 member with ⟨q, due, -, named⟩ | waits
        · have same : m = n := named.symm.trans (of_mem_passOver due).1
          exact mem_removals.2 (.inr (queue ▸ same ▸ List.mem_cons_self))
        · exact mem_removals.2 (.inr (tail.subset waits))
      · cases installs.symm.trans (of_mem_passOver due).2
  | next idle later => cases later.symm.trans steady.free
  | skip pairs fails => exact aligned.settle (pairs ▸ List.subset_cons_self _ _)
  | request pairs built => exact aligned.settle (pairs ▸ List.subset_cons_self _ _)

/-- A pair whose network has not been overtaken comes to what its record calls for. -/
theorem rule_eq (aligned : Aligned v) {q : Pair} (due : q ∈ v.pairs)
    (unhurried : Unhurried v.overtaken q.network.selector) :
    v.rule q = synthesize (.byEncapsulation .empty) q.network q.node q.owner := by
  have own : Resolver.encapsulation v.inventory q.network = q.network.encapsulation := by
    cases found : v.inventory.network? q.network.id with
    | none => simp [Resolver.encapsulation, found]
    | some m =>
      obtain ⟨stored, same⟩ := Inventory.network?_eq_some_iff.1 found
      have kept (removed : q.network ∈ v.removals) : m.encapsulation = q.network.encapsulation :=
        unhurried (q.network, m) (aligned.removals _ removed m stored same) rfl same
      have equal : m.encapsulation = q.network.encapsulation := by
        cases action : q.action with
        | install =>
          rcases aligned.pairs q due action with present | waits
          · rw [Catalog.eq_of_key stored present same]
          · exact kept (mem_removals.2 (.inr waits))
        | remove => exact kept (mem_removals.2 (.inl ⟨q, due, action, rfl⟩))
      simpa [Resolver.encapsulation, found] using equal
  unfold Solo.rule
  rw [synthesize_eq_snapshot, own]

end Aligned

theorem Moves.aligned {known : Catalog Node} {p : Placement} {v : Solo}
    (moves : Moves p (.among known) v) (alternating : Alternating ⟨∅, known⟩ v.updates) :
    Aligned v := by
  induction moves with
  | refl => exact .among
  | tail earlier m ih =>
    have before := alternating.before_move m
    exact (ih before).move (Moves.steady earlier before.only) m alternating
      (Moves.inventory earlier)

end Solo
end GatewayRules
