import GatewayRules.Proofs.Presence

/-!
Runs in which networks come, change and go while the nodes stay as they are. There is no task but for
one network, and every pass is over the same nodes.
-/
namespace GatewayRules

def NetworksOnly (updates : List Update) : Prop :=
  ∀ u ∈ updates, (∃ n, u = .upsertNetwork n) ∨ ∃ id, u = .removeNetwork id

/-- No gateway is ever used by two identifiers. -/
def Apart (updates : List Update) : Prop :=
  ∀ n m, .upsertNetwork n ∈ updates → .upsertNetwork m ∈ updates → n.gateway = m.gateway →
    n.id = m.id

theorem Apart.of_subset {earlier updates : List Update} (apart : Apart updates)
    (within : earlier ⊆ updates) : Apart earlier :=
  fun n m first second => apart n m (within first) (within second)

namespace NetworksOnly

variable {updates : List Update} {u : Update}

theorem before_move {p : Placement} {v w : Solo} (only : NetworksOnly w.updates)
    (m : Solo.Move p v w) : NetworksOnly v.updates :=
  fun e member => only e (m.updates_subset member)

theorem not_upsertNode (only : NetworksOnly updates) (x : Node) : .upsertNode x ∉ updates := by
  intro member
  rcases only _ member with ⟨n, same⟩ | ⟨id, same⟩ <;> cases same

theorem orderly (only : NetworksOnly updates) (apart : Apart updates) : Orderly updates where
  kept hostname removed := by
    rcases only _ removed with ⟨n, same⟩ | ⟨id, same⟩ <;> cases same
  complete x upserted := (only.not_upsertNode x upserted).elim
  hostnames := by
    have none : updates.filterMap Update.node? = [] := by
      refine List.filterMap_eq_nil_iff.2 fun e member => ?_
      rcases only e member with ⟨n, rfl⟩ | ⟨id, rfl⟩ <;> rfl
    rw [none]
    exact .nil
  apart _ := apart

theorem newcomers (only : NetworksOnly updates) (known : Catalog Node) :
    Newcomers known updates :=
  fun x upserted => (only.not_upsertNode x upserted).elim

/-- The task that an update gives is for a network that the update has stored or found stored. -/
theorem task (only : NetworksOnly (updates ++ [u])) {v : Inventory} {t : Task}
    (given : v.task? u = some t) :
    (∃ n, u = .upsertNetwork n ∧ t = .install n) ∨
    ∃ n ∈ v.networks, u = .removeNetwork n.id ∧ t = .uninstall n := by
  rcases only u (List.mem_append_right _ List.mem_cons_self) with ⟨n, rfl⟩ | ⟨id, rfl⟩
  · by_cases stored : n ∈ v.networks
    · simp [Inventory.task?_upsertNetwork_of_stored stored] at given
    · rw [Inventory.task?_upsertNetwork_of_new stored] at given
      exact .inl ⟨n, rfl, (Option.some.inj given).symm⟩
  · rw [Inventory.task?_removeNetwork] at given
    obtain ⟨n, found, rfl⟩ := Option.map_eq_some_iff.1 given
    obtain ⟨stored, rfl⟩ := Inventory.network?_eq_some_iff.1 found
    exact .inr ⟨n, stored, rfl, rfl⟩

end NetworksOnly

namespace Solo

theorem passOver_update {v : Solo} {u : Update} (only : NetworksOnly (v.updates ++ [u]))
    (n : Network) (action : Action) : (v.update u).passOver n action = v.passOver n action := by
  rcases only u (List.mem_append_right _ List.mem_cons_self) with ⟨m, rfl⟩ | ⟨id, rfl⟩ <;> rfl

/-- The handler has no work but for networks that updates have stored. -/
structure Steady (v : Solo) : Prop where
  free : v.later = []
  queue : ∀ t ∈ v.queue, ∃ n, .upsertNetwork n ∈ v.updates ∧ (t = .install n ∨ t = .uninstall n)
  pairs : ∀ q ∈ v.pairs, .upsertNetwork q.network ∈ v.updates ∧
    q ∈ v.passOver q.network q.action

namespace Steady

variable {known : Catalog Node} {p : Placement} {v w : Solo}

theorem among : Steady (Solo.among known) where
  free := rfl
  queue _ waits := absurd waits List.not_mem_nil
  pairs _ due := absurd due List.not_mem_nil

theorem update (steady : Steady v) (filed : Filed known v) {u : Update}
    (only : NetworksOnly (v.updates ++ [u])) : Steady (v.update u) := by
  have kept {n : Network} (upserted : .upsertNetwork n ∈ v.updates) :
      .upsertNetwork n ∈ v.updates ++ [u] := List.mem_append_left [u] upserted
  refine ⟨steady.free, fun t waits => ?_, fun q due => ?_⟩
  · rcases List.mem_append.1 waits with old | new
    · obtain ⟨n, upserted, task⟩ := steady.queue t old
      exact ⟨n, kept upserted, task⟩
    · rcases only.task (Option.mem_toList.1 new) with ⟨n, rfl, rfl⟩ | ⟨n, stored, -, rfl⟩
      · exact ⟨n, List.mem_append_right _ List.mem_cons_self, .inl rfl⟩
      · exact ⟨n, kept (filed.networks n stored), .inr rfl⟩
  · obtain ⟨upserted, planned⟩ := steady.pairs q due
    exact ⟨kept upserted, passOver_update only _ _ ▸ planned⟩

theorem of_mem_passOver {n : Network} {action : Action} (upserted : .upsertNetwork n ∈ v.updates) :
    ∀ q ∈ v.passOver n action, .upsertNetwork q.network ∈ v.updates ∧
      q ∈ v.passOver q.network q.action := by
  intro q due
  have planned := due
  obtain ⟨x, -, rfl⟩ := mem_passOver.1 due
  exact ⟨upserted, planned⟩

theorem move (steady : Steady v) (filed : Filed known v) (m : Move p v w)
    (only : NetworksOnly w.updates) : Steady w := by
  cases m with
  | update u => exact steady.update filed only
  | @take t rest idle free queue =>
    have waiting (s : Task) (waits : s ∈ rest) :=
      steady.queue s (queue ▸ List.mem_cons_of_mem t waits)
    obtain ⟨n, upserted, rfl | rfl⟩ := steady.queue t (queue ▸ List.mem_cons_self)
    · exact ⟨steady.free, waiting, of_mem_passOver upserted⟩
    · exact ⟨steady.free, waiting, of_mem_passOver upserted⟩
  | next idle later => cases later.symm.trans steady.free
  | @skip q rest error pairs fails =>
    exact ⟨steady.free, steady.queue,
      fun r due => steady.pairs r (pairs ▸ List.mem_cons_of_mem q due)⟩
  | @request q rest rule pairs made =>
    exact ⟨steady.free, steady.queue,
      fun r due => steady.pairs r (pairs ▸ List.mem_cons_of_mem q due)⟩

end Steady

theorem Moves.steady {known : Catalog Node} {p : Placement} {v : Solo}
    (moves : Moves p (.among known) v) (only : NetworksOnly v.updates) : Steady v := by
  induction moves with
  | refl => exact .among
  | tail earlier m ih => exact (ih (only.before_move m)).move (Moves.filed earlier) m only

/-- Once all is done, all that the inventory calls for is in place. -/
theorem Moves.present_steady {known : Catalog Node} {p : Placement} {v : Solo}
    (moves : Moves p (.among known) v) (only : NetworksOnly v.updates) (apart : Apart v.updates) :
    Present p v :=
  Moves.present_among moves (only.orderly apart) (only.newcomers known)

end Solo
end GatewayRules
