import GatewayRules.Proofs.Presence

/-!
A growing inventory. When networks and nodes only come, the accepted requests are in the end exactly
the installations that the inventory calls for: whichever of a network, a node and an owner comes
last, its task finds the others.
-/
namespace GatewayRules
open Journal

/-- Networks and complete nodes come, each once. -/
structure Growing (updates : List Update) : Prop where
  comes : ∀ u ∈ updates, (∃ n, u = .upsertNetwork n) ∨ ∃ x, u = .upsertNode x ∧ x.isComplete
  ids : ((updates.filterMap Update.network?).map Network.id).Nodup
  hostnames : ((updates.filterMap Update.node?).map Node.hostname).Nodup

namespace Growing

variable {updates : List Update} {u : Update}

theorem before (growing : Growing (updates ++ [u])) : Growing updates :=
  ⟨fun e member => growing.comes e (List.mem_append_left [u] member),
    (nodup_append_last growing.ids).1, (nodup_append_last growing.hostnames).1⟩

theorem before_move {p : Placement} {v w : Solo} (growing : Growing w.updates)
    (m : Solo.Move p v w) : Growing v.updates := by
  rcases m.updates with same | ⟨u, same⟩
  · rwa [same] at growing
  · rw [same] at growing
    exact growing.before

theorem orderly (growing : Growing updates) : Orderly updates := by
  refine ⟨fun hostname removed => ?_, fun x upserted => ?_, growing.hostnames, ?_⟩
  · rcases growing.comes _ removed with ⟨n, same⟩ | ⟨x, same, -⟩ <;> cases same
  · rcases growing.comes _ upserted with ⟨n, same⟩ | ⟨y, same, complete⟩
    · cases same
    · cases same
      exact complete
  · rintro ⟨id, removed⟩
    rcases growing.comes _ removed with ⟨n, same⟩ | ⟨x, same, -⟩ <;> cases same

theorem fresh {n m : Network} (growing : Growing (updates ++ [.upsertNetwork m]))
    (upserted : .upsertNetwork n ∈ updates) : n.id ≠ m.id :=
  (nodup_append_last growing.ids).2 _ upserted n m rfl rfl

end Growing

namespace Solo

/-- Every request is for a rule that should be in place, and so will be those still to come. -/
structure Sound (p : Placement) (v : Solo) : Prop where
  requests : ∀ r ∈ v.requests, ∃ n x rule,
    v.inventory.Current n x rule ∧ r = ⟨rule, p, .install⟩
  queue : ∀ t ∈ v.queue, (∃ n ∈ v.inventory.networks, t = .install n) ∨ ∃ x, t = .backfill x
  later : ∀ n ∈ v.later, n ∈ v.inventory.networks
  pairs : ∀ q ∈ v.pairs, q.action = .install ∧ q.network ∈ v.inventory.networks ∧
    q.node ∈ v.inventory.completeNodes ∧
    (q.owner = none ∨ q.owner = v.inventory.node? q.network.name)

namespace Sound

variable {p : Placement} {v w : Solo}

theorem empty : Sound p Solo.empty where
  requests _ requested := absurd requested List.not_mem_nil
  queue _ waits := absurd waits List.not_mem_nil
  later _ waits := absurd waits List.not_mem_nil
  pairs _ due := absurd due List.not_mem_nil

theorem grow (sound : Sound p v) {u : Update} (grows : v.inventory.Grows (v.inventory.update u))
    (given : ∀ t, v.inventory.task? u = some t →
      (∃ n ∈ (v.inventory.update u).networks, t = .install n) ∨ ∃ x, t = .backfill x) :
    Sound p (v.update u) := by
  refine ⟨fun r requested => ?_, fun t waits => ?_, fun n waits => ?_, fun q due => ?_⟩
  · obtain ⟨n, x, rule, cur, same⟩ := sound.requests r requested
    exact ⟨n, x, rule, cur.grow grows, same⟩
  · rcases List.mem_append.1 waits with old | new
    · exact (sound.queue t old).imp_left fun ⟨n, stored, same⟩ =>
        ⟨n, grows.networks n stored, same⟩
    · exact given t (Option.mem_toList.1 new)
  · exact grows.networks n (sound.later n waits)
  · obtain ⟨action, network, node, owner⟩ := sound.pairs q due
    refine ⟨action, grows.networks _ network, grows.completeNodes _ node, ?_⟩
    rcases owner with none | same
    · exact .inl none
    · cases found : v.inventory.node? q.network.name with
      | none => exact .inl (same.trans found)
      | some o => exact .inr ((same.trans found).trans (grows.node? _ o found).symm)

theorem update (sound : Sound p v) (filed : Filed ∅ v) {u : Update}
    (growing : Growing (v.updates ++ [u])) : Sound p (v.update u) := by
  rcases growing.comes u (List.mem_append_right _ List.mem_cons_self) with
    ⟨m, rfl⟩ | ⟨y, rfl, complete⟩
  · have fresh : ∀ n ∈ v.inventory.networks, n.id ≠ m.id := fun n stored =>
      growing.fresh (filed.networks n stored)
    refine sound.grow (Inventory.grows_upsertNetwork fresh) fun t given => .inl ?_
    have new : m ∉ v.inventory.networks := fun stored => fresh m stored rfl
    rw [Inventory.task?_upsertNetwork_of_new new] at given
    exact ⟨m, Catalog.mem_insert.2 (.inl rfl), (Option.some.inj given).symm⟩
  · have fresh : ∀ x ∈ v.inventory.nodes, x.hostname ≠ y.hostname := fun x stored =>
      growing.orderly.fresh ((filed.nodes x stored).resolve_left List.not_mem_nil)
    refine sound.grow (Inventory.grows_upsertNode fresh) fun t given => .inr ?_
    rw [Inventory.task?_upsertNode_of_new fresh complete] at given
    exact ⟨y, (Option.some.inj given).symm⟩

theorem pairs_passOver {n : Network} (stored : n ∈ v.inventory.networks) :
    ∀ q ∈ v.passOver n .install, q.action = .install ∧ q.network ∈ v.inventory.networks ∧
      q.node ∈ v.inventory.completeNodes ∧
      (q.owner = none ∨ q.owner = v.inventory.node? q.network.name) := by
  intro q due
  obtain ⟨x, listed, rfl⟩ := mem_passOver.1 due
  exact ⟨rfl, stored, listed, .inr rfl⟩

theorem take (sound : Sound p v) {t : Task} {rest : List Task} (queue : v.queue = t :: rest) :
    Sound p ({ v with queue := rest }.begin t) := by
  have waiting (s : Task) (waits : s ∈ rest) := sound.queue s (queue ▸ List.mem_cons_of_mem t waits)
  rcases sound.queue t (queue ▸ List.mem_cons_self) with ⟨n, stored, rfl⟩ | ⟨x, rfl⟩
  · exact ⟨sound.requests, waiting, sound.later, pairs_passOver stored⟩
  · exact ⟨sound.requests, waiting, fun _ => Catalog.mem_toList.1, sound.pairs⟩

theorem next (sound : Sound p v) {n : Network} {rest : List Network} (later : v.later = n :: rest) :
    Sound p { v with pairs := v.passOver n .install, later := rest } :=
  ⟨sound.requests, sound.queue, fun m waits => sound.later m (later ▸ List.mem_cons_of_mem n waits),
    pairs_passOver (sound.later n (later ▸ List.mem_cons_self))⟩

theorem skip (sound : Sound p v) {q : Pair} {rest : List Pair} (pairs : v.pairs = q :: rest) :
    Sound p { v with pairs := rest } :=
  ⟨sound.requests, sound.queue, sound.later,
    fun r due => sound.pairs r (pairs ▸ List.mem_cons_of_mem q due)⟩

theorem request (sound : Sound p v) {q : Pair} {rest : List Pair} {made : Rule}
    (pairs : v.pairs = q :: rest) (built : v.rule q = .ok made) :
    Sound p { v with pairs := rest, requests := v.requests ++ [⟨made, p, q.action⟩] } := by
  obtain ⟨action, network, node, owner⟩ := sound.pairs q (pairs ▸ List.mem_cons_self)
  have cur : v.inventory.Current q.network q.node made := by
    refine ⟨network, node, ?_⟩
    rcases owner with none | same
    · rw [rule, none] at built
      exact synthesize_of_none built _
    · rw [← same]
      exact built
  refine ⟨List.forall_mem_append.2 ⟨sound.requests, List.forall_mem_singleton.2 ?_⟩, sound.queue,
    sound.later, (sound.skip pairs).pairs⟩
  exact ⟨q.network, q.node, made, cur, by rw [action]⟩

theorem move (sound : Sound p v) (filed : Filed ∅ v) (m : Move p v w)
    (growing : Growing w.updates) : Sound p w := by
  cases m with
  | update u => exact sound.update filed growing
  | take idle free queue => exact sound.take queue
  | next idle later => exact sound.next later
  | skip pairs fails => exact sound.skip pairs
  | request pairs built => exact sound.request pairs built

end Sound

theorem Moves.sound {p : Placement} {v : Solo} (moves : Moves p .empty v)
    (growing : Growing v.updates) : Sound p v := by
  induction moves with
  | refl => exact .empty
  | tail earlier m ih =>
    have filed : Filed ∅ _ := Moves.filed earlier
    exact (ih (growing.before_move m)).move filed m growing

end Solo

namespace Controller

/-- Growing inventories converge. One handler leads from its beginning in an empty inventory, the
installer accepts everything and nothing breaks off. Whatever order updates and turns of the worker
come in, also with updates from inside the installer, no removal is ever requested, and once the
queue is empty the accepted requests are those that the inventory calls for and no others. -/
theorem requests_converge (leadership : Leadership) (keepsListeners logsRequests : Bool)
    (label : String) (self : Member) (p : Placement) (steps : List Step)
    (leads : Gate.isLeader ⟨self, p.app⟩ (leadership.run p.app).1)
    (mild : ∀ step ∈ steps, step.Mild ⟨self, p.app⟩ (leadership.run p.app).1) :
    let s := (start leadership none keepsListeners logsRequests).run
      (.activate label self p :: steps)
    Growing (updates s.journal) →
    (∀ r ∈ submitted 0 s.journal, r.action = .install) ∧
    ((∀ a, s.handlers[0]? = some a → a.queue = []) →
      ∀ r, r ∈ accepted 0 s.journal ↔
        ∃ n ∈ s.inventory.networks, ∃ x ∈ s.inventory.completeNodes, ∃ rule,
          synthesize (.byEncapsulation s.inventory) n x (s.inventory.node? n.name) = .ok rule ∧
          r = ⟨rule, p, .install⟩) := by
  intro s growing
  obtain ⟨v, moves, shows, done, free⟩ :=
    run_shows leadership keepsListeners logsRequests label self p leads steps mild
  change Shows _ _ p s v at shows
  rw [shows.updates] at growing
  have sound := moves.sound growing
  refine ⟨fun r requested => ?_, fun idle r => ⟨fun requested => ?_, ?_⟩⟩
  · rw [shows.submitted] at requested
    obtain ⟨n, x, rule, -, rfl⟩ := sound.requests r requested
    rfl
  · rw [shows.accepted] at requested
    obtain ⟨n, x, rule, cur, rfl⟩ := sound.requests r requested
    rw [shows.inventory]
    exact ⟨n, cur.network, x, cur.node, rule, cur.built, rfl⟩
  · rintro ⟨n, stored, x, complete, rule, built, rfl⟩
    have cur : v.inventory.Current n x rule := shows.inventory ▸ ⟨stored, complete, built⟩
    have inPlace := (moves.present growing.orderly).done (shows.queue_eq_nil idle) done free cur
    obtain ⟨r, requested, key⟩ := of_mem_replay inPlace
    obtain ⟨n', x', rule', -, rfl⟩ := sound.requests r requested
    obtain rfl : rule' = rule := congrArg (fun key => key.1) key
    rwa [shows.accepted]

/-- The owner comes after the network and another node inside the installer call for the owner;
both nodes have their rules in the end. -/
theorem requests_converge_late_owner :
    let l : Leadership := .solitary (.ofMember ⟨"a"⟩)
    let n : Network := ⟨"host", "blue", .vxlan, default, none⟩
    let x : Node := ⟨"host", ⟨"br1"⟩, default, default, .complete, .none⟩
    let y : Node := ⟨"other", ⟨"br2"⟩, default, default, .complete, ⟨some ⟨1⟩, none, none⟩⟩
    let steps : List Step := [.disturb (.update (.upsertNetwork n)), .work 0,
      .armHook ⟨0, [.update (.upsertNode y)]⟩, .disturb (.update (.upsertNode x)), .drain]
    let s := (start l none false false).run (.activate "one" ⟨"a"⟩ .default :: steps)
    Gate.isLeader ⟨⟨"a"⟩, Placement.default.app⟩ (l.run Placement.default.app).1 ∧
      (∀ step ∈ steps, step.Mild ⟨⟨"a"⟩, Placement.default.app⟩ (l.run Placement.default.app).1) ∧
      Growing (updates s.journal) ∧ (∀ a, s.handlers[0]? = some a → a.queue = []) ∧
      ⟨⟨⟨"br2"⟩, n.selector, ⟨[.tunnelTo ⟨"br2"⟩ default, .output ⟨1⟩]⟩⟩, .default, .install⟩ ∈
        accepted 0 s.journal := by
  intro l n x y steps s
  have leads : Gate.isLeader ⟨⟨"a"⟩, Placement.default.app⟩ (l.run Placement.default.app).1 := by
    decide
  have mild : ∀ step ∈ steps,
      step.Mild ⟨⟨"a"⟩, Placement.default.app⟩ (l.run Placement.default.app).1 := by
    simp [steps, Step.Mild, Disturbance.Mild]
  have changes : updates s.journal = [.upsertNetwork n, .upsertNode x, .upsertNode y] := by decide
  have growing : Growing (updates s.journal) := by
    rw [changes]
    exact ⟨by simp [x, y, Node.isComplete], by decide, by decide⟩
  have idle : ∀ a, s.handlers[0]? = some a → a.queue = [] := idle_of_queue (by decide)
  refine ⟨leads, mild, growing, idle, ?_⟩
  have stored : n ∈ s.inventory.networks := by
    have all : s.inventory.networks.toList = [n] := by decide
    rw [← Catalog.mem_toList, all]
    exact List.mem_cons_self
  have complete : y ∈ s.inventory.completeNodes := by
    have all : s.inventory.completeNodes = [x, y] := by decide
    rw [all]
    exact List.mem_cons_of_mem x List.mem_cons_self
  have built : synthesize (.byEncapsulation s.inventory) n y (s.inventory.node? n.name) =
      .ok ⟨⟨"br2"⟩, n.selector, ⟨[.tunnelTo ⟨"br2"⟩ default, .output ⟨1⟩]⟩⟩ := by decide
  -- the run itself is not to be evaluated any more
  clear_value steps
  have converged := requests_converge l false false "one" ⟨"a"⟩ .default steps leads mild growing
  exact (converged.2 idle _).2 ⟨n, stored, y, complete, _, built, rfl⟩

end Controller
end GatewayRules
