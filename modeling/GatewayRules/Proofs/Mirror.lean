import GatewayRules.Proofs.ChangeLog
import GatewayRules.Proofs.Undisturbed

/-!
The removal of a network mirrors its installation. The two passes are made over different
inventories, one with the network and one without it, but they find the same ports: the stored
network has the encapsulation that the record in the task has.
-/
namespace GatewayRules
open Journal

/-- The disturbance leaves the nodes, the refusals and the network under the identifier alone. -/
def Disturbance.Spares (id : String) : Disturbance → Prop
  | .appoint _ => True
  | .update (.upsertNetwork m) => m.id ≠ id
  | .update (.removeNetwork other) => other ≠ id
  | .update (.upsertNode _) | .update (.removeNode _) | .refuse .. | .accept _ => False

/-- The same call of a pass with another action. -/
def Call.turned (action : Action) : Call → Call
  | .submit r => .submit { r with action }
  | .accepted r => .accepted { r with action }
  | c => c

theorem Resolver.port_congr {v w : Inventory} {n : Network}
    (same : encapsulation v n = encapsulation w n) :
    (Resolver.byEncapsulation v).port n = (Resolver.byEncapsulation w).port n := by
  funext x
  simp only [port, same]

namespace Controller

variable {s t : Controller} {h : Nat} {p : Placement} {n : Network} {owner : Option Node}

theorem resolver_of_ports (ports : t.ports = s.ports)
    (byType : s.resolver = .byEncapsulation s.inventory) :
    t.resolver = .byEncapsulation t.inventory := by
  have plain : s.ports = (none, none) := by
    unfold resolver at byType
    split at byType
    · cases byType
    · cases byType
    · next uncustomized unfixed => exact Prod.ext unfixed uncustomized
  obtain ⟨unfixed, uncustomized⟩ := Prod.mk.inj (ports.trans plain)
  unfold resolver
  rw [unfixed, uncustomized]

theorem ports_act (s : Controller) (act : Act) : (s.act act).ports = s.ports := by
  have logged (s : Controller) (n : Option Notice) : (s.logSome n).ports = s.ports := by
    cases n <;> rfl
  cases act with
  | disturb d => exact ports_disturb s d
  | stand h g | withdraw h g => exact logged _ _
  | close h =>
    simp only [Controller.act]
    split <;> rfl
  | work h =>
    simp only [Controller.act]
    rcases work_cases s h with same | ended | ⟨a, task, rest, -, -, w⟩
    · rw [same]
    · rw [ended]
      rfl
    · have kept : (s.work h).ports = (s.take h task rest).ports := ports_working w
      exact kept
  | reconcile h n action =>
    simp only [Controller.act, Controller.reconcile]
    split
    · rfl
    · exact ports_working (pass_working s h _ n action)
  | _ => rfl

theorem ports_run (s : Controller) (steps : List Step) : (s.run steps).ports = s.ports := by
  have acts : Acts (fun _ => True) s (s.run steps) := run_acts s steps fun _ _ _ _ => trivial
  exact acts.keeps (P := fun t => t.ports = s.ports)
    (fun v act _ same => (ports_act v act).trans same) rfl

/-- What a pass over the network under the identifier goes by is as it was. -/
structure Spared (id : String) (s t : Controller) : Prop where
  uncrashed : t.crashes = s.crashes
  nodes : t.inventory.nodes = s.inventory.nodes
  network : t.inventory.network? id = s.inventory.network? id
  refusals : t.refusals = s.refusals
  ports : t.ports = s.ports

namespace Spared

variable {id : String}

theorem refl (id : String) (s : Controller) : Spared id s s := ⟨rfl, rfl, rfl, rfl, rfl⟩

theorem disturb (spared : Spared id s t) {d : Disturbance} (spares : d.Spares id) :
    Spared id s (t.disturb d) := by
  cases d with
  | appoint leader => exact { spared with }
  | refuse device reason | accept device => exact spares.elim
  | update u =>
    have other : (t.inventory.update u).nodes = t.inventory.nodes ∧
        (t.inventory.update u).network? id = t.inventory.network? id := by
      cases u with
      | upsertNetwork m => exact ⟨rfl, Catalog.find?_insert_of_ne _ spares⟩
      | removeNetwork i => exact ⟨rfl, Catalog.find?_erase_of_ne _ (Ne.symm spares)⟩
      | upsertNode x | removeNode hostname => exact spares.elim
    obtain ⟨schedule, entries, same, -, -⟩ := update_spec t u
    show Spared id s (t.update u)
    rw [same]
    exact { spared with
      nodes := other.1.trans spared.nodes
      network := other.2.trans spared.network }

theorem port (spared : Spared n.id s t) (byType : s.resolver = .byEncapsulation s.inventory) :
    t.resolver.port n = s.resolver.port n := by
  rw [byType, resolver_of_ports spared.ports byType]
  exact Resolver.port_congr (by unfold Resolver.encapsulation; rw [spared.network])

/-- Hooks that spare the network disturb no pass over it. -/
theorem undisturbed (uncrashed : s.crashes = [])
    (byType : s.resolver = .byEncapsulation s.inventory) :
    Undisturbed n s fun t => Spared n.id s t ∧ t.Hooked (Disturbance.Spares n.id) where
  uncrashed _ inside := inside.1.uncrashed.trans uncrashed
  note _ _ inside := ⟨{ inside.1 with }, inside.2⟩
  fireHooks _ inside := fireHooks_keeps_of_hooked inside.2 (fun _ _ spared => { spared with })
    (fun _ _ spares spared => spared.disturb spares) inside.1
  nodes _ inside := inside.1.nodes
  port _ inside := inside.1.port byType
  refusals _ inside := inside.1.refusals

end Spared

/-- What was a pair of an installation comes to the same as a pair of the removal. -/
theorem pairCalls_turned (port : t.resolver.port n = s.resolver.port n)
    (refusals : t.refusals = s.refusals) (p : Placement) (owner : Option Node) (x : Node) :
    t.pairCalls p n .remove owner x = (s.pairCalls p n .install owner x).map (.turned .remove) := by
  unfold pairCalls
  rw [synthesize_congr_port (congrFun port x), refusals, List.map_append]
  have asked : (if x.Owns n then [] else [.read .resolver]).map (Call.turned .remove) =
      if x.Owns n then [] else [.read .resolver] := by
    split <;> rfl
  rw [asked]
  cases synthesize s.resolver n x owner with
  | error e => rfl
  | ok rule =>
    dsimp only
    cases s.refusals.lookup rule.device <;> rfl

theorem passCalls_turned (nodes : t.inventory.nodes = s.inventory.nodes)
    (port : t.resolver.port n = s.resolver.port n) (refusals : t.refusals = s.refusals)
    (p : Placement) :
    t.passCalls p n .remove = (s.passCalls p n .install).map (.turned .remove) := by
  have pairs (owner : Option Node) (listed : List Node) :
      listed.flatMap (t.pairCalls p n .remove owner) =
        (listed.flatMap (s.pairCalls p n .install owner)).map (.turned .remove) := by
    rw [List.map_flatMap]
    exact List.flatMap_congr fun x _ => pairCalls_turned port refusals p owner x
  unfold passCalls Inventory.completeNodes Inventory.node?
  rw [nodes, pairs, List.map_append]
  rfl

theorem outcome_turned (nodes : t.inventory.nodes = s.inventory.nodes)
    (port : t.resolver.port n = s.resolver.port n) (refusals : t.refusals = s.refusals)
    (p : Placement) : t.outcome p n .remove = s.outcome p n .install := by
  have fate (x : Node) (owner : Option Node) :
      t.fate p n owner .remove x ⟨none, none⟩ = s.fate p n owner .install x ⟨none, none⟩ := by
    unfold Controller.fate
    rw [requestOf_of_unstruck, requestOf_of_unstruck, synthesize_congr_port (congrFun port x)]
    cases synthesize s.resolver n x owner with
    | error e => rfl
    | ok rule =>
      unfold verdict
      rw [refusals]
  unfold outcome Inventory.completeNodes Inventory.node?
  rw [nodes]
  simp only [fate]

theorem posts_run (s : Controller) (steps : List Step) : s.posts <+: (s.run steps).posts := by
  have acts : Acts (fun _ => True) s (s.run steps) := run_acts s steps fun _ _ _ _ => trivial
  refine acts.keeps (P := fun t => s.posts <+: t.posts) (fun v act _ before => ?_) List.prefix_rfl
  obtain ⟨entries, records⟩ := act_records v act 0
  rw [records.posts]
  exact before.trans (List.prefix_append _ _)

theorem Spared.briefed {id : String} (s : Controller) (h : Nat) (a : Handler) (task : Task)
    (rest : List Task) : Spared id s (s.briefed h a task rest) := by
  cases task <;> exact ⟨rfl, rfl, rfl, rfl, rfl⟩

theorem placement_eq {a b : Handler} (kept : s.posts <+: t.posts)
    (present : s.handlers[h]? = some a) (still : t.handlers[h]? = some b) :
    b.placement = a.placement := by
  obtain ⟨more, posts⟩ := kept
  have first : s.posts[h]? = some a.post := by simp [Controller.posts, present]
  have second : t.posts[h]? = some b.post := by simp [Controller.posts, still]
  rw [← posts, List.getElem?_append_left (List.getElem?_eq_some_iff.1 first).1, first] at second
  exact congrArg Prod.snd (Option.some.inj second).symm

/-- A removal mirrors an installation. The two may be made at any time, with anything in between
that leaves the network, the nodes and what is refused as they are; the network is stored for the
one and not for the other. The removal makes the same calls and has the same answers, but that its
requests are to remove, and it comes to the same report. -/
theorem removal_mirrors_installation (s : Controller) (h : Nat) (a : Handler) (n : Network)
    (before after : List Step) (present : s.handlers[h]? = some a)
    (stored : s.inventory.network? n.id = some n)
    (byType : s.resolver = .byEncapsulation s.inventory) (uncrashed : s.crashes = [])
    (spared : s.Hooked (Disturbance.Spares n.id)) :
    let installed := s.pass h a.placement n .install
    let t := ((installed.1.run before).update (.removeNetwork n.id)).run after
    ∀ b rest, t.handlers[h]? = some b → b.queue = .uninstall n :: rest →
      b.gate.isLeader t.leadership → t.inventory.nodes = s.inventory.nodes →
      t.inventory.network? n.id = none → t.refusals = s.refusals → t.crashes = [] →
      t.Hooked (Disturbance.Spares n.id) →
      ∃ report installs removals,
        installed.2 = .ok report ∧ installed.1.journal = s.journal ++ installs ∧
        (t.work h).journal = t.journal ++ removals ∧
        installs.getLast? = some (.log (.passed n.name .install report)) ∧
        removals.getLast? = some (.log (.passed n.name .remove report)) ∧
        (∀ r ∈ submitted h installs, r.action = .install) ∧
        calls h removals = .leader b.gate.topic (some b.gate.self) ::
          (calls h installs).map (Call.turned .remove) := by
  intro installed t b rest still queue leads nodes gone refusals calm spared'
  -- the two passes have the same ways to find a port, and the same placement
  have working : Working h Call.IsWork s installed.1 := pass_working s h a.placement n .install
  have ports : t.ports = s.ports :=
    calc t.ports
      _ = ((installed.1.run before).update (.removeNetwork n.id)).ports := ports_run _ after
      _ = (installed.1.run before).ports := ports_disturb _ (.update _)
      _ = installed.1.ports := ports_run _ before
      _ = s.ports := ports_working working
  have posts : s.posts <+: t.posts := by
    obtain ⟨-, -, -, -, -, -, kept⟩ := working.doings
    obtain ⟨-, -, -, kept'⟩ := update_doings (installed.1.run before) (.removeNetwork n.id)
    rw [← kept]
    refine (posts_run installed.1 before).trans ?_
    rw [← kept']
    exact posts_run _ after
  have placement : b.placement = a.placement := placement_eq posts present still
  have byType' : t.resolver = .byEncapsulation t.inventory := resolver_of_ports ports byType
  have port : t.resolver.port n = s.resolver.port n := by
    rw [byType, byType']
    refine Resolver.port_congr ?_
    unfold Resolver.encapsulation
    rw [stored, gone]
    rfl
  obtain ⟨v, installs, passed, -, journal, made, reported⟩ :=
    (Spared.undisturbed uncrashed byType).pass ⟨.refl n.id s, spared⟩ h a.placement .install
  have hooked : (t.briefed h b (.uninstall n) rest).Hooked (Disturbance.Spares n.id) := spared'
  obtain ⟨-, removals, journal', made', reported'⟩ :=
    (Spared.undisturbed (n := n) calm byType').work .remove calm still queue leads
      ⟨Spared.briefed t h b (.uninstall n) rest, hooked⟩
  rw [placement, outcome_turned nodes port refusals] at reported'
  rw [placement, passCalls_turned nodes port refusals, ← made] at made'
  have first : installed = (v, .ok (s.outcome a.placement n .install)) := passed
  refine ⟨s.outcome a.placement n .install, installs, removals, ?_, ?_, journal', reported,
    reported', fun r handed => ?_, made'⟩
  · rw [first]
  · rw [first]
    exact journal
  · rw [submitted, made, submitted_passCalls] at handed
    obtain ⟨x, -, request⟩ := List.mem_filterMap.1 handed
    cases asked : s.requestOf a.placement n (s.inventory.node? n.name) .install x ⟨none, none⟩ with
    | error fault => simp [asked, Except.toOption] at request
    | ok q =>
      obtain rfl : q = r := by simpa [asked, Except.toOption] using request
      obtain ⟨-, rule, -, rfl⟩ := requestOf_eq_ok_iff.1 asked
      rfl

/-- The nodes are the owner, one that is reached, one without a port and one that refuses. -/
theorem removal_mirrors_installation_mixed :
    let n : Network := ⟨"host", "blue", .vxlan, default, none⟩
    let node (hostname : String) (ports : TunnelPorts) : Step :=
      .disturb (.update (.upsertNode ⟨hostname, ⟨hostname⟩, default, default, .complete, ports⟩))
    let s := (start (.appointed (some ⟨"host"⟩)) none false false).run
      [node "host" .none, node "near" ⟨some ⟨1⟩, none, none⟩, node "bare" .none,
        node "full" ⟨some ⟨2⟩, none, none⟩, .disturb (.update (.upsertNetwork n)),
        .disturb (.refuse ⟨"full"⟩ "full"), .activate "one" ⟨"host"⟩ .default]
    let installed := s.pass 0 .default n .install
    let t := installed.1.update (.removeNetwork n.id)
    installed.2 = .ok ⟨2, 2⟩ ∧ (submitted 0 installed.1.journal).length = 3 ∧
      ∃ installs removals, installed.1.journal = s.journal ++ installs ∧
        (t.work 0).journal = t.journal ++ removals ∧
        calls 0 removals = .leader "gwsync" (some ⟨"host"⟩) ::
          (calls 0 installs).map (Call.turned .remove) ∧
        removals.getLast? = some (.log (.passed "host" .remove ⟨2, 2⟩)) := by
  intro n node s installed t
  let a : Handler := ⟨"one", ⟨⟨"host"⟩, "gwsync"⟩, .default, 0, 1, true, .running, []⟩
  let b : Handler := { a with queue := [.uninstall n] }
  have passed : installed.2 = .ok ⟨2, 2⟩ := by decide
  have submits : (submitted 0 installed.1.journal).length = 3 := by decide
  have present : s.handlers[0]? = some a := by decide
  have stored : s.inventory.network? n.id = some n := by decide
  have byType : s.resolver = .byEncapsulation s.inventory := resolver_of_ports (ports_run _ _) rfl
  have uncrashed : s.crashes = [] := by decide
  have unhooked : s.hooks = [] := by decide
  have still : t.handlers[0]? = some b := by decide
  have leads : b.gate.isLeader t.leadership := by decide
  have nodes : t.inventory.nodes = s.inventory.nodes := Catalog.ext (by decide)
  have gone : t.inventory.network? n.id = none := by decide
  have refusals : t.refusals = s.refusals := by decide
  have calm : t.crashes = [] := by decide
  have unhooked' : t.hooks = [] := by decide
  clear_value s
  obtain ⟨report, installs, removals, comes, first, second, -, last, -, made⟩ :=
    removal_mirrors_installation s 0 a n [] [] present stored byType uncrashed
      (hooked_of_unhooked unhooked) b [] still rfl leads nodes gone refusals calm
      (hooked_of_unhooked unhooked')
  obtain rfl : report = ⟨2, 2⟩ := Except.ok.inj (comes.symm.trans passed)
  exact ⟨passed, submits, installs, removals, first, second, made, last⟩

end Controller
end GatewayRules
