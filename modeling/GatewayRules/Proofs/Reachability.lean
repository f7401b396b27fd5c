import GatewayRules.Proofs.Current
import GatewayRules.Proofs.Standstill

/-!
Where the rules of a pass lead. Traffic to the gateway of a network is delivered on the node that
owns the network, and every other node with a rule tunnels it there.
-/
namespace GatewayRules
open Journal

namespace Rule

def DeliversAt (r : Rule) (x : Node) : Prop :=
  r.device = x.bridge ∧ r.treatment = ⟨[.setMac x.bridgeMac, .output Port.host]⟩

def TunnelsTo (r : Rule) (x o : Node) (port : Port) : Prop :=
  r.device = x.bridge ∧ r.treatment = ⟨[.tunnelTo x.bridge o.dataAddress, .output port]⟩

instance (r : Rule) (x : Node) : Decidable (r.DeliversAt x) := inferInstanceAs (Decidable (_ ∧ _))

variable {r : Rule} {x o : Node} {port : Port}

theorem TunnelsTo.not_deliversAt (tunnels : r.TunnelsTo x o port) : ¬r.DeliversAt x := by
  intro delivers
  have same := tunnels.2.symm.trans delivers.2
  simp at same

end Rule

/-- By these rules of nodes, traffic on the node comes to the host of the first one, over so many
tunnels. -/
inductive Arrives (rules : List (Node × Rule)) (o : Node) : Node → Nat → Prop where
  | delivered {r : Rule} : (o, r) ∈ rules → r.DeliversAt o → Arrives rules o o 0
  | tunnelled {x y : Node} {r : Rule} {port : Port} {k : Nat} :
    (x, r) ∈ rules → r.TunnelsTo x y port → Arrives rules o y k → Arrives rules o x (k + 1)

section Synthesis
variable {resolver : Resolver} {n : Network} {x : Node} {owner : Option Node} {rule : Rule}

theorem deliversAt_of_synthesize (built : synthesize resolver n x owner = .ok rule)
    (owns : x.Owns n) : rule.DeliversAt x := by
  unfold synthesize treatment at built
  rw [if_pos owns] at built
  cases built
  exact ⟨rfl, rfl⟩

theorem tunnelsTo_of_synthesize (built : synthesize resolver n x owner = .ok rule)
    (foreign : ¬x.Owns n) :
    ∃ o port, owner = some o ∧ resolver.port n x = .ok port ∧ rule.TunnelsTo x o port := by
  unfold synthesize treatment at built
  rw [if_neg foreign] at built
  cases found : resolver.port n x with
  | error e =>
    rw [found] at built
    cases built
  | ok port =>
    rw [found] at built
    cases kept : owner.filter (fun o => o.Owns n) with
    | none =>
      rw [kept] at built
      cases built
    | some o =>
      rw [kept] at built
      cases built
      exact ⟨o, port, (Option.filter_eq_some_iff.1 kept).1, rfl, rfl, rfl⟩

end Synthesis

namespace Controller

variable {s : Controller} {p : Placement} {n : Network} {owner : Option Node} {action : Action}

def requestsOf (s : Controller) (p : Placement) (n : Network) (owner : Option Node)
    (action : Action) (pairs : List (Node × Strike)) : List (Node × Request) :=
  pairs.filterMap fun q => (s.requestOf p n owner action q.1 q.2).toOption.map (q.1, ·)

theorem map_snd_requestsOf (pairs : List (Node × Strike)) :
    (s.requestsOf p n owner action pairs).map Prod.snd =
      pairs.filterMap fun q => (s.requestOf p n owner action q.1 q.2).toOption := by
  unfold requestsOf
  rw [List.map_filterMap]
  simp [Function.comp_def]

theorem map_fst_requestsOf_sublist (pairs : List (Node × Strike)) :
    ((s.requestsOf p n owner action pairs).map Prod.fst).Sublist (pairs.map Prod.fst) := by
  induction pairs with
  | nil => exact List.Sublist.slnil
  | cons q rest ih =>
    unfold requestsOf at ih ⊢
    rw [List.filterMap_cons]
    cases (s.requestOf p n owner action q.1 q.2).toOption with
    | none => exact ih.cons _
    | some r => exact ih.cons_cons _

theorem synthesize_of_mem_requestsOf {pairs : List (Node × Strike)} {q : Node × Request}
    (member : q ∈ s.requestsOf p n owner action pairs) :
    ∃ rule, synthesize s.resolver n q.1 owner = .ok rule ∧ q.2 = ⟨rule, p, action⟩ := by
  obtain ⟨⟨x, k⟩, -, made⟩ := List.mem_filterMap.1 member
  cases request : s.requestOf p n owner action x k with
  | error fault => simp [request, Except.toOption] at made
  | ok r =>
    obtain rfl : (x, r) = q := by simpa [request, Except.toOption] using made
    exact (requestOf_eq_ok_iff.1 request).2

theorem nodup_hostnames (v : Inventory) : (v.completeNodes.map Node.hostname).Nodup := by
  have apart {x y : Node} (before : x.hostname < y.hostname) : x.hostname ≠ y.hostname :=
    fun same => String.lt_irrefl y.hostname (same ▸ before)
  exact List.pairwise_map.2 ((sorted_completeNodes v).imp apart)

theorem filter_eq_singleton {α β : Type} {l : List α} {key : α → β} (apart : (l.map key).Nodup)
    {test : α → Bool} {a : α} (member : a ∈ l) (passes : test a)
    (keyed : ∀ b ∈ l, test b → key b = key a) : l.filter test = [a] := by
  have same : ∀ b ∈ l.filter test, b = a := by
    intro b chosen
    obtain ⟨listed, passes⟩ := List.mem_filter.1 chosen
    exact List.inj_on_of_nodup_map apart listed member (keyed b listed passes)
  have all := List.eq_replicate_of_mem same
  have distinct : (l.filter test).Nodup := (apart.of_map key).filter test
  have filled : 0 < (l.filter test).length :=
    List.length_pos_of_mem (List.mem_filter.2 ⟨member, passes⟩)
  rw [all, List.nodup_replicate] at distinct
  have one : (l.filter test).length = 1 := by omega
  rw [all, one]
  rfl

section Requests
variable {made : List (Node × Request)} {o : Node} {r : Request}

/-- Where all other requests tunnel to one node, the request for that node alone delivers. -/
theorem filter_deliversAt (apart : (made.map (·.1.hostname)).Nodup) (mine : (o, r) ∈ made)
    (delivers : r.rule.DeliversAt o)
    (others : ∀ q ∈ made, q ≠ (o, r) → ∃ port, q.2.rule.TunnelsTo q.1 o port) :
    made.filter (fun q => q.2.rule.DeliversAt q.1) = [(o, r)] := by
  refine filter_eq_singleton apart mine (decide_eq_true delivers) fun q member leaves => ?_
  by_contra other
  obtain ⟨port, sends⟩ := others q member fun same => other (by rw [same])
  exact sends.not_deliversAt (of_decide_eq_true leaves)

/-- From every node with a request it is one tunnel at most to the node that delivers. -/
theorem arrives_of_tunnels (mine : (o, r) ∈ made) (delivers : r.rule.DeliversAt o)
    (others : ∀ q ∈ made, q ≠ (o, r) → ∃ port, q.2.rule.TunnelsTo q.1 o port) :
    ∀ q ∈ made, ∃ k ≤ 1, Arrives (made.map fun q => (q.1, q.2.rule)) o q.1 k := by
  have rules (q : Node × Request) (member : q ∈ made) :
      (q.1, q.2.rule) ∈ made.map fun q => (q.1, q.2.rule) :=
    List.mem_map_of_mem (f := fun q => (q.1, q.2.rule)) member
  have home : Arrives (made.map fun q => (q.1, q.2.rule)) o o 0 :=
    .delivered (rules (o, r) mine) delivers
  intro q member
  by_cases same : q = (o, r)
  · rw [same]
    exact ⟨0, Nat.zero_le 1, home⟩
  · obtain ⟨port, sends⟩ := others q member same
    exact ⟨1, le_rfl, .tunnelled (rules q member) sends home⟩

end Requests

/-- The requests of a pass lead all traffic to the gateway. -/
theorem traffic_reaches_gateway (s : Controller) (h : Nat) (a : Handler) (n : Network)
    (action : Action) (present : s.handlers[h]? = some a)
    (still : updates (s.reconcile h n action).1.journal = updates s.journal) :
    ∃ entries, ∃ made : List (Node × Request),
      (s.reconcile h n action).1.journal = s.journal ++ entries ∧
      submitted h entries = made.map Prod.snd ∧
      (made.map Prod.fst).Sublist s.inventory.completeNodes ∧
      (made.map (·.1.hostname)).Nodup ∧
      (∀ q ∈ made, q.2.placement = a.placement ∧ q.2.action = action ∧
        q.2.rule.selector = ⟨Selector.ipv4, .host n.gateway⟩) ∧
      (∀ q ∈ made, q.1.hostname = n.name → q.2.rule.DeliversAt q.1) ∧
      (∀ q ∈ made, q.1.hostname ≠ n.name → ∃ o port, s.inventory.node? n.name = some o ∧
        s.resolver.port n q.1 = .ok port ∧ q.2.rule.TunnelsTo q.1 o port) ∧
      (s.inventory.node? n.name = none → made = []) ∧
      ∀ o ∈ s.inventory.completeNodes, o.hostname = n.name →
        ∀ r, (o, r) ∈ made → r ∈ accepted h entries →
          let inForce := made.filter fun q => q.2 ∈ accepted h entries
          made.filter (fun q => q.2.rule.DeliversAt q.1) = [(o, r)] ∧
          (∀ q ∈ made, q ≠ (o, r) → ∃ port, q.2.rule.TunnelsTo q.1 o port) ∧
          ∀ q ∈ inForce, ∃ k ≤ 1, Arrives (inForce.map fun q => (q.1, q.2.rule)) o q.1 k := by
  have passed : s.reconcile h n action = s.pass h a.placement n action := by
    unfold reconcile
    rw [present]
  rw [passed] at still ⊢
  obtain ⟨entries, pairs, journal, part, submits, -⟩ := pass_submits s h a.placement n action
  have quiet : updates entries = [] := by
    rw [journal, updates_append] at still
    exact List.append_right_eq_self.1 still
  let owner := s.inventory.node? n.name
  let made := s.requestsOf a.placement n owner action pairs
  have nodes : (made.map Prod.fst).Sublist s.inventory.completeNodes :=
    (map_fst_requestsOf_sublist pairs).trans part
  have apart : (made.map (·.1.hostname)).Nodup := by
    have hostnames := (nodup_hostnames s.inventory).sublist (nodes.map Node.hostname)
    rwa [List.map_map] at hostnames
  have complete (q : Node × Request) (member : q ∈ made) : q.1 ∈ s.inventory.completeNodes :=
    nodes.subset (List.mem_map_of_mem member)
  have delivers (q : Node × Request) (member : q ∈ made) (owns : q.1.hostname = n.name) :
      q.2.rule.DeliversAt q.1 := by
    obtain ⟨rule, built, request⟩ := synthesize_of_mem_requestsOf member
    rw [request]
    exact deliversAt_of_synthesize built owns
  have tunnels (q : Node × Request) (member : q ∈ made) (foreign : q.1.hostname ≠ n.name) :
      ∃ o port, owner = some o ∧ s.resolver.port n q.1 = .ok port ∧
        q.2.rule.TunnelsTo q.1 o port := by
    obtain ⟨rule, built, request⟩ := synthesize_of_mem_requestsOf member
    rw [request]
    exact tunnelsTo_of_synthesize built foreign
  refine ⟨entries, made, journal, ?_, nodes, apart, fun q member => ?_, delivers, tunnels, ?_, ?_⟩
  · rw [submits quiet, map_snd_requestsOf]
  · obtain ⟨rule, built, request⟩ := synthesize_of_mem_requestsOf member
    rw [request]
    exact ⟨rfl, rfl, selector_of_synthesize built⟩
  · intro missing
    refine List.eq_nil_iff_forall_not_mem.2 fun q member => ?_
    by_cases owns : q.1.hostname = n.name
    · have stored := Inventory.node?_eq_some_iff.2
        ⟨(Inventory.mem_completeNodes.1 (complete q member)).1, owns⟩
      rw [missing] at stored
      cases stored
    · obtain ⟨o, port, found, -⟩ := tunnels q member owns
      rw [show owner = none from missing] at found
      cases found
  · intro o listed owns r mine accepted inForce
    have stored : owner = some o :=
      Inventory.node?_eq_some_iff.2 ⟨(Inventory.mem_completeNodes.1 listed).1, owns⟩
    have home : r.rule.DeliversAt o := delivers (o, r) mine owns
    have others (q : Node × Request) (member : q ∈ made) (other : q ≠ (o, r)) :
        ∃ port, q.2.rule.TunnelsTo q.1 o port := by
      have foreign : q.1.hostname ≠ n.name := fun named =>
        other (List.inj_on_of_nodup_map apart member mine (named.trans owns.symm))
      obtain ⟨o', port, found, -, sends⟩ := tunnels q member foreign
      obtain rfl : o = o' := Option.some.inj (stored.symm.trans found)
      exact ⟨port, sends⟩
    have chosen : (o, r) ∈ inForce := List.mem_filter.2 ⟨mine, decide_eq_true accepted⟩
    exact ⟨filter_deliversAt apart mine home others, others, arrives_of_tunnels chosen home
      fun q member => others q (List.mem_filter.1 member).1⟩

/-- The owner, a node that tunnels to it and one that cannot. A hook moves the leader. -/
theorem traffic_reaches_gateway_near :
    let n : Network := ⟨"host", "blue", .vxlan, default, none⟩
    let node (hostname : String) (ports : TunnelPorts) : Step :=
      .disturb (.update (.upsertNode ⟨hostname, ⟨hostname⟩, default, default, .complete, ports⟩))
    let s := (start (.appointed (some ⟨"host"⟩)) none false false).run
      [node "host" .none, node "near" ⟨some ⟨1⟩, none, none⟩, node "bare" .none,
        .activate "one" ⟨"host"⟩ .default, .armHook ⟨0, [.appoint none]⟩]
    ∃ entries, (s.reconcile 0 n .install).1.journal = s.journal ++ entries ∧
      ∃ (o : Node) (made : List (Node × Request)), o.hostname = "host" ∧ made.length = 2 ∧
        submitted 0 entries = made.map Prod.snd ∧ accepted 0 entries = made.map Prod.snd ∧
        ∀ q ∈ made, ∃ k ≤ 1, Arrives (made.map fun q => (q.1, q.2.rule)) o q.1 k := by
  intro n node s
  let a : Handler := ⟨"one", ⟨⟨"host"⟩, "gwsync"⟩, .default, 0, 1, true, .running, []⟩
  let r : Request := ⟨⟨⟨"host"⟩, n.selector, ⟨[.setMac default, .output Port.host]⟩⟩, .default,
    .install⟩
  have present : s.handlers[0]? = some a := by decide
  have still : updates (s.reconcile 0 n .install).1.journal = updates s.journal := by decide
  have fresh : submitted 0 s.journal = [] ∧ accepted 0 s.journal = [] := by decide
  have handed : (submitted 0 (s.reconcile 0 n .install).1.journal).length = 2 ∧
      r ∈ submitted 0 (s.reconcile 0 n .install).1.journal ∧
      accepted 0 (s.reconcile 0 n .install).1.journal =
        submitted 0 (s.reconcile 0 n .install).1.journal := by decide
  clear_value s
  obtain ⟨entries, made, journal, submits, nodes, -, -, -, tunnels, -, reach⟩ :=
    traffic_reaches_gateway s 0 a n .install present still
  rw [journal, submitted_append, accepted_append, fresh.1, fresh.2] at handed
  obtain ⟨two, mine, all⟩ := handed
  rw [List.nil_append] at two mine all
  rw [List.nil_append, submits] at all
  rw [submits] at two mine
  obtain ⟨⟨o, r'⟩, member, same⟩ := List.mem_map.1 mine
  obtain rfl : r' = r := same
  have owns : o.hostname = n.name := by
    by_contra foreign
    obtain ⟨y, port, -, -, -, sends⟩ := tunnels (o, r) member foreign
    cases sends
  have inForce (q : Node × Request) (listed : q ∈ made) : q.2 ∈ accepted 0 entries := by
    rw [all]
    exact List.mem_map_of_mem listed
  obtain ⟨-, -, arrives⟩ := reach o (nodes.subset (List.mem_map_of_mem member)) owns r member
    (inForce (o, r) member)
  rw [List.filter_eq_self.2 fun q listed => decide_eq_true (inForce q listed)] at arrives
  exact ⟨entries, journal, o, made, owns, by simpa using two, submits, all, arrives⟩

end Controller
end GatewayRules
