import GatewayRules.Proofs.Portable
import GatewayRules.Proofs.Undisturbed
import Mathlib.Data.List.ProdSigma

/-!
A backfill does what one installation after the other does, for every stored network in order, but
that it asks once who leads.
-/
namespace GatewayRules
open Journal

theorem Call.IsWork.not_isQuestion {c : Call} (works : c.IsWork) : c.isQuestion = false := by
  cases c <;> first | exact works.elim | rfl

/-- By network first, and by node within a network. -/
def Precedes (q r : Network × Node) : Prop :=
  q.1.id < r.1.id ∨ q.1 = r.1 ∧ q.2.hostname < r.2.hostname

namespace Inventory

theorem pairwise_precedes (v : Inventory) :
    (v.networks.toList ×ˢ v.completeNodes).Pairwise Precedes := by
  refine List.pairwise_flatMap.2 ⟨fun n _ => ?_, ?_⟩
  · refine List.pairwise_map.2 ((Controller.sorted_completeNodes v).imp fun before => ?_)
    exact .inr ⟨rfl, before⟩
  · refine v.networks.sorted.imp fun before q first r second => ?_
    obtain ⟨x, -, rfl⟩ := List.mem_map.1 first
    obtain ⟨y, -, rfl⟩ := List.mem_map.1 second
    exact .inl before

end Inventory

namespace Controller

variable {s t : Controller} {h : Nat} {p : Placement}

def installs (s : Controller) (p : Placement) (networks : List Network) : List Request :=
  (networks ×ˢ s.inventory.completeNodes).filterMap fun q =>
    (synthesize s.resolver q.1 q.2 (s.inventory.node? q.1.name)).toOption.map
      (⟨·, p, .install⟩)

theorem works_only (w : Working h Call.IsWork s t) {entries : List Entry}
    (journal : t.journal = s.journal ++ entries) :
    taken h entries = [] ∧ ∀ c ∈ calls h entries, c.IsWork := by
  obtain ⟨written, body, journal', mine, works, -⟩ := w.doings
  obtain rfl := List.append_cancel_left (journal'.symm.trans journal)
  have calls : calls h written = body := by
    rw [calls_eq_doings, mine, List.filterMap_map]
    exact List.filterMap_some
  refine ⟨?_, by rwa [calls]⟩
  rw [taken_eq_doings, mine, List.filterMap_map]
  exact List.filterMap_eq_nil_iff.2 fun _ _ => rfl

theorem toOption_requestOf (s : Controller) (p : Placement) (n : Network) (owner : Option Node)
    (x : Node) : (s.requestOf p n owner .install x ⟨none, none⟩).toOption =
      (synthesize s.resolver n x owner).toOption.map (⟨·, p, .install⟩) := by
  rw [requestOf_of_unstruck]
  cases synthesize s.resolver n x owner <;> rfl

theorem installs_cons (s : Controller) (p : Placement) (n : Network) (rest : List Network) :
    s.installs p (n :: rest) = s.inventory.completeNodes.filterMap (fun x =>
      (s.requestOf p n (s.inventory.node? n.name) .install x ⟨none, none⟩).toOption) ++
        s.installs p rest := by
  unfold installs
  rw [List.product_cons, List.filterMap_append, List.filterMap_map]
  simp only [toOption_requestOf]
  rfl

/-- Where nothing is armed and nothing is updated, each network has its pass, with all requests. -/
theorem passEach_submits (h : Nat) (p : Placement) (networks : List Network)
    (uncrashed : s.crashes = []) :
    (passEach h p s networks).2 = none ∧
    ∃ entries, (passEach h p s networks).1.journal = s.journal ++ entries ∧
      (updates entries = [] → submitted h entries = s.installs p networks) := by
  induction networks generalizing s with
  | nil => exact ⟨rfl, [], (List.append_nil _).symm, fun _ => rfl⟩
  | cons n rest ih =>
    obtain ⟨first, pairs, journal, -, made, smooth⟩ := pass_submits s h p n .install
    obtain ⟨calm, -, rfl⟩ := smooth uncrashed
    obtain ⟨through, later, journal', made'⟩ := ih calm
    rw [passEach_of_uncrashed uncrashed]
    refine ⟨through, first ++ later, by rw [journal', journal, List.append_assoc], fun still => ?_⟩
    rw [updates_append] at still
    obtain ⟨still, still'⟩ := List.append_eq_nil_iff.1 still
    obtain ⟨inventory, resolver⟩ :=
      resolver_of_still (pass_working s h p n .install) journal still
    have same : (s.pass h p n .install).1.installs p rest = s.installs p rest := by
      unfold installs
      rw [inventory, resolver]
    rw [submitted_append, made still, made' still', same, installs_cons, List.filterMap_map]
    rfl

theorem run_turns_cons (s : Controller) (h k : Nat) :
    s.run (turns h (k + 1)) = (s.work h).run (turns h k) := by
  unfold turns
  rw [List.replicate_succ, run_cons]
  rfl

theorem work_install_aside {a : Handler} {n : Network} {rest : List Task}
    (handlers : List Handler) (journal : List Entry) (uncrashed : t.crashes = [])
    (present : handlers[h]? = some a) (queue : a.queue = .install n :: rest)
    (leads : a.gate.isLeader t.leadership) {made : List Entry}
    (written : (t.pass h a.placement n .install).1.journal = t.journal ++ made)
    (still : updates made = []) :
    ∃ entries, (t.aside handlers journal).work h = (t.pass h a.placement n .install).1.aside
        (handlers.modify h fun a => { a with queue := rest }) (journal ++ entries) ∧
      taken h entries = [.install n] ∧
      (calls h entries).filter (fun c => !c.isQuestion) = calls h made ∧
      (calls h entries).countP Call.isQuestion = 1 := by
  let u := t.aside handlers journal
  let later := handlers.modify h fun a => { a with queue := rest }
  let question : Call := .leader a.gate.topic (t.leadership.leader a.gate.topic)
  let opening : List Entry := [.taken h (.install n), .call h question]
  obtain ⟨-, report, ends⟩ := pass_ends uncrashed h a.placement n .install
  obtain ⟨entries, journal', portable⟩ := portable_pass (h := h) a.placement n .install t
  obtain rfl := List.append_cancel_left (journal'.symm.trans written)
  have turn : u.work h =
      (t.pass h a.placement n .install).1.aside later (journal ++ (opening ++ entries)) := by
    have present' : u.handlers[h]? = some a := present
    have briefed : u.briefed h a (.install n) rest = t.aside later (journal ++ opening) :=
      congrArg (t.aside later) (List.append_assoc journal [_] [_])
    have passed := portable still later (journal ++ opening)
    have worked :=
      work_of_leader (s := u) (unarmed_of_uncrashed uncrashed) present' queue leads
    dsimp only at passed
    rw [briefed, perform_install, passed, ends, List.append_assoc] at worked
    exact worked
  obtain ⟨untaken, works⟩ := works_only (pass_working t h a.placement n .install) written
  have unasked (c : Call) (member : c ∈ calls h entries) : c.isQuestion = false :=
    (works c member).not_isQuestion
  have takes : taken h opening = [.install n] := by simp [taken, Entry.takenBy?, opening]
  have asks : calls h opening = [question] := calls_call h question
  have silent : (calls h entries).filter (fun c => !c.isQuestion) = calls h entries :=
    List.filter_eq_self.2 fun c member => by rw [unasked c member]; rfl
  have none : (calls h entries).countP Call.isQuestion = 0 :=
    List.countP_eq_zero.2 fun c member => by simp [unasked c member]
  refine ⟨opening ++ entries, turn, ?_, ?_, ?_⟩
  · rw [taken_append, takes, untaken]
    rfl
  · rw [calls_append, asks, List.filter_append, silent]
    rfl
  · rw [calls_append, asks, List.countP_append, none]
    rfl

/-- One turn for each network: the worker asks who leads, and does what the pass for the network
does. -/
theorem run_turns_installs {a : Handler} {rest : List Task} (networks : List Network)
    (handlers : List Handler) (journal : List Entry) (uncrashed : t.crashes = [])
    (present : handlers[h]? = some { a with queue := networks.map .install ++ rest })
    (leads : ∀ k < networks.length,
      a.gate.isLeader ((t.aside handlers journal).run (turns h k)).leadership)
    {passes : List Entry}
    (written : (passEach h a.placement t networks).1.journal = t.journal ++ passes)
    (still : updates passes = []) :
    ∃ entries, ((t.aside handlers journal).run (turns h networks.length)).journal =
        journal ++ entries ∧
      taken h entries = networks.map .install ∧
      (calls h entries).filter (fun c => !c.isQuestion) = calls h passes ∧
      (calls h entries).countP Call.isQuestion = networks.length := by
  -- the passes go from state to state, and the queue and the journal are kept beside them
  induction networks generalizing t handlers journal passes with
  | nil =>
    obtain rfl : passes = [] := List.self_eq_append_right.1 written
    exact ⟨[], (List.append_nil _).symm, rfl, rfl, rfl⟩
  | cons n networks ih =>
    let tasks := networks.map Task.install ++ rest
    let busy : Handler := { a with queue := .install n :: tasks }
    let later := handlers.modify h fun a => { a with queue := tasks }
    obtain ⟨calm, -⟩ := pass_ends uncrashed h a.placement n .install
    obtain ⟨first, journal₁, -⟩ := portable_pass (h := h) a.placement n .install t
    obtain ⟨more, journal₂, -⟩ :=
      portable_passEach (h := h) a.placement networks (t.pass h a.placement n .install).1
    rw [passEach_of_uncrashed uncrashed, journal₂, journal₁, List.append_assoc] at written
    obtain rfl := List.append_cancel_left written
    rw [updates_append] at still
    obtain ⟨still, still'⟩ := List.append_eq_nil_iff.1 still
    obtain ⟨opening, turn, task, work, question⟩ := work_install_aside (a := busy) handlers
      journal uncrashed present rfl (leads 0 (Nat.zero_lt_succ _)) journal₁ still
    have present' : later[h]? = some { a with queue := tasks } := by
      simp [later, present]
    have leads' (k : Nat) (within : k < networks.length) := leads (k + 1) (Nat.succ_lt_succ within)
    simp only [run_turns_cons, turn] at leads'
    obtain ⟨entries, journal₃, tasks', works, questions⟩ :=
      ih later (journal ++ opening) calm present' leads' journal₂ still'
    refine ⟨opening ++ entries, ?_, ?_, ?_, ?_⟩
    · rw [List.length_cons, run_turns_cons, turn, ← List.append_assoc]
      exact journal₃
    · rw [taken_append, task, tasks']
      rfl
    · rw [calls_append, List.filter_append, work, works, calls_append]
    · rw [calls_append, List.countP_append, question, questions, List.length_cons, Nat.add_comm]

/-- A turn with a backfill is the question who leads, the question what is stored, and a pass for
each network. -/
theorem work_backfill {a : Handler} {x : Node} {rest : List Task}
    (unarmed : ∀ c ∈ s.crashes, c.seam ≠ .leader ∧ c.seam ≠ .networks)
    (present : s.handlers[h]? = some a) (queue : a.queue = .backfill x :: rest)
    (leads : a.gate.isLeader s.leadership) : ∃ handlers opening,
      let r := passEach h a.placement (s.aside handlers (s.journal ++ opening))
        s.inventory.networks.toList
      s.work h = r.1.logSome (r.2.map .taskCrashed) ∧
      calls h opening = [.leader a.gate.topic (some a.gate.self), .read .networks] := by
  let u := s.briefed h a (.backfill x) rest
  let v := u.note (.call h (.read .networks))
  have asked : s.leadership.leader a.gate.topic = some a.gate.self := beq_iff_eq.1 leads
  obtain ⟨opening, journal, question⟩ := briefed_journal s h a (.backfill x) rest
  have base : v = s.aside u.handlers (s.journal ++ (opening ++ [.call h (.read .networks)])) := by
    rw [← List.append_assoc, ← journal]
    rfl
  have performed : u.perform h a.placement (.backfill x) =
      passEach h a.placement v s.inventory.networks.toList := by
    have through : ∀ c ∈ u.crashes, c.seam ≠ .networks := fun c armed => (unarmed c armed).2
    rw [perform_backfill, enter_of_unarmed through]
    rfl
  have worked := work_of_leader (fun c armed => (unarmed c armed).1) present queue leads
  rw [performed, base] at worked
  refine ⟨u.handlers, opening ++ [.call h (.read .networks)], worked, ?_⟩
  rw [calls_append, question, asked, calls_call]
  rfl

/-- A backfill is one installation after the other, as long as nothing breaks off and nothing is
updated meanwhile. It asks once who leads, and once what is stored; the rest of its calls, with the
answers, are those that the installations of all stored networks make in the order of the
identifiers, one task after the other, each with a question of its own. The requests are those of
the pairs of a network and a complete node for which there is a rule, in lexicographic order, each
pair once. The node that the task is about makes no difference. -/
theorem backfill_is_installations (s : Controller) (h : Nat) (a : Handler) (x : Node)
    (rest : List Task) (present : s.handlers[h]? = some a) (queue : a.queue = .backfill x :: rest)
    (leads : a.gate.isLeader s.leadership) (uncrashed : s.crashes = [])
    (still : updates (s.work h).journal = updates s.journal) :
    let networks := s.inventory.networks.toList
    let pairs := networks ×ˢ s.inventory.completeNodes
    let queued (tasks : List Task) := s.modifyHandler h fun a => { a with queue := tasks ++ rest }
    let each := queued (networks.map .install)
    ∃ entries work, (s.work h).journal = s.journal ++ entries ∧
      calls h entries = .leader a.gate.topic (some a.gate.self) :: .read .networks :: work ∧
      (∀ c ∈ work, c.IsWork) ∧
      networks.Pairwise (·.id < ·.id) ∧ pairs.Pairwise Precedes ∧
      submitted h entries = pairs.filterMap (fun q =>
        (synthesize s.resolver q.1 q.2 (s.inventory.node? q.1.name)).toOption.map
          (⟨·, a.placement, .install⟩)) ∧
      (∀ y, ∃ entries', ((queued [.backfill y]).work h).journal = s.journal ++ entries' ∧
        calls h entries' = calls h entries) ∧
      ((∀ k < networks.length, a.gate.isLeader (each.run (turns h k)).leadership) →
        ∃ entries', (each.run (turns h networks.length)).journal = s.journal ++ entries' ∧
          taken h entries' = networks.map .install ∧
          (calls h entries').filter (fun c => !c.isQuestion) = work ∧
          (calls h entries').countP Call.isQuestion = networks.length) := by
  intro networks pairs queued each
  obtain ⟨handlers, opening, worked, asks⟩ :=
    work_backfill (unarmed_of_uncrashed uncrashed) present queue leads
  let t := s.aside handlers (s.journal ++ opening)
  obtain ⟨ends, passes, journal, submits⟩ :=
    passEach_submits (s := t) h a.placement networks uncrashed
  have written : (s.work h).journal = s.journal ++ (opening ++ passes) := by
    rw [worked, ends, ← List.append_assoc]
    exact journal
  have quiet : updates passes = [] := by
    rw [written, updates_append, updates_append] at still
    exact (List.append_eq_nil_iff.1 (List.append_right_eq_self.1 still)).2
  have works := (works_only (passEach_working h a.placement networks t) journal).2
  have queues (tasks : List Task) :
      (queued tasks).handlers[h]? = some { a with queue := tasks ++ rest } := by
    simp [queued, modifyHandler, present]
  have unsubmitted : submitted h opening = [] := by
    rw [submitted, asks]
    rfl
  refine ⟨opening ++ passes, calls h passes, written, ?_, works,
    s.inventory.networks.sorted, s.inventory.pairwise_precedes, ?_, fun y => ?_, fun leads' => ?_⟩
  · rw [calls_append, asks]
    rfl
  · rw [submitted_append, unsubmitted, submits quiet]
    rfl
  · obtain ⟨handlers', opening', worked', asks'⟩ :=
      work_backfill (s := queued [.backfill y]) (unarmed_of_uncrashed uncrashed)
        (queues [.backfill y]) rfl leads
    -- the passes write the same beside the other queue
    obtain ⟨passes', journal', portable⟩ := portable_passEach (h := h) a.placement networks t
    obtain rfl := List.append_cancel_left (journal'.symm.trans journal)
    have same := portable quiet handlers' (s.journal ++ opening')
    have turn : (queued [.backfill y]).work h = (passEach h a.placement t networks).1.aside
        handlers' (s.journal ++ opening' ++ passes') := by
      dsimp only at same
      rw [ends] at same
      exact worked'.trans (congrArg (fun r : Controller × Option Crash =>
        r.1.logSome (r.2.map .taskCrashed)) same)
    refine ⟨opening' ++ passes', ?_, ?_⟩
    · rw [turn, ← List.append_assoc]
      rfl
    · rw [calls_append, calls_append, asks', asks]
  · exact run_turns_installs (t := t) networks each.handlers s.journal uncrashed
      (queues (networks.map .install)) leads' journal quiet

/-- Two networks on two nodes, one of which refuses. -/
theorem backfill_is_installations_two :
    let n : Network := ⟨"host", "blue", .vxlan, default, none⟩
    let m : Network := ⟨"host", "green", .vxlan, ⟨10, 0, 2, 1⟩, none⟩
    let x : Node := ⟨"host", ⟨"host"⟩, default, default, .complete, .none⟩
    let y : Node := ⟨"near", ⟨"near"⟩, default, default, .complete, ⟨some ⟨1⟩, none, none⟩⟩
    let s := (start (.appointed (some ⟨"a"⟩)) none false false).run
      [.disturb (.update (.upsertNode y)), .disturb (.update (.upsertNetwork m)),
        .disturb (.update (.upsertNetwork n)), .disturb (.refuse ⟨"near"⟩ "full"),
        .activate "one" ⟨"a"⟩ .default, .disturb (.update (.upsertNode x))]
    let each := s.modifyHandler 0 fun a => { a with queue := [.install n, .install m] }
    ∃ entries entries' work, (s.work 0).journal = s.journal ++ entries ∧
      (each.run (turns 0 2)).journal = s.journal ++ entries' ∧
      calls 0 entries = .leader "gwsync" (some ⟨"a"⟩) :: .read .networks :: work ∧
      (calls 0 entries').filter (fun c => !c.isQuestion) = work ∧
      (submitted 0 entries).map (fun r => (r.rule.selector.destination.address, r.rule.device)) =
        [(n.gateway, ⟨"host"⟩), (n.gateway, ⟨"near"⟩), (m.gateway, ⟨"host"⟩),
          (m.gateway, ⟨"near"⟩)] := by
  intro n m x y s each
  let a : Handler :=
    ⟨"one", ⟨⟨"a"⟩, "gwsync"⟩, .default, 0, 1, true, .running, [.backfill x]⟩
  have present : s.handlers[0]? = some a := by decide
  have leads : a.gate.isLeader s.leadership := by decide
  have uncrashed : s.crashes = [] := by decide
  have still : updates (s.work 0).journal = updates s.journal := by decide
  have networks : s.inventory.networks.toList = [n, m] := by decide
  have fresh : submitted 0 s.journal = [] := by decide
  have leads' : ∀ k < 2, a.gate.isLeader (each.run (turns 0 k)).leadership := by decide
  have handed : (submitted 0 (s.work 0).journal).map
      (fun r => (r.rule.selector.destination.address, r.rule.device)) =
        [(n.gateway, ⟨"host"⟩), (n.gateway, ⟨"near"⟩), (m.gateway, ⟨"host"⟩),
          (m.gateway, ⟨"near"⟩)] := by decide
  clear_value s
  obtain ⟨entries, work, journal, asks, -, -, -, -, -, installations⟩ :=
    backfill_is_installations s 0 a x [] present rfl leads uncrashed still
  rw [networks] at installations
  obtain ⟨entries', journal', -, works, -⟩ := installations leads'
  rw [journal, submitted_append, fresh] at handed
  exact ⟨entries, entries', work, journal, journal', asks, works, handed⟩

end Controller
end GatewayRules
