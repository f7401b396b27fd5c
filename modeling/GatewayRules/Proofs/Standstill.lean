import GatewayRules.Proofs.Fates
import GatewayRules.Proofs.Listening

/-!
Passes in the middle of which the inventory stands still. Leaders may change meanwhile, and what is
refused, and collaborators may break off: a pair comes to the request that the beginning of the pass
shows, or to none.
-/
namespace GatewayRules
open Journal

namespace Controller

variable {s t u : Controller} {h : Nat} {allowed : Call → Prop}

def ports (s : Controller) :
    Option Port × Option (Inventory → Network → Node → Except RuleError Port) :=
  (s.fixedPort, s.customPorts)

theorem resolver_congr (ports : t.ports = s.ports) (inventory : t.inventory = s.inventory) :
    t.resolver = s.resolver := by
  obtain ⟨fixed, custom⟩ := Prod.mk.inj ports
  unfold resolver
  rw [fixed, custom, inventory]

theorem disturb_frame (s : Controller) (d : Disturbance) : (s.disturb d).ports = s.ports ∧
    (s.disturb d).crashes = s.crashes ∧ (s.disturb d).hooks = s.hooks := by
  cases d with
  | update u =>
    obtain ⟨schedule, entries, same, -, -⟩ := update_spec s u
    simp only [disturb, same, ports, true_and]
  | appoint leader | refuse device reason | accept device => exact ⟨rfl, rfl, rfl⟩

theorem ports_disturb (s : Controller) (d : Disturbance) : (s.disturb d).ports = s.ports :=
  (disturb_frame s d).1

theorem crashes_disturb (s : Controller) (d : Disturbance) : (s.disturb d).crashes = s.crashes :=
  (disturb_frame s d).2.1

theorem hooks_disturb (s : Controller) (d : Disturbance) : (s.disturb d).hooks = s.hooks :=
  (disturb_frame s d).2.2

theorem ports_working (w : Working h allowed s t) : t.ports = s.ports :=
  w.keeps (P := fun t => t.ports = s.ports) (fun _ _ _ same => same) (fun _ _ _ _ same => same)
    (fun _ _ same => same) (fun t d same => (ports_disturb t d).trans same) rfl

theorem resolver_of_still (w : Working h allowed s t) {entries : List Entry}
    (journal : t.journal = s.journal ++ entries) (still : updates entries = []) :
    t.inventory = s.inventory ∧ t.resolver = s.resolver := by
  obtain ⟨written, aired⟩ := airing_working w
  obtain rfl := List.append_cancel_left (aired.journal.symm.trans journal)
  have inventory : t.inventory = s.inventory := by
    rw [aired.inventory, still]
    rfl
  exact ⟨inventory, resolver_congr (ports_working w) inventory⟩

theorem unarmed_of_uncrashed {P : ArmedCrash → Prop} (uncrashed : s.crashes = []) :
    ∀ c ∈ s.crashes, P c := by
  rw [uncrashed]
  exact List.forall_mem_nil P

/-- A call whose seam nothing is armed for goes through. -/
theorem enter_of_unarmed {seam : Seam} (unarmed : ∀ c ∈ s.crashes, c.seam ≠ seam) (h : Nat)
    (call : Call) : s.enter h seam call = (s.note (.call h call), none) := by
  unfold enter
  rw [ArmedCrash.countDown_of_unarmed unarmed]
  rfl

theorem enter_of_uncrashed (uncrashed : s.crashes = []) (h : Nat) (seam : Seam) (c : Call) :
    s.enter h seam c = (s.note (.call h c), none) :=
  enter_of_unarmed (unarmed_of_uncrashed uncrashed) h c

/-- What the hooks bring is no call of a handler, and arms nothing. -/
theorem fireHooks_silent (s : Controller) (h : Nat) : ∃ entries,
    s.fireHooks.journal = s.journal ++ entries ∧ calls h entries = [] ∧
      s.fireHooks.crashes = s.crashes := by
  refine fireHooks_keeps (P := fun t => ∃ entries, t.journal = s.journal ++ entries ∧
    Journal.calls h entries = [] ∧ t.crashes = s.crashes) (fun _ _ same => same)
    (fun t d before => ?_) ⟨[], (List.append_nil _).symm, rfl, rfl⟩
  obtain ⟨entries, journal, silent, crashes⟩ := before
  obtain ⟨more, journal', quiet, -⟩ := disturb_doings t d
  refine ⟨entries ++ more, ?_, ?_, (crashes_disturb t d).trans crashes⟩
  · rw [journal', journal, List.append_assoc]
  · rw [calls_append, silent, calls_eq_doings h more, quiet h]
    rfl

/-- From one state to the other the handler submits these requests, and nothing is armed. -/
structure Submits (h : Nat) (rs : List Request) (s t : Controller) : Prop where
  written : ∃ entries, t.journal = s.journal ++ entries ∧ submitted h entries = rs
  uncrashed : s.crashes = [] → t.crashes = []

namespace Submits

variable {rs rs' : List Request}

theorem refl (s : Controller) : Submits h [] s s :=
  ⟨⟨[], (List.append_nil _).symm, rfl⟩, id⟩

theorem trans (first : Submits h rs s t) (second : Submits h rs' t u) :
    Submits h (rs ++ rs') s u := by
  obtain ⟨⟨entries, journal, rfl⟩, uncrashed⟩ := first
  obtain ⟨⟨entries', journal', rfl⟩, uncrashed'⟩ := second
  exact ⟨⟨entries ++ entries', by rw [journal', journal, List.append_assoc],
    submitted_append ..⟩, uncrashed' ∘ uncrashed⟩

theorem silently (first : Submits h rs s t) (second : Submits h [] t u) : Submits h rs s u := by
  simpa using first.trans second

theorem call (s : Controller) (h : Nat) (c : Call) :
    Submits h c.submitted?.toList s (s.note (.call h c)) := by
  refine ⟨⟨[.call h c], rfl, ?_⟩, id⟩
  rw [submitted, calls_call]
  cases c <;> rfl

theorem log (s : Controller) (h : Nat) (n : Notice) : Submits h [] s (s.log n) :=
  ⟨⟨[.log n], rfl, rfl⟩, id⟩

theorem enter (s : Controller) (h : Nat) (seam : Seam) (c : Call) :
    Submits h c.submitted?.toList s (s.enter h seam c).1 := by
  refine ⟨(call s h c).written, fun uncrashed => ?_⟩
  rw [enter_of_uncrashed uncrashed]
  exact uncrashed

theorem fireHooks (s : Controller) (h : Nat) : Submits h [] s s.fireHooks := by
  obtain ⟨entries, journal, silent, crashes⟩ := fireHooks_silent s h
  have quiet : submitted h entries = [] := by
    rw [submitted, silent]
    rfl
  exact ⟨⟨entries, journal, quiet⟩, crashes.trans⟩

end Submits

theorem request_submits (s : Controller) (h : Nat) (r : Request) :
    Submits h [r] s (s.request h r).1 := by
  have entered : Submits h [r] s (s.enter h .installer (.submit r)).1 :=
    .enter s h .installer (.submit r)
  unfold request
  generalize s.enter h .installer (.submit r) = answer at entered ⊢
  obtain ⟨t, _ | crash⟩ := answer
  · dsimp only at entered ⊢
    cases t.refusals.lookup r.rule.device with
    | some reason => exact entered.silently (.call t h (.refused r.rule.device))
    | none =>
      have accepted := entered.silently (.call t h (.accepted r))
      have fired := accepted.silently (.fireHooks _ h)
      dsimp only
      split
      · exact fired.silently (.log _ h _)
      · exact fired
  · exact entered

section Pass
variable {p : Placement} {n : Network} {owner : Option Node} {action : Action} {x : Node}

/-- A pair submits its request, unless its resolver breaks off. -/
theorem pair_submits (s : Controller) (h : Nat) (p : Placement) (n : Network) (x : Node)
    (owner : Option Node) (action : Action) : ∃ k : Strike,
      Submits h (s.requestOf p n owner action x k).toOption.toList s
        (s.pair h p n x owner action).1 ∧ (s.crashes = [] → k = ⟨none, none⟩) := by
  have placed (t : Controller) (k : Strike) (same : t.resolver = s.resolver)
      (through : (if x.Owns n then none else k.resolver) = none) :
      Submits h (s.requestOf p n owner action x k).toOption.toList t
        (t.place h p n x owner action).1 := by
    unfold place
    rw [requestOf_of_through through, same]
    cases synthesize s.resolver n x owner with
    | error e => exact .refl t
    | ok rule => exact request_submits t h ⟨rule, p, action⟩
  rw [pair_eq]
  by_cases owns : x.Owns n
  · rw [if_pos owns]
    exact ⟨⟨none, none⟩, placed s _ rfl (if_pos owns), fun _ => rfl⟩
  · have asked : Submits h [] s (s.enter h .resolver (.read .resolver)).1 :=
      .enter s h .resolver (.read .resolver)
    have same : (s.enter h .resolver (.read .resolver)).1.resolver = s.resolver := rfl
    have smooth : s.crashes = [] → (s.enter h .resolver (.read .resolver)).2 = none :=
      fun uncrashed => by rw [enter_of_uncrashed uncrashed]
    rw [if_neg owns]
    generalize s.enter h .resolver (.read .resolver) = answer at asked same smooth ⊢
    obtain ⟨t, _ | crash⟩ := answer
    · exact ⟨⟨none, none⟩, asked.trans (placed t _ same (ite_self _)), fun _ => rfl⟩
    · have struck : s.requestOf p n owner action x ⟨some crash, none⟩ =
          .error (.crashed crash) := by
        rw [requestOf, if_neg owns]
      refine ⟨⟨some crash, none⟩, ?_, fun uncrashed => ?_⟩
      · rw [struck]
        exact asked
      · cases smooth uncrashed

theorem settlePair_submits (h : Nat) (p : Placement) (n : Network) (owner : Option Node)
    (action : Action) (s : Controller) (report : Report) (x : Node) : ∃ k : Strike,
      Submits h (s.requestOf p n owner action x k).toOption.toList s
        (settlePair h p n owner action (s, report) x).1 ∧
      (s.crashes = [] → k = ⟨none, none⟩) := by
  obtain ⟨k, submits, smooth⟩ := pair_submits s h p n x owner action
  have told (t : Controller) (notice : Option Notice) : Submits h [] t (t.logSome notice) := by
    cases notice with
    | none => exact .refl t
    | some notice => exact .log t h notice
  rw [settlePair_eq]
  exact ⟨k, submits.silently (told _ _), smooth⟩

/-- While nothing is updated, the pairs of a pass submit what they would have at the beginning. -/
theorem foldl_settlePair_submits (h : Nat) (p : Placement) (n : Network) (owner : Option Node)
    (action : Action) (nodes : List Node) (s : Controller) (report : Report) :
    let t := (nodes.foldl (settlePair h p n owner action) (s, report)).1
    (s.crashes = [] → t.crashes = []) ∧
    ∃ entries, ∃ pairs : List (Node × Strike), t.journal = s.journal ++ entries ∧
      pairs.map Prod.fst = nodes ∧ (s.crashes = [] → ∀ q ∈ pairs, q.2 = ⟨none, none⟩) ∧
      (updates entries = [] → submitted h entries =
        pairs.filterMap fun q => (s.requestOf p n owner action q.1 q.2).toOption) := by
  induction nodes generalizing s report with
  | nil =>
    exact ⟨id, [], [], (List.append_nil _).symm, rfl, fun _ => List.forall_mem_nil _, fun _ => rfl⟩
  | cons x rest ih =>
    let first := settlePair h p n owner action (s, report) x
    obtain ⟨k, ⟨⟨opening, journal, handed⟩, uncrashed⟩, smooth⟩ :=
      settlePair_submits h p n owner action s report x
    obtain ⟨uncrashed', entries, pairs, journal', all, smooth', later⟩ := ih first.1 first.2
    refine ⟨uncrashed' ∘ uncrashed, opening ++ entries, (x, k) :: pairs, ?_, by simp [all], ?_, ?_⟩
    · rw [← List.append_assoc, ← journal]
      exact journal'
    · exact fun calm => List.forall_mem_cons.2 ⟨smooth calm, smooth' (uncrashed calm)⟩
    · intro still
      rw [updates_append] at still
      obtain ⟨still, still'⟩ := List.append_eq_nil_iff.1 still
      have working : Working h Call.IsWork s first.1 :=
        settlePair_working h p n owner action (s, report) x
      have same : first.1.resolver = s.resolver := (resolver_of_still working journal still).2
      have requests (q : Node × Strike) : first.1.requestOf p n owner action q.1 q.2 =
          s.requestOf p n owner action q.1 q.2 := by
        unfold requestOf
        rw [same]
      rw [submitted_append, handed, later still']
      simp only [requests]
      cases asked : (s.requestOf p n owner action x k).toOption <;> simp [asked]

/-- A pass during which nothing is updated submits, for some of its pairs and by hostname, the
requests that its beginning shows; for all of them if nothing breaks off. -/
theorem pass_submits (s : Controller) (h : Nat) (p : Placement) (n : Network) (action : Action) :
    ∃ entries, ∃ pairs : List (Node × Strike),
      (s.pass h p n action).1.journal = s.journal ++ entries ∧
      (pairs.map Prod.fst).Sublist s.inventory.completeNodes ∧
      (updates entries = [] → submitted h entries = pairs.filterMap fun q =>
        (s.requestOf p n (s.inventory.node? n.name) action q.1 q.2).toOption) ∧
      (s.crashes = [] → (s.pass h p n action).1.crashes = [] ∧
        (∃ report, (s.pass h p n action).2 = .ok report) ∧
        pairs = s.inventory.completeNodes.map fun x => (x, ⟨none, none⟩)) := by
  cases reads : readingCrash s.crashes with
  | some crash =>
    have broken : ∃ left, ∃ read : List Seam, s.pass h p n action =
        (s.advance left (read.map fun seam => .call h (.read seam)), .error crash) :=
      pass_of_readingCrash reads
    obtain ⟨left, read, broken⟩ := broken
    rw [broken]
    refine ⟨_, [], rfl, List.nil_sublist _, fun _ => (reads_are_quiet h read).1, fun calm => ?_⟩
    rw [calm] at reads
    cases reads
  | none =>
    obtain ⟨listing, finding, listed, found, same⟩ := countDowns_of_readingCrash reads
    let opening : List Entry := [.call h (.read .completeNodes), .call h (.read .node)]
    let owner := s.inventory.node? n.name
    let v := s.advance finding opening
    let r := s.inventory.completeNodes.foldl (settlePair h p n owner action) (v, ⟨0, 0⟩)
    have passed : s.pass h p n action =
        (r.1.log (.passed n.name action r.2), .ok r.2) := pass_of_listing listed found
    obtain ⟨uncrashed, entries, pairs, journal, all, smooth, made⟩ :=
      foldl_settlePair_submits h p n owner action s.inventory.completeNodes v ⟨0, 0⟩
    have calm (unarmed : s.crashes = []) : finding = [] := by
      rw [unarmed] at same
      exact List.length_eq_zero_iff.1 same
    rw [passed]
    refine ⟨opening ++ entries ++ [.log (.passed n.name action r.2)], pairs, ?_, ?_, ?_, ?_⟩
    · rw [← List.append_assoc, ← List.append_assoc]
      exact congrArg (· ++ [_]) journal
    · rw [all]
    · intro still
      rw [updates_append, updates_append] at still
      have between : updates entries = [] :=
        (List.append_eq_nil_iff.1 (List.append_eq_nil_iff.1 still).1).2
      have quiet : submitted h opening = [] := (reads_are_quiet h [.completeNodes, .node]).1
      rw [submitted_append, submitted_append, quiet, made between, List.nil_append]
      exact List.append_nil _
    · intro unarmed
      have struck := smooth (calm unarmed)
      refine ⟨uncrashed (calm unarmed), ⟨r.2, rfl⟩, ?_⟩
      rw [← all, List.map_map]
      have same : pairs.map (fun q => (q.1, (⟨none, none⟩ : Strike))) = pairs.map id :=
        List.map_congr_left fun q member => Prod.ext rfl (struck q member).symm
      exact (same.trans (List.map_id pairs)).symm

theorem pass_ends (uncrashed : s.crashes = []) (h : Nat) (p : Placement) (n : Network)
    (action : Action) : (s.pass h p n action).1.crashes = [] ∧
      ∃ report, (s.pass h p n action).2 = .ok report := by
  obtain ⟨_, _, _, _, _, smooth⟩ := pass_submits s h p n action
  exact ⟨(smooth uncrashed).1, (smooth uncrashed).2.1⟩

theorem passEach_of_uncrashed (uncrashed : s.crashes = []) (h : Nat) (p : Placement) (n : Network)
    (rest : List Network) :
    passEach h p s (n :: rest) = passEach h p (s.pass h p n .install).1 rest := by
  obtain ⟨-, report, ends⟩ := pass_ends uncrashed h p n .install
  rw [passEach_cons, ends]
  rfl

end Pass

end Controller
end GatewayRules
