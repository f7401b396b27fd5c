import GatewayRules.Proofs.Backfill

/-!
What one collaborator that breaks off costs a backfill. At the resolver or at the installer it is
one pair. At the reads with which a pass begins it is the whole rest of the backfill.
-/
namespace GatewayRules
open Journal

namespace ArmedCrash

theorem seam_of_mem_countDown (seam : Seam) {crashes : List ArmedCrash} {c : ArmedCrash}
    (left : c ∈ (countDown seam crashes).1) : ∃ d ∈ crashes, c.seam = d.seam := by
  induction crashes with
  | nil => cases left
  | cons d rest ih =>
    unfold countDown at left
    split at left
    · split at left
      · exact ⟨c, List.mem_cons_of_mem d left, rfl⟩
      · rcases List.mem_cons.1 left with rfl | later
        · exact ⟨d, List.mem_cons_self, rfl⟩
        · exact ⟨c, List.mem_cons_of_mem d later, rfl⟩
    · rcases List.mem_cons.1 left with rfl | later
      · exact ⟨c, List.mem_cons_self, rfl⟩
      · obtain ⟨e, armed, same⟩ := ih later
        exact ⟨e, List.mem_cons_of_mem d armed, same⟩

/-- What is armed is armed for seams that were armed before. -/
def Within (left crashes : List ArmedCrash) : Prop :=
  ∀ c ∈ left, ∃ d ∈ crashes, c.seam = d.seam

theorem Within.trans {left between crashes : List ArmedCrash} (second : Within left between)
    (first : Within between crashes) : Within left crashes := by
  intro c armed
  obtain ⟨d, armed', same⟩ := second c armed
  obtain ⟨e, armed'', same'⟩ := first d armed'
  exact ⟨e, armed'', same.trans same'⟩

end ArmedCrash

namespace Controller

variable {s : Controller} {h : Nat} {p : Placement} {n : Network} {owner : Option Node}
  {action : Action} {x : Node} {k : Strike} {crashes left : List ArmedCrash}
  {pairs : List (Node × Strike)}

theorem Hits.within (hits : s.Hits p n owner action x k crashes left) :
    ArmedCrash.Within left crashes := by
  unfold Hits at hits
  split at hits
  · obtain rfl : left = crashes := hits
    exact fun c armed => ⟨c, armed, rfl⟩
  · intro c armed
    refine ArmedCrash.seam_of_mem_countDown .installer ?_
    rw [hits]
    exact armed

theorem StrikesEach.within (strikes : s.StrikesEach p n owner action pairs crashes left) :
    ArmedCrash.Within left crashes := by
  induction pairs generalizing crashes with
  | nil =>
    obtain rfl : left = crashes := strikes
    exact fun c armed => ⟨c, armed, rfl⟩
  | cons q rest ih =>
    obtain ⟨between, first, later⟩ := strikes
    have struck : ArmedCrash.Within between crashes := by
      unfold Strikes at first
      split at first
      · exact first.within
      · obtain ⟨asked, counted, hits⟩ := first
        refine hits.within.trans fun c armed => ?_
        refine ArmedCrash.seam_of_mem_countDown .resolver ?_
        rw [counted]
        exact armed
    exact (ih later).trans struck

theorem handing_part (s : Controller) (h : Nat) (p : Placement) (n : Network)
    (owner : Option Node) (action : Action) (x : Node) (k : Strike) :
    s.handing h p n owner action x k <+: s.handing h p n owner action x ⟨none, none⟩ ∧
      (brokeOff (s.fate p n owner action x k) = false →
        s.handing h p n owner action x k = s.handing h p n owner action x ⟨none, none⟩) := by
  cases struck : if x.Owns n then none else k.resolver with
  | some crash =>
    have request : s.requestOf p n owner action x k = .error (.crashed crash) := by
      rw [requestOf, struck]
    unfold handing fate
    rw [request]
    exact ⟨List.nil_prefix, fun through => absurd through Bool.false_ne_true.symm⟩
  | none =>
    have request : s.requestOf p n owner action x k =
        s.requestOf p n owner action x ⟨none, none⟩ := by
      rw [requestOf_of_through struck, requestOf_of_unstruck]
    unfold handing fate
    rw [request]
    cases s.requestOf p n owner action x ⟨none, none⟩ with
    | error fault => exact ⟨List.prefix_rfl, fun _ => rfl⟩
    | ok r =>
      cases k.installer with
      | none => exact ⟨List.prefix_rfl, fun _ => rfl⟩
      | some crash =>
        exact ⟨List.prefix_append [Entry.call h (.submit r)] _,
          fun through => absurd through Bool.false_ne_true.symm⟩

theorem calls_minutes_part (s : Controller) (h : Nat) (p : Placement) (n : Network)
    (owner : Option Node) (action : Action) (x : Node) (k : Strike) :
    calls h (s.minutes h p n owner action x k) <+: s.pairCalls p n action owner x ∧
      (brokeOff (s.fate p n owner action x k) = false →
        calls h (s.minutes h p n owner action x k) = s.pairCalls p n action owner x) := by
  obtain ⟨part, whole⟩ := handing_part s h p n owner action x k
  rw [← calls_minutes s h owner x]
  unfold minutes
  simp only [calls_append, calls_logged, List.append_nil]
  refine ⟨(List.prefix_append_right_inj _).2 (part.filterMap _), fun unbroken => ?_⟩
  rw [whole unbroken]

/-- The calls of a pass in which one pair breaks off. The others have all theirs. -/
def PassCut (s : Controller) (p : Placement) (n : Network) (action : Action) (cs : List Call) :
    Prop :=
  let pair := s.pairCalls p n action (s.inventory.node? n.name)
  ∃ xs y ys cut, s.inventory.completeNodes = xs ++ y :: ys ∧ cut <+: pair y ∧
    cs = [.read .completeNodes, .read .node] ++ xs.flatMap pair ++ cut ++ ys.flatMap pair

/-- The calls of the passes of a backfill. One pair of one of them may break off. -/
def PassesCut (s : Controller) (p : Placement) (networks : List Network) (cs : List Call) : Prop :=
  let quiet (n : Network) := s.passCalls p n .install
  cs = networks.flatMap quiet ∨ ∃ before n after cut, networks = before ++ n :: after ∧
    s.PassCut p n .install cut ∧ cs = before.flatMap quiet ++ cut ++ after.flatMap quiet

/-- The calls of the first so many passes of a backfill, and of the reads for the next one. -/
def PassesUpTo (s : Controller) (p : Placement) (networks : List Network) (k : Nat)
    (cs : List Call) : Prop :=
  ∃ reads : List Seam,
    cs = (networks.take k).flatMap (fun n => s.passCalls p n .install) ++ reads.map .read ∧
      (networks.length ≤ k → reads = [])

theorem flatMap_minutes_of_unbroken
    (unbroken : pairs.countP (fun q => brokeOff (s.fate p n owner action q.1 q.2)) = 0) :
    (pairs.flatMap fun q => calls h (s.minutes h p n owner action q.1 q.2)) =
      (pairs.map Prod.fst).flatMap (s.pairCalls p n action owner) := by
  rw [List.flatMap_map]
  refine List.flatMap_congr fun q member => ?_
  have through := List.countP_eq_zero.1 unbroken q member
  exact (calls_minutes_part ..).2 (Bool.eq_false_iff.2 through)

/-- If at most one thing is armed, and not for the reads, the pass has all its calls, or one pair is
cut short. -/
theorem pass_of_few (unhooked : s.hooks = []) (few : s.crashes.length ≤ 1)
    (unread : ∀ c ∈ s.crashes, c.seam ≠ .completeNodes ∧ c.seam ≠ .node) (h : Nat) (p : Placement)
    (n : Network) (action : Action) : ∃ left entries report,
      s.pass h p n action = (s.advance left entries, .ok report) ∧
      ArmedCrash.Within left s.crashes ∧
      (left.length = s.crashes.length ∧ calls h entries = s.passCalls p n action ∨
        left = [] ∧ s.crashes.length = 1 ∧ s.PassCut p n action (calls h entries)) := by
  let owner := s.inventory.node? n.name
  let broken (q : Node × Strike) := brokeOff (s.fate p n owner action q.1 q.2)
  have struck : ∃ pairs left, pairs.map Prod.fst = s.inventory.completeNodes ∧
      s.StrikesEach p n owner action pairs s.crashes left := exists_strikesEach_left _ _
  obtain ⟨pairs, left, all, strikes⟩ := struck
  have passed : s.pass h p n action = (s.advance left (s.proceedings h p n owner action pairs),
      .ok (s.tally p n owner action pairs)) :=
    pass_of_strikes unhooked
      (ArmedCrash.countDown_of_unarmed fun c armed => (unread c armed).1)
      (ArmedCrash.countDown_of_unarmed fun c armed => (unread c armed).2) strikes all
  have kept : left.length + pairs.countP broken = s.crashes.length := strikes.length
  have opening : calls h [.call h (.read .completeNodes), .call h (.read .node)] =
      [.read .completeNodes, .read .node] := calls_own h [_, _]
  have written : calls h (s.proceedings h p n owner action pairs) =
      [.read .completeNodes, .read .node] ++
        pairs.flatMap fun q => calls h (s.minutes h p n owner action q.1 q.2) := by
    rw [read_proceedings (calls_append h) fun _ => rfl, opening]
  refine ⟨left, _, _, passed, strikes.within, ?_⟩
  rw [written]
  by_cases smooth : pairs.countP broken = 0
  · refine .inl ⟨by omega, ?_⟩
    rw [flatMap_minutes_of_unbroken smooth, all]
    rfl
  · have one : pairs.countP broken = 1 ∧ left.length = 0 ∧ s.crashes.length = 1 := by omega
    obtain ⟨q, member, breaks⟩ := List.countP_pos_iff.1 (Nat.pos_of_ne_zero smooth)
    obtain ⟨first, later, rfl⟩ := List.append_of_mem member
    -- the pair takes the one thing that is armed, so nothing is left for the others
    have others : first.countP broken = 0 ∧ later.countP broken = 0 := by
      have counted := one.1
      rw [List.countP_append, List.countP_cons_of_pos breaks] at counted
      omega
    refine .inr ⟨List.length_eq_zero_iff.1 one.2.1, one.2.2, first.map Prod.fst, q.1,
      later.map Prod.fst, calls h (s.minutes h p n owner action q.1 q.2), ?_,
      (calls_minutes_part ..).1, ?_⟩
    · rw [← all, List.map_append, List.map_cons]
    · rw [List.flatMap_append, List.flatMap_cons, flatMap_minutes_of_unbroken others.1,
        flatMap_minutes_of_unbroken others.2]
      simp only [List.append_assoc]
      rfl

/-- If at most one thing is armed, and not for the reads, one pass at most is cut short, at one
pair, and every other one has all its calls. -/
theorem passEach_of_few (networks : List Network) (unhooked : s.hooks = [])
    (few : s.crashes.length ≤ 1)
    (unread : ∀ c ∈ s.crashes, c.seam ≠ .completeNodes ∧ c.seam ≠ .node) :
    ∃ left entries, passEach h p s networks = (s.advance left entries, none) ∧
      s.PassesCut p networks (calls h entries) ∧
      (s.crashes = [] → calls h entries = networks.flatMap fun n => s.passCalls p n .install) := by
  induction networks generalizing s with
  | nil => exact ⟨s.crashes, [], by simp [passEach, advance], .inl rfl, fun _ => rfl⟩
  | cons n rest ih =>
    obtain ⟨between, first, report, passed, within, made⟩ :=
      pass_of_few unhooked few unread h p n .install
    have fewer : between.length ≤ 1 := by
      rcases made with ⟨same, -⟩ | ⟨rfl, -, -⟩
      · omega
      · exact Nat.zero_le 1
    have unread' : ∀ c ∈ between, c.seam ≠ .completeNodes ∧ c.seam ≠ .node := by
      intro c armed
      obtain ⟨d, armed', same⟩ := within c armed
      rw [same]
      exact unread d armed'
    obtain ⟨left, later, ended, cuts, smooth⟩ :=
      ih (s := s.advance between first) unhooked fewer unread'
    have passes : passEach h p s (n :: rest) = (s.advance left (first ++ later), none) := by
      rw [passEach_cons, passed]
      exact ended.trans (Prod.ext (advance_advance ..) rfl)
    rcases made with ⟨same, whole⟩ | ⟨rfl, one, cut⟩
    · refine ⟨left, first ++ later, passes, ?_, fun calm => ?_⟩
      · rw [calls_append, whole]
        rcases cuts with all | ⟨before, m, after, cs, rfl, cut, made⟩
        · exact .inl (by rw [all]; rfl)
        · refine .inr ⟨n :: before, m, after, cs, rfl, cut, ?_⟩
          rw [made, List.flatMap_cons]
          simp only [List.append_assoc]
          rfl
      · rw [calm] at same
        rw [calls_append, whole, smooth (List.length_eq_zero_iff.1 same)]
        rfl
    -- the one thing has been taken, and nothing is armed for the passes that follow
    · refine ⟨left, first ++ later, passes, .inr ⟨[], n, rest, _, rfl, cut, ?_⟩, fun calm => ?_⟩
      · rw [calls_append, smooth rfl]
        rfl
      · rw [calm] at one
        cases one

theorem passEach_of_reading (networks : List Network) (unhooked : s.hooks = [])
    {c : ArmedCrash} (armed : s.crashes = [c])
    (reading : c.seam = .completeNodes ∨ c.seam = .node) :
    ∃ left entries crash, passEach h p s networks = (s.advance left entries, crash) ∧
      s.PassesUpTo p networks c.after (calls h entries) := by
  induction networks generalizing s c with
  | nil =>
    exact ⟨s.crashes, [], none, by simp [passEach, advance], [], by simp; rfl, fun _ => rfl⟩
  | cons n rest ih =>
    obtain ⟨seam, after, crash⟩ := c
    cases after with
    | zero =>
      have breaks : readingCrash s.crashes = some crash := by
        rw [armed]
        rcases reading with rfl | rfl <;> rfl
      have broken : ∃ left, ∃ read : List Seam, s.pass h p n .install =
          (s.advance left (read.map fun seam => .call h (.read seam)), .error crash) :=
        pass_of_readingCrash breaks
      obtain ⟨left, reads, broken⟩ := broken
      refine ⟨left, reads.map fun seam => .call h (.read seam), some crash, ?_, reads, ?_,
        fun none => absurd none (Nat.not_succ_le_zero _)⟩
      · rw [passEach_cons, broken]
        rfl
      · have own := calls_own h (reads.map .read)
        rw [List.map_map] at own
        exact own
    | succ k =>
      -- this read goes through and is counted
      let later : ArmedCrash := ⟨seam, k, crash⟩
      have counted : ∃ listing,
          ArmedCrash.countDown .completeNodes s.crashes = (listing, none) ∧
          ArmedCrash.countDown .node listing = ([later], none) := by
        rw [armed]
        rcases reading with rfl | rfl <;> exact ⟨_, rfl, rfl⟩
      have other : seam ≠ .resolver ∧ seam ≠ .installer := by
        rcases reading with rfl | rfl <;> decide
      have unarmed : ∀ c ∈ [later], c.seam ≠ .resolver ∧ c.seam ≠ .installer :=
        List.forall_mem_singleton.2 other
      obtain ⟨listing, listed, found⟩ := counted
      obtain ⟨first, report, passed, whole⟩ :=
        pass_of_unarmed unhooked listed found unarmed h p n .install
      have passed' : s.pass h p n .install = (s.advance [later] first, .ok report) := passed
      obtain ⟨left, entries, crash, ended, reads, made, all⟩ :=
        ih (s := s.advance [later] first) (c := later) unhooked rfl reading
      refine ⟨left, first ++ entries, crash, ?_, reads, ?_,
        fun few => all (Nat.le_of_succ_le_succ few)⟩
      · rw [passEach_cons, passed']
        exact ended.trans (Prod.ext (advance_advance ..) rfl)
      · rw [calls_append, whole, made, List.take_succ_cons, List.flatMap_cons, List.append_assoc]
        rfl

/-- What a turn with a backfill writes, if this is what the passes write. -/
theorem calls_of_work_backfill {a : Handler} {x : Node} {rest : List Task}
    (unarmed : ∀ c ∈ s.crashes, c.seam ≠ .leader ∧ c.seam ≠ .networks)
    (present : s.handlers[h]? = some a) (queue : a.queue = .backfill x :: rest)
    (leads : a.gate.isLeader s.leadership) (made : List Call → Prop)
    (passes : ∀ handlers journal, ∃ left entries crash,
      passEach h a.placement (s.aside handlers journal) s.inventory.networks.toList =
        ((s.aside handlers journal).advance left entries, crash) ∧ made (calls h entries)) :
    ∃ entries cs, (s.work h).journal = s.journal ++ entries ∧ made cs ∧
      calls h entries = .leader a.gate.topic (some a.gate.self) :: .read .networks :: cs := by
  obtain ⟨handlers, opening, worked, asks⟩ := work_backfill unarmed present queue leads
  obtain ⟨left, entries, crash, passed, ok⟩ := passes handlers (s.journal ++ opening)
  rw [passed, logSome_eq_advance] at worked
  refine ⟨opening ++ entries ++ (crash.map .taskCrashed).toList.map .log, calls h entries, ?_, ok,
    ?_⟩
  · rw [worked]
    simp only [advance, aside, List.append_assoc]
  · rw [calls_append, calls_append, asks, calls_logged, List.append_nil]
    rfl

/-- What one collaborator that breaks off costs a backfill. If it is the resolver or the installer,
one pair at most is cut short: every other pair, of its network and of all the others, has the calls
that it has when nothing breaks off. If it is a read at the beginning of a pass, the networks before
it have all their calls, and neither its network nor any later one hands over anything. -/
theorem backfill_loses_pair_or_rest (s : Controller) (h : Nat) (a : Handler) (x : Node)
    (rest : List Task) (c : ArmedCrash) (present : s.handlers[h]? = some a)
    (queue : a.queue = .backfill x :: rest) (leads : a.gate.isLeader s.leadership)
    (unhooked : s.hooks = []) (armed : s.crashes = [c])
    (inside : c.seam ∈ [.completeNodes, .node, .resolver, .installer]) :
    let networks := s.inventory.networks.toList
    let question : Call := .leader a.gate.topic (some a.gate.self)
    (∃ entries, ({ s with crashes := [] }.work h).journal = s.journal ++ entries ∧
      calls h entries = question :: .read .networks ::
        networks.flatMap fun n => s.passCalls a.placement n .install) ∧
    ∃ entries cs, (s.work h).journal = s.journal ++ entries ∧
      calls h entries = question :: .read .networks :: cs ∧
      (c.seam = .resolver ∨ c.seam = .installer → s.PassesCut a.placement networks cs) ∧
      (c.seam = .completeNodes ∨ c.seam = .node →
        s.PassesUpTo a.placement networks c.after cs) := by
  intro networks question
  have only : ∀ d ∈ s.crashes, d = c := by
    rw [armed]
    exact fun d => List.mem_singleton.1
  have unarmed : ∀ d ∈ s.crashes, d.seam ≠ .leader ∧ d.seam ≠ .networks := by
    intro d member
    obtain rfl := only d member
    constructor <;> rintro same <;> simp [same] at inside
  have few : s.crashes.length ≤ 1 := by rw [armed]; exact le_rfl
  constructor
  · let calm : Controller := { s with crashes := [] }
    obtain ⟨entries, cs, journal, rfl, made⟩ := calls_of_work_backfill (s := calm)
      (List.forall_mem_nil _) present queue leads
      (· = networks.flatMap fun n => s.passCalls a.placement n .install) fun handlers journal => by
        obtain ⟨left, entries, passed, -, made⟩ :=
          passEach_of_few (s := calm.aside handlers journal) (h := h) (p := a.placement) networks
            unhooked (Nat.zero_le 1) (List.forall_mem_nil _)
        exact ⟨left, entries, none, passed, made rfl⟩
    exact ⟨entries, journal, made⟩
  · by_cases reading : c.seam = .completeNodes ∨ c.seam = .node
    · obtain ⟨entries, cs, journal, upTo, made⟩ := calls_of_work_backfill unarmed present queue
        leads (s.PassesUpTo a.placement networks c.after)
        fun handlers journal => passEach_of_reading (s := s.aside handlers journal) networks
          unhooked armed reading
      refine ⟨entries, cs, journal, made, fun pairs => ?_, fun _ => upTo⟩
      rcases reading with same | same <;> simp [same] at pairs
    · have unread : ∀ d ∈ s.crashes, d.seam ≠ .completeNodes ∧ d.seam ≠ .node := by
        intro d member
        obtain rfl := only d member
        exact not_or.1 reading
      obtain ⟨entries, cs, journal, cuts, made⟩ := calls_of_work_backfill unarmed present queue
        leads (s.PassesCut a.placement networks) fun handlers journal => by
          obtain ⟨left, entries, passed, cuts, -⟩ :=
            passEach_of_few (s := s.aside handlers journal) (h := h) (p := a.placement) networks
              unhooked few unread
          exact ⟨left, entries, none, passed, cuts⟩
      exact ⟨entries, cs, journal, made, fun _ => cuts, fun reads => absurd reads reading⟩

/-- The read for the second of two networks breaks off, and the first one has all its calls. -/
theorem backfill_loses_pair_or_rest_second :
    let n : Network := ⟨"host", "blue", .vxlan, default, none⟩
    let m : Network := ⟨"host", "green", .vxlan, ⟨10, 0, 2, 1⟩, none⟩
    let x : Node := ⟨"host", ⟨"host"⟩, default, default, .complete, .none⟩
    let s := (start (.appointed (some ⟨"a"⟩)) none false false).run
      [.disturb (.update (.upsertNetwork m)), .disturb (.update (.upsertNetwork n)),
        .activate "one" ⟨"a"⟩ .default, .disturb (.update (.upsertNode x)),
        .armCrash ⟨.completeNodes, 1, .wordless⟩]
    ∃ entries, (s.work 0).journal = s.journal ++ entries ∧ ∃ reads : List Seam,
      calls 0 entries = .leader "gwsync" (some ⟨"a"⟩) :: .read .networks ::
        (s.passCalls .default n .install ++ reads.map .read) := by
  intro n m x s
  let a : Handler :=
    ⟨"one", ⟨⟨"a"⟩, "gwsync"⟩, .default, 0, 1, true, .running, [.backfill x]⟩
  have present : s.handlers[0]? = some a := by decide
  have leads : a.gate.isLeader s.leadership := by decide
  have unhooked : s.hooks = [] := by decide
  have armed : s.crashes = [⟨.completeNodes, 1, .wordless⟩] := by decide
  have networks : s.inventory.networks.toList = [n, m] := by decide
  clear_value s
  obtain ⟨-, entries, cs, journal, made, -, reading⟩ :=
    backfill_loses_pair_or_rest s 0 a x [] _ present rfl leads unhooked armed (by decide)
  obtain ⟨reads, rfl, -⟩ := reading (.inl rfl)
  refine ⟨entries, journal, reads, ?_⟩
  rw [made, networks]
  simp [a]

/-- The read for the first of two networks breaks off, and the pairs of the second one, which the
installer gets when nothing breaks off, are lost with it. -/
theorem broken_read_costs_other_network :
    let n : Network := ⟨"host", "blue", .vxlan, default, none⟩
    let m : Network := ⟨"host", "green", .vxlan, ⟨10, 0, 2, 1⟩, none⟩
    let x : Node := ⟨"host", ⟨"host"⟩, default, default, .complete, .none⟩
    let s := (start (.appointed (some ⟨"a"⟩)) none false false).run
      [.disturb (.update (.upsertNetwork m)), .disturb (.update (.upsertNetwork n)),
        .activate "one" ⟨"a"⟩ .default, .disturb (.update (.upsertNode x)),
        .armCrash ⟨.completeNodes, 0, .wordless⟩]
    let gateways (t : Controller) :=
      (submitted 0 t.journal).map fun r => r.rule.selector.destination.address
    s.inventory.networks.toList = [n, m] ∧ s.handlers.map Handler.queue = [[.backfill x]] ∧
      s.leadership = .appointed (some ⟨"a"⟩) ∧
      gateways ({ s with crashes := [] }.work 0) = [n.gateway, m.gateway] ∧
      gateways (s.work 0) = [] := by
  decide

end Controller
end GatewayRules
