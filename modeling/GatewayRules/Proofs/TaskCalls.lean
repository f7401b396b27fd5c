import GatewayRules.Proofs.Fates

/-!
The calls that a task makes when nothing breaks off and no hook is set. They go by the inventory, by
who leads and by what is refused, and not by which handler does the task.
-/
namespace GatewayRules
open Journal

namespace Controller

variable {s t : Controller} {h : Nat} {p : Placement} {n : Network} {action : Action}

/-- Nothing is armed, and candidacies do not change who leads. -/
structure Tame (s : Controller) : Prop where
  uncrashed : s.crashes = []
  unhooked : s.hooks = []
  appointed : ∃ leader, s.leadership = .appointed leader

section Calls
variable (s p n action)

/-- The calls for one pair: the question for a port, the request, and its answer. -/
def pairCalls (owner : Option Node) (x : Node) : List Call :=
  (if x.Owns n then [] else [.read .resolver]) ++
    match synthesize s.resolver n x owner with
    | .error _ => []
    | .ok rule => [.submit ⟨rule, p, action⟩,
        match s.refusals.lookup rule.device with
        | some _ => .refused rule.device
        | none => .accepted ⟨rule, p, action⟩]

def passCalls : List Call :=
  [.read .completeNodes, .read .node] ++
    s.inventory.completeNodes.flatMap (s.pairCalls p n action (s.inventory.node? n.name))

def ruleCalls : Task → List Call
  | .install n => s.passCalls p n .install
  | .uninstall n => s.passCalls p n .remove
  | .backfill _ =>
    .read .networks :: s.inventory.networks.toList.flatMap fun n => s.passCalls p n .install

def taskCalls (g : Gate) (task : Task) : List Call :=
  .leader g.topic (s.leadership.leader g.topic) ::
    if g.isLeader s.leadership then s.ruleCalls p task else []

end Calls

/-- All that is left of the work of a handler is entries with these calls. -/
def Writes (h : Nat) (cs : List Call) (s t : Controller) : Prop :=
  ∃ entries, t = s.advance [] entries ∧ calls h entries = cs

namespace Writes

variable {cs cs' : List Call} {u : Controller}

theorem refl (tame : s.Tame) : Writes h [] s s :=
  ⟨[], by simp [advance, ← tame.uncrashed], rfl⟩

theorem trans (first : Writes h cs s t) (second : Writes h cs' t u) :
    Writes h (cs ++ cs') s u := by
  obtain ⟨entries, rfl, rfl⟩ := first
  obtain ⟨entries', rfl, rfl⟩ := second
  exact ⟨entries ++ entries', advance_advance .., calls_append ..⟩

theorem tame (writes : Writes h cs s t) (tame : s.Tame) : t.Tame := by
  obtain ⟨entries, rfl, -⟩ := writes
  exact ⟨rfl, tame.unhooked, tame.appointed⟩

theorem logSome (writes : Writes h cs s t) (notice : Option Notice) :
    Writes h cs s (t.logSome notice) := by
  obtain ⟨entries, rfl, rfl⟩ := writes
  refine ⟨entries ++ notice.toList.map .log, ?_, ?_⟩
  · rw [logSome_eq_advance]
    exact advance_advance ..
  · rw [calls_append, calls_logged, List.append_nil]

end Writes

theorem writes_announce (tame : s.Tame) (task : Task) : Writes h [] s (s.announce task) := by
  cases task with
  | install n | uninstall n => exact .refl tame
  | backfill x => exact (Writes.refl tame).logSome (some _)

theorem writes_enter (tame : s.Tame) (seam : Seam) (c : Call) : ∃ t,
    s.enter h seam c = (t, none) ∧ Writes h [c] s t := by
  have entered : (s.advance [] []).enter h seam c = (s.advance [] [.call h c], none) :=
    enter_advance seam c rfl []
  have same : s.advance [] [] = s := by rw [advance_nil, ← tame.uncrashed]
  rw [same] at entered
  exact ⟨_, entered, _, rfl, calls_own h [c]⟩

/-- Where nothing is armed for the calls of pairs, nothing strikes them. -/
theorem strikesEach_of_unarmed {crashes : List ArmedCrash} (s : Controller) (owner : Option Node)
    (nodes : List Node) (unarmed : ∀ c ∈ crashes, c.seam ≠ .resolver ∧ c.seam ≠ .installer) :
    s.StrikesEach p n owner action (nodes.map fun x => (x, ⟨none, none⟩)) crashes crashes := by
  have hits (x : Node) : s.Hits p n owner action x ⟨none, none⟩ crashes crashes := by
    unfold Hits
    split
    · rfl
    · exact ArmedCrash.countDown_of_unarmed fun c armed => (unarmed c armed).2
  have strikes (x : Node) : s.Strikes p n owner action x ⟨none, none⟩ crashes crashes := by
    unfold Strikes
    split
    · exact hits x
    · exact ⟨crashes, ArmedCrash.countDown_of_unarmed fun c armed => (unarmed c armed).1, hits x⟩
  induction nodes with
  | nil => rfl
  | cons x rest ih => exact ⟨crashes, strikes x, ih⟩

theorem calls_minutes (s : Controller) (h : Nat) (owner : Option Node) (x : Node) :
    calls h (s.minutes h p n owner action x ⟨none, none⟩) = s.pairCalls p n action owner x := by
  have asked : calls h (if x.Owns n then [] else [.call h (.read .resolver)]) =
      if x.Owns n then [] else [.read .resolver] := by
    split
    · rfl
    · exact calls_own h [.read .resolver]
  have handed : calls h (s.handing h p n owner action x ⟨none, none⟩) =
      match synthesize s.resolver n x owner with
      | .error _ => []
      | .ok rule => [.submit ⟨rule, p, action⟩,
          match s.refusals.lookup rule.device with
          | some _ => .refused rule.device
          | none => .accepted ⟨rule, p, action⟩] := by
    unfold handing
    rw [requestOf_of_unstruck]
    cases synthesize s.resolver n x owner with
    | error e => rfl
    | ok rule =>
      dsimp only
      rw [if_pos rfl]
      unfold answer
      cases s.refusals.lookup rule.device with
      | some reason => exact calls_own h [_, _]
      | none =>
        cases s.logsRequests
        · exact calls_own h [_, _]
        · exact (calls_append h ([.submit ⟨rule, p, action⟩, .accepted ⟨rule, p, action⟩].map
            (.call h)) [.log _]).trans (by rw [calls_own])
  unfold minutes pairCalls
  rw [calls_append, calls_append, asked, handed, calls_logged, List.append_nil]

theorem calls_proceedings (s : Controller) (h : Nat) (owner : Option Node) (nodes : List Node) :
    calls h (s.proceedings h p n owner action (nodes.map fun x => (x, ⟨none, none⟩))) =
      [.read .completeNodes, .read .node] ++ nodes.flatMap (s.pairCalls p n action owner) := by
  have opening : calls h [.call h (.read .completeNodes), .call h (.read .node)] =
      [.read .completeNodes, .read .node] := calls_own h [_, _]
  rw [read_proceedings (calls_append h) fun _ => rfl, opening, List.flatMap_map]
  simp only [calls_minutes]

/-- A pass whose reads go through, and whose pairs nothing strikes, has all its calls. -/
theorem pass_of_unarmed (unhooked : s.hooks = []) {crashes listing finding : List ArmedCrash}
    (listed : ArmedCrash.countDown .completeNodes crashes = (listing, none))
    (found : ArmedCrash.countDown .node listing = (finding, none))
    (unarmed : ∀ c ∈ finding, c.seam ≠ .resolver ∧ c.seam ≠ .installer) (h : Nat) (p : Placement)
    (n : Network) (action : Action) : ∃ entries report,
      { s with crashes }.pass h p n action = (s.advance finding entries, .ok report) ∧
      calls h entries = s.passCalls p n action := by
  let owner := s.inventory.node? n.name
  let pairs : List (Node × Strike) := s.inventory.completeNodes.map fun x => (x, ⟨none, none⟩)
  have all : pairs.map Prod.fst = s.inventory.completeNodes := by
    simp [pairs, Function.comp_def]
  exact ⟨s.proceedings h p n owner action pairs, s.tally p n owner action pairs,
    pass_of_strikes unhooked listed found (strikesEach_of_unarmed s owner _ unarmed) all,
    calls_proceedings s h owner _⟩

/-- A pass comes to its end. -/
theorem writes_pass (tame : s.Tame) (h : Nat) (p : Placement) (n : Network) (action : Action) :
    ∃ report, (s.pass h p n action).2 = .ok report ∧
      Writes h (s.passCalls p n action) s (s.pass h p n action).1 := by
  obtain ⟨entries, report, passed, made⟩ :=
    pass_of_unarmed tame.unhooked (rfl : ArmedCrash.countDown .completeNodes [] = ([], none))
      (rfl : ArmedCrash.countDown .node [] = ([], none)) (List.forall_mem_nil _) h p n action
  have same : { s with crashes := [] } = s := by rw [← tame.uncrashed]
  rw [same] at passed
  rw [passed]
  exact ⟨report, rfl, entries, rfl, made⟩

theorem writes_passEach (tame : s.Tame) (h : Nat) (p : Placement) (networks : List Network) :
    (passEach h p s networks).2 = none ∧
      Writes h (networks.flatMap fun n => s.passCalls p n .install) s
        (passEach h p s networks).1 := by
  induction networks generalizing s with
  | nil => exact ⟨rfl, .refl tame⟩
  | cons n rest ih =>
    obtain ⟨report, ends, first⟩ := writes_pass tame h p n .install
    obtain ⟨through, later⟩ := ih (first.tame tame)
    have same : (fun m => (s.pass h p n .install).1.passCalls p m .install) =
        fun m => s.passCalls p m .install := by
      obtain ⟨entries, done, -⟩ := first
      rw [done]
      rfl
    rw [same] at later
    rw [passEach_cons, ends]
    exact ⟨through, first.trans later⟩

theorem writes_perform (tame : s.Tame) (h : Nat) (p : Placement) (task : Task) :
    (s.perform h p task).2 = none ∧ Writes h (s.ruleCalls p task) s (s.perform h p task).1 := by
  cases task with
  | install n =>
    obtain ⟨report, ends, writes⟩ := writes_pass tame h p n .install
    rw [perform_install, ends]
    exact ⟨rfl, writes⟩
  | uninstall n =>
    obtain ⟨report, ends, writes⟩ := writes_pass tame h p n .remove
    rw [perform_uninstall, ends]
    exact ⟨rfl, writes⟩
  | backfill x =>
    obtain ⟨t, entered, read⟩ := writes_enter (h := h) tame .networks (.read .networks)
    obtain ⟨through, passes⟩ := writes_passEach (read.tame tame) h p t.inventory.networks.toList
    rw [perform_backfill, entered]
    refine ⟨through, ?_⟩
    have same : (t.inventory.networks.toList.flatMap fun n => t.passCalls p n .install) =
        s.inventory.networks.toList.flatMap fun n => s.passCalls p n .install := by
      obtain ⟨entries, done, -⟩ := read
      rw [done]
      rfl
    rw [same] at passes
    exact read.trans passes

theorem writes_process (tame : s.Tame) (h : Nat) (g : Gate) (p : Placement) (task : Task) :
    (s.process h g p task).2 = none ∧
      Writes h (s.taskCalls p g task) s (s.process h g p task).1 := by
  have announced := writes_announce (h := h) tame task
  obtain ⟨t, entered, asked⟩ := writes_enter (h := h) (announced.tame tame) .leader
    (.leader g.topic (s.leadership.leader g.topic))
  have asking : Writes h [.leader g.topic (s.leadership.leader g.topic)] s t :=
    announced.trans asked
  obtain ⟨through, performed⟩ := writes_perform (asking.tame tame) h p task
  have same : t.leadership = s.leadership ∧ t.ruleCalls p task = s.ruleCalls p task := by
    obtain ⟨entries, done, -⟩ := asking
    rw [done]
    exact ⟨rfl, rfl⟩
  rw [same.2] at performed
  have attended : s.process h g p task =
      if g.isLeader s.leadership then t.perform h p task else (t, none) := by
    rw [process_eq, attend, entered]
    exact congrArg (fun l => if g.isLeader l then t.perform h p task else (t, none)) same.1
  rw [attended, taskCalls]
  split
  · exact ⟨through, asking.trans performed⟩
  · exact ⟨rfl, asking⟩

/-- The turn of a worker that takes up a task. -/
theorem writes_work (tame : s.Tame) {a : Handler} {task : Task} {rest : List Task}
    (present : s.handlers[h]? = some a) (queue : a.queue = task :: rest) :
    Writes h (s.taskCalls a.placement a.gate task) (s.take h task rest) (s.work h) := by
  have taken : (s.take h task rest).Tame := ⟨tame.uncrashed, tame.unhooked, tame.appointed⟩
  obtain ⟨through, processed⟩ := writes_process taken h a.gate a.placement task
  rw [work_of_task present queue, through]
  exact processed

/-- Whoever finds the same makes the same calls. -/
theorem taskCalls_congr (inventory : t.inventory = s.inventory)
    (leadership : t.leadership = s.leadership) (refusals : t.refusals = s.refusals)
    (resolver : t.resolver = s.resolver) : t.taskCalls = s.taskCalls := by
  have pairCalls : t.pairCalls = s.pairCalls := by
    unfold Controller.pairCalls
    rw [refusals, resolver]
  have passCalls : t.passCalls = s.passCalls := by
    unfold Controller.passCalls
    rw [pairCalls, inventory]
  have ruleCalls : t.ruleCalls = s.ruleCalls := by
    funext p task
    cases task <;> simp only [Controller.ruleCalls, passCalls, inventory]
  unfold taskCalls
  rw [ruleCalls, leadership]

end Controller
end GatewayRules
