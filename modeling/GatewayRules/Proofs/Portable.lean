import GatewayRules.Proofs.Standstill

/-!
Operations that go by neither the handlers nor the journal. A pass is one: as long as nothing is
updated, it does the same whatever is on the queues and whatever has been written before.
-/
namespace GatewayRules
open Journal

namespace Controller

variable {h : Nat} {s : Controller} {α β : Type}

def aside (s : Controller) (handlers : List Handler) (journal : List Entry) : Controller :=
  { s with handlers, journal }

/-- What the operation writes and what it comes to are the same beside any handlers and any journal,
unless there is an update in it. -/
def Portable (op : Controller → Controller × α) : Prop :=
  ∀ s, ∃ entries, (op s).1.journal = s.journal ++ entries ∧
    (updates entries = [] → ∀ handlers journal, op (s.aside handlers journal) =
      ((op s).1.aside handlers (journal ++ entries), (op s).2))

theorem portable_pure (a : α) : Portable fun s => (s, a) :=
  fun _ => ⟨[], (List.append_nil _).symm, fun _ _ _ => by rw [List.append_nil]⟩

theorem portable_note (e : Entry) (a : α) : Portable fun s => (s.note e, a) :=
  fun _ => ⟨[e], rfl, fun _ _ _ => rfl⟩

namespace Portable

variable {op : Controller → Controller × α}

theorem bind (first : Portable op) (next : α → Controller → Controller × β)
    (later : ∀ a, Portable (next a)) : Portable fun s => next (op s).2 (op s).1 := by
  intro s
  obtain ⟨entries, journal, same⟩ := first s
  obtain ⟨more, journal', same'⟩ := later (op s).2 (op s).1
  refine ⟨entries ++ more, by rw [journal', journal, List.append_assoc], fun still hs written => ?_⟩
  rw [updates_append] at still
  obtain ⟨still, still'⟩ := List.append_eq_nil_iff.1 still
  dsimp only
  rw [same still, same' still', List.append_assoc]

theorem read (view : Controller → β) (next : β → Controller → Controller × α)
    (kept : ∀ s hs written, view (s.aside hs written) = view s) (later : ∀ b, Portable (next b)) :
    Portable fun s => next (view s) s := by
  intro s
  obtain ⟨entries, journal, same⟩ := later (view s) s
  refine ⟨entries, journal, fun still hs written => ?_⟩
  dsimp only
  rw [kept]
  exact same still hs written

end Portable

theorem portable_enter (seam : Seam) (c : Call) : Portable fun s => s.enter h seam c :=
  fun _ => ⟨[.call h c], rfl, fun _ _ _ => rfl⟩

theorem portable_proceed (seam : Seam) (c : Call) (stop : Crash → α)
    {go : Controller → Controller × α} (goes : Portable go) :
    Portable fun s => proceed (s.enter h seam c) stop go := by
  refine (portable_enter seam c).bind (fun crash t => proceed (t, crash) stop go)
    fun crash => ?_
  cases crash with
  | none => exact goes
  | some crash => exact portable_pure (stop crash)

theorem portable_disturb (d : Disturbance) : Portable fun s => (s.disturb d, ()) := by
  intro s
  cases d with
  | update u =>
    obtain ⟨schedule, entries, same, -, -⟩ := update_spec s u
    refine ⟨_, congrArg Controller.journal same, fun still => ?_⟩
    cases still
  | appoint leader | refuse device reason | accept device =>
    exact ⟨[], (List.append_nil _).symm, fun _ _ _ => by rw [List.append_nil]; rfl⟩

theorem portable_fireHooks : Portable fun s => (s.fireHooks, ()) := by
  have disturbs (ds : List Disturbance) : Portable fun s => (ds.foldl disturb s, ()) := by
    induction ds with
    | nil => exact portable_pure ()
    | cons d rest ih => exact (portable_disturb d).bind _ fun _ => ih
  have arms (hooks : List Hook) : Portable fun s => ({ s with hooks }, ()) :=
    fun _ => ⟨[], (List.append_nil _).symm, fun _ _ _ => by rw [List.append_nil]; rfl⟩
  refine Portable.read hooks (fun hooks s =>
    (((Hook.countDown hooks).2.flatMap Hook.actions).foldl disturb
      { s with hooks := (Hook.countDown hooks).1 }, ())) (fun _ _ _ => rfl) fun hooks => ?_
  exact (arms (Hook.countDown hooks).1).bind _ fun _ => disturbs _

/-- What the installer does with a request, if it has this reason to refuse it. -/
def respond (s : Controller) (h : Nat) (r : Request) :
    Option String → Controller × Except PairFault Unit
  | some reason =>
    (s.note (.call h (.refused r.rule.device)),
      .error (.refused (.refused r.rule.device reason)))
  | none =>
    let t := (s.note (.call h (.accepted r))).fireHooks
    (if t.logsRequests then t.log (.requested r) else t, .ok ())

theorem request_eq_respond (s : Controller) (h : Nat) (r : Request) : s.request h r =
    proceed (s.enter h .installer (.submit r)) (.error ∘ .crashed) fun t =>
      t.respond h r (t.refusals.lookup r.rule.device) := by
  unfold request
  rcases s.enter h .installer (.submit r) with ⟨t, _ | crash⟩
  · cases refused : t.refusals.lookup r.rule.device <;> simp only [proceed, respond, refused]
  · rfl

theorem portable_respond (r : Request) (refusal : Option String) :
    Portable fun s => s.respond h r refusal := by
  have logs : Portable fun s : Controller =>
      (if s.logsRequests then s.log (.requested r) else s, (.ok () : Except PairFault Unit)) :=
    Portable.read logsRequests (fun logs s =>
      (if logs then s.log (.requested r) else s, (.ok () : Except PairFault Unit)))
      (fun _ _ _ => rfl) fun logs => by
        cases logs with
        | true => exact portable_note _ _
        | false => exact portable_pure _
  cases refusal with
  | some reason => exact portable_note _ _
  | none =>
    have accepts := portable_note (.call h (.accepted r)) ()
    exact (accepts.bind _ fun _ => portable_fireHooks).bind _ fun _ => logs

theorem portable_request (r : Request) : Portable fun s => s.request h r := by
  simp only [request_eq_respond]
  exact portable_proceed _ _ _ <| Portable.read (fun s => s.refusals.lookup r.rule.device)
    (fun refusal s => s.respond h r refusal) (fun _ _ _ => rfl) (portable_respond r)

section Pass
variable (p : Placement) (n : Network) (owner : Option Node) (action : Action)

def handOver (s : Controller) (h : Nat) (p : Placement) (action : Action) :
    Except RuleError Rule → Controller × Except PairFault Unit
  | .error e => (s, .error (.skipped e))
  | .ok rule => s.request h ⟨rule, p, action⟩

theorem portable_handOver (built : Except RuleError Rule) :
    Portable fun s => s.handOver h p action built := by
  cases built with
  | error e => exact portable_pure _
  | ok rule => exact portable_request _

theorem portable_pair (x : Node) : Portable fun s => s.pair h p n x owner action := by
  have placed : Portable fun s => s.place h p n x owner action :=
    Portable.read (fun s => synthesize s.resolver n x owner)
      (fun built s => s.handOver h p action built) (fun _ _ _ => rfl)
      fun built => portable_handOver p action built
  simp only [pair_eq]
  split
  · exact placed
  · exact portable_proceed _ _ _ placed

theorem portable_foldl_settlePair (nodes : List Node) (report : Report) :
    Portable fun s => nodes.foldl (settlePair h p n owner action) (s, report) := by
  induction nodes generalizing report with
  | nil => exact portable_pure report
  | cons x rest ih =>
    have settles : Portable fun s => settlePair h p n owner action (s, report) x := by
      simp only [settlePair_eq]
      refine (portable_pair p n owner action x).bind
        (fun result t => (t.logSome (complaint? n x action result), count report result))
        fun result => ?_
      cases complaint? n x action result with
      | none => exact portable_pure _
      | some notice => exact portable_note _ _
    exact settles.bind _ ih

/-- The pairs of a pass with these nodes, and its end. -/
def settle (s : Controller) (h : Nat) (p : Placement) (n : Network) (action : Action)
    (nodes : List Node) (owner : Option Node) : Controller × Except Crash Report :=
  let r := nodes.foldl (settlePair h p n owner action) (s, ⟨0, 0⟩)
  (r.1.logSome (some (.passed n.name action r.2)), .ok r.2)

theorem portable_settle (nodes : List Node) :
    Portable fun s => s.settle h p n action nodes owner :=
  (portable_foldl_settlePair p n owner action nodes ⟨0, 0⟩).bind
    (fun report t => (t.log (.passed n.name action report), Except.ok report))
    fun _ => portable_note _ _

theorem portable_pass : Portable fun s => s.pass h p n action := by
  have settles (nodes : List Node) :
      Portable fun s => s.settle h p n action nodes (s.inventory.node? n.name) :=
    Portable.read (fun s => s.inventory.node? n.name)
      (fun owner s => s.settle h p n action nodes owner) (fun _ _ _ => rfl)
      fun owner => portable_settle p n owner action nodes
  have finds : Portable fun s => proceed (s.enter h .node (.read .node)) Except.error fun t =>
      t.settle h p n action s.inventory.completeNodes (t.inventory.node? n.name) :=
    Portable.read (fun s => s.inventory.completeNodes)
      (fun nodes s => proceed (s.enter h .node (.read .node)) Except.error fun t =>
        t.settle h p n action nodes (t.inventory.node? n.name)) (fun _ _ _ => rfl)
      fun nodes => portable_proceed _ _ _ (settles nodes)
  simp only [pass_eq]
  exact portable_proceed _ _ _ finds

theorem portable_passEach (networks : List Network) :
    Portable fun s => passEach h p s networks := by
  induction networks with
  | nil => exact portable_pure none
  | cons n rest ih =>
    simp only [passEach_cons]
    refine (portable_pass p n .install).bind
      (fun result t => proceed (t, crash? result) some (passEach h p · rest))
      fun result => ?_
    cases result with
    | error crash => exact portable_pure _
    | ok report => exact ih

end Pass

end Controller
end GatewayRules
