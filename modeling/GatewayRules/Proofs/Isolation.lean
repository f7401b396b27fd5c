import GatewayRules.Proofs.Gating

/-!
What a collaborator that breaks off does to the work of a handler. The run is set beside the one in
which nothing is armed to break off. The two have the same state but for what is armed and what is
written down, and they write the same as long as nothing goes off.
-/
namespace GatewayRules
open Journal

namespace ArmedCrash

theorem length_countDown (seam : Seam) (crashes : List ArmedCrash) :
    ((countDown seam crashes).2 = none ∧ (countDown seam crashes).1.length = crashes.length) ∨
    ((∃ crash, (countDown seam crashes).2 = some crash) ∧
      (countDown seam crashes).1.length < crashes.length) := by
  induction crashes with
  | nil => exact .inl ⟨rfl, rfl⟩
  | cons c rest ih =>
    by_cases here : c.seam = seam
    · cases count : c.after <;> simp [countDown, here, count]
    · simpa [countDown, here] using ih

theorem countDown_of_unarmed {seam : Seam} {crashes : List ArmedCrash}
    (unarmed : ∀ c ∈ crashes, c.seam ≠ seam) : countDown seam crashes = (crashes, none) := by
  induction crashes with
  | nil => rfl
  | cons c rest ih =>
    obtain ⟨other, later⟩ := List.forall_mem_cons.1 unarmed
    rw [countDown, if_neg other, ih later]

end ArmedCrash

namespace Controller

variable {h : Nat} {s : Controller} {journal : List Entry} {α β : Type}

/-- What is armed has changed, and entries have been written. -/
def advance (s : Controller) (crashes : List ArmedCrash) (entries : List Entry) : Controller :=
  { s with crashes, journal := s.journal ++ entries }

theorem advance_advance (s : Controller) (crashes crashes' : List ArmedCrash)
    (first second : List Entry) :
    (s.advance crashes first).advance crashes' second = s.advance crashes' (first ++ second) := by
  simp [advance]

/-- The same state with nothing armed, beside a journal of its own. -/
def calm (s : Controller) (journal : List Entry) : Controller := { s with crashes := [], journal }

/-- From a state and the calm one beside it, both runs have come on. The first has had no more
requests accepted than the calm one. -/
def Trails (h : Nat) (s : Controller) (journal : List Entry) (t c : Controller) : Prop :=
  ∃ crashes first second, t = s.advance crashes first ∧ c = s.calm (journal ++ second) ∧
    crashes.length ≤ s.crashes.length ∧ (accepted h first).Sublist (accepted h second)

/-- From a state and the calm one beside it, both runs have come on with a result. They have written
the same and have the same result, unless something has gone off. -/
inductive Beside (h : Nat) (s : Controller) (journal : List Entry) (r c : Controller × α) :
    Prop where
  | smooth (crashes : List ArmedCrash) (entries : List Entry) : r.1 = s.advance crashes entries →
    c.1 = s.calm (journal ++ entries) → crashes.length = s.crashes.length → r.2 = c.2 →
    Beside h s journal r c
  | harmed : Trails h s journal r.1 c.1 → r.1.crashes.length < s.crashes.length →
    Beside h s journal r c

theorem Trails.trans {t c t' c' : Controller} (first : Trails h s journal t c)
    (second : Trails h t c.journal t' c') : Trails h s journal t' c' := by
  obtain ⟨crashes, es, fs, rfl, rfl, fewer, part⟩ := first
  obtain ⟨crashes', es', fs', rfl, rfl, fewer', part'⟩ := second
  refine ⟨crashes', es ++ es', fs ++ fs', advance_advance .., ?_, fewer'.trans fewer, ?_⟩
  · exact congrArg s.calm (List.append_assoc journal fs fs')
  · rw [accepted_append, accepted_append]
    exact part.append part'

namespace Beside

variable {r c : Controller × α} {q d : Controller × β}

theorem trails (beside : Beside h s journal r c) : Trails h s journal r.1 c.1 := by
  cases beside with
  | smooth crashes entries run calm same _ =>
    exact ⟨crashes, entries, entries, run, calm, same.le, List.Sublist.refl _⟩
  | harmed trails _ => exact trails

/-- If something goes off first, the results of what follows need not agree. -/
theorem andThen (first : Beside h s journal r c) (next : r.2 = c.2 → Beside h r.1 c.1.journal q d)
    (other : Trails h r.1 c.1.journal q.1 d.1) : Beside h s journal q d := by
  have trails := first.trails
  cases first with
  | harmed _ fewer =>
    refine .harmed (trails.trans other) ?_
    obtain ⟨crashes, _, _, run, _, fewer', _⟩ := other
    rw [run]
    exact fewer'.trans_lt fewer
  | smooth crashes entries run calm same result =>
    cases next result with
    | harmed trails' fewer =>
      refine .harmed (trails.trans trails') (fewer.trans_eq ?_)
      rw [run]
      exact same
    | smooth crashes' entries' run' calm' same' result' =>
      refine .smooth crashes' (entries ++ entries') ?_ ?_ (same'.trans ?_) result'
      · rw [run', run, advance_advance]
      · rw [calm', calm, run]
        exact congrArg s.calm (List.append_assoc journal entries entries')
      · rw [run]
        exact same

/-- What follows may go by the result. Where the results differ, the calm run must not fall behind. -/
theorem bind (first : Beside h s journal r c) (k : Controller × α → Controller × β)
    (next : ∀ t i o, t.hooks = s.hooks → Beside h t i (k (t, o)) (k (t.calm i, o)))
    (other : ∀ t i, t.hooks = s.hooks → Trails h t i (k (t, r.2)).1 (k (t.calm i, c.2)).1) :
    Beside h s journal (k r) (k c) := by
  obtain ⟨crashes, es, fs, run, calm, -, -⟩ := first.trails
  obtain ⟨t, o⟩ := r
  obtain ⟨u, o'⟩ := c
  dsimp only at run calm
  subst run calm
  refine first.andThen (fun same => ?_) (other (s.advance crashes es) _ rfl)
  obtain rfl : o = o' := same
  exact next (s.advance crashes es) _ o rfl

end Beside

theorem logSome_eq_advance (s : Controller) (n : Option Notice) :
    s.logSome n = s.advance s.crashes (n.toList.map .log) := by
  cases n with
  | none => simp [logSome, advance]
  | some n => rfl

theorem trails_logSome (s : Controller) (journal : List Entry) (n m : Option Notice) :
    Trails h s journal (s.logSome n) ((s.calm journal).logSome m) := by
  have silent (n : Option Notice) : accepted h (n.toList.map .log) = [] := by cases n <;> rfl
  refine ⟨s.crashes, _, _, logSome_eq_advance s n, logSome_eq_advance (s.calm journal) m, le_rfl, ?_⟩
  rw [silent n]
  exact List.nil_sublist _

namespace Beside

variable {r c : Controller × α}

/-- A last entry for the log may depend on the result. -/
theorem logSome (beside : Beside h s journal r c) (notice : α → Option Notice) (f : α → β) :
    Beside h s journal (r.1.logSome (notice r.2), f r.2) (c.1.logSome (notice c.2), f c.2) :=
  beside.bind (fun r => (r.1.logSome (notice r.2), f r.2))
    (fun t _ _ _ => .smooth t.crashes _ (logSome_eq_advance _ _) (logSome_eq_advance _ _) rfl rfl)
    (fun t i _ => trails_logSome t i _ _)

end Beside

theorem beside_self (s : Controller) (journal : List Entry) (o : α) :
    Beside h s journal (s, o) (s.calm journal, o) :=
  .smooth s.crashes [] (by simp [advance]) (by simp) rfl rfl

/-- Whatever goes off in the operation, it is cut short and nothing else. -/
def Contained (h : Nat) (op : Controller → Controller × α) : Prop :=
  ∀ s journal, s.hooks = [] → Beside h s journal (op s) (op (s.calm journal))

/-- Goes on with what a call has been entered for, unless it breaks off. -/
def proceed (entered : Controller × Option Crash) (stop : Crash → α)
    (go : Controller → Controller × α) : Controller × α :=
  match entered with
  | (s, some crash) => (s, stop crash)
  | (s, none) => go s

theorem beside_proceed (unhooked : s.hooks = []) (seam : Seam) (c : Call) (stop : Crash → α)
    {go : Controller → Controller × α} (next : Contained h go) :
    Beside h s journal (proceed (s.enter h seam c) stop go)
      (proceed ((s.calm journal).enter h seam c) stop go) := by
  let crashes := (ArmedCrash.countDown seam s.crashes).1
  let t := s.advance crashes [.call h c]
  have calm : proceed ((s.calm journal).enter h seam c) stop go =
      go (t.calm (journal ++ [.call h c])) := rfl
  have goes := next t (journal ++ [.call h c]) unhooked
  rw [calm]
  rcases ArmedCrash.length_countDown seam s.crashes with ⟨none, same⟩ | ⟨⟨crash, some⟩, fewer⟩
  · have run : proceed (s.enter h seam c) stop go = go t := by
      have entered : s.enter h seam c = (t, .none) := Prod.ext rfl none
      rw [entered]
      rfl
    have first : Beside h s journal (t, ()) (t.calm (journal ++ [.call h c]), ()) :=
      .smooth crashes _ rfl rfl same rfl
    rw [run]
    exact first.bind (fun r => go r.1) (fun t i _ hooks => next t i (hooks.trans unhooked))
      fun t i hooks => (next t i (hooks.trans unhooked)).trails
  · have run : proceed (s.enter h seam c) stop go = (t, stop crash) := by
      have entered : s.enter h seam c = (t, .some crash) := Prod.ext rfl some
      rw [entered]
      rfl
    obtain ⟨_, _, alone, _, calm', _, _⟩ := goes.trails
    refine .harmed ⟨crashes, [.call h c], .call h c :: alone, ?_, ?_, fewer.le, ?_⟩ ?_
    · rw [run]
    · rw [calm']
      exact congrArg s.calm (List.append_assoc ..)
    · exact (List.sublist_append_left [.call h c] alone).filterMap _ |>.filterMap _
    · rw [run]
      exact fewer

theorem fireHooks_of_unhooked (unhooked : s.hooks = []) : s.fireHooks = s := by
  have same : s.fireHooks = { s with hooks := [] } := by
    unfold fireHooks
    rw [unhooked]
    rfl
  rw [same, ← unhooked]

def answer (s : Controller) (h : Nat) (r : Request) : List Entry :=
  match s.refusals.lookup r.rule.device with
  | some _ => [.call h (.refused r.rule.device)]
  | none => .call h (.accepted r) :: if s.logsRequests then [.log (.requested r)] else []

def verdict (s : Controller) (r : Request) : Except PairFault Unit :=
  match s.refusals.lookup r.rule.device with
  | some reason => .error (.refused (.refused r.rule.device reason))
  | none => .ok ()

theorem request_eq (unhooked : s.hooks = []) (r : Request) :
    s.request h r = proceed (s.enter h .installer (.submit r)) (.error ∘ .crashed) fun t =>
      (t.advance t.crashes (t.answer h r), t.verdict r) := by
  unfold request
  have kept : (s.enter h .installer (.submit r)).1.hooks = [] := unhooked
  generalize s.enter h .installer (.submit r) = entered at kept ⊢
  obtain ⟨t, _ | crash⟩ := entered
  · have fired : (t.note (.call h (.accepted r))).fireHooks = t.note (.call h (.accepted r)) :=
      fireHooks_of_unhooked kept
    unfold proceed answer verdict
    dsimp only
    cases t.refusals.lookup r.rule.device with
    | some reason => rfl
    | none =>
      dsimp only
      rw [fired]
      cases logs : t.logsRequests <;> simp [note, logs, advance, log]
  · rfl

theorem contained_request (r : Request) : Contained h (·.request h r) := by
  intro s journal unhooked
  have calm : (s.calm journal).hooks = [] := unhooked
  dsimp only
  rw [request_eq unhooked, request_eq calm]
  exact beside_proceed unhooked .installer _ _ fun t i _ => .smooth t.crashes _ rfl rfl rfl rfl

def place (s : Controller) (h : Nat) (p : Placement) (n : Network) (x : Node) (owner : Option Node)
    (action : Action) : Controller × Except PairFault Unit :=
  match synthesize s.resolver n x owner with
  | .error e => (s, .error (.skipped e))
  | .ok rule => s.request h ⟨rule, p, action⟩

theorem pair_eq (s : Controller) (p : Placement) (n : Network) (x : Node) (owner : Option Node)
    (action : Action) : s.pair h p n x owner action =
      if x.Owns n then s.place h p n x owner action
      else proceed (s.enter h .resolver (.read .resolver)) (.error ∘ .crashed)
        (·.place h p n x owner action) := by
  unfold pair buildRule place
  by_cases owns : x.Owns n
  · rw [if_pos owns, if_pos owns]
    cases synthesize s.resolver n x owner <;> rfl
  · rw [if_neg owns, if_neg owns]
    rcases s.enter h .resolver (.read .resolver) with ⟨t, _ | crash⟩
    · dsimp only [proceed]
      cases synthesize t.resolver n x owner <;> rfl
    · rfl

theorem contained_pair (p : Placement) (n : Network) (x : Node) (owner : Option Node)
    (action : Action) : Contained h (·.pair h p n x owner action) := by
  have placed : Contained h (·.place h p n x owner action) := by
    intro s journal unhooked
    have same : (s.calm journal).resolver = s.resolver := rfl
    dsimp only [place]
    rw [same]
    cases synthesize s.resolver n x owner with
    | error e => exact beside_self s journal _
    | ok rule => exact contained_request _ s journal unhooked
  intro s journal unhooked
  dsimp only
  rw [pair_eq, pair_eq]
  split
  · exact placed s journal unhooked
  · exact beside_proceed unhooked .resolver _ _ placed

def complaint? (n : Network) (x : Node) (action : Action) : Except PairFault Unit → Option Notice
  | .ok () => none
  | .error fault => some (fault.notice n x action)

def count (report : Report) : Except PairFault Unit → Report
  | .ok () => { report with applied := report.applied + 1 }
  | .error _ => { report with failed := report.failed + 1 }

section
variable (p : Placement) (n : Network) (owner : Option Node) (action : Action)

theorem settlePair_eq (s : Controller) (report : Report) (x : Node) :
    settlePair h p n owner action (s, report) x =
      ((s.pair h p n x owner action).1.logSome
        (complaint? n x action (s.pair h p n x owner action).2),
        count report (s.pair h p n x owner action).2) := by
  unfold settlePair
  dsimp only
  rcases s.pair h p n x owner action with ⟨t, fault | done⟩ <;> rfl

/-- The counts make no difference to what is done. -/
theorem foldl_settlePair_report (nodes : List Node) (s : Controller) (report report' : Report) :
    (nodes.foldl (settlePair h p n owner action) (s, report)).1 =
      (nodes.foldl (settlePair h p n owner action) (s, report')).1 := by
  induction nodes generalizing s report report' with
  | nil => rfl
  | cons x rest ih =>
    rw [List.foldl_cons, List.foldl_cons, settlePair_eq, settlePair_eq]
    exact ih _ _ _

theorem contained_foldl (nodes : List Node) (report : Report) :
    Contained h fun s => nodes.foldl (settlePair h p n owner action) (s, report) := by
  induction nodes generalizing report with
  | nil => exact fun s journal _ => beside_self s journal report
  | cons x rest ih =>
    intro s journal unhooked
    have first : Beside h s journal (settlePair h p n owner action (s, report) x)
        (settlePair h p n owner action (s.calm journal, report) x) := by
      rw [settlePair_eq, settlePair_eq]
      exact (contained_pair p n x owner action s journal unhooked).logSome
        (complaint? n x action) (count report)
    refine first.bind (rest.foldl (settlePair h p n owner action))
      (fun t i o hooks => ih o t i (hooks.trans unhooked)) fun t i hooks => ?_
    rw [foldl_settlePair_report p n owner action rest (t.calm i)]
    exact (ih _ t i (hooks.trans unhooked)).trails

theorem pass_eq (s : Controller) : s.pass h p n action =
    proceed (s.enter h .completeNodes (.read .completeNodes)) .error fun t =>
      proceed (t.enter h .node (.read .node)) .error fun v =>
        let r := t.inventory.completeNodes.foldl
          (settlePair h p n (v.inventory.node? n.name) action) (v, ⟨0, 0⟩)
        (r.1.logSome (some (.passed n.name action r.2)), .ok r.2) := by
  unfold pass
  rcases s.enter h .completeNodes (.read .completeNodes) with ⟨t, _ | crash⟩
  · dsimp only [proceed]
    rcases t.enter h .node (.read .node) with ⟨v, _ | crash⟩ <;> rfl
  · rfl

theorem contained_pass : Contained h (·.pass h p n action) := by
  intro s journal unhooked
  dsimp only
  rw [pass_eq, pass_eq]
  refine beside_proceed unhooked _ _ _ fun t i hooks => ?_
  refine beside_proceed hooks _ _ _ fun v k hooks => ?_
  exact (contained_foldl p n _ action t.inventory.completeNodes ⟨0, 0⟩ v k hooks).logSome
    (fun report => some (.passed n.name action report)) Except.ok

/-- A calm pass comes to its end. -/
theorem pass_calm (s : Controller) (journal : List Entry) :
    ∃ report, ((s.calm journal).pass h p n action).2 = .ok report :=
  ⟨_, rfl⟩

end

/-- The calm run may go on alone. -/
theorem Trails.alone {t c : Controller} (trails : Trails h s journal t c) :
    Trails h s journal s c := by
  obtain ⟨-, -, second, -, calm, -, -⟩ := trails
  exact ⟨s.crashes, [], second, by simp [advance], calm, le_rfl, List.nil_sublist _⟩

/-- What a pass has broken off with. -/
def crash? : Except Crash Report → Option Crash
  | .error crash => some crash
  | .ok _ => none

theorem passEach_cons (p : Placement) (s : Controller) (n : Network) (rest : List Network) :
    passEach h p s (n :: rest) =
      proceed ((s.pass h p n .install).1, crash? (s.pass h p n .install).2) some
        (passEach h p · rest) := by
  rw [passEach]
  rcases s.pass h p n .install with ⟨t, crash | report⟩ <;> rfl

theorem contained_passEach (p : Placement) (networks : List Network) :
    Contained h fun s => passEach h p s networks := by
  induction networks with
  | nil => exact fun s journal _ => beside_self s journal none
  | cons n rest ih =>
    intro s journal unhooked
    dsimp only
    rw [passEach_cons, passEach_cons]
    obtain ⟨report, ends⟩ := pass_calm (h := h) p n .install s journal
    refine (contained_pass p n .install s journal unhooked).bind
      (fun r => proceed (r.1, crash? r.2) some (passEach h p · rest)) (fun t i o hooks => ?_)
      fun t i hooks => ?_
    · cases o with
      | error crash => exact beside_self t i (some crash)
      | ok report => exact ih t i (hooks.trans unhooked)
    · have after := (ih t i (hooks.trans unhooked)).trails
      rw [ends]
      cases (s.pass h p n .install).2 with
      | error crash => exact after.alone
      | ok report => exact after

theorem perform_install (s : Controller) (p : Placement) (n : Network) :
    s.perform h p (.install n) =
      ((s.pass h p n .install).1, crash? (s.pass h p n .install).2) := by
  dsimp only [perform]
  rcases s.pass h p n .install with ⟨t, crash | report⟩ <;> rfl

theorem perform_uninstall (s : Controller) (p : Placement) (n : Network) :
    s.perform h p (.uninstall n) =
      ((s.pass h p n .remove).1, crash? (s.pass h p n .remove).2) := by
  dsimp only [perform]
  rcases s.pass h p n .remove with ⟨t, crash | report⟩ <;> rfl

theorem perform_backfill (s : Controller) (p : Placement) (x : Node) :
    s.perform h p (.backfill x) =
      proceed (s.enter h .networks (.read .networks)) some fun t =>
        passEach h p t t.inventory.networks.toList := by
  dsimp only [perform]
  rcases s.enter h .networks (.read .networks) with ⟨t, _ | crash⟩ <;> rfl

theorem contained_perform (p : Placement) (t : Task) : Contained h (·.perform h p t) := by
  have one (n : Network) (action : Action) :
      Contained h fun s => ((s.pass h p n action).1, crash? (s.pass h p n action).2) :=
    fun s journal unhooked =>
      (contained_pass p n action s journal unhooked).logSome (fun _ => none) crash?
  cases t with
  | install n => simpa only [perform_install] using one n .install
  | uninstall n => simpa only [perform_uninstall] using one n .remove
  | backfill x =>
    intro s journal unhooked
    dsimp only
    rw [perform_backfill, perform_backfill]
    refine beside_proceed unhooked _ _ _ fun t i hooks => ?_
    exact contained_passEach p t.inventory.networks.toList t i hooks

def attend (s : Controller) (h : Nat) (g : Gate) (p : Placement) (t : Task)
    (leader : Option Member) : Controller × Option Crash :=
  proceed (s.enter h .leader (.leader g.topic leader)) some fun v =>
    if g.isLeader v.leadership then v.perform h p t else (v, none)

theorem process_eq (s : Controller) (g : Gate) (p : Placement) (t : Task) :
    s.process h g p t = (s.announce t).attend h g p t (s.leadership.leader g.topic) := by
  have kept : (s.asked h g t).1.leadership = s.leadership := announce_leadership s t
  have attended : (s.announce t).attend h g p t (s.leadership.leader g.topic) =
      proceed (s.asked h g t) some fun v =>
        if g.isLeader v.leadership then v.perform h p t else (v, none) := rfl
  rw [attended]
  unfold process
  rw [askLeader_announce, ← kept]
  rcases s.asked h g t with ⟨v, _ | crash⟩
  · dsimp only [proceed, Option.elim_none]
    cases g.isLeader v.leadership <;> rfl
  · rfl

theorem contained_attend (g : Gate) (p : Placement) (t : Task) (leader : Option Member) :
    Contained h (·.attend h g p t leader) := by
  intro s journal unhooked
  refine beside_proceed unhooked _ _ _ fun v i hooks => ?_
  have same : (v.calm i).leadership = v.leadership := rfl
  rw [same]
  split
  · exact contained_perform p t v i hooks
  · exact beside_self v i none

theorem contained_process (g : Gate) (p : Placement) (t : Task) :
    Contained h (·.process h g p t) := by
  have told : ∃ n, ∀ s : Controller, s.announce t = s.logSome n := by
    cases t with
    | install n | uninstall n => exact ⟨none, fun _ => rfl⟩
    | backfill x => exact ⟨some (.nodeDetected x.hostname), fun _ => rfl⟩
  obtain ⟨n, told⟩ := told
  intro s journal unhooked
  have leadership : (s.calm journal).leadership = s.leadership := rfl
  have attended := contained_attend (h := h) g p t (s.leadership.leader g.topic)
  have announced := (beside_self (h := h) s journal ()).logSome (fun _ => n) id
  dsimp only
  rw [process_eq, process_eq, told, told, leadership]
  exact announced.bind (fun r => r.1.attend h g p t (s.leadership.leader g.topic))
    (fun v i _ hooks => attended v i (hooks.trans unhooked))
    fun v i hooks => (attended v i (hooks.trans unhooked)).trails

/-- The whole turn of a worker that takes up a task. -/
theorem beside_work {a : Handler} {t : Task} {rest : List Task} (journal : List Entry)
    (unhooked : s.hooks = []) (present : s.handlers[h]? = some a) (queue : a.queue = t :: rest) :
    Beside h (s.take h t rest) (journal ++ [.taken h t]) (s.work h, ())
      ((s.calm journal).work h, ()) := by
  have present' : (s.calm journal).handlers[h]? = some a := present
  rw [work_of_task present queue, work_of_task present' queue]
  exact (contained_process a.gate a.placement t (s.take h t rest) (journal ++ [.taken h t])
    unhooked).logSome (Option.map .taskCrashed) (fun _ => ())

/-- A turn with a task. The handler has that task no more, and is as it was otherwise. -/
theorem handlers_of_beside_work {a : Handler} {t : Task} {rest : List Task} {u c : Controller}
    (present : s.handlers[h]? = some a) (trails : Trails h (s.take h t rest) journal u c) :
    u.handlers[h]? = some { a with queue := rest } ∧ u.hooks = s.hooks ∧
    c = u.calm c.journal := by
  obtain ⟨crashes, first, second, rfl, rfl, -, -⟩ := trails
  have taken : (s.take h t rest).handlers[h]? = some { a with queue := rest } := by
    simp [take, note, modifyHandler, present]
  exact ⟨taken, rfl, rfl⟩

/-- What a turn with a task writes, and what it writes if nothing is armed. -/
theorem entries_of_beside_work {a : Handler} {t : Task} {rest : List Task} (journal : List Entry)
    (unhooked : s.hooks = []) (present : s.handlers[h]? = some a) (queue : a.queue = t :: rest) :
    ∃ entries smooth, (s.work h).journal = s.journal ++ entries ∧
      ((s.calm journal).work h).journal = journal ++ smooth ∧
      taken h entries = [t] ∧ taken h smooth = [t] ∧
      (accepted h entries).Sublist (accepted h smooth) ∧
      ((s.work h).crashes.length = s.crashes.length → entries = smooth) := by
  have opens (v : Controller) (present : v.handlers[h]? = some a) (written : List Entry)
      (journal : (v.work h).journal = v.journal ++ written) : taken h written = [t] := by
    obtain ⟨entries, body, journal', mine, -⟩ := work_doings present queue
    obtain rfl := List.append_cancel_left (journal.symm.trans journal')
    rw [taken_eq_doings, mine]
    simp
  have worked := beside_work journal unhooked present queue
  have opened (first entries : List Entry) :
      first ++ [Entry.taken h t] ++ entries = first ++ .taken h t :: entries := by simp
  cases worked with
  | smooth crashes entries run calm same _ =>
    have journal₁ : (s.work h).journal = s.journal ++ .taken h t :: entries :=
      (congrArg Controller.journal run).trans (opened _ _)
    have journal₂ : ((s.calm journal).work h).journal = journal ++ .taken h t :: entries :=
      (congrArg Controller.journal calm).trans (opened _ _)
    have one := opens s present _ journal₁
    exact ⟨_, _, journal₁, journal₂, one, one, List.Sublist.refl _, fun _ => rfl⟩
  | harmed trails fewer =>
    obtain ⟨crashes, first, second, run, calm, -, part⟩ := trails
    have journal₁ : (s.work h).journal = s.journal ++ .taken h t :: first :=
      (congrArg Controller.journal run).trans (opened _ _)
    have journal₂ : ((s.calm journal).work h).journal = journal ++ .taken h t :: second :=
      (congrArg Controller.journal calm).trans (opened _ _)
    refine ⟨_, _, journal₁, journal₂, opens s present _ journal₁,
      opens (s.calm journal) present _ journal₂, part, fun same => ?_⟩
    exact absurd same fewer.ne

def turns (h k : Nat) : List Step := List.replicate k (.work h)

theorem run_turns_succ (s : Controller) (h k : Nat) :
    s.run (turns h (k + 1)) = (s.run (turns h k)).work h := by
  unfold turns
  rw [List.replicate_succ', run_append]
  rfl

/-- After any number of turns the two runs are in the same state, but for what is armed. -/
theorem run_turns {a : Handler} (journal : List Entry) (unhooked : s.hooks = [])
    (present : s.handlers[h]? = some a) (k : Nat) (within : k ≤ a.queue.length) :
    (s.run (turns h k)).handlers[h]? = some { a with queue := a.queue.drop k } ∧
    (s.run (turns h k)).hooks = [] ∧
    ∃ i, (s.calm journal).run (turns h k) = (s.run (turns h k)).calm i := by
  induction k with
  | zero => exact ⟨present, unhooked, journal, rfl⟩
  | succ k ih =>
    obtain ⟨handler, hooks, i, calm⟩ := ih (Nat.le_of_succ_le within)
    have queue : a.queue.drop k = a.queue[k] :: a.queue.drop (k + 1) :=
      List.drop_eq_getElem_cons within
    have worked := beside_work i hooks handler queue
    obtain ⟨handler', hooks', calm'⟩ := handlers_of_beside_work handler worked.trails
    rw [run_turns_succ, run_turns_succ, calm]
    exact ⟨handler', hooks'.trans hooks, _, calm'⟩

/-- What breaks off stays in its task. A handler's worker has its turns, and nothing else happens
meanwhile. Whatever collaborators break off at whatever calls, the worker takes up every task in
order and does not end. A task in which nothing goes off is carried out as it would be with nothing
armed at all, with the same calls and the same answers, whatever has gone off in tasks before it. In
a task in which something breaks off, the accepted requests are some of those in the undisturbed
run, in order. -/
theorem crashes_stay_in_their_task (s : Controller) (h : Nat) (a : Handler)
    (present : s.handlers[h]? = some a) (unhooked : s.hooks = []) :
    let undisturbed : Controller := { s with crashes := [] }
    (∀ k ≤ a.queue.length,
      (s.run (turns h k)).handlers[h]? = some { a with queue := a.queue.drop k } ∧
      (undisturbed.run (turns h k)).handlers[h]? = some { a with queue := a.queue.drop k }) ∧
    ∀ k t, a.queue[k]? = some t → ∃ entries smooth,
      (s.run (turns h (k + 1))).journal = (s.run (turns h k)).journal ++ entries ∧
      (undisturbed.run (turns h (k + 1))).journal =
        (undisturbed.run (turns h k)).journal ++ smooth ∧
      taken h entries = [t] ∧ taken h smooth = [t] ∧
      (accepted h entries).Sublist (accepted h smooth) ∧
      ((s.run (turns h (k + 1))).crashes.length = (s.run (turns h k)).crashes.length →
        entries = smooth) := by
  intro undisturbed
  have state (k : Nat) (within : k ≤ a.queue.length) :=
    run_turns s.journal unhooked present k within
  refine ⟨fun k within => ?_, fun k t at_ => ?_⟩
  · obtain ⟨handler, -, i, calm⟩ := state k within
    exact ⟨handler, (congrArg (fun s : Controller => s.handlers[h]?) calm).trans handler⟩
  · obtain ⟨within, rfl⟩ := List.getElem?_eq_some_iff.1 at_
    obtain ⟨handler, hooks, i, calm⟩ := state k within.le
    have queue : a.queue.drop k = a.queue[k] :: a.queue.drop (k + 1) :=
      List.drop_eq_getElem_cons within
    have written := entries_of_beside_work i hooks handler queue
    have calm' : undisturbed.run (turns h k) = (s.run (turns h k)).calm i := calm
    rw [run_turns_succ, run_turns_succ, calm']
    exact written

/-- The first request breaks off, and so does the whole second task. The third one is not touched. -/
theorem crashes_stay_in_their_task_third :
    let n : Network := ⟨"host", "blue", .vxlan, default, none⟩
    let m : Network := ⟨"host", "green", .vxlan, ⟨10, 0, 2, 1⟩, none⟩
    let x : Node := ⟨"host", ⟨"br1"⟩, default, default, .complete, .none⟩
    let y : Node := ⟨"other", ⟨"br2"⟩, default, default, .complete, ⟨some ⟨1⟩, none, none⟩⟩
    let steps : List Step := [.disturb (.update (.upsertNode x)),
      .disturb (.update (.upsertNode y)), .activate "one" ⟨"a"⟩ .default,
      .disturb (.update (.upsertNetwork n)), .disturb (.update (.removeNetwork "blue")),
      .disturb (.update (.upsertNetwork m)), .armCrash ⟨.installer, 0, .wordless⟩,
      .armCrash ⟨.completeNodes, 1, .wordless⟩]
    let s := (start (.solitary (.ofMember ⟨"a"⟩)) none false false).run steps
    let a : Handler := ⟨"one", ⟨⟨"a"⟩, Placement.default.app⟩, .default, 0, 1, true, .running,
      [.install n, .uninstall n, .install m]⟩
    s.handlers[0]? = some a ∧ s.hooks = [] ∧
      (s.run (turns 0 3)).handlers[0]? = some { a with queue := [] } ∧
      (accepted 0 (s.run (turns 0 2)).journal).length = 1 ∧
      ∃ entries, (s.run (turns 0 3)).journal = (s.run (turns 0 2)).journal ++ entries ∧
        ({ s with crashes := [] }.run (turns 0 3)).journal =
          ({ s with crashes := [] }.run (turns 0 2)).journal ++ entries ∧
        taken 0 entries = [.install m] := by
  intro n m x y steps s a
  have present : s.handlers[0]? = some a := by decide
  have unhooked : s.hooks = [] := by decide
  have both : (accepted 0 (s.run (turns 0 2)).journal).length = 1 := by decide
  have spent : (s.run (turns 0 3)).crashes.length = (s.run (turns 0 2)).crashes.length := by decide
  clear_value s
  obtain ⟨worked, written⟩ := crashes_stay_in_their_task s 0 a present unhooked
  obtain ⟨entries, smooth, journal, journal', taken, -, -, same⟩ := written 2 (.install m) rfl
  obtain rfl := same spent
  exact ⟨present, unhooked, (worked 3 le_rfl).1, both, entries, journal, journal', taken⟩

end Controller
end GatewayRules
