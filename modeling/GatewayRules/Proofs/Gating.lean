import GatewayRules.Proofs.Acts
import GatewayRules.Proofs.Indifference

/-!
Leadership is decided once for every task, when it is taken up: what a handler does falls into
segments, and each segment of a task opens with the one question that decides about it.
-/
namespace GatewayRules
open Journal

/-- What a handler goes by: its gate, and whose rules it programs. -/
def Handler.post (a : Handler) : Gate × Placement := (a.gate, a.placement)

theorem Handler.receive_post (t : Task) (a : Handler) : (receive t a).post = a.post := by
  unfold receive
  split <;> rfl

theorem Entry.IsNews.doingOf? {e : Entry} (news : e.IsNews) (k : Nat) : e.doingOf? k = none := by
  cases e <;> first | rfl | exact news.elim

def Act.actor? : Act → Option Nat
  | .stand h _ | .withdraw h _ | .work h | .reconcile h .. => some h
  | _ => none

def Act.post? : Act → Option (Gate × Placement)
  | .enroll _ self p => some (⟨self, p.app⟩, p)
  | _ => none

namespace Controller

def posts (s : Controller) : List (Gate × Placement) := s.handlers.map Handler.post

/-- A change to the inventory is no doing of a handler, and leaves every handler at its post. -/
theorem update_doings (s : Controller) (u : Update) : ∃ entries,
    (s.update u).journal = s.journal ++ entries ∧ (∀ k, doings k entries = []) ∧
    (s.update u).posts = s.posts := by
  obtain ⟨schedule, entries, same, news, -⟩ := update_spec s u
  refine ⟨_ :: entries, by rw [same], fun k => ?_, ?_⟩
  · exact List.filterMap_eq_nil_iff.2 <| List.forall_mem_cons.2
      ⟨rfl, fun e member => (news e member).doingOf? k⟩
  · rw [same]
    exact map_afterUpdate Handler.receive_post s u

theorem disturb_doings (s : Controller) (d : Disturbance) : ∃ entries,
    (s.disturb d).journal = s.journal ++ entries ∧ (∀ k, doings k entries = []) ∧
    (s.disturb d).posts = s.posts := by
  cases d with
  | update u => exact update_doings s u
  | appoint leader | refuse device reason | accept device =>
    exact ⟨[], (List.append_nil _).symm, fun _ => rfl, rfl⟩

theorem calls_disturb (s : Controller) (k : Nat) (d : Disturbance) :
    calls k (s.disturb d).journal = calls k s.journal := by
  obtain ⟨entries, journal, silent, -⟩ := disturb_doings s d
  rw [journal, calls_append, calls_eq_doings k entries, silent k]
  exact List.append_nil _

end Controller

open Controller

theorem Working.doings {h : Nat} {allowed : Call → Prop} {s t : Controller}
    (w : Working h allowed s t) : ∃ entries, ∃ body : List Call,
      t.journal = s.journal ++ entries ∧
      Journal.doings h entries = body.map .inr ∧ (∀ c ∈ body, allowed c) ∧
      (∀ k, k ≠ h → Journal.doings k entries = []) ∧ t.posts = s.posts := by
  refine w.keeps ?log ?call ?hooks ?disturb ?refl
  case hooks => exact fun _ _ ih => ih
  case refl =>
    exact ⟨[], [], (List.append_nil _).symm, rfl, List.forall_mem_nil _, fun _ _ => rfl, rfl⟩
  case log =>
    rintro t n - ⟨entries, body, same, mine, ok, others, posts⟩
    refine ⟨entries ++ [.log n], body, ?_, ?_, ok, fun k other => ?_, posts⟩
    · rw [← List.append_assoc, ← same]
      rfl
    · rw [doings_append, mine]
      exact List.append_nil _
    · rw [doings_append, others k other]
      rfl
  case call =>
    rintro t c crashes allows ⟨entries, body, same, mine, ok, others, posts⟩
    refine ⟨entries ++ [.call h c], body ++ [c], ?_, ?_, ?_, fun k other => ?_, posts⟩
    · rw [← List.append_assoc, ← same]
      rfl
    · rw [doings_append, mine]
      simp [Journal.doings, Entry.doingOf?]
    · exact List.forall_mem_append.2 ⟨ok, by simpa using allows⟩
    · rw [doings_append, others k other]
      simp [Journal.doings, Entry.doingOf?, other.symm]
  case disturb =>
    rintro t d ⟨entries, body, same, mine, ok, others, posts⟩
    obtain ⟨more, same', silent, posts'⟩ := disturb_doings t d
    refine ⟨entries ++ more, body, ?_, ?_, ok, fun k other => ?_, posts'.trans posts⟩
    · rw [same', same, List.append_assoc]
    · rw [doings_append, mine, silent, List.append_nil]
    · rw [doings_append, others k other, silent, List.append_nil]

namespace Controller

/-- A task opens with the question who leads. -/
theorem asked_doings (s : Controller) (h : Nat) (g : Gate) (t : Task) : ∃ entries,
    (s.asked h g t).1.journal = s.journal ++ entries ∧
    doings h entries = [.inr (.leader g.topic (s.leadership.leader g.topic))] ∧
    (∀ k, k ≠ h → doings k entries = []) ∧ (s.asked h g t).1.posts = s.posts ∧
    (s.asked h g t).2 = (ArmedCrash.countDown .leader s.crashes).2 := by
  let question : Entry := .call h (.leader g.topic (s.leadership.leader g.topic))
  have mine : doings h [question] = [.inr (.leader g.topic (s.leadership.leader g.topic))] := by
    simp [doings, Entry.doingOf?, question]
  have others (k : Nat) (other : k ≠ h) : doings k [question] = [] := by
    simp [doings, Entry.doingOf?, question, other.symm]
  cases t with
  | install n | uninstall n => exact ⟨[question], rfl, mine, others, rfl, rfl⟩
  | backfill x =>
    refine ⟨[.log (.nodeDetected x.hostname), question], ?_, mine, others, rfl, rfl⟩
    exact List.append_assoc ..

/-- What a worker does with one task. It asks who leads its topic before it does anything else, and
does nothing else if that is another member or the question breaks off. -/
theorem work_doings {s : Controller} {h : Nat} {a : Handler} {t : Task} {rest : List Task}
    (present : s.handlers[h]? = some a) (queue : a.queue = t :: rest) :
    ∃ entries, ∃ body : List Call,
    (s.work h).journal = s.journal ++ entries ∧
    doings h entries = .inl t ::
      .inr (.leader a.gate.topic (s.leadership.leader a.gate.topic)) :: body.map .inr ∧
    (∀ c ∈ body, c.IsWork) ∧
    (s.leadership.leader a.gate.topic ≠ some a.gate.self ∨
      (ArmedCrash.countDown .leader s.crashes).2 ≠ none → body = []) ∧
    (∀ k, k ≠ h → doings k entries = []) ∧ (s.work h).posts = s.posts := by
  obtain ⟨opening, asked, question, silent, posts, answer⟩ :=
    asked_doings (s.take h t rest) h a.gate t
  let leads := s.leadership.leader a.gate.topic = some a.gate.self ∧
    (ArmedCrash.countDown .leader s.crashes).2 = none
  have isLeader : a.gate.isLeader (s.take h t rest).leadership ↔
      s.leadership.leader a.gate.topic = some a.gate.self := beq_iff_eq
  -- after the question there is work only for a leader
  have later : Working h (fun c => c.IsWork ∧ leads) ((s.take h t rest).asked h a.gate t).1
      (s.work h) := by
    rw [work_of_task present queue]
    refine Working.logCrash ?_ _
    by_cases led : leads
    · rw [process_of_leader a.placement (answer.trans led.2) (isLeader.2 led.1)]
      exact (perform_working _ h a.placement t).mono fun _ work => ⟨work, led⟩
    · rw [process_of_not_leader a.placement]
      · exact .refl
      · rw [answer]
        rcases not_and_or.1 led with other | broken
        · exact .inr (isLeader.not.2 other)
        · exact .inl broken
  obtain ⟨entries, body, journal, mine, works, others, posts'⟩ := later.doings
  have taken : (s.take h t rest).posts = s.posts :=
    Handler.map_modify s.handlers h fun _ => rfl
  refine ⟨.taken h t :: (opening ++ entries), body, ?_, ?_, fun c member => (works c member).1,
    fun dropped => ?_, fun k other => ?_, posts'.trans (posts.trans taken)⟩
  · rw [journal, asked]
    simp [take, note, modifyHandler]
  · have first : doings h (.taken h t :: (opening ++ entries)) =
        .inl t :: doings h (opening ++ entries) := by
      simp [doings, Entry.doingOf?]
    rw [first, doings_append, question, mine]
    rfl
  · refine List.eq_nil_iff_forall_not_mem.2 fun c member => ?_
    obtain ⟨leader, answered⟩ := (works c member).2
    exact dropped.elim (· leader) (· answered)
  · have first : doings k (.taken h t :: (opening ++ entries)) = doings k (opening ++ entries) := by
      simp [doings, Entry.doingOf?, other.symm]
    rw [first, doings_append, silent k other, others k other]
    rfl

end Controller

def Call.isQuestion : Call → Bool
  | leader .. => true
  | _ => false

/-- A segment of what a handler does: a change of its candidacy, a task, or, if there is any, a pass
outside its queue. A task has the question who leads before everything else and no second one, and
no work but for the answer that the handler itself leads. -/
inductive Segment (g : Gate) (direct : Prop) : List (Task ⊕ Call) → Prop where
  | run (topic : String) : Segment g direct [.inr (.run topic)]
  | withdraw (topic : String) : Segment g direct [.inr (.withdraw topic)]
  | task (t : Task) (current : Option Member) (body : List Call) :
    (∀ c ∈ body, c.IsWork) → (current ≠ some g.self → body = []) →
      Segment g direct (.inl t :: .inr (.leader g.topic current) :: body.map .inr)
  | pass (body : List Call) :
    direct → (∀ c ∈ body, c.IsWork) → Segment g direct (body.map .inr)

/-- A record made of such segments, one after the other. -/
def Segmented (g : Gate) (direct : Prop) (record : List (Task ⊕ Call)) : Prop :=
  ∃ segments : List (List (Task ⊕ Call)),
    record = segments.flatten ∧ ∀ segment ∈ segments, Segment g direct segment

theorem Segment.questions {g : Gate} {direct : Prop} {segment : List (Task ⊕ Call)}
    (seg : Segment g direct segment) :
    (segment.filterMap Sum.getRight?).countP Call.isQuestion =
      (segment.filterMap Sum.getLeft?).length := by
  have work (body : List Call) (works : ∀ c ∈ body, c.IsWork) :
      ((body.map .inr).filterMap (Sum.getRight? (α := Task))).countP Call.isQuestion = 0 ∧
      ((body.map .inr).filterMap (Sum.getLeft? (α := Task))) = [] := by
    refine ⟨List.countP_eq_zero.2 fun c member => ?_, ?_⟩
    · have listed : c ∈ body := by simpa using member
      cases c <;> first | exact (works _ listed).elim | simp [Call.isQuestion]
    · simp
  cases seg with
  | run topic | withdraw topic => rfl
  | task t current body works led =>
    obtain ⟨unasked, untaken⟩ := work body works
    change (Call.leader g.topic current :: (body.map .inr).filterMap Sum.getRight?).countP _ =
      (t :: (body.map .inr).filterMap Sum.getLeft?).length
    rw [List.countP_cons_of_pos rfl, unasked, untaken]
    rfl
  | pass body _ works =>
    obtain ⟨unasked, untaken⟩ := work body works
    rw [unasked, untaken]
    rfl

namespace Segmented

variable {g : Gate} {direct : Prop} {first second : List (Task ⊕ Call)}

theorem nil : Segmented g direct [] := ⟨[], rfl, List.forall_mem_nil _⟩

theorem single (seg : Segment g direct first) : Segmented g direct first :=
  ⟨[first], (List.flatten_singleton).symm, by simpa using seg⟩

theorem append : Segmented g direct first → Segmented g direct second →
    Segmented g direct (first ++ second)
  | ⟨segments, same, segs⟩, ⟨segments', same', segs'⟩ =>
    ⟨segments ++ segments', by rw [same, same', List.flatten_append],
      List.forall_mem_append.2 ⟨segs, segs'⟩⟩

theorem mono {wider : Prop} (wide : direct → wider) :
    Segmented g direct first → Segmented g wider first := by
  rintro ⟨segments, same, segs⟩
  refine ⟨segments, same, fun segment member => ?_⟩
  cases segs segment member with
  | run topic => exact .run topic
  | withdraw topic => exact .withdraw topic
  | task t current body works led => exact .task t current body works led
  | pass body passed works => exact .pass body (wide passed) works

/-- There are as many questions who leads as tasks. -/
theorem questions : Segmented g direct first →
    (first.filterMap Sum.getRight?).countP Call.isQuestion =
      (first.filterMap Sum.getLeft?).length := by
  rintro ⟨segments, rfl, segs⟩
  induction segments with
  | nil => rfl
  | cons segment rest ih =>
    obtain ⟨seg, segs⟩ := List.forall_mem_cons.1 segs
    rw [List.flatten_cons, List.filterMap_append, List.filterMap_append, List.countP_append,
      List.length_append, seg.questions, ih segs]

end Segmented

namespace Controller

theorem journal_logSome (s : Controller) (n : Option Notice) :
    (s.logSome n).journal = s.journal ++ n.toList.map .log := by
  cases n with
  | none => exact (List.append_nil _).symm
  | some n => rfl

theorem journal_stand (s : Controller) (h : Nat) (g : Gate) : (s.stand h g).journal =
    s.journal ++ .call h (.run g.topic) ::
      ((g.activate s.leadership).2.map Notice.candidacy).toList.map .log :=
  (journal_logSome _ _).trans (List.append_assoc ..)

theorem journal_withdraw (s : Controller) (h : Nat) (g : Gate) : (s.withdraw h g).journal =
    s.journal ++ .call h (.withdraw g.topic) ::
      ((g.deactivate s.leadership).2.map Notice.candidacy).toList.map .log :=
  (journal_logSome _ _).trans (List.append_assoc ..)

theorem doings_candidacy (h k : Nat) (c : Call) (notice : Option Notice) :
    doings k (.call h c :: notice.toList.map .log) = if h = k then [.inr c] else [] := by
  have told : doings k (notice.toList.map .log) = [] := by cases notice <;> rfl
  rw [← List.singleton_append, doings_append, told, List.append_nil]
  by_cases mine : h = k <;> simp [doings, Entry.doingOf?, mine]

/-- What an act adds to the journal, as far as one handler and the posts of all are concerned: a
handler's record gains segments of its own doing, and a withdrawal only if that is the act. -/
structure Records (act : Act) (k : Nat) (s : Controller) (entries : List Entry) : Prop where
  journal : (s.act act).journal = s.journal ++ entries
  posts : (s.act act).posts = s.posts ++ act.post?.toList
  own : act.actor? ≠ some k → doings k entries = []
  withdrawn : ∀ topic, .inr (.withdraw topic) ∈ doings k entries → ∃ g, act = .withdraw k g
  segmented : ∀ g, (∀ post, s.posts[k]? = some post → post.1 = g) →
    Segmented g (∃ n action, act = .reconcile k n action) (doings k entries)

namespace Records

variable {act : Act} {k : Nat} {s : Controller} {entries : List Entry}

theorem quiet (journal : (s.act act).journal = s.journal ++ entries)
    (posts : (s.act act).posts = s.posts ++ act.post?.toList) (silent : doings k entries = []) :
    Records act k s entries where
  journal := journal
  posts := posts
  own _ := silent
  withdrawn := by
    rw [silent]
    exact fun _ => nofun
  segmented := by
    rw [silent]
    exact fun _ _ => .nil

/-- A change of candidacy is told to the log after it. -/
theorem candidacy {h : Nat} {c : Call} (notice : Option Notice)
    (journal : (s.act act).journal =
      s.journal ++ .call h c :: notice.toList.map .log)
    (posts : (s.act act).posts = s.posts ++ act.post?.toList) (actor : act.actor? = some h)
    (withdrawn : ∀ topic, c = .withdraw topic → ∃ g, act = .withdraw h g)
    (seg : ∀ g direct, Segment g direct [.inr c]) :
    Records act k s (.call h c :: notice.toList.map .log) := by
  have one := doings_candidacy h k c notice
  by_cases mine : h = k
  · subst h
    rw [if_pos rfl] at one
    refine ⟨journal, posts, fun other => absurd actor other, fun topic member => ?_,
      fun g _ => one ▸ .single (seg g _)⟩
    rw [one, List.mem_singleton] at member
    exact withdrawn topic (Sum.inr.inj member).symm
  · exact quiet journal posts (one.trans (if_neg mine))

end Records

theorem work_records (s : Controller) (h k : Nat) : ∃ entries, Records (.work h) k s entries := by
  rcases work_cases s h with same | ended | ⟨a, t, rest, present, queue, -⟩
  · exact ⟨[], .quiet (by simp [Controller.act, same]) (by simp [Controller.act, same, Act.post?])
      rfl⟩
  · refine ⟨[.log .queueDrained], .quiet (congrArg journal ended) ?_ rfl⟩
    have kept : ((s.log .queueDrained).modifyHandler h
        fun a => { a with worker := .ended }).posts = s.posts :=
      Handler.map_modify s.handlers h fun _ => rfl
    rw [Controller.act, ended, kept]
    exact (List.append_nil _).symm
  · obtain ⟨entries, body, journal, mine, works, dropped, others, posts⟩ :=
      work_doings present queue
    have kept : (s.work h).posts = s.posts ++ (Act.work h).post?.toList :=
      posts.trans (List.append_nil _).symm
    by_cases same : k = h
    · subst k
      refine ⟨entries, journal, kept, fun other => absurd rfl other, fun topic member => ?_,
        fun g gate => ?_⟩
      · have withdrawn : Call.withdraw topic ∈ body := by simpa [mine] using member
        exact (works _ withdrawn).elim
      · obtain rfl : a.gate = g := gate a.post (by simp [Controller.posts, present])
        rw [mine]
        exact .single (.task t _ body works fun other => dropped (.inl other))
    · exact ⟨entries, .quiet journal kept (others k same)⟩

theorem act_records (s : Controller) (act : Act) (k : Nat) : ∃ entries,
    Records act k s entries := by
  cases act with
  | log n => exact ⟨[.log n], .quiet rfl (List.append_nil _).symm rfl⟩
  | disturb d =>
    obtain ⟨entries, journal, silent, posts⟩ := disturb_doings s d
    exact ⟨entries, .quiet journal (posts.trans (List.append_nil _).symm) (silent k)⟩
  | arrange schedule | armCrash crash | armHook hook | listen kind label | unlisten kind id =>
    exact ⟨[], .quiet (List.append_nil _).symm (List.append_nil _).symm rfl⟩
  | enroll label self p => exact ⟨[], .quiet (List.append_nil _).symm List.map_append rfl⟩
  | stand h g =>
    refine ⟨_, .candidacy _ (journal_stand s h g) ?_ rfl (by simp) fun _ _ => .run g.topic⟩
    simp only [Controller.act, stand]
    cases (g.activate s.leadership).2 <;> exact (List.append_nil _).symm
  | withdraw h g =>
    refine ⟨_, .candidacy _ (journal_withdraw s h g) ?_ rfl (fun _ _ => ⟨g, rfl⟩)
      fun _ _ => .withdraw g.topic⟩
    simp only [Controller.act, withdraw]
    cases (g.deactivate s.leadership).2 <;> exact (List.append_nil _).symm
  | close h =>
    cases present : s.handlers[h]? with
    | none =>
      have same : s.act (.close h) = s := by simp only [Controller.act, present]
      exact ⟨[], .quiet (by simp [same]) (by simp [same, Act.post?]) rfl⟩
    | some a =>
      have closing : s.act (.close h) = s.closeIntake h a := by
        simp only [Controller.act, present]
      refine ⟨[.closed h], .quiet (by rw [closing]; rfl) ?_ rfl⟩
      have kept : (s.closeIntake h a).posts = s.posts :=
        Handler.map_modify s.handlers h fun _ => rfl
      rw [closing, kept]
      exact (List.append_nil _).symm
  | work h => exact work_records s h k
  | loseWorkers =>
    refine ⟨[], .quiet (List.append_nil _).symm ?_ rfl⟩
    refine Eq.trans ?_ (List.append_nil _).symm
    change (s.handlers.map _).map Handler.post = s.handlers.map Handler.post
    rw [List.map_map]
    refine List.map_congr_left fun a _ => ?_
    rw [Function.comp_apply]
    split <;> rfl
  | reconcile h n action =>
    cases present : s.handlers[h]? with
    | none =>
      have same : s.act (.reconcile h n action) = s := by
        simp only [Controller.act, Controller.reconcile, present]
      exact ⟨[], .quiet (by simp [same]) (by simp [same, Act.post?]) rfl⟩
    | some a =>
      obtain ⟨entries, body, journal, mine, works, others, posts⟩ :=
        (pass_working s h a.placement n action).doings
      have passed : s.act (.reconcile h n action) = (s.pass h a.placement n action).1 := by
        simp only [Controller.act, Controller.reconcile, present]
      rw [← passed] at journal posts
      have kept := posts.trans (List.append_nil _).symm
      by_cases same : k = h
      · subst k
        refine ⟨entries, journal, kept, fun other => absurd rfl other, fun topic member => ?_,
          fun g _ => ?_⟩
        · have withdrawn : Call.withdraw topic ∈ body := by simpa [mine] using member
          exact (works _ withdrawn).elim
        · rw [mine]
          exact .single (.pass body ⟨n, action, rfl⟩ works)
      · exact ⟨entries, .quiet journal kept (others k same)⟩

/-- The gate of a handler is for its application, and all that the handler has done goes by it. A
handler still to come has done nothing that any gate would object to. -/
structure Gated (direct : Prop) (k : Nat) (s : Controller) : Prop where
  topic : ∀ post ∈ s.posts, post.1.topic = post.2.app
  record : ∀ g, (∀ post, s.posts[k]? = some post → post.1 = g) →
    Segmented g direct (doings k s.journal)

theorem Gated.act {direct : Prop} {k : Nat} {s : Controller} (gated : Gated direct k s) {act : Act}
    (known : ∀ n action, act = .reconcile k n action → direct) : Gated direct k (s.act act) := by
  obtain ⟨entries, records⟩ := act_records s act k
  refine ⟨fun post found => ?_, fun g mine => ?_⟩
  · rw [records.posts, List.mem_append] at found
    rcases found with old | new
    · exact gated.topic post old
    · cases act <;> simp [Act.post?] at new
      rw [new]
  · have before (post : Gate × Placement) (found : s.posts[k]? = some post) : post.1 = g := by
      refine mine post ?_
      rw [records.posts, List.getElem?_append_left (List.getElem?_eq_some_iff.1 found).1]
      exact found
    rw [records.journal, doings_append]
    refine (gated.record g before).append ((records.segmented g before).mono ?_)
    rintro ⟨n, action, same⟩
    exact known n action same

variable (leadership : Leadership) (fixedPort : Option Port) (keepsListeners logsRequests : Bool)

/-- A handler's record has passes outside its queue only if the run has them. -/
theorem run_gated (steps : List Step) (k : Nat) :
    Gated (∃ n action, .reconcile k n action ∈ steps) k
      ((start leadership fixedPort keepsListeners logsRequests).run steps) := by
  have keep (s : Controller) (act : Act)
      (known : ∀ n action, act = .reconcile k n action → ∃ n action, .reconcile k n action ∈ steps)
      (gated : Gated (∃ n action, .reconcile k n action ∈ steps) k s) :
      Gated (∃ n action, .reconcile k n action ∈ steps) k (s.act act) := gated.act known
  refine (run_acts _ steps fun step member act ok n action same => ?_).keeps keep
    ⟨List.forall_mem_nil _, fun _ _ => .nil⟩
  subst act
  exact ⟨n, action, Step.of_allows_reconcile ok ▸ member⟩

/-- Leadership is decided once for every task, when it is taken up.

In every run, what a handler does falls into segments, and every task has a segment of its own. The
first call of a task asks who leads the handler's application, no other call asks, and unless the
answer is the handler itself nothing follows. So there are as many questions as tasks, and without
passes outside the queue every request belongs to a task with that answer.

Moreover, the answer is what the leadership service says in the state in which the worker takes the
task up, a question that breaks off ends the task, and whatever else becomes of leadership inside
the task makes no difference to it. -/
theorem leadership_decided_once (steps : List Step) :
    let s := (start leadership fixedPort keepsListeners logsRequests).run steps
    (∀ k a, s.handlers[k]? = some a →
      a.gate.topic = a.placement.app ∧
      Segmented a.gate (∃ n action, .reconcile k n action ∈ steps) (doings k s.journal) ∧
      (calls k s.journal).countP Call.isQuestion = (taken k s.journal).length) ∧
    ∀ (v : Controller) k a t rest, v.handlers[k]? = some a → a.queue = t :: rest →
      (∃ entries, ∃ body : List Call,
        (v.work k).journal = v.journal ++ entries ∧
        doings k entries = .inl t ::
          .inr (.leader a.gate.topic (v.leadership.leader a.gate.topic)) :: body.map .inr ∧
        (∀ c ∈ body, c.IsWork) ∧
        (v.leadership.leader a.gate.topic ≠ some a.gate.self ∨
          (ArmedCrash.countDown .leader v.crashes).2 ≠ none → body = []) ∧
        ∀ j, j ≠ k → doings j entries = []) ∧
      ∀ leadership hooks, v.leadership.leader a.gate.topic = some a.gate.self →
        leadership.leader a.gate.topic = some a.gate.self →
        hooks.map Hook.withoutAppointments = v.hooks.map Hook.withoutAppointments →
        ({ v with leadership, hooks }.work k).journal = (v.work k).journal := by
  refine ⟨fun k a present => ?_, fun v k a t rest present queue => ⟨?_, ?_⟩⟩
  · have gated := run_gated leadership fixedPort keepsListeners logsRequests steps k
    have post : (posts ((start leadership fixedPort keepsListeners logsRequests).run steps))[k]? =
        some a.post := by
      simp [posts, present]
    have record := gated.record a.gate fun other found => by
      obtain rfl := Option.some.inj (post.symm.trans found)
      rfl
    refine ⟨gated.topic a.post (List.mem_of_getElem? post), record, ?_⟩
    rw [calls_eq_doings, taken_eq_doings]
    exact record.questions
  · obtain ⟨entries, body, journal, mine, works, dropped, others, -⟩ := work_doings present queue
    exact ⟨entries, body, journal, mine, works, dropped, others⟩
  · intro leadership hooks leads leads' same
    have erased : ({ v with leadership, hooks } : Controller).leaderless = v.leaderless :=
      congrArg (fun hooks => { v.leaderless with hooks }) same
    have worked := work_leaderless k erased present queue leads leads'
    rw [← journal_leaderless, worked, journal_leaderless]

/-- A task begun by the leader goes on when another member is appointed inside its first request,
as it would have done otherwise; the next task is dropped. -/
theorem leadership_decided_once_overtaken :
    let n : Network := ⟨"host", "blue", .vxlan, default, none⟩
    let x : Node := ⟨"host", ⟨"br"⟩, default, default, .complete, .none⟩
    let y : Node := ⟨"other", ⟨"br"⟩, default, default, .complete, ⟨some ⟨1⟩, none, none⟩⟩
    let first : List Step := [.disturb (.update (.upsertNode x)),
      .disturb (.update (.upsertNode y)), .activate "one" ⟨"a"⟩ .default, .armHook ⟨0, [.appoint (some ⟨"b"⟩)]⟩,
      .disturb (.update (.upsertNetwork n)), .disturb (.update (.removeNetwork "blue"))]
    let begun := start (.appointed (some ⟨"a"⟩)) none false false
    let v := begun.run first
    let s := begun.run (first ++ [.work 0, .work 0])
    (accepted 0 s.journal).length = 2 ∧ taken 0 s.journal = [.install n, .uninstall n] ∧
      (calls 0 s.journal).countP Call.isQuestion = 2 ∧
      ({ v with hooks := [⟨0, []⟩] }.work 0).journal = (v.work 0).journal := by
  intro n x y first begun v s
  have worked : taken 0 s.journal = [.install n, .uninstall n] := by decide
  obtain ⟨a, present⟩ : ∃ a, s.handlers[0]? = some a := Option.isSome_iff_exists.1 (by decide)
  obtain ⟨records, turns⟩ := leadership_decided_once (.appointed (some ⟨"a"⟩)) none false false
    (first ++ [.work 0, .work 0])
  have waiting : v.handlers[0]? = some ⟨"one", ⟨⟨"a"⟩, Placement.default.app⟩, .default, 0, 1, true,
      .running, [.install n, .uninstall n]⟩ := by decide
  have leads : v.leadership = .appointed (some ⟨"a"⟩) := by decide
  have armed : v.hooks = [⟨0, [.appoint (some ⟨"b"⟩)]⟩] := by decide
  refine ⟨by decide, worked, ?_, ?_⟩
  · rw [(records 0 a present).2.2, worked]
    rfl
  · clear_value v
    exact (turns v 0 _ _ _ waiting rfl).2 v.leadership [⟨0, []⟩] (by rw [leads]; rfl)
      (by rw [leads]; rfl) (by rw [armed]; rfl)

end Controller
end GatewayRules
