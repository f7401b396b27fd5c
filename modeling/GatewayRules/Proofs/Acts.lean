import GatewayRules.Controller.Step

/-!
The acts that the steps of a run are made of. A property that every act keeps holds throughout a
run; a worker's turn is one act, and what goes on inside it is the matter of `Proofs.Task`.
-/
namespace GatewayRules

/-- A part of a step. -/
inductive Act where
  | log (notice : Notice)
  | disturb (disturbance : Disturbance)
  | arrange (schedule : Schedule)
  | armCrash (crash : ArmedCrash)
  | armHook (hook : Hook)
  | listen (kind : ListenerKind) (label : String)
  | unlisten (kind : ListenerKind) (id : Nat)
  | enroll (label : String) (self : Member) (placement : Placement)
  | stand (handler : Nat) (gate : Gate)
  | close (handler : Nat)
  | work (handler : Nat)
  | withdraw (handler : Nat) (gate : Gate)
  | loseWorkers
  | reconcile (handler : Nat) (network : Network) (action : Action)

/-- A worker has its turn, or the turns are ordered anew. -/
def Act.IsTurn (act : Act) : Prop := (∃ h, act = .work h) ∨ ∃ schedule, act = .arrange schedule

def Notice.IsFeed : Notice → Prop
  | applying _ | unknownNetwork _ | unknownNode _ | malformedUpdate | feedClosed _ => True
  | _ => False

def Step.Allows : Step → Act → Prop
  | .disturb d, act => act = .disturb d
  | .activate label self p, act =>
    act = .enroll label self p ∨ (∃ h, act = .stand h ⟨self, p.app⟩) ∨ act = .log .started
  | .deactivate h, act =>
    act = .close h ∨ act.IsTurn ∨ (∃ g, act = .withdraw h g) ∨ act = .log .stopped ∨
      act = .log .workerLost
  | .work h, act => act = .work h
  | .drain, act => act.IsTurn
  | .loseWorkers, act => act = .loseWorkers
  | .reconcile h n action, act =>
    act = .reconcile h n action ∨ ∃ schedule, act = .arrange schedule
  | .armCrash crash, act => act = .armCrash crash
  | .armHook hook, act => act = .armHook hook
  | .listen kind label, act => act = .listen kind label
  | .unlisten kind id, act => act = .unlisten kind id
  | .feed _, act =>
    (∃ n : Notice, n.IsFeed ∧ act = .log n) ∨ (∃ u, act = .disturb (.update u)) ∨
      ∃ schedule, act = .arrange schedule
  | .seed _, act => ∃ u, act = .disturb (.update u)

namespace Step

variable {step : Step} {h : Nat} {g : Gate}

theorem of_allows_enroll {label : String} {self : Member} {p : Placement}
    (ok : step.Allows (.enroll label self p)) : step = .activate label self p := by
  cases step <;> simp [Allows, Act.IsTurn] at ok
  rw [ok.1, ok.2.1, ok.2.2]

theorem of_allows_stand (ok : step.Allows (.stand h g)) :
    ∃ label self p, step = .activate label self p := by
  cases step <;> simp [Allows, Act.IsTurn] at ok
  exact ⟨_, _, _, rfl⟩

theorem of_allows_withdraw (ok : step.Allows (.withdraw h g)) : step = .deactivate h := by
  cases step <;> simp [Allows, Act.IsTurn] at ok
  rw [ok]

theorem of_allows_reconcile {n : Network} {action : Action}
    (ok : step.Allows (.reconcile h n action)) : step = .reconcile h n action := by
  cases step <;> simp [Allows, Act.IsTurn] at ok
  rw [ok.1, ok.2.1, ok.2.2]

theorem of_allows_loseWorkers (ok : step.Allows .loseWorkers) : step = .loseWorkers := by
  cases step <;> simp [Allows, Act.IsTurn] at ok
  rfl

theorem of_allows_workerLost (ok : step.Allows (.log .workerLost)) : ∃ h, step = .deactivate h := by
  cases step <;> simp [Allows, Act.IsTurn, Notice.IsFeed] at ok
  exact ⟨_, rfl⟩

end Step

namespace Controller

def act (s : Controller) : Act → Controller
  | .log n => s.log n
  | .disturb d => s.disturb d
  | .arrange schedule => { s with schedule }
  | .armCrash crash => { s with crashes := s.crashes ++ [crash] }
  | .armHook hook => { s with hooks := s.hooks ++ [hook] }
  | .listen kind label => { s with registry := (s.registry.add (.observer label) kind).1 }
  | .unlisten kind id => { s with registry := s.registry.remove id kind }
  | .enroll label self p => s.enroll label self p
  | .stand h g => s.stand h g
  | .close h =>
    match s.handlers[h]? with
    | none => s
    | some a => s.closeIntake h a
  | .work h => s.work h
  | .withdraw h g => s.withdraw h g
  | .loseWorkers => s.loseWorkers
  | .reconcile h n action => (s.reconcile h n action).1

end Controller

/-- The states that allowed acts lead to. -/
inductive Acts (allowed : Act → Prop) (s : Controller) : Controller → Prop where
  | refl : Acts allowed s s
  | tail {t : Controller} (act : Act) :
    Acts allowed s t → allowed act → Acts allowed s (t.act act)

namespace Acts

variable {allowed wider : Act → Prop} {s t u : Controller}

theorem single (act : Act) (ok : allowed act) : Acts allowed s (s.act act) := .tail act .refl ok

theorem trans (first : Acts allowed s t) (second : Acts allowed t u) : Acts allowed s u := by
  induction second with
  | refl => exact first
  | tail act _ ok ih => exact .tail act ih ok

theorem mono (h : ∀ act, allowed act → wider act) (acts : Acts allowed s t) : Acts wider s t := by
  induction acts with
  | refl => exact .refl
  | tail act _ ok ih => exact .tail act ih (h act ok)

/-- A property that each act keeps holds after all of them. -/
theorem keeps {P : Controller → Prop} (acts : Acts allowed s t)
    (kept : ∀ v act, allowed act → P v → P (v.act act)) (holds : P s) : P t := by
  induction acts with
  | refl => exact holds
  | tail act _ ok ih => exact kept _ act ok ih

end Acts

namespace Controller

theorem workNext_acts (s : Controller) : Acts Act.IsTurn s s.workNext := by
  unfold workNext
  split
  · exact .refl
  · next h schedule _ =>
    have arranged : Acts Act.IsTurn s (s.act (.arrange schedule)) :=
      .single _ (.inr ⟨schedule, rfl⟩)
    exact .tail (.work h) arranged (.inl ⟨h, rfl⟩)

theorem drain_acts (s : Controller) : Acts Act.IsTurn s s.drain := by
  have turns (n : Nat) : Acts Act.IsTurn s (Nat.repeat workNext n s) := by
    induction n with
    | zero => exact .refl
    | succ n ih => exact ih.trans (workNext_acts _)
  exact .tail (.arrange .empty) (turns s.owed) (.inr ⟨_, rfl⟩)

theorem activate_acts (s : Controller) (label : String) (self : Member) (p : Placement) :
    Acts (Step.activate label self p).Allows s (s.activate label self p) := by
  have enrolled : Acts (Step.activate label self p).Allows s (s.act (.enroll label self p)) :=
    .single _ (.inl rfl)
  have stood := enrolled.tail (.stand s.handlers.length ⟨self, p.app⟩) (.inr (.inl ⟨_, rfl⟩))
  exact stood.tail (.log .started) (.inr (.inr rfl))

theorem awaitEnd_acts (s : Controller) (h : Nat) (a : Handler) :
    Acts (fun act => act.IsTurn ∨ act = .log .workerLost ∧ a.worker = .lost) s
      (s.awaitEnd h a) := by
  unfold awaitEnd
  split
  · have roused : Acts Act.IsTurn s (s.act (.arrange (s.schedule.rouse h))) :=
      .single _ (.inr ⟨_, rfl⟩)
    exact (roused.trans (drain_acts _)).mono fun _ turn => .inl turn
  · next lost => exact .single (.log .workerLost) (.inr ⟨rfl, lost⟩)
  · exact .refl

theorem deactivate_acts (s : Controller) (h : Nat) :
    Acts (fun act => (Step.deactivate h).Allows act ∧
      (act = .log .workerLost → ∃ a, s.handlers[h]? = some a ∧ a.worker = .lost)) s
      (s.deactivate h) := by
  unfold deactivate
  split
  · exact .refl
  · next a present =>
    split
    · exact .refl
    · let allowed (act : Act) : Prop := (Step.deactivate h).Allows act ∧
        (act = .log .workerLost → ∃ a, s.handlers[h]? = some a ∧ a.worker = .lost)
      have same : s.act (.close h) = s.closeIntake h a := by simp only [act, present]
      have closed : Acts allowed s (s.closeIntake h a) :=
        same ▸ .single (.close h) ⟨.inl rfl, nofun⟩
      have waited : Acts allowed (s.closeIntake h a) ((s.closeIntake h a).awaitEnd h a) := by
        refine (awaitEnd_acts _ h a).mono fun act => ?_
        rintro (turn | ⟨rfl, lost⟩)
        · refine ⟨.inr (.inl turn), ?_⟩
          rintro rfl
          rcases turn with ⟨k, other⟩ | ⟨schedule, other⟩ <;> cases other
        · exact ⟨.inr (.inr (.inr (.inr rfl))), fun _ => ⟨a, present, lost⟩⟩
      have withdrawn := (closed.trans waited).tail (.withdraw h a.gate)
        ⟨.inr (.inr (.inl ⟨_, rfl⟩)), nofun⟩
      exact withdrawn.tail (.log .stopped) ⟨.inr (.inr (.inr (.inl rfl))), nofun⟩

theorem apply_acts (s : Controller) (u : Update) (bytes : List UInt8) :
    Acts (Step.feed bytes).Allows s (s.apply u) := by
  have changed : Acts (Step.feed bytes).Allows s (s.update u) :=
    .single (.disturb (.update u)) (.inr (.inl ⟨u, rfl⟩))
  have logged (n : Notice) (feed : n.IsFeed) :
      Acts (Step.feed bytes).Allows s ((s.update u).log n) :=
    changed.tail (.log n) (.inl ⟨n, feed, rfl⟩)
  cases u with
  | removeNetwork id =>
    unfold apply; dsimp only; split <;> first | exact logged _ trivial | exact changed
  | removeNode hostname =>
    unfold apply; dsimp only; split <;> first | exact logged _ trivial | exact changed
  | upsertNetwork n => exact changed
  | upsertNode x => exact changed

theorem feedLine_acts {s t : Controller} {applied n : Nat} {line : List UInt8}
    (taken : s.feedLine applied line = .ok (t, n)) (bytes : List UInt8) :
    Acts (Step.feed bytes).Allows s t := by
  unfold feedLine at taken
  cases decoded : Text.ofUtf8 (Feed.content line) with
  | error fault => simp [decoded, bind, Except.bind] at taken
  | ok chars =>
    simp only [decoded, bind, Except.bind] at taken
    split at taken
    · obtain ⟨rfl, -⟩ := Prod.mk.inj (Except.ok.inj taken)
      exact .refl
    · next u _ =>
      obtain ⟨rfl, -⟩ := Prod.mk.inj (Except.ok.inj taken)
      have logged : Acts (Step.feed bytes).Allows s (s.act (.log (.applying u))) :=
        .single _ (.inl ⟨.applying u, trivial, rfl⟩)
      exact logged.trans (apply_acts _ u bytes)
    · obtain ⟨rfl, -⟩ := Prod.mk.inj (Except.ok.inj taken)
      exact .single (.log .malformedUpdate) (.inl ⟨.malformedUpdate, trivial, rfl⟩)

theorem feedLines_acts (s : Controller) (applied : Nat) (lines : List (List UInt8))
    (bytes : List UInt8) : Acts (Step.feed bytes).Allows s (s.feedLines applied lines).1 := by
  induction lines generalizing s applied with
  | nil => exact .single (.log (.feedClosed applied)) (.inl ⟨.feedClosed applied, trivial, rfl⟩)
  | cons line rest ih =>
    unfold feedLines
    split
    · exact .refl
    · next taken => exact (feedLine_acts taken bytes).trans (ih _ _)

theorem updates_acts (s : Controller) (us : List Update) (file : Option (List UInt8)) :
    Acts (Step.seed file).Allows s (us.foldl update s) := by
  induction us generalizing s with
  | nil => exact .refl
  | cons u rest ih =>
    have changed : Acts (Step.seed file).Allows s (s.act (.disturb (.update u))) :=
      .single _ ⟨u, rfl⟩
    exact changed.trans (ih _)

/-- A step is made of acts that it allows. -/
theorem step_acts (s : Controller) (step : Step) : Acts step.Allows s (s.step step).1 := by
  cases step with
  | disturb d => exact .single (.disturb d) rfl
  | activate label self p => exact activate_acts s label self p
  | deactivate h => exact (deactivate_acts s h).mono fun _ => And.left
  | work h => exact .single (.work h) rfl
  | drain => exact drain_acts s
  | loseWorkers => exact .single (.loseWorkers) rfl
  | reconcile h n action =>
    have passed : Acts (Step.reconcile h n action).Allows s (s.act (.reconcile h n action)) :=
      .single _ (.inl rfl)
    exact passed.tail (.arrange _) (.inr ⟨_, rfl⟩)
  | armCrash crash => exact .single (.armCrash crash) rfl
  | armHook hook => exact .single (.armHook hook) rfl
  | listen kind label => exact .single (.listen kind label) rfl
  | unlisten kind id => exact .single (.unlisten kind id) rfl
  | feed bytes =>
    exact (feedLines_acts s 0 (Feed.lines bytes) bytes).tail (.arrange _)
      (.inr (.inr ⟨_, rfl⟩))
  | seed file =>
    unfold step
    dsimp only
    split
    · exact updates_acts s _ file
    · exact .refl

theorem run_acts {allowed : Act → Prop} (s : Controller) (steps : List Step)
    (allows : ∀ step ∈ steps, ∀ act, step.Allows act → allowed act) :
    Acts allowed s (s.run steps) := by
  induction steps generalizing s with
  | nil => exact .refl
  | cons step rest ih =>
    have first : Acts allowed s (s.step step).1 :=
      (step_acts s step).mono (allows step List.mem_cons_self)
    exact first.trans (ih _ fun later member => allows later (List.mem_cons_of_mem _ member))

end Controller
end GatewayRules
