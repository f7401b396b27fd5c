import GatewayRules.Proofs.Task
import Mathlib

/-!
Work comes to an end. What workers still owe becomes less with every turn, since a task gives no
task by itself, and a hook that happens is gone.
-/
namespace GatewayRules

/-- What the worker of a handler owes: the tasks on its queue and its own end. -/
def Handler.load (a : Handler) : Nat :=
  a.queue.length + if a.worker = .running then 1 else 0

theorem Handler.load_receive_le (t : Task) (a : Handler) : (receive t a).load ≤ a.load + 1 := by
  unfold receive load
  split
  · simp only [List.length_append, List.length_singleton]
    omega
  · omega

def Handler.loads (handlers : List Handler) : Nat := (handlers.map Handler.load).sum

theorem Handler.loads_modify_le {f : Handler → Handler} (more : ∀ a, (f a).load ≤ a.load + 1)
    (handlers : List Handler) (h : Nat) : loads (handlers.modify h f) ≤ loads handlers + 1 := by
  induction handlers generalizing h with
  | nil => simp [loads]
  | cons a rest ih =>
    cases h with
    | zero =>
      have here := more a
      simp only [loads, List.modify_zero_cons, List.map_cons, List.sum_cons]
      omega
    | succ h =>
      have there := ih h
      simp only [loads, List.modify_succ_cons, List.map_cons, List.sum_cons] at there ⊢
      omega

theorem Handler.loads_modify_of_less {f : Handler → Handler} {handlers : List Handler} {h : Nat}
    {a : Handler} (present : handlers[h]? = some a) (less : (f a).load + 1 = a.load) :
    loads (handlers.modify h f) + 1 = loads handlers := by
  induction handlers generalizing h with
  | nil => simp at present
  | cons b rest ih =>
    cases h with
    | zero =>
      obtain rfl : b = a := by simpa using present
      simp only [loads, List.modify_zero_cons, List.map_cons, List.sum_cons]
      omega
    | succ h =>
      have there := ih (h := h) (by simpa using present)
      simp only [loads, List.modify_succ_cons, List.map_cons, List.sum_cons] at there ⊢
      omega

theorem Event.loads_hand_le (e : Event) (handlers : List Handler) (l : Listener) :
    Handler.loads (e.hand handlers l) ≤ Handler.loads handlers + 1 := by
  cases l with
  | observer label => exact Nat.le_succ _
  | handler h =>
    cases task : e.task? with
    | none =>
      rw [hand_of_none task]
      exact Nat.le_succ _
    | some t => simpa [hand, task] using Handler.loads_modify_le (Handler.load_receive_le t) _ h

theorem Event.loads_foldl_hand_le (e : Event) (listeners : List Listener)
    (handlers : List Handler) :
    Handler.loads (listeners.foldl e.hand handlers) ≤
      Handler.loads handlers + listeners.length := by
  induction listeners generalizing handlers with
  | nil => exact Nat.le_refl _
  | cons l rest ih =>
    have first := e.loads_hand_le handlers l
    have later := ih (e.hand handlers l)
    rw [List.foldl_cons, List.length_cons]
    omega

theorem Registry.length_audience_le (r : Registry) (e : Event) :
    (r.audience e).length ≤ r.size := by
  unfold audience size
  cases e <;> simp

def Hook.armed (hooks : List Hook) : Nat := (hooks.map (·.actions.length)).sum

/-- Counting down, the disturbances part into those that are due and those that wait. -/
theorem Hook.perm_countDown (hooks : List Hook) :
    ((countDown hooks).2.flatMap Hook.actions ++ (countDown hooks).1.flatMap Hook.actions).Perm
      (hooks.flatMap Hook.actions) := by
  induction hooks with
  | nil => exact .refl _
  | cons k rest ih =>
    simp only [countDown] at ih ⊢
    by_cases due : k.after = 0
    · rw [List.filter_cons_of_pos (by simpa using due), List.filterMap_cons_none (by simp [due]),
        List.flatMap_cons, List.flatMap_cons, List.append_assoc]
      exact ih.append_left _
    · rw [List.filter_cons_of_neg (by simpa using due),
        List.filterMap_cons_some (b := { k with after := k.after - 1 }) (by simp [due]),
        List.flatMap_cons, List.flatMap_cons]
      exact (List.perm_append_comm_assoc ..).trans (ih.append_left _)

theorem Hook.armed_countDown (hooks : List Hook) :
    armed (countDown hooks).1 + ((countDown hooks).2.flatMap Hook.actions).length =
      armed hooks := by
  have length (hooks : List Hook) : armed hooks = (hooks.flatMap Hook.actions).length :=
    List.length_flatMap.symm
  rw [length, length, Nat.add_comm, ← List.length_append]
  exact (perm_countDown hooks).length_eq

namespace Controller

variable {h : Nat} {s t : Controller}

theorem owed_eq (s : Controller) :
    s.owed = Handler.loads s.handlers + Hook.armed s.hooks * s.registry.size := by
  have waiting (handlers : List Handler) : handlers.foldr
      (fun a n => a.queue.length + (if a.worker = .running then 1 else 0) + n) 0 =
        Handler.loads handlers := by
    induction handlers with
    | nil => rfl
    | cons a rest ih =>
      rw [List.foldr_cons, ih]
      rfl
  have armed (hooks : List Hook) :
      hooks.foldr (fun k n => k.actions.length + n) 0 = Hook.armed hooks := by
    induction hooks with
    | nil => rfl
    | cons k rest ih =>
      rw [List.foldr_cons, ih]
      rfl
  unfold owed
  rw [waiting, armed]

/-- A disturbance gives every listener one task at most, and arms no hook. -/
theorem loads_disturb_le (s : Controller) (d : Disturbance) :
    Handler.loads (s.disturb d).handlers ≤ Handler.loads s.handlers + s.registry.size ∧
    (s.disturb d).registry = s.registry ∧ (s.disturb d).hooks = s.hooks := by
  cases d with
  | appoint leader => exact ⟨Nat.le_add_right _ _, rfl, rfl⟩
  | refuse device reason => exact ⟨Nat.le_add_right _ _, rfl, rfl⟩
  | accept device => exact ⟨Nat.le_add_right _ _, rfl, rfl⟩
  | update u =>
    obtain ⟨schedule, entries, same, -, -⟩ := update_spec s u
    change Handler.loads (s.update u).handlers ≤ _ ∧ (s.update u).registry = _ ∧
      (s.update u).hooks = _
    rw [same]
    refine ⟨?_, rfl, rfl⟩
    unfold afterUpdate
    dsimp only
    split
    · next e _ =>
      have heard := e.loads_foldl_hand_le (s.registry.audience e) s.handlers
      have bound := s.registry.length_audience_le e
      omega
    · exact Nat.le_add_right _ _

theorem loads_foldl_disturb_le (ds : List Disturbance) (s : Controller) :
    Handler.loads (ds.foldl disturb s).handlers ≤
      Handler.loads s.handlers + ds.length * s.registry.size ∧
    (ds.foldl disturb s).registry = s.registry ∧ (ds.foldl disturb s).hooks = s.hooks := by
  induction ds generalizing s with
  | nil => exact ⟨Nat.le_add_right _ _, rfl, rfl⟩
  | cons d rest ih =>
    obtain ⟨bound, registry, hooks⟩ := loads_disturb_le s d
    obtain ⟨bound', registry', hooks'⟩ := ih (s.disturb d)
    rw [registry] at bound'
    refine ⟨?_, registry'.trans registry, hooks'.trans hooks⟩
    rw [List.foldl_cons, List.length_cons, Nat.succ_mul]
    omega

/-- What a hook gives workers to do it has owed before. -/
theorem owed_fireHooks_le (s : Controller) : s.fireHooks.owed ≤ s.owed := by
  let due := (Hook.countDown s.hooks).2.flatMap Hook.actions
  obtain ⟨bound, registry, hooks⟩ :=
    loads_foldl_disturb_le due { s with hooks := (Hook.countDown s.hooks).1 }
  have parted : Hook.armed (Hook.countDown s.hooks).1 + due.length = Hook.armed s.hooks :=
    Hook.armed_countDown s.hooks
  change Handler.loads s.fireHooks.handlers ≤
    Handler.loads s.handlers + due.length * s.registry.size at bound
  change s.fireHooks.registry = s.registry at registry
  change s.fireHooks.hooks = (Hook.countDown s.hooks).1 at hooks
  rw [owed_eq, owed_eq, registry, hooks, ← parted, Nat.add_mul]
  omega

/-- A task gives workers nothing more to do. -/
theorem owed_le_of_working {allowed : Call → Prop} (w : Working h allowed s t) :
    t.owed ≤ s.owed := by
  induction w with
  | refl => exact Nat.le_refl _
  | log n _ _ ih => exact ih
  | call c crashes _ _ ih => exact ih
  | fireHooks _ ih => exact (owed_fireHooks_le _).trans ih

/-- The turn of a worker that is ready leaves less to do. -/
theorem owed_work_lt (ready : s.isReady h = true) : (s.work h).owed < s.owed := by
  have less {f : Handler → Handler} {a : Handler} (present : s.handlers[h]? = some a)
      (load : (f a).load + 1 = a.load) {u : Controller}
      (handlers : u.handlers = s.handlers.modify h f) (hooks : u.hooks = s.hooks)
      (registry : u.registry = s.registry) : u.owed < s.owed := by
    have lowered := Handler.loads_modify_of_less present load
    rw [owed_eq, owed_eq, handlers, hooks, registry]
    omega
  cases present : s.handlers[h]? with
  | none => simp [isReady, present] at ready
  | some a =>
    simp only [isReady, present, Bool.and_eq_true, Bool.or_eq_true, decide_eq_true_eq] at ready
    obtain ⟨running, pending⟩ := ready
    cases queue : a.queue with
    | nil =>
      have closed : a.isOpen = false := by simpa [queue] using pending
      have ends : s.work h =
          (s.log .queueDrained).modifyHandler h fun a => { a with worker := .ended } := by
        simp [work, present, queue, endWork, running, closed]
      rw [ends]
      refine less (f := fun a => { a with worker := .ended }) present ?_ rfl rfl rfl
      simp [Handler.load, running]
    | cons task rest =>
      have w : Working h Call.IsOrderly (s.take h task rest) (s.work h) :=
        work_orderly present queue
      refine (owed_le_of_working w).trans_lt ?_
      refine less (f := fun a => { a with queue := rest }) present ?_ rfl rfl rfl
      simp only [Handler.load, queue, List.length_cons]
      omega

theorem isReady_of_turn? {schedule : Schedule} (turn : s.turn? = some (h, schedule)) :
    s.isReady h = true := by
  unfold turn? at turn
  split at turn
  · next next found =>
    rw [turn] at found
    exact Schedule.isReady_of_next? found
  · obtain ⟨k, found, same⟩ := Option.map_eq_some_iff.1 turn
    obtain ⟨rfl, -⟩ := Prod.mk.inj same
    exact List.find?_some found

theorem isReady_of_turn?_eq_none (rest : s.turn? = none) (h : Nat) : s.isReady h = false := by
  unfold turn? at rest
  split at rest
  · cases rest
  · have unready := List.find?_eq_none.1 (Option.map_eq_none_iff.1 rest)
    by_cases present : h < s.handlers.length
    · simpa using unready h (List.mem_range.2 present)
    · have absent : s.handlers[h]? = none := List.getElem?_eq_none (Nat.le_of_not_lt present)
      simp [isReady, absent]

/-- Every turn that there is leaves less to do. -/
theorem owed_workNext_lt {turn : Nat × Schedule} (next : s.turn? = some turn) :
    s.workNext.owed < s.owed := by
  obtain ⟨h, schedule⟩ := turn
  have turned : s.workNext = { s with schedule }.work h := by simp [workNext, next]
  have ready : s.isReady h = true := isReady_of_turn? next
  rw [turned]
  exact owed_work_lt ready

/-- Either the turns have come to an end, or each of them has left less to do. -/
theorem owed_repeat_workNext (s : Controller) (n : Nat) :
    (Nat.repeat workNext n s).turn? = none ∨ (Nat.repeat workNext n s).owed + n ≤ s.owed := by
  induction n with
  | zero => exact .inr (Nat.le_refl _)
  | succ n ih =>
    rw [Nat.repeat]
    cases turn : (Nat.repeat workNext n s).turn? with
    | none =>
      have same : (Nat.repeat workNext n s).workNext = Nat.repeat workNext n s := by
        simp [workNext, turn]
      exact .inl (by rw [same]; exact turn)
    | some next =>
      have less := owed_workNext_lt turn
      have before := ih.resolve_left (by simp [turn])
      exact .inr (by omega)

/-- As many turns as are owed are enough. -/
theorem turn?_repeat_workNext (s : Controller) :
    (Nat.repeat workNext s.owed s).turn? = none := by
  rcases owed_repeat_workNext s s.owed with finished | spent
  · exact finished
  · cases turn : (Nat.repeat workNext s.owed s).turn? with
    | none => rfl
    | some next =>
      -- Nothing is owed any more, so that no turn can leave less.
      have less := owed_workNext_lt turn
      omega

/-- After a drain no worker has anything to do. -/
theorem isReady_drain (s : Controller) (h : Nat) : s.drain.isReady h = false :=
  isReady_of_turn?_eq_none (turn?_repeat_workNext s) h

end Controller
end GatewayRules
