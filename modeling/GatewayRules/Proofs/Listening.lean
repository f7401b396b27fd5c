import GatewayRules.Proofs.Acts
import GatewayRules.Proofs.Solo
import GatewayRules.Proofs.Task

/-!
Who hears what. Registrations of both kinds share one count of identifiers, so an identifier never
stands for two of them, and every event goes to the registrations of its kind in their order. A
listener has therefore heard exactly what was raised while it was registered.
-/
namespace GatewayRules
open Journal

def Event.kind : Event → ListenerKind
  | network .. => .network
  | node .. => .node

namespace Registry

variable (r : Registry)

def enrolled : ListenerKind → List (Nat × Listener)
  | .network => r.networks
  | .node => r.nodes

theorem audience_eq (e : Event) : r.audience e = (r.enrolled e.kind).map (·.2) := by
  cases e <;> rfl

theorem enrolled_add (l : Listener) (k j : ListenerKind) : (r.add l k).1.enrolled j =
    if j = k then r.enrolled j ++ [(r.nextId, l)] else r.enrolled j := by
  cases k <;> cases j <;> rfl

theorem nextId_add (l : Listener) (k : ListenerKind) : (r.add l k).1.nextId = r.nextId + 1 := by
  cases k <;> rfl

theorem enrolled_remove (id : Nat) (k j : ListenerKind) : (r.remove id k).enrolled j =
    if j = k then (r.enrolled j).filter (·.1 ≠ id) else r.enrolled j := by
  cases k <;> cases j <;> rfl

theorem nextId_remove (id : Nat) (k : ListenerKind) : (r.remove id k).nextId = r.nextId := by
  cases k <;> rfl

variable {r}

theorem mem_enrolled_add {l m : Listener} {k j : ListenerKind} {i : Nat} :
    (i, m) ∈ (r.add l k).1.enrolled j ↔
      (i, m) ∈ r.enrolled j ∨ j = k ∧ i = r.nextId ∧ m = l := by
  rw [enrolled_add]
  by_cases same : j = k <;> simp [same]

theorem mem_enrolled_remove {m : Listener} {k j : ListenerKind} {i id : Nat} :
    (i, m) ∈ (r.remove id k).enrolled j ↔ (i, m) ∈ r.enrolled j ∧ (j = k → i ≠ id) := by
  rw [enrolled_remove]
  by_cases same : j = k <;> simp [same]

theorem remove_of_absent {k : ListenerKind} {i : Nat} (absent : ∀ l, (i, l) ∉ r.enrolled k) :
    r.remove i k = r := by
  have all : ∀ p ∈ r.enrolled k, decide (p.1 ≠ i) = true := by
    rintro ⟨j, l⟩ member
    have other : j ≠ i := fun same => absent l (same ▸ member)
    simpa using other
  cases k with
  | network => exact congrArg (Registry.mk r.nextId · r.nodes) (List.filter_eq_self.2 all)
  | node => exact congrArg (Registry.mk r.nextId r.networks) (List.filter_eq_self.2 all)

/-- Identifiers grow with the registrations, and no two registrations have one. -/
structure Sound (r : Registry) : Prop where
  ordered : ∀ k, ((r.enrolled k).map (·.1)).Pairwise (· < ·)
  issued : ∀ k i l, (i, l) ∈ r.enrolled k → i < r.nextId
  one : ∀ k j i l m, (i, l) ∈ r.enrolled k → (i, m) ∈ r.enrolled j → k = j ∧ l = m

namespace Sound

theorem empty : Sound Registry.empty where
  ordered k := by cases k <;> exact .nil
  issued k i l member := by cases k <;> cases member
  one k j i l m member := by cases k <;> cases member

theorem add (sound : r.Sound) (l : Listener) (k : ListenerKind) : (r.add l k).1.Sound where
  ordered j := by
    have before := sound.ordered j
    rw [enrolled_add]
    split
    · rw [List.map_append, List.pairwise_append]
      refine ⟨before, List.pairwise_singleton _ _, ?_⟩
      intro i old n new
      obtain ⟨⟨i, m⟩, member, rfl⟩ := List.mem_map.1 old
      obtain rfl : n = r.nextId := by simpa using new
      exact sound.issued j i m member
    · exact before
  issued j i m member := by
    rw [nextId_add]
    rcases mem_enrolled_add.1 member with old | ⟨-, rfl, -⟩
    · have below := sound.issued j i m old
      omega
    · omega
  one j j' i m m' member member' := by
    rcases mem_enrolled_add.1 member with old | ⟨rfl, rfl, rfl⟩ <;>
      rcases mem_enrolled_add.1 member' with old' | ⟨rfl, same, rfl⟩
    · exact sound.one j j' i m m' old old'
    · have below := sound.issued j i m old
      omega
    · have below := sound.issued j' r.nextId m' old'
      omega
    · exact ⟨rfl, rfl⟩

theorem remove (sound : r.Sound) (id : Nat) (k : ListenerKind) : (r.remove id k).Sound where
  ordered j := by
    have before := sound.ordered j
    rw [enrolled_remove]
    split
    · exact before.sublist (List.filter_sublist.map _)
    · exact before
  issued j i m member := by
    rw [nextId_remove]
    exact sound.issued j i m (mem_enrolled_remove.1 member).1
  one j j' i m m' member member' :=
    sound.one j j' i m m' (mem_enrolled_remove.1 member).1 (mem_enrolled_remove.1 member').1

end Sound
end Registry

namespace Entry

def delivery? : Entry → Option (Listener × Event)
  | delivered l e => some (l, e)
  | _ => none

/-- The entry tells neither of a change to the inventory nor of a delivery. -/
def IsAside : Entry → Prop
  | updated .. | delivered .. => False
  | call .. | taken .. | closed _ | log _ => True

end Entry

namespace Journal

def deliveries (journal : List Entry) : List (Listener × Event) :=
  journal.filterMap Entry.delivery?

/-- Here everything is told that was raised: at the end, or before another change. -/
def Settled (part entries : List Entry) : Prop :=
  part = entries ∨ ∃ u e, part ++ [.updated u e] <+: entries

theorem Settled.inside {part entries : List Entry} (settled : Settled part entries) :
    part <+: entries := by
  rcases settled with rfl | ⟨u, e, inside⟩
  · exact List.prefix_rfl
  · exact (List.prefix_append part _).trans inside

theorem prefix_of_append {part first second : List Entry} (inside : part <+: first ++ second) :
    part <+: first ∨ ∃ rest, part = first ++ rest ∧ rest <+: second := by
  rcases List.prefix_or_prefix_of_prefix inside (List.prefix_append first second) with
    early | ⟨rest, rfl⟩
  · exact .inl early
  · exact .inr ⟨rest, rfl, (List.prefix_append_right_inj first).1 inside⟩

theorem Settled.of_append {part first second : List Entry} (settled : Settled part (first ++ second)) :
    Settled part first ∨ ∃ rest, part = first ++ rest ∧ Settled rest second := by
  rcases settled with rfl | ⟨u, e, inside⟩
  · exact .inr ⟨second, rfl, .inl rfl⟩
  rcases prefix_of_append inside with early | ⟨rest, same, late⟩
  · exact .inl (.inr ⟨u, e, early⟩)
  -- the change is the last entry of the first part, or stands in the second
  rcases List.eq_nil_or_concat rest with rfl | ⟨before, last, rfl⟩
  · rw [List.append_nil] at same
    exact .inl (.inr ⟨u, e, same ▸ List.prefix_rfl⟩)
  · rw [List.concat_eq_append, ← List.append_assoc] at same
    obtain ⟨rfl, one⟩ := List.append_inj' same rfl
    obtain rfl := List.singleton_inj.1 one
    rw [List.concat_eq_append] at late
    exact .inr ⟨before, rfl, .inr ⟨u, e, late⟩⟩

def raisedFor (k : ListenerKind) (journal : List Entry) : List Event :=
  (raised journal).filter (·.kind = k)

def heard (l : Listener) (k : ListenerKind) (journal : List Entry) : List Event :=
  (delivered l journal).filter (·.kind = k)

@[simp] theorem deliveries_append (first second : List Entry) :
    deliveries (first ++ second) = deliveries first ++ deliveries second :=
  List.filterMap_append

@[simp] theorem raisedFor_append (k : ListenerKind) (first second : List Entry) :
    raisedFor k (first ++ second) = raisedFor k first ++ raisedFor k second := by
  simp [raisedFor]

@[simp] theorem heard_append (l : Listener) (k : ListenerKind) (first second : List Entry) :
    heard l k (first ++ second) = heard l k first ++ heard l k second := by
  simp [heard]

theorem delivered_eq_deliveries (l : Listener) (journal : List Entry) :
    delivered l journal =
      (deliveries journal).filterMap fun p => if p.1 = l then some p.2 else none := by
  unfold delivered deliveries
  rw [List.filterMap_filterMap]
  congr 1
  funext e
  cases e <;> rfl

/-- If every event is given to an audience, a listener hears those of a kind as often as it is
registered for the kind. -/
theorem heard_of_deliveries {r : Registry} {entries : List Entry}
    (told : deliveries entries = (raised entries).flatMap fun e => (r.audience e).map (·, e))
    (l : Listener) (k : ListenerKind) : heard l k entries = (raisedFor k entries).flatMap fun e =>
      List.replicate (((r.enrolled k).map (·.2)).count l) e := by
  have each (audience : List Listener) (e : Event) :
      (audience.map (·, e)).filterMap (fun p => if p.1 = l then some p.2 else none) =
        List.replicate (audience.count l) e := by
    induction audience with
    | nil => rfl
    | cons m rest ih =>
      by_cases same : m = l
      · simp [same, ih, List.replicate_succ]
      · simp [same, ih]
  unfold heard raisedFor
  rw [delivered_eq_deliveries, told]
  induction raised entries with
  | nil => rfl
  | cons e rest ih =>
    rw [List.flatMap_cons, List.filterMap_append, List.filter_append, ih, each]
    by_cases kind : e.kind = k
    · rw [List.filter_cons_of_pos (by simpa using kind), List.flatMap_cons, r.audience_eq, kind]
      congr 1
      exact List.filter_eq_self.2 fun d member => by
        rw [List.eq_of_mem_replicate member]
        simpa using kind
    · rw [List.filter_cons_of_neg (by simpa using kind)]
      refine List.append_left_eq_self.2 (List.filter_eq_nil_iff.2 fun d member => ?_)
      rw [List.eq_of_mem_replicate member]
      simpa using kind

end Journal

namespace Inventory

def raisedBy (v : Inventory) : List Update → List Event
  | [] => []
  | u :: rest => (v.event? u).toList ++ (v.update u).raisedBy rest

theorem raisedBy_append (v : Inventory) (first second : List Update) :
    v.raisedBy (first ++ second) = v.raisedBy first ++ (v.after first).raisedBy second := by
  induction first generalizing v with
  | nil => rfl
  | cons u rest ih =>
    rw [List.cons_append, raisedBy, ih, raisedBy, List.append_assoc]
    rfl

end Inventory

/-- The identifiers under which a handler listens, and whether it takes events in. -/
structure Seat where
  networkListener : Nat
  nodeListener : Nat
  isOpen : Bool

def Seat.listener (a : Seat) : ListenerKind → Nat
  | .network => a.networkListener
  | .node => a.nodeListener

def Handler.seat (a : Handler) : Seat := ⟨a.networkListener, a.nodeListener, a.isOpen⟩

namespace Controller

variable {s t u : Controller}

def seats (s : Controller) : List Seat := s.handlers.map Handler.seat

/-- The entries tell how the inventory has changed from one state to the other, and what every one
of the changes has raised. -/
structure Recorded (s t : Controller) (entries : List Entry) : Prop where
  journal : t.journal = s.journal ++ entries
  inventory : t.inventory = s.inventory.after (updates entries)
  raised : ∀ part, part <+: entries → raised part = s.inventory.raisedBy (updates part)

/-- Nobody comes or goes meanwhile, and what is raised goes to everyone who is registered for it. -/
structure Airs (s t : Controller) (entries : List Entry) : Prop extends Recorded s t entries where
  registry : t.registry = s.registry
  seats : t.seats = s.seats
  keepsListeners : t.keepsListeners = s.keepsListeners
  told : ∀ part, Settled part entries → deliveries part = (Journal.raised part).flatMap fun e =>
    (s.registry.audience e).map (·, e)

/-- Nobody comes or goes, and every event is aired. -/
def Airing (s t : Controller) : Prop := ∃ entries, Airs s t entries

theorem Recorded.trans {first second : List Entry} (a : Recorded s t first)
    (b : Recorded t u second) : Recorded s u (first ++ second) where
  journal := by rw [b.journal, a.journal, List.append_assoc]
  inventory := by
    rw [b.inventory, a.inventory, updates_append]
    exact List.foldl_append.symm
  raised part inside := by
    rcases prefix_of_append inside with early | ⟨rest, rfl, late⟩
    · exact a.raised part early
    · rw [raised_append, updates_append, Inventory.raisedBy_append, a.raised _ List.prefix_rfl,
        b.raised rest late, a.inventory]

theorem Airs.trans {first second : List Entry} (a : Airs s t first) (b : Airs t u second) :
    Airs s u (first ++ second) where
  toRecorded := a.toRecorded.trans b.toRecorded
  registry := b.registry.trans a.registry
  seats := b.seats.trans a.seats
  keepsListeners := b.keepsListeners.trans a.keepsListeners
  told part settled := by
    rcases settled.of_append with early | ⟨rest, rfl, late⟩
    · exact a.told part early
    · rw [deliveries_append, raised_append, List.flatMap_append, a.told _ (.inl rfl),
        b.told rest late, a.registry]

/-- Entries beside the point tell of nothing. -/
theorem quiet_of_aside {entries : List Entry} (aside : ∀ e ∈ entries, e.IsAside) :
    updates entries = [] ∧ raised entries = [] ∧ deliveries entries = [] := by
  refine ⟨List.filterMap_eq_nil_iff.2 fun e member => ?_,
    List.filterMap_eq_nil_iff.2 fun e member => ?_, List.filterMap_eq_nil_iff.2 fun e member => ?_⟩
  all_goals
    have beside := aside e member
    cases e <;> first | rfl | exact beside.elim

theorem recorded_of_aside {entries : List Entry} (aside : ∀ e ∈ entries, e.IsAside)
    (journal : t.journal = s.journal ++ entries) (inventory : t.inventory = s.inventory) :
    Recorded s t entries where
  journal := journal
  inventory := by
    rw [(quiet_of_aside aside).1, inventory]
    rfl
  raised part inside := by
    obtain ⟨unchanged, unraised, -⟩ := quiet_of_aside fun e member => aside e (inside.subset member)
    rw [unchanged, unraised]
    rfl

theorem airs_of_aside {entries : List Entry} (aside : ∀ e ∈ entries, e.IsAside)
    (registry : t.registry = s.registry) (seats : t.seats = s.seats)
    (keepsListeners : t.keepsListeners = s.keepsListeners) (inventory : t.inventory = s.inventory)
    (journal : t.journal = s.journal ++ entries) : Airs s t entries where
  toRecorded := recorded_of_aside aside journal inventory
  registry := registry
  seats := seats
  keepsListeners := keepsListeners
  told part settled := by
    obtain ⟨-, unraised, untold⟩ :=
      quiet_of_aside fun e member => aside e (settled.inside.subset member)
    rw [unraised, untold]
    rfl

namespace Airing

theorem refl (s : Controller) : Airing s s :=
  ⟨[], airs_of_aside (List.forall_mem_nil _) rfl rfl rfl rfl (List.append_nil _).symm⟩

theorem trans : Airing s t → Airing t u → Airing s u
  | ⟨_, a⟩, ⟨_, b⟩ => ⟨_, a.trans b⟩

theorem note {e : Entry} (aside : e.IsAside) : Airing s (s.note e) :=
  ⟨[e], airs_of_aside (List.forall_mem_singleton.2 aside) rfl rfl rfl rfl rfl⟩

theorem same (registry : t.registry = s.registry) (seats : t.seats = s.seats)
    (keepsListeners : t.keepsListeners = s.keepsListeners) (inventory : t.inventory = s.inventory)
    (journal : t.journal = s.journal) : Airing s t :=
  ⟨[], airs_of_aside (List.forall_mem_nil _) registry seats keepsListeners inventory
    (journal.trans (List.append_nil _).symm)⟩

theorem logSome (n : Option Notice) : Airing s (s.logSome n) := by
  cases n with
  | none => exact refl s
  | some n => exact note (e := .log n) trivial

end Airing

theorem deliveries_deliver (e : Event) (s : Controller) (l : Listener) :
    deliveries (deliver e s l).journal = deliveries s.journal ++ [(l, e)] := by
  obtain ⟨schedule, entries, same, logs⟩ := deliver_spec e s l
  have quiet : deliveries entries = [] := List.filterMap_eq_nil_iff.2 fun entry member => by
    obtain ⟨n, rfl, -⟩ := logs entry member
    rfl
  have given : deliveries (.delivered l e :: entries) = (l, e) :: deliveries entries := rfl
  rw [same]
  change deliveries (s.journal ++ .delivered l e :: entries) = _
  rw [deliveries_append, given, quiet]

/-- Everyone in the audience of an event is given it, in order. -/
theorem deliveries_publish (s : Controller) (e : Event) :
    deliveries (s.publish e).journal =
      deliveries s.journal ++ (s.registry.audience e).map (·, e) := by
  have fold (audience : List Listener) (s : Controller) :
      deliveries (audience.foldl (deliver e) s).journal =
        deliveries s.journal ++ audience.map (·, e) := by
    induction audience generalizing s with
    | nil => exact (List.append_nil _).symm
    | cons l rest ih =>
      rw [List.foldl_cons, ih, deliveries_deliver, List.append_assoc]
      rfl
  have logged : deliveries (s.log (eventNotice e)).journal = deliveries s.journal := by
    change deliveries (s.journal ++ [.log (eventNotice e)]) = _
    rw [deliveries_append]
    exact List.append_nil _
  unfold publish
  rw [fold, logged]

/-- An update with the news of it is one change, which raises what is noted with it. -/
theorem raised_of_news {u : Update} {e : Option Event} {entries : List Entry}
    (news : ∀ d ∈ entries, d.IsNews) :
    updates (.updated u e :: entries) = [u] ∧ raised (.updated u e :: entries) = e.toList := by
  have unchanged : updates entries = [] := List.filterMap_eq_nil_iff.2 fun d member => by
    have about := news d member
    cases d <;> first | rfl | exact about.elim
  have unraised : raised entries = [] := List.filterMap_eq_nil_iff.2 fun d member => by
    have about := news d member
    cases d <;> first | rfl | exact about.elim
  have first : raised (.updated u e :: entries) = e.toList ++ raised entries := by cases e <;> rfl
  exact ⟨congrArg (u :: ·) unchanged, by rw [first, unraised, List.append_nil]⟩

theorem airing_update (s : Controller) (u : Update) : Airing s (s.update u) := by
  obtain ⟨schedule, entries, same, news, -⟩ := update_spec s u
  let change : Entry := .updated u (s.inventory.event? u)
  have quiet (part : List Entry) (inside : part <+: entries) :
      updates (change :: part) = [u] ∧
        Journal.raised (change :: part) = (s.inventory.event? u).toList :=
    raised_of_news fun e member => news e (inside.subset member)
  obtain ⟨one, raises⟩ := quiet entries List.prefix_rfl
  have noted : (s.update u).journal = s.journal ++ change :: entries := by rw [same]
  refine ⟨change :: entries, ⟨noted, ?_, fun part inside => ?_⟩, ?_, ?_, ?_, fun part settled => ?_⟩
  · rw [same, one]
    rfl
  · rcases List.prefix_cons_iff.1 inside with rfl | ⟨rest, rfl, later⟩
    · rfl
    · rw [(quiet rest later).1, (quiet rest later).2]
      exact (List.append_nil _).symm
  · rw [same]
  · rw [same]
    exact map_afterUpdate (fun t a => by unfold Handler.receive; split <;> rfl) s u
  · rw [same]
  · rcases settled with rfl | ⟨u', e', inside⟩
    · have told : deliveries (s.update u).journal = deliveries s.journal ++
          (s.inventory.event? u).toList.flatMap fun e => (s.registry.audience e).map (·, e) := by
        unfold update
        dsimp only
        cases event : s.inventory.event? u with
        | none => exact deliveries_append _ _
        | some e =>
          have changed : deliveries (s.journal ++ [.updated u (some e)]) = deliveries s.journal := by
            rw [deliveries_append]
            exact List.append_nil _
          dsimp only
          rw [deliveries_publish]
          exact congrArg₂ _ changed (List.flatMap_singleton ..).symm
      rw [noted, deliveries_append] at told
      rw [raises]
      exact List.append_cancel_left told
    · -- the update is the only one, so nothing is raised before it
      cases part with
      | nil => rfl
      | cons d rest =>
        have another : .updated u' e' ∈ entries := by
          rw [List.cons_append, List.cons_prefix_cons] at inside
          exact inside.2.subset (List.mem_append_right _ List.mem_cons_self)
        exact (news _ another).elim

theorem airing_disturb (s : Controller) (d : Disturbance) : Airing s (s.disturb d) := by
  cases d with
  | update u => exact airing_update s u
  | appoint leader | refuse device reason | accept device => exact .same rfl rfl rfl rfl rfl

theorem airing_working {h : Nat} {allowed : Call → Prop} (w : Working h allowed s t) :
    Airing s t := by
  refine w.keeps (fun t n _ aired => aired.trans (.note (e := .log n) trivial))
    (fun t c crashes _ aired => ?_) (fun t hooks aired => ?_)
    (fun t d aired => aired.trans (airing_disturb t d)) (.refl s)
  · have called : Airing t (t.note (.call h c)) := .note trivial
    exact (aired.trans called).trans (.same rfl rfl rfl rfl rfl)
  · exact aired.trans (.same rfl rfl rfl rfl rfl)

theorem airing_modifyHandler {f : Handler → Handler} (kept : ∀ a, (f a).seat = a.seat)
    (s : Controller) (h : Nat) : Airing s (s.modifyHandler h f) :=
  .same rfl (Handler.map_modify s.handlers h kept) rfl rfl rfl

theorem airing_work (s : Controller) (h : Nat) : Airing s (s.work h) := by
  rcases work_cases s h with same | ended | ⟨a, task, rest, -, -, w⟩
  · rw [same]
    exact .refl s
  · rw [ended]
    have logged : Airing s (s.log .queueDrained) := .note trivial
    have left : Airing (s.log .queueDrained) ((s.log .queueDrained).modifyHandler h
        fun a => { a with worker := .ended }) := airing_modifyHandler (fun a => by rfl) _ h
    exact logged.trans left
  · have taken : Airing s (s.modifyHandler h fun a => { a with queue := rest }) :=
      airing_modifyHandler (fun a => by rfl) s h
    exact (taken.trans (.note (e := .taken h task) trivial)).trans (airing_working w)

theorem airing_stand (s : Controller) (h : Nat) (g : Gate) : Airing s (s.stand h g) := by
  have led : Airing s { s with leadership := (g.activate s.leadership).1 } :=
    .same rfl rfl rfl rfl rfl
  exact (led.trans (.note (e := .call h (.run g.topic)) trivial)).trans (.logSome _)

theorem airing_withdraw (s : Controller) (h : Nat) (g : Gate) : Airing s (s.withdraw h g) := by
  have led : Airing s { s with leadership := (g.deactivate s.leadership).1 } :=
    .same rfl rfl rfl rfl rfl
  exact (led.trans (.note (e := .call h (.withdraw g.topic)) trivial)).trans (.logSome _)

theorem airing_loseWorkers (s : Controller) : Airing s s.loseWorkers := by
  refine .same rfl ?_ rfl rfl rfl
  change (s.handlers.map _).map Handler.seat = s.handlers.map Handler.seat
  rw [List.map_map]
  refine List.map_congr_left fun a _ => ?_
  rw [Function.comp_apply]
  split <;> rfl

end Controller

/-- The act makes a listener come or go. -/
def Act.Reseats : Act → Prop
  | .listen .. | .unlisten .. | .enroll .. | .close _ => True
  | _ => False

namespace Controller

variable {s t : Controller}

theorem airing_act (s : Controller) {act : Act} (stays : ¬act.Reseats) : Airing s (s.act act) := by
  cases act with
  | log n => exact .note trivial
  | disturb d => exact airing_disturb s d
  | arrange schedule | armCrash crash | armHook hook => exact .same rfl rfl rfl rfl rfl
  | listen kind label | unlisten kind id | enroll label self p | close h =>
    exact absurd trivial stays
  | stand h g => exact airing_stand s h g
  | work h => exact airing_work s h
  | withdraw h g => exact airing_withdraw s h g
  | loseWorkers => exact airing_loseWorkers s
  | reconcile h n action =>
    simp only [Controller.act, Controller.reconcile]
    split
    · exact .refl s
    · exact airing_working (pass_working s h _ n action)

theorem airing_acts {allowed : Act → Prop} (acts : Acts allowed s t)
    (stays : ∀ act, allowed act → ¬act.Reseats) : Airing s t :=
  acts.keeps (fun v _ ok aired => aired.trans (airing_act v (stays _ ok))) (.refl s)

end Controller
end GatewayRules
