import GatewayRules.Proofs.Listening

/-!
The life of a registration: it begins with an identifier that is issued once, and lasts until that
identifier is removed or the handler that it belongs to is deactivated. The main statement says what
its listener hears.
-/
namespace GatewayRules
open Journal

/-- The step ends the registration: by its identifier, or with the handler that listens. -/
def Step.Removes (keepsListeners : Bool) (k : ListenerKind) (i : Nat) (l : Listener) : Step → Prop
  | .unlisten kind id => kind = k ∧ id = i
  | .deactivate h => keepsListeners = false ∧ l = .handler h
  | _ => False

def Reply.issued : Reply → List Nat
  | .listener id => [id]
  | _ => []

namespace Controller

variable {s t u : Controller}

def nextListener (s : Controller) (k : ListenerKind) : Nat :=
  Seat.listener ⟨s.registry.nextId, s.registry.nextId + 1, true⟩ k

def Registers (s : Controller) (k : ListenerKind) (i : Nat) (l : Listener) : Step → Prop
  | .listen kind label => k = kind ∧ l = .observer label ∧ i = s.registry.nextId
  | .activate .. => l = .handler s.handlers.length ∧ i = s.nextListener k
  | _ => False

/-- The identifiers that a step gives out: the one that it answers, and those of a new handler. -/
def issued (s : Controller) (step : Step) : List Nat :=
  (s.step step).2.issued ++
    ((s.step step).1.handlers.drop s.handlers.length).flatMap
      fun a => [a.networkListener, a.nodeListener]

/-- The identifiers that steps give out, one step after the other. -/
def issuedBy (s : Controller) : List Step → List Nat
  | [] => []
  | step :: rest => s.issued step ++ (s.step step).1.issuedBy rest

def since (s t : Controller) : List Entry := t.journal.drop s.journal.length

theorem since_eq {entries : List Entry} (journal : t.journal = s.journal ++ entries) :
    since s t = entries := by
  unfold since
  rw [journal, List.drop_left]

theorem since_trans (first : s.journal <+: t.journal) (second : t.journal <+: u.journal) :
    since s u = since s t ++ since t u := by
  obtain ⟨early, same⟩ := first
  obtain ⟨late, same'⟩ := second
  have whole : u.journal = s.journal ++ (early ++ late) := by
    rw [← same', ← same, List.append_assoc]
  rw [since_eq same.symm, since_eq same'.symm, since_eq whole]

/-- What a step does to registrations, which it does before everything else. -/
def reseat (s : Controller) : Step → Controller
  | .listen kind label => { s with registry := (s.registry.add (.observer label) kind).1 }
  | .unlisten kind id => { s with registry := s.registry.remove id kind }
  | .activate label self p => s.enroll label self p
  | .deactivate h =>
    match s.handlers[h]? with
    | none => s
    | some a => if a.isOpen then s.closeIntake h a else s
  | _ => s

/-- The end of registrations is the first that a handler does when it is deactivated. -/
theorem reseat_deactivate {h : Nat} {a : Handler} (present : s.handlers[h]? = some a) :
    s.reseat (.deactivate h) = if a.isOpen then s.closeIntake h a else s := by
  simp only [reseat, present]

theorem reseat_deactivate_of_none {h : Nat} (absent : s.handlers[h]? = none) :
    s.reseat (.deactivate h) = s := by
  simp only [reseat, absent]

theorem airing_deactivate (s : Controller) (h : Nat) :
    Airing (s.reseat (.deactivate h)) (s.deactivate h) := by
  unfold deactivate
  split
  · next absent =>
    rw [reseat_deactivate_of_none absent]
    exact .refl s
  · next a present =>
    rw [reseat_deactivate present]
    cases a.isOpen with
    | false => exact .refl s
    | true =>
      have waited : Airing (s.closeIntake h a) ((s.closeIntake h a).awaitEnd h a) := by
        apply airing_acts (awaitEnd_acts _ h a)
        rintro act ((⟨k, rfl⟩ | ⟨schedule, rfl⟩) | ⟨rfl, -⟩) <;> exact id
      exact (waited.trans (airing_withdraw _ h a.gate)).trans (.note (e := .log .stopped) trivial)

/-- After its registrations a step airs all that it raises. -/
theorem airing_step (s : Controller) (step : Step) : Airing (s.reseat step) (s.step step).1 := by
  have plain (stays : ∀ act, step.Allows act → ¬act.Reseats) : Airing s (s.step step).1 :=
    airing_acts (step_acts s step) stays
  cases step with
  | listen kind label | unlisten kind id => exact .refl _
  | activate label self p =>
    exact (airing_stand _ s.handlers.length ⟨self, p.app⟩).trans (.note (e := .log .started) trivial)
  | deactivate h => exact airing_deactivate s h
  | _ =>
    refine plain fun act ok reseats => ?_
    cases act <;> simp [Step.Allows, Act.IsTurn, Act.Reseats] at ok reseats

theorem reseat_aside (s : Controller) (step : Step) : ∃ entries,
    (s.reseat step).journal = s.journal ++ entries ∧ (∀ e ∈ entries, e.IsAside) ∧
      (s.reseat step).inventory = s.inventory ∧
        (s.reseat step).keepsListeners = s.keepsListeners := by
  have same : ∃ entries, s.journal = s.journal ++ entries ∧ ∀ e ∈ entries, e.IsAside :=
    ⟨[], (List.append_nil _).symm, List.forall_mem_nil _⟩
  obtain ⟨entries, journal, aside⟩ := same
  cases step with
  | deactivate h =>
    unfold reseat
    dsimp only
    split
    · exact ⟨entries, journal, aside, rfl, rfl⟩
    · next a _ =>
      split
      · exact ⟨[.closed h], rfl, List.forall_mem_singleton.2 trivial, rfl, rfl⟩
      · exact ⟨entries, journal, aside, rfl, rfl⟩
  | _ => exact ⟨entries, journal, aside, rfl, rfl⟩

theorem recorded_step (s : Controller) (step : Step) :
    ∃ entries, Recorded s (s.step step).1 entries := by
  obtain ⟨first, journal, aside, inventory, -⟩ := reseat_aside s step
  obtain ⟨second, aired⟩ := airing_step s step
  exact ⟨first ++ second, (recorded_of_aside aside journal inventory).trans aired.toRecorded⟩

theorem recorded_run (s : Controller) (steps : List Step) :
    Recorded s (s.run steps) (since s (s.run steps)) := by
  have some : ∃ entries, Recorded s (s.run steps) entries := by
    induction steps generalizing s with
    | nil =>
      exact ⟨[], recorded_of_aside (List.forall_mem_nil _) (List.append_nil _).symm rfl⟩
    | cons step rest ih =>
      obtain ⟨first, early⟩ := recorded_step s step
      obtain ⟨second, late⟩ := ih (s.step step).1
      exact ⟨first ++ second, early.trans late⟩
  obtain ⟨entries, recorded⟩ := some
  rw [since_eq recorded.journal]
  exact recorded

theorem journal_prefix_step (s : Controller) (step : Step) :
    s.journal <+: (s.step step).1.journal := by
  obtain ⟨entries, recorded⟩ := recorded_step s step
  exact ⟨entries, recorded.journal.symm⟩

theorem journal_prefix_run (s : Controller) (steps : List Step) :
    s.journal <+: (s.run steps).journal :=
  ⟨_, (recorded_run s steps).journal.symm⟩

/-- Every event that is raised in a step goes once to each registration of its kind that stands
after the step, in the order of registrations, and to nobody else. It does so before the next change
to the inventory. -/
theorem deliveries_step (s : Controller) (step : Step) {part : List Entry}
    (settled : Settled part (since s (s.step step).1)) :
    deliveries part = (raised part).flatMap fun e =>
      ((s.step step).1.registry.audience e).map (·, e) := by
  obtain ⟨first, journal, aside, -, -⟩ := reseat_aside s step
  obtain ⟨second, aired⟩ := airing_step s step
  have whole : (s.step step).1.journal = s.journal ++ (first ++ second) := by
    rw [aired.journal, journal, List.append_assoc]
  rw [since_eq whole] at settled
  rcases settled.of_append with early | ⟨rest, rfl, late⟩
  · obtain ⟨-, unraised, untold⟩ :=
      quiet_of_aside fun e member => aside e (early.inside.subset member)
    rw [unraised, untold]
    rfl
  · obtain ⟨-, unraised, untold⟩ := quiet_of_aside aside
    rw [deliveries_append, raised_append, untold, unraised, aired.told rest late, aired.registry]
    rfl

/-- Registrations are sound, and those of a handler are under the identifiers that it holds, as long
as it is open or listeners are kept. -/
structure Registered (s : Controller) : Prop where
  sound : s.registry.Sound
  held : ∀ (h : Nat) (a : Seat) k, s.seats[h]? = some a → a.listener k < s.registry.nextId
  own : ∀ (h : Nat) (a : Seat) k l, s.seats[h]? = some a →
    (a.listener k, l) ∈ s.registry.enrolled k → l = .handler h
  known : ∀ (h : Nat) k i, (i, .handler h) ∈ s.registry.enrolled k →
    ∃ a, s.seats[h]? = some a ∧ a.listener k = i ∧ (s.keepsListeners = false → a.isOpen = true)

theorem seats_enroll (s : Controller) (label : String) (self : Member) (p : Placement) :
    (s.enroll label self p).seats =
      s.seats ++ [⟨s.registry.nextId, s.registry.nextId + 1, true⟩] :=
  List.map_append

theorem length_seats (s : Controller) : s.seats.length = s.handlers.length := List.length_map _

/-- A seat after an activation is one of those before, or the last, which is for the new handler. -/
theorem seat_of_enroll {label : String} {self : Member} {p : Placement} {h : Nat} {a : Seat}
    (present : (s.enroll label self p).seats[h]? = some a) :
    s.seats[h]? = some a ∨ h = s.handlers.length ∧ ∀ k, a.listener k = s.nextListener k := by
  rw [seats_enroll] at present
  rcases Nat.lt_trichotomy h s.seats.length with below | same | above
  · rw [List.getElem?_append_left below] at present
    exact .inl present
  · rw [same, List.getElem?_concat_length] at present
    exact .inr ⟨same.trans s.length_seats, fun k => by rw [← Option.some.inj present]; rfl⟩
  · rw [List.getElem?_eq_none (by rw [List.length_append]; exact above)] at present
    cases present

theorem mem_enrolled_enroll {label : String} {self : Member} {p : Placement} {k : ListenerKind}
    {i : Nat} {l : Listener} : (i, l) ∈ (s.enroll label self p).registry.enrolled k ↔
      (i, l) ∈ s.registry.enrolled k ∨ i = s.nextListener k ∧ l = .handler s.handlers.length := by
  let handler : Listener := .handler s.handlers.length
  change (i, l) ∈ ((s.registry.add handler .network).1.add handler .node).1.enrolled k ↔ _
  rw [Registry.mem_enrolled_add, Registry.mem_enrolled_add, Registry.nextId_add]
  cases k <;> simp [nextListener, Seat.listener, handler]

theorem seats_closeIntake (s : Controller) (h : Nat) (a : Handler) :
    (s.closeIntake h a).seats = s.seats.modify h fun b => { b with isOpen := false } := by
  change (s.handlers.modify h _).map Handler.seat = (s.handlers.map Handler.seat).modify h _
  refine List.ext_getElem? fun k => ?_
  rw [List.getElem?_map, List.getElem?_modify, List.getElem?_modify, List.getElem?_map]
  by_cases same : h = k <;> cases s.handlers[k]? <;> simp [same, Handler.seat]

theorem mem_enrolled_closeIntake {h : Nat} {a : Handler} {k : ListenerKind} {i : Nat}
    {l : Listener} : (i, l) ∈ (s.closeIntake h a).registry.enrolled k ↔
      (i, l) ∈ s.registry.enrolled k ∧ (s.keepsListeners = false → i ≠ a.seat.listener k) := by
  unfold closeIntake
  dsimp only [Controller.note, modifyHandler]
  cases s.keepsListeners with
  | true => simp
  | false =>
    cases k <;> simp [Registry.mem_enrolled_remove, Handler.seat, Seat.listener]

theorem nextId_closeIntake (s : Controller) (h : Nat) (a : Handler) :
    (s.closeIntake h a).registry.nextId = s.registry.nextId := by
  unfold closeIntake
  dsimp only [Controller.note, modifyHandler]
  split
  · rfl
  · rw [Registry.nextId_remove, Registry.nextId_remove]

namespace Registered

theorem start (leadership : Leadership) (fixedPort : Option Port)
    (keepsListeners logsRequests : Bool) :
    Registered (start leadership fixedPort keepsListeners logsRequests) where
  sound := .empty
  held h a k present := by cases present
  own h a k l present := by cases present
  known h k i member := by cases k <;> cases member

theorem airing (reg : Registered s) : Airing s t → Registered t := by
  rintro ⟨entries, aired⟩
  constructor
  · exact aired.registry ▸ reg.sound
  · rw [aired.registry, aired.seats]
    exact reg.held
  · rw [aired.registry, aired.seats]
    exact reg.own
  · rw [aired.registry, aired.seats, aired.keepsListeners]
    exact reg.known

theorem listen (reg : Registered s) (kind : ListenerKind) (label : String) :
    Registered (s.reseat (.listen kind label)) where
  sound := reg.sound.add _ kind
  held h a k present := by
    have below := reg.held h a k present
    have next := s.registry.nextId_add (.observer label) kind
    change a.listener k < (s.registry.add (.observer label) kind).1.nextId
    omega
  own h a k l present member := by
    have below := reg.held h a k present
    rcases Registry.mem_enrolled_add.1 member with old | ⟨-, new, -⟩
    · exact reg.own h a k l present old
    · omega
  known h k i member := by
    rcases Registry.mem_enrolled_add.1 member with old | ⟨-, -, observer⟩
    · exact reg.known h k i old
    · cases observer

theorem unlisten (reg : Registered s) (kind : ListenerKind) (id : Nat) :
    Registered (s.reseat (.unlisten kind id)) where
  sound := reg.sound.remove id kind
  held h a k present := by
    have below := reg.held h a k present
    have next := s.registry.nextId_remove id kind
    change a.listener k < (s.registry.remove id kind).nextId
    omega
  own h a k l present member :=
    reg.own h a k l present (Registry.mem_enrolled_remove.1 member).1
  known h k i member := reg.known h k i (Registry.mem_enrolled_remove.1 member).1

theorem enroll (reg : Registered s) (label : String) (self : Member) (p : Placement) :
    Registered (s.enroll label self p) := by
  have next : (s.enroll label self p).registry.nextId = s.registry.nextId + 2 := by
    change ((s.registry.add _ .network).1.add _ .node).1.nextId = _
    rw [Registry.nextId_add, Registry.nextId_add]
  have bounds (k : ListenerKind) :
      s.registry.nextId ≤ s.nextListener k ∧ s.nextListener k < s.registry.nextId + 2 := by
    cases k <;> simp [nextListener, Seat.listener]
  constructor
  · exact (reg.sound.add _ .network).add _ .node
  · intro h a k present
    rw [next]
    rcases seat_of_enroll present with old | ⟨-, new⟩
    · have below := reg.held h a k old
      omega
    · have below := (bounds k).2
      rw [new k]
      exact below
  · intro h a k l present member
    rcases seat_of_enroll present with old | ⟨last, new⟩
    · rcases mem_enrolled_enroll.1 member with before | ⟨same, -⟩
      · exact reg.own h a k l old before
      · have below := reg.held h a k old
        have above := (bounds k).1
        omega
    · rcases mem_enrolled_enroll.1 member with before | ⟨-, mine⟩
      · have below := reg.sound.issued k _ l before
        have above := (bounds k).1
        rw [new k] at below
        omega
      · rw [mine, last]
  · intro h k i member
    rcases mem_enrolled_enroll.1 member with before | ⟨rfl, mine⟩
    · obtain ⟨a, present, holds, isOpen⟩ := reg.known h k i before
      have inside : h < s.seats.length := (List.getElem?_eq_some_iff.1 present).1
      refine ⟨a, ?_, holds, isOpen⟩
      rw [seats_enroll, List.getElem?_append_left inside]
      exact present
    · refine ⟨⟨s.registry.nextId, s.registry.nextId + 1, true⟩, ?_, rfl, fun _ => rfl⟩
      rw [seats_enroll, Listener.handler.inj mine, ← s.length_seats]
      exact List.getElem?_concat_length

/-- A handler that is closed gives back its own registrations. -/
theorem close (reg : Registered s) {h : Nat} {a : Handler} (present : s.handlers[h]? = some a) :
    Registered (s.closeIntake h a) := by
  have seated : s.seats[h]? = some a.seat := by
    unfold seats
    rw [List.getElem?_map, present]
    rfl
  have seat {j : Nat} {b : Seat} (found : (s.closeIntake h a).seats[j]? = some b) :
      ∃ c, s.seats[j]? = some c ∧ ∀ k, b.listener k = c.listener k := by
    rw [seats_closeIntake, List.getElem?_modify] at found
    obtain ⟨c, before, same⟩ := Option.map_eq_some_iff.1 found
    refine ⟨c, before, fun k => ?_⟩
    rw [← same]
    split <;> cases k <;> rfl
  constructor
  · unfold closeIntake
    dsimp only [Controller.note, modifyHandler]
    split
    · exact reg.sound
    · exact (reg.sound.remove _ .node).remove _ .network
  · intro j b k found
    obtain ⟨c, before, same⟩ := seat found
    rw [nextId_closeIntake, same k]
    exact reg.held j c k before
  · intro j b k l found member
    obtain ⟨c, before, same⟩ := seat found
    rw [same k] at member
    exact reg.own j c k l before (mem_enrolled_closeIntake.1 member).1
  · intro j k i member
    obtain ⟨before, kept⟩ := mem_enrolled_closeIntake.1 member
    obtain ⟨c, found, holds, isOpen⟩ := reg.known j k i before
    have after : (s.closeIntake h a).seats[j]? =
        some (if h = j then { c with isOpen := false } else c) := by
      rw [seats_closeIntake, List.getElem?_modify, found]
      rfl
    refine ⟨_, after, ?_, fun keeps => ?_⟩
    · rw [← holds]
      split <;> cases k <;> rfl
    · have gone : s.keepsListeners = false := keeps
      have other : h ≠ j := by
        rintro rfl
        have mine : a.seat = c := Option.some.inj (seated.symm.trans found)
        exact kept gone (mine ▸ holds.symm)
      rw [if_neg other]
      exact isOpen gone

theorem reseat (reg : Registered s) (step : Step) : Registered (s.reseat step) := by
  cases step with
  | listen kind label => exact reg.listen kind label
  | unlisten kind id => exact reg.unlisten kind id
  | activate label self p => exact reg.enroll label self p
  | deactivate h =>
    cases present : s.handlers[h]? with
    | none =>
      rw [reseat_deactivate_of_none present]
      exact reg
    | some a =>
      rw [reseat_deactivate present]
      split
      · exact reg.close present
      · exact reg
  | _ => exact reg

theorem step (reg : Registered s) (step : Step) : Registered (s.step step).1 :=
  (reg.reseat step).airing (airing_step s step)

theorem run (reg : Registered s) (steps : List Step) : Registered (s.run steps) := by
  induction steps generalizing s with
  | nil => exact reg
  | cons step rest ih => exact ih (reg.step step)

end Registered

theorem mem_enrolled_deactivate (reg : Registered s) (h : Nat) {k : ListenerKind} {i : Nat}
    {l : Listener} : (i, l) ∈ (s.reseat (.deactivate h)).registry.enrolled k ↔
      (i, l) ∈ s.registry.enrolled k ∧ ¬(Step.deactivate h).Removes s.keepsListeners k i l := by
  cases present : s.handlers[h]? with
  | none =>
    rw [reseat_deactivate_of_none present]
    refine (and_iff_left_of_imp ?_).symm
    rintro member ⟨-, rfl⟩
    obtain ⟨a, seated, -⟩ := reg.known h k i member
    rw [seats, List.getElem?_map, present] at seated
    cases seated
  | some a =>
    have seated : s.seats[h]? = some a.seat := by
      rw [seats, List.getElem?_map, present]
      rfl
    have mine (member : (i, l) ∈ s.registry.enrolled k) (hers : l = .handler h) :
        i = a.seat.listener k ∧ (s.keepsListeners = false → a.isOpen = true) := by
      obtain ⟨b, found, holds, isOpen⟩ := reg.known h k i (hers ▸ member)
      obtain rfl : a.seat = b := Option.some.inj (seated.symm.trans found)
      exact ⟨holds.symm, isOpen⟩
    rw [reseat_deactivate present]
    split
    · rw [mem_enrolled_closeIntake]
      refine and_congr_right fun member => ?_
      constructor
      · rintro kept ⟨keeps, hers⟩
        exact kept keeps (mine member hers).1
      · rintro kept keeps rfl
        exact kept ⟨keeps, reg.own h a.seat k l seated member⟩
    · next closed =>
      refine (and_iff_left_of_imp ?_).symm
      rintro member ⟨keeps, hers⟩
      exact closed ((mine member hers).2 keeps)

theorem mem_enrolled_step (reg : Registered s) (step : Step) {k : ListenerKind} {i : Nat}
    {l : Listener} (old : i < s.registry.nextId) :
    (i, l) ∈ (s.step step).1.registry.enrolled k ↔
      (i, l) ∈ s.registry.enrolled k ∧ ¬step.Removes s.keepsListeners k i l := by
  obtain ⟨entries, aired⟩ := airing_step s step
  rw [aired.registry]
  cases step with
  | listen kind label =>
    have other : i ≠ s.registry.nextId := Nat.ne_of_lt old
    change (i, l) ∈ (s.registry.add _ kind).1.enrolled k ↔ _
    simp [Registry.mem_enrolled_add, Step.Removes, other]
  | unlisten kind id =>
    change (i, l) ∈ (s.registry.remove id kind).enrolled k ↔ _
    rw [Registry.mem_enrolled_remove, Step.Removes, not_and, eq_comm (a := k), ne_comm, ne_eq]
  | activate label self p =>
    have other : i ≠ s.nextListener k := by
      have above : s.registry.nextId ≤ s.nextListener k := by
        cases k <;> simp [nextListener, Seat.listener]
      omega
    change (i, l) ∈ (s.enroll label self p).registry.enrolled k ↔ _
    simp [mem_enrolled_enroll, Step.Removes, other]
  | deactivate h => exact mem_enrolled_deactivate reg h
  | _ => simp [reseat, Step.Removes]

theorem registers_of_mem (step : Step) {k : ListenerKind} {i : Nat} {l : Listener}
    (member : (i, l) ∈ (s.step step).1.registry.enrolled k) :
    (i, l) ∈ s.registry.enrolled k ∨ s.Registers k i l step := by
  obtain ⟨entries, aired⟩ := airing_step s step
  rw [aired.registry] at member
  cases step with
  | listen kind label =>
    rcases Registry.mem_enrolled_add.1 member with before | ⟨same, next, mine⟩
    · exact .inl before
    · exact .inr ⟨same, mine, next⟩
  | unlisten kind id => exact .inl (Registry.mem_enrolled_remove.1 member).1
  | activate label self p =>
    rcases mem_enrolled_enroll.1 member with before | ⟨next, mine⟩
    · exact .inl before
    · exact .inr ⟨mine, next⟩
  | deactivate h =>
    cases present : s.handlers[h]? with
    | none =>
      rw [reseat_deactivate_of_none present] at member
      exact .inl member
    | some a =>
      rw [reseat_deactivate present] at member
      split at member
      · exact .inl (mem_enrolled_closeIntake.1 member).1
      · exact .inl member
  | _ => exact .inl member

theorem keepsListeners_step (s : Controller) (step : Step) :
    (s.step step).1.keepsListeners = s.keepsListeners := by
  obtain ⟨_, -, -, -, keeps⟩ := reseat_aside s step
  obtain ⟨_, aired⟩ := airing_step s step
  rw [aired.keepsListeners, keeps]

/-- A step gives out the next identifiers of the count. -/
theorem issued_eq (s : Controller) (step : Step) : ∃ n,
    s.issued step = List.range' s.registry.nextId n ∧
      (s.step step).1.registry.nextId = s.registry.nextId + n := by
  obtain ⟨entries, aired⟩ := airing_step s step
  have given : s.issued step = (s.step step).2.issued ++ ((s.reseat step).seats.drop
      s.seats.length).flatMap fun a => [a.networkListener, a.nodeListener] := by
    rw [← aired.seats, seats, seats, List.length_map, ← List.map_drop, List.flatMap_map]
    rfl
  have none_of (quiet : (s.step step).2.issued = [])
      (length : (s.reseat step).seats.length = s.seats.length)
      (next : (s.reseat step).registry.nextId = s.registry.nextId) : ∃ n,
      s.issued step = List.range' s.registry.nextId n ∧
        (s.step step).1.registry.nextId = s.registry.nextId + n := by
    refine ⟨0, ?_, ?_⟩
    · rw [given, quiet, List.drop_eq_nil_of_le (Nat.le_of_eq length)]
      rfl
    · rw [aired.registry, next]
      rfl
  cases step with
  | listen kind label =>
    refine ⟨1, ?_, ?_⟩
    · have nobody : (s.reseat (.listen kind label)).seats.drop s.seats.length = [] :=
        List.drop_length
      rw [given, nobody]
      cases kind <;> rfl
    · rw [aired.registry]
      exact Registry.nextId_add ..
  | activate label self p =>
    refine ⟨2, ?_, ?_⟩
    · rw [given]
      change [] ++ ((s.enroll label self p).seats.drop s.seats.length).flatMap _ = _
      rw [seats_enroll, List.drop_left]
      rfl
    · rw [aired.registry]
      rfl
  | unlisten kind id => exact none_of rfl rfl (Registry.nextId_remove ..)
  | deactivate h =>
    cases present : s.handlers[h]? with
    | none =>
      rw [reseat_deactivate_of_none present] at none_of
      exact none_of rfl rfl rfl
    | some a =>
      rw [reseat_deactivate present] at none_of
      cases isOpen : a.isOpen with
      | false =>
        rw [isOpen] at none_of
        exact none_of rfl rfl rfl
      | true =>
        rw [isOpen] at none_of
        refine none_of rfl ?_ (nextId_closeIntake s h a)
        change (s.closeIntake h a).seats.length = _
        rw [seats_closeIntake, List.length_modify]
  | disturb d =>
    refine none_of ?_ rfl rfl
    cases d with
    | update u => cases u <;> rfl
    | _ => rfl
  | seed file =>
    refine none_of ?_ rfl rfl
    unfold Controller.step
    dsimp only
    split <;> rfl
  | _ => exact none_of rfl rfl rfl

theorem issuedBy_eq (s : Controller) (steps : List Step) : ∃ n,
    s.issuedBy steps = List.range' s.registry.nextId n ∧
      (s.run steps).registry.nextId = s.registry.nextId + n := by
  induction steps generalizing s with
  | nil => exact ⟨0, rfl, rfl⟩
  | cons step rest ih =>
    obtain ⟨m, given, next⟩ := s.issued_eq step
    obtain ⟨n, later, last⟩ := ih (s.step step).1
    refine ⟨m + n, ?_, ?_⟩
    · rw [issuedBy, given, later, next, List.range'_append_1]
    · rw [run_cons, last, next, Nat.add_assoc]

theorem nextId_le_step (s : Controller) (step : Step) :
    s.registry.nextId ≤ (s.step step).1.registry.nextId := by
  obtain ⟨n, -, next⟩ := s.issued_eq step
  omega

theorem mem_enrolled_run (reg : Registered s) (steps : List Step) {k : ListenerKind} {i : Nat}
    {l : Listener} (old : i < s.registry.nextId) :
    (i, l) ∈ (s.run steps).registry.enrolled k ↔ (i, l) ∈ s.registry.enrolled k ∧
      ∀ step ∈ steps, ¬step.Removes s.keepsListeners k i l := by
  induction steps generalizing s with
  | nil => simp
  | cons step rest ih =>
    have older : i < (s.step step).1.registry.nextId :=
      Nat.lt_of_lt_of_le old (nextId_le_step s step)
    rw [run_cons, ih (reg.step step) older, mem_enrolled_step reg step old, keepsListeners_step,
      List.forall_mem_cons, and_assoc]

end Controller
end GatewayRules
