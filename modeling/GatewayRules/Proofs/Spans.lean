import GatewayRules.Proofs.Registration

/-!
What listeners hear. A listener of a kind hears an event of this kind as often as it is registered
for it, so one that is registered once hears what is raised from the step that registers it to the
step that ends this.
-/
namespace GatewayRules
open Journal
namespace Controller

variable {s t u : Controller}

/-- No step registers the listener for the kind. -/
def Spares (k : ListenerKind) (l : Listener) : Controller → List Step → Prop
  | _, [] => True
  | s, step :: rest => (∀ i, ¬s.Registers k i l step) ∧ Spares k l (s.step step).1 rest

theorem spares_append {k : ListenerKind} {l : Listener} {first second : List Step} :
    Spares k l s (first ++ second) ↔ Spares k l s first ∧ Spares k l (s.run first) second := by
  induction first generalizing s with
  | nil => simp [Spares]
  | cons step rest ih => simp [Spares, ih, and_assoc]

theorem spares_observer {k : ListenerKind} {label : String} {steps : List Step}
    (alone : .listen k label ∉ steps) : Spares k (.observer label) s steps := by
  induction steps generalizing s with
  | nil => trivial
  | cons step rest ih =>
    rw [List.mem_cons, not_or] at alone
    refine ⟨fun i registers => ?_, ih alone.2⟩
    cases step with
    | listen kind other =>
      obtain ⟨rfl, same, -⟩ := registers
      exact alone.1 (by rw [Listener.observer.inj same])
    | activate label' self p => cases registers.1
    | _ => exact registers

theorem length_handlers_step (s : Controller) (step : Step) :
    s.handlers.length ≤ (s.step step).1.handlers.length := by
  obtain ⟨_, aired⟩ := airing_step s step
  rw [← length_seats, ← length_seats, aired.seats]
  cases step with
  | activate label self p =>
    change _ ≤ (s.enroll label self p).seats.length
    rw [seats_enroll, List.length_append]
    omega
  | deactivate h =>
    cases present : s.handlers[h]? with
    | none => rw [reseat_deactivate_of_none present]
    | some a =>
      rw [reseat_deactivate present]
      split
      · rw [seats_closeIntake, List.length_modify]
      · exact Nat.le_refl _
  | _ => exact Nat.le_refl _

theorem length_handlers_run (s : Controller) (steps : List Step) :
    s.handlers.length ≤ (s.run steps).handlers.length := by
  induction steps generalizing s with
  | nil => exact Nat.le_refl _
  | cons step rest ih => exact (length_handlers_step s step).trans (ih _)

theorem length_handlers_of_registers {k : ListenerKind} {i h : Nat} {step : Step}
    (registers : s.Registers k i (.handler h) step) :
    h = s.handlers.length ∧ h < (s.step step).1.handlers.length := by
  cases step with
  | listen kind label => cases registers.2.1
  | activate label self p =>
    obtain ⟨_, aired⟩ := airing_step s (.activate label self p)
    have mine : h = s.handlers.length := Listener.handler.inj registers.1
    refine ⟨mine, ?_⟩
    rw [← length_seats, aired.seats, mine, ← length_seats]
    change _ < (s.enroll label self p).seats.length
    rw [seats_enroll, List.length_append]
    exact Nat.lt_succ_self _
  | _ => exact registers.elim

/-- A handler is registered when it is activated, and at no other time. -/
theorem spares_handler {k : ListenerKind} {h : Nat} {steps : List Step}
    (other : h < s.handlers.length ∨ (s.run steps).handlers.length ≤ h) :
    Spares k (.handler h) s steps := by
  induction steps generalizing s with
  | nil => trivial
  | cons step rest ih =>
    have grows := length_handlers_step s step
    constructor
    · intro i registers
      obtain ⟨mine, inside⟩ := length_handlers_of_registers registers
      have later := length_handlers_run (s.step step).1 rest
      rw [run_cons] at other
      omega
    · apply ih
      rcases other with old | new
      · exact .inl (by omega)
      · exact .inr new

/-- Where nobody registers the listener, it has no registrations but those that it had. -/
theorem sole_run {k : ListenerKind} {l : Listener} {steps : List Step} {p : Nat → Prop}
    (spares : Spares k l s steps) (sole : ∀ i, (i, l) ∈ s.registry.enrolled k → p i) (i : Nat)
    (member : (i, l) ∈ (s.run steps).registry.enrolled k) : p i := by
  induction steps generalizing s with
  | nil => exact sole i member
  | cons step rest ih =>
    refine ih spares.2 (fun j after => ?_) member
    rcases registers_of_mem step after with before | registers
    · exact sole j before
    · exact absurd registers (spares.1 j)

end Controller

namespace Registry

variable {r : Registry}

theorem count_of_absent {k : ListenerKind} {l : Listener}
    (absent : ∀ i, (i, l) ∉ r.enrolled k) : ((r.enrolled k).map (·.2)).count l = 0 := by
  apply List.count_eq_zero.2
  intro member
  obtain ⟨⟨i, m⟩, found, rfl⟩ := List.mem_map.1 member
  exact absent i found

theorem Sound.count_of_sole (sound : r.Sound) {k : ListenerKind} {i : Nat} {l : Listener}
    (member : (i, l) ∈ r.enrolled k) (sole : ∀ j, (j, l) ∈ r.enrolled k → j = i) :
    ((r.enrolled k).map (·.2)).count l = 1 := by
  obtain ⟨first, rest, split⟩ := List.append_of_mem member
  have ordered := sound.ordered k
  rw [split, List.map_append, List.map_cons, List.pairwise_append, List.pairwise_cons] at ordered
  obtain ⟨-, ⟨above, -⟩, below⟩ := ordered
  have early : l ∉ first.map (·.2) := by
    intro found
    obtain ⟨⟨j, m⟩, inside, rfl⟩ := List.mem_map.1 found
    obtain rfl : j = i := sole j (by rw [split]; exact List.mem_append_left _ inside)
    have less : j < j := below j (List.mem_map_of_mem inside) j List.mem_cons_self
    omega
  have late : l ∉ rest.map (·.2) := by
    intro found
    obtain ⟨⟨j, m⟩, inside, rfl⟩ := List.mem_map.1 found
    obtain rfl : j = i :=
      sole j (by rw [split]; exact List.mem_append_right _ (List.mem_cons_of_mem _ inside))
    have less : j < j := above j (List.mem_map_of_mem inside)
    omega
  rw [split, List.map_append, List.map_cons, List.count_append, List.count_cons_self,
    List.count_eq_zero.2 early, List.count_eq_zero.2 late]

end Registry

namespace Controller

variable {s t u : Controller}

/-- A listener that has a number of registrations for a kind throughout a run hears every event of
the kind that many times. -/
theorem heard_run {k : ListenerKind} {l : Listener} {n : Nat} {steps : List Step}
    (each : ∀ first, first ≠ [] → first <+: steps →
      (((s.run first).registry.enrolled k).map (·.2)).count l = n) {part : List Entry}
    (settled : Settled part (since s (s.run steps))) :
    heard l k part = (raisedFor k part).flatMap (List.replicate n) := by
  induction steps generalizing s part with
  | nil =>
    have nothing : since s s = [] := since_eq (List.append_nil _).symm
    rw [run_nil, nothing] at settled
    rw [List.prefix_nil.1 settled.inside]
    rfl
  | cons step rest ih =>
    have one : (((s.step step).1.registry.enrolled k).map (·.2)).count l = n :=
      each [step] (List.cons_ne_nil _ _) (by simp)
    have now {part : List Entry} (early : Settled part (since s (s.step step).1)) :
        heard l k part = (raisedFor k part).flatMap (List.replicate n) := by
      have told : deliveries part = _ := deliveries_step s step early
      rw [heard_of_deliveries told l k, one]
    have later {part : List Entry}
        (late : Settled part (since (s.step step).1 ((s.step step).1.run rest))) :
        heard l k part = (raisedFor k part).flatMap (List.replicate n) :=
      ih (fun first nonempty inside =>
        each (step :: first) (List.cons_ne_nil _ _) ((List.prefix_cons_inj step).2 inside)) late
    rw [run_cons, since_trans (journal_prefix_step s step) (journal_prefix_run _ rest)] at settled
    rcases settled.of_append with early | ⟨after, rfl, late⟩
    · exact now early
    · rw [heard_append, raisedFor_append, List.flatMap_append, now (.inl rfl), later late]

theorem heard_of_absent {k : ListenerKind} {l : Listener} {steps : List Step}
    (absent : ∀ first, first ≠ [] → first <+: steps →
      ∀ i, (i, l) ∉ (s.run first).registry.enrolled k) :
    heard l k (since s (s.run steps)) = [] := by
  have never : heard l k (since s (s.run steps)) =
      (raisedFor k (since s (s.run steps))).flatMap (List.replicate 0) :=
    heard_run (fun first nonempty inside =>
      Registry.count_of_absent (absent first nonempty inside)) (.inl rfl)
  rw [never]
  exact List.flatMap_eq_nil_iff.2 fun e _ => rfl

/-- Who has one registration hears every event once. -/
theorem heard_of_sole (reg : Registered s) {k : ListenerKind} {i : Nat} {l : Listener}
    {steps : List Step}
    (stands : ∀ first, first ≠ [] → first <+: steps → (i, l) ∈ (s.run first).registry.enrolled k ∧
      ∀ j, (j, l) ∈ (s.run first).registry.enrolled k → j = i) {part : List Entry}
    (settled : Settled part (since s (s.run steps))) : heard l k part = raisedFor k part := by
  have always : heard l k part = (raisedFor k part).flatMap (List.replicate 1) := by
    refine heard_run (fun first nonempty inside => ?_) settled
    obtain ⟨member, sole⟩ := stands first nonempty inside
    exact (reg.run first).sound.count_of_sole member sole
  rw [always]
  exact List.flatMap_singleton' _

theorem nextId_le_of_registers {k : ListenerKind} {i : Nat} {l : Listener} {step : Step}
    (registers : s.Registers k i l step) : s.registry.nextId ≤ i := by
  cases step with
  | listen kind label =>
    obtain ⟨-, -, next⟩ := registers
    omega
  | activate label self p =>
    obtain ⟨-, rfl⟩ := registers
    cases k <;> simp [nextListener, Seat.listener]
  | _ => exact registers.elim

theorem unique_of_registers {k : ListenerKind} {i j : Nat} {l : Listener} {step : Step}
    (one : s.Registers k i l step) (other : s.Registers k j l step) : j = i := by
  cases step with
  | listen kind label => exact other.2.2.trans one.2.2.symm
  | activate label self p => exact other.2.trans one.2.symm
  | _ => exact one.elim

/-- A registration in a run: a step makes it, it outlasts those that follow, and the one after them
ends it if there is one. A handler has a listener of its own; an observer is alone under its label
for the kind. -/
structure Span (first : Controller) (before : List Step) (step : Step) (during after : List Step)
    (k : ListenerKind) (i : Nat) (l : Listener) : Prop where
  anew : (i, l) ∉ (first.run before).registry.enrolled k
  made : (i, l) ∈ ((first.run before).step step).1.registry.enrolled k
  alone : ∀ label, l = .observer label → .listen k label ∉ before ++ (during ++ after)
  outlasts : ∀ d ∈ during, ¬d.Removes first.keepsListeners k i l
  ends : ∀ d ∈ after.head?, d.Removes first.keepsListeners k i l

theorem keepsListeners_run (s : Controller) (steps : List Step) :
    (s.run steps).keepsListeners = s.keepsListeners := by
  induction steps generalizing s with
  | nil => rfl
  | cons step rest ih => exact (ih _).trans (keepsListeners_step s step)

namespace Span

variable {first : Controller} {before during after : List Step} {step : Step} {k : ListenerKind}
  {i : Nat} {l : Listener}

theorem registers (span : Span first before step during after k i l) :
    (first.run before).Registers k i l step :=
  (registers_of_mem step span.made).resolve_left span.anew

theorem spares (span : Span first before step during after k i l) :
    Spares k l first before ∧ Spares k l ((first.run before).step step).1 (during ++ after) := by
  have registers := span.registers
  have alone := span.alone
  cases l with
  | observer label =>
    have away := alone label rfl
    rw [List.mem_append, not_or] at away
    exact ⟨spares_observer away.1, spares_observer away.2⟩
  | handler h =>
    obtain ⟨mine, inside⟩ := length_handlers_of_registers registers
    exact ⟨spares_handler (.inr (Nat.le_of_eq mine.symm)), spares_handler (.inl inside)⟩

theorem issued (span : Span first before step during after k i l) (reg : Registered first) :
    i ∈ (first.run before).issued step := by
  obtain ⟨n, given, next⟩ := (first.run before).issued_eq step
  have above := nextId_le_of_registers span.registers
  have below := ((reg.run before).step step).sound.issued k i l span.made
  rw [given, List.mem_range'_1]
  exact ⟨above, next ▸ below⟩

theorem stands (span : Span first before step during after k i l) (reg : Registered first)
    {part : List Step} (inside : part <+: during) :
    (i, l) ∈ (((first.run before).step step).1.run part).registry.enrolled k := by
  obtain ⟨rest, rfl⟩ := inside
  have regT := (reg.run before).step step
  refine (mem_enrolled_run regT part (regT.sound.issued k i l span.made)).2
    ⟨span.made, fun d member => ?_⟩
  rw [keepsListeners_step, keepsListeners_run]
  exact span.outlasts d (List.mem_append_left _ member)

theorem absent (span : Span first before step during after k i l)
    (empty : ∀ j, (j, l) ∉ first.registry.enrolled k) {part : List Step}
    (inside : part <+: before) (j : Nat) : (j, l) ∉ (first.run part).registry.enrolled k := by
  obtain ⟨rest, rfl⟩ := inside
  exact sole_run (spares_append.1 span.spares.1).1 empty j

/-- From the step on it has no other than the one. -/
theorem sole (span : Span first before step during after k i l)
    (empty : ∀ j, (j, l) ∉ first.registry.enrolled k) {part : List Step}
    (inside : part <+: during ++ after) (j : Nat)
    (member : (j, l) ∈ (((first.run before).step step).1.run part).registry.enrolled k) :
    j = i := by
  obtain ⟨rest, whole⟩ := inside
  have spares := span.spares.2
  rw [← whole] at spares
  refine sole_run (p := (· = i)) (spares_append.1 spares).1 (fun j member => ?_) j member
  rcases registers_of_mem step member with old | again
  · exact absurd old (span.absent empty List.prefix_rfl j)
  · exact unique_of_registers span.registers again

theorem gone (span : Span first before step during after k i l) (reg : Registered first)
    (empty : ∀ j, (j, l) ∉ first.registry.enrolled k) {part : List Step} (nonempty : part ≠ [])
    (inside : part <+: after) (j : Nat) :
    (j, l) ∉ ((((first.run before).step step).1.run during).run part).registry.enrolled k := by
  intro member
  have regU := ((reg.run before).step step).run during
  have below := regU.sound.issued k i l (span.stands reg List.prefix_rfl)
  have same : j = i := by
    refine span.sole empty ((List.prefix_append_right_inj during).2 inside) j ?_
    rw [run_append]
    exact member
  obtain ⟨d, others, rfl⟩ := List.exists_cons_of_ne_nil nonempty
  obtain ⟨rest, rfl⟩ := inside
  have kept := ((mem_enrolled_run regU (d :: others) below).1 (same ▸ member)).2 d List.mem_cons_self
  rw [keepsListeners_run, keepsListeners_step, keepsListeners_run] at kept
  exact kept (span.ends d rfl)

/-- While it is registered the listener hears everything of the kind. -/
theorem heard_within (span : Span first before step during after k i l) (reg : Registered first)
    (empty : ∀ j, (j, l) ∉ first.registry.enrolled k) {part : List Entry}
    (settled : Settled part (since (first.run before) ((first.run before).run (step :: during)))) :
    heard l k part = raisedFor k part := by
  refine heard_of_sole (i := i) (reg.run before) (fun begun nonempty inside => ?_) settled
  obtain ⟨d, others, rfl⟩ := List.exists_cons_of_ne_nil nonempty
  obtain ⟨rest, whole⟩ := inside
  obtain ⟨rfl, rfl⟩ := List.cons.inj whole
  have early : others <+: others ++ rest := List.prefix_append _ _
  exact ⟨span.stands reg early, span.sole empty (early.trans (List.prefix_append _ _))⟩

/-- The listener hears what is raised from the step that registers it to the one that ends this. -/
theorem heard_eq (span : Span first before step during after k i l) (reg : Registered first)
    (empty : ∀ j, (j, l) ∉ first.registry.enrolled k) :
    heard l k (since first (first.run (before ++ step :: (during ++ after)))) =
      raisedFor k (since (first.run before) (first.run (before ++ step :: during))) := by
  let s := first.run before
  let u := (s.step step).1.run during
  have ahead : heard l k (since first s) = [] :=
    heard_of_absent fun part _ inside => span.absent empty inside
  have within : heard l k (since s u) = raisedFor k (since s u) :=
    span.heard_within reg empty (.inl rfl)
  have beyond : heard l k (since u (u.run after)) = [] :=
    heard_of_absent fun part nonempty inside => span.gone reg empty nonempty inside
  have toU : s.journal <+: u.journal := journal_prefix_run s (step :: during)
  have toEnd : u.journal <+: (u.run after).journal := journal_prefix_run u after
  have atU : first.run (before ++ step :: during) = u := run_append ..
  have atEnd : first.run (before ++ step :: (during ++ after)) = u.run after := by
    rw [run_append, run_cons, run_append]
  rw [atEnd, atU, since_trans (journal_prefix_run first before) (toU.trans toEnd),
    since_trans toU toEnd, heard_append, heard_append, ahead, within, beyond, List.append_nil]
  rfl

end Span

/-- No identifier is given out twice, as a machine word too while words suffice. -/
theorem nodup_issuedBy {first : Controller} {steps : List Step}
    (fresh : first.registry.nextId = 0) (few : (first.issuedBy steps).length < UInt64.size) :
    ((first.issuedBy steps).map UInt64.ofNat).Nodup := by
  obtain ⟨n, given, -⟩ := first.issuedBy_eq steps
  rw [given, List.length_range'] at few
  rw [given]
  refine List.Nodup.map_on (fun i inI j inJ same => ?_) (List.nodup_range' 1)
  rw [List.mem_range'_1] at inI inJ
  have size : UInt64.size = 2 ^ 64 := rfl
  have words := congrArg UInt64.toNat same
  rwa [UInt64.toNat_ofNat', UInt64.toNat_ofNat', Nat.mod_eq_of_lt (by omega),
    Nat.mod_eq_of_lt (by omega)] at words

theorem step_unlisten_of_absent {k : ListenerKind} {i : Nat}
    (absent : ∀ l, (i, l) ∉ s.registry.enrolled k) : (s.step (.unlisten k i)).1 = s := by
  change { s with registry := s.registry.remove i k } = s
  rw [Registry.remove_of_absent absent]

/-- An identifier that is not given out removes nothing. -/
theorem step_unlisten_unknown {first : Controller} (reg : Registered first) {steps : List Step}
    (fresh : first.registry.nextId = 0) {k : ListenerKind} {i : Nat}
    (unknown : i ∉ first.issuedBy steps) :
    ((first.run steps).step (.unlisten k i)).1 = first.run steps := by
  apply step_unlisten_of_absent
  intro l member
  obtain ⟨n, given, next⟩ := first.issuedBy_eq steps
  have below := (reg.run steps).sound.issued k i l member
  apply unknown
  rw [given, List.mem_range'_1]
  omega

/-- An identifier of a registration never removes one of the other kind. -/
theorem step_unlisten_other (reg : Registered s) {steps : List Step} {k j : ListenerKind} {i : Nat}
    {l : Listener} (member : (i, l) ∈ s.registry.enrolled k) (other : j ≠ k) :
    ((s.run steps).step (.unlisten j i)).1 = s.run steps := by
  apply step_unlisten_of_absent
  intro m later
  have below := reg.sound.issued k i l member
  have earlier := ((mem_enrolled_run reg steps below).1 later).1
  exact other (reg.sound.one j k i m l earlier member).1

/-- An identifier whose registration has ended removes nothing. -/
theorem step_unlisten_removed (reg : Registered s) {step : Step} {steps : List Step}
    {k : ListenerKind} {i : Nat} {l : Listener} (member : (i, l) ∈ s.registry.enrolled k)
    (removed : step.Removes s.keepsListeners k i l) :
    (((s.step step).1.run steps).step (.unlisten k i)).1 = (s.step step).1.run steps := by
  apply step_unlisten_of_absent
  intro m later
  have below := reg.sound.issued k i l member
  have belowT := Nat.lt_of_lt_of_le below (nextId_le_step s step)
  have next := ((mem_enrolled_run (reg.step step) steps belowT).1 later).1
  obtain ⟨earlier, kept⟩ := (mem_enrolled_step reg step below).1 next
  obtain rfl : m = l := (reg.sound.one k k i m l earlier member).2
  exact kept removed

/-- Identifiers of both kinds are distinct, as machine words too. Every event goes once to each
registration of its kind, in their order. A removal by an identifier that is not given out, that is
of the other kind or whose registration has ended changes nothing. And a listener hears, in order
and once each, exactly the events of its kind between its registration and the end of this. -/
theorem listeners_hear_their_span (leadership : Leadership) (fixedPort : Option Port)
    (keepsListeners logsRequests : Bool) (before : List Step) (step : Step)
    (during after : List Step)
    (few : ((start leadership fixedPort keepsListeners logsRequests).issuedBy
      (before ++ step :: (during ++ after))).length < UInt64.size) :
    let first := start leadership fixedPort keepsListeners logsRequests
    let s := first.run before
    let t := first.run (before ++ [step])
    let u := first.run (before ++ step :: during)
    let last := first.run (before ++ step :: (during ++ after))
    ((first.issuedBy (before ++ step :: (during ++ after))).map UInt64.ofNat).Nodup ∧
    (deliveries (since s t) = (raised (since s t)).flatMap fun e =>
      (t.registry.enrolled e.kind).map fun p => (p.2, e)) ∧
    (∀ k, ((t.registry.enrolled k).map (·.1)).Pairwise (· < ·)) ∧
    (∀ k i, i ∉ first.issuedBy before → (s.step (.unlisten k i)).1 = s) ∧
    (∀ k j i l, (i, l) ∈ t.registry.enrolled k → j ≠ k → (u.step (.unlisten j i)).1 = u) ∧
    (∀ k i l, (i, l) ∈ s.registry.enrolled k → step.Removes keepsListeners k i l →
      (u.step (.unlisten k i)).1 = u) ∧
    ∀ k i l, Span first before step during after k i l →
      i ∈ s.issued step ∧
      (∀ part, part <+: during → (i, l) ∈ (t.run part).registry.enrolled k) ∧
      (∀ part, part ≠ [] → part <+: after → (i, l) ∉ (u.run part).registry.enrolled k) ∧
      heard l k last.journal = raisedFor k (since s u) := by
  intro first s t u last
  have reg : Registered first := .start leadership fixedPort keepsListeners logsRequests
  have empty (k : ListenerKind) (l : Listener) : ∀ j, (j, l) ∉ first.registry.enrolled k := by
    intro j member
    cases k <;> cases member
  have atT : t = (s.step step).1 := run_append ..
  have atU : u = (s.step step).1.run during := run_append ..
  have keeps : s.keepsListeners = keepsListeners := keepsListeners_run first before
  refine ⟨nodup_issuedBy rfl few, ?_, (reg.run _).sound.ordered, fun k i =>
    step_unlisten_unknown reg rfl, ?_, ?_, ?_⟩
  · have told := deliveries_step s step (.inl rfl)
    simp only [Registry.audience_eq, List.map_map] at told
    rw [atT]
    exact told
  · intro k j i l member other
    rw [atU]
    rw [atT] at member
    exact step_unlisten_other ((reg.run before).step step) member other
  · intro k i l member removed
    rw [atU]
    exact step_unlisten_removed (reg.run before) member (keeps ▸ removed)
  · intro k i l span
    refine ⟨span.issued reg, fun part inside => ?_, fun part nonempty inside => ?_, ?_⟩
    · rw [atT]
      exact span.stands reg inside
    · rw [atU]
      exact span.gone reg (empty k l) nonempty inside i
    · exact span.heard_eq reg (empty k l)

/-- An observer among others: it is not removed by its identifier under the other kind, nor by the
removal of the first observer or by the end of the handler. -/
theorem listeners_hear_their_span_among_others :
    let n : Network := ⟨"host", "blue", .vxlan, default, none⟩
    let m : Network := { n with encapsulation := .gre }
    let before : List Step := [.listen .network "a", .activate "one" ⟨"a"⟩ .default,
      .disturb (.update (.upsertNetwork n))]
    let during : List Step := [.disturb (.update (.upsertNetwork m)), .unlisten .node 3,
      .listen .node "b", .unlisten .network 0, .deactivate 0,
      .disturb (.update (.removeNetwork "blue"))]
    let after : List Step := [.unlisten .network 3, .disturb (.update (.upsertNetwork n))]
    let first := start (.appointed none) none false false
    let s := first.run before
    let u := first.run (before ++ .listen .network "b" :: during)
    let last := first.run (before ++ .listen .network "b" :: (during ++ after))
    first.issuedBy (before ++ .listen .network "b" :: (during ++ after)) = [0, 1, 2, 3, 4] ∧
      Span first before (.listen .network "b") during after .network 3 (.observer "b") ∧
      heard (.observer "b") .network last.journal = raisedFor .network (since s u) ∧
      raisedFor .network (since s u) = [.network .updated m, .network .removed m] ∧
      (u.step (.unlisten .node 3)).1 = u := by
  intro n m before during after first s u last
  have given : first.issuedBy (before ++ .listen .network "b" :: (during ++ after)) =
      [0, 1, 2, 3, 4] := by decide
  have few : (first.issuedBy (before ++ .listen .network "b" :: (during ++ after))).length <
      UInt64.size := by
    rw [given]
    decide
  have span : Span first before (.listen .network "b") during after .network 3 (.observer "b") := by
    constructor
    · decide
    · decide
    · rintro label same
      rw [← Listener.observer.inj same]
      decide
    · intro d member
      simp only [during, List.mem_cons, List.not_mem_nil, or_false] at member
      rcases member with rfl | rfl | rfl | rfl | rfl | rfl <;> simp [Step.Removes]
    · rintro d ⟨⟩
      exact ⟨rfl, rfl⟩
  obtain ⟨-, -, -, -, other, -, spans⟩ := listeners_hear_their_span (.appointed none) none false
    false before (.listen .network "b") during after few
  obtain ⟨-, -, -, hears⟩ := spans .network 3 (.observer "b") span
  refine ⟨given, span, hears, by decide, ?_⟩
  exact other .network .node 3 (.observer "b") (by decide) (by decide)

end Controller
end GatewayRules
