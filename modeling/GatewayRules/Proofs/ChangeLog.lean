import GatewayRules.Proofs.Queue

/-!
The events about networks as a change log. Whoever has heard them all can tell the stored networks
from them, and every event fits the networks before it.
-/
namespace GatewayRules
open Journal

namespace Event

/-- What is stored under each identifier after an event, as far as the event tells. -/
def record (networks : String → Option Network) : Event → String → Option Network
  | .network .created n | .network .updated n => Function.update networks n.id (some n)
  | .network .removed n => Function.update networks n.id none
  | .node .. => networks

/-- The event tells of a change that networks can undergo. -/
def Fits (networks : String → Option Network) : Event → Prop
  | .network .created n => networks n.id = none
  | .network .updated n => ∃ stored, networks n.id = some stored ∧ stored ≠ n
  | .network .removed n => networks n.id = some n
  | .node .. => False

/-- What is stored after a log of events that begins with nothing stored. -/
def rebuild (log : List Event) : String → Option Network := log.foldl record fun _ => none

theorem rebuild_concat (log : List Event) (e : Event) :
    rebuild (log ++ [e]) = record (rebuild log) e := List.foldl_append

theorem Fits.record_ne {networks : String → Option Network} {e : Event} (fits : e.Fits networks) :
    record networks e ≠ networks := by
  cases e with
  | node change x => exact fits.elim
  | network change n =>
    intro same
    have entry := congrFun same n.id
    cases change with
    | created =>
      have before : networks n.id = none := fits
      simp [record, before] at entry
    | updated =>
      obtain ⟨stored, before, differs⟩ := fits
      have after : some n = some stored := by simpa [record, before] using entry
      exact differs (Option.some.inj after).symm
    | removed =>
      have before : networks n.id = some n := fits
      simp [record, before] at entry

/-- The log tells what is stored, and each of its events fits what the events before it tell. -/
structure Accounts (log : List Event) (networks : String → Option Network) : Prop where
  rebuilt : rebuild log = networks
  fitting : ∀ earlier e, earlier ++ [e] <+: log → e.Fits (rebuild earlier)

theorem accounts_nil : Accounts [] fun _ => none where
  rebuilt := rfl
  fitting earlier e before := by simp at before

theorem Accounts.concat {log : List Event} {networks : String → Option Network}
    (acc : Accounts log networks) {e : Event} (fits : e.Fits networks) :
    Accounts (log ++ [e]) (record networks e) where
  rebuilt := by rw [rebuild_concat, acc.rebuilt]
  fitting earlier d before := by
    rcases List.prefix_concat_iff.1 before with last | before
    · obtain ⟨rfl, rfl⟩ := List.append_singleton_inj.1 last
      rw [acc.rebuilt]
      exact fits
    · exact acc.fitting earlier d before

end Event

namespace Inventory

theorem network?_upsertNetwork (v : Inventory) (n : Network) :
    (v.update (.upsertNetwork n)).network? = Function.update v.network? n.id (some n) := by
  funext id
  by_cases same : id = n.id
  · subst id
    rw [Function.update_self]
    exact v.networks.find?_insert_self n
  · rw [Function.update_of_ne same]
    exact v.networks.find?_insert_of_ne (Ne.symm same)

theorem network?_removeNetwork (v : Inventory) (id : String) :
    (v.update (.removeNetwork id)).network? = Function.update v.network? id none := by
  funext k
  by_cases same : k = id
  · subst k
    rw [Function.update_self]
    exact v.networks.find?_erase_self id
  · rw [Function.update_of_ne same]
    exact v.networks.find?_erase_of_ne same

/-- An update raises an event about a network if and only if it changes what is stored, and the
event tells how. -/
theorem event?_network (v : Inventory) (u : Update) :
    (∃ change n, v.event? u = some (.network change n) ∧
      (Event.network change n).Fits v.network? ∧
      (v.update u).network? = Event.record v.network? (.network change n)) ∨
    (∀ change n, v.event? u ≠ some (.network change n)) ∧
      (v.update u).network? = v.network? := by
  cases u with
  | upsertNetwork n =>
    rw [network?_upsertNetwork]
    cases stored : v.network? n.id with
    | none => exact .inl ⟨.created, n, by simp [event?, stored], stored, rfl⟩
    | some before =>
      by_cases same : before = n
      · refine .inr ⟨fun change m => by simp [event?, stored, same], ?_⟩
        rw [← same] at stored ⊢
        rw [← stored, Function.update_eq_self]
      · exact .inl ⟨.updated, n, by simp [event?, stored, same], ⟨before, stored, same⟩, rfl⟩
  | removeNetwork id =>
    rw [network?_removeNetwork]
    cases stored : v.network? id with
    | none =>
      refine .inr ⟨fun change m => by simp [event?, stored], ?_⟩
      rw [← stored, Function.update_eq_self]
    | some n =>
      obtain rfl : n.id = id := (network?_eq_some_iff.1 stored).2
      exact .inl ⟨.removed, n, by simp [event?, stored], stored, rfl⟩
  | upsertNode x =>
    refine .inr ⟨fun change n => ?_, rfl⟩
    simp only [event?]
    split <;> simp
  | removeNode hostname => exact .inr ⟨fun change n => by simp [event?], rfl⟩

end Inventory

namespace Controller

/-- An observer has listened to networks from the beginning, under a label of its own, and has been
told all that is stored. -/
structure Observed (label : String) (s : Controller) : Prop where
  heard : ∀ change n, (s.registry.audience (.network change n)).count (.observer label) = 1
  deaf : ∀ change x, .observer label ∉ s.registry.audience (.node change x)
  -- Identifiers count up from 0, which nobody else has then, and nobody else can give back.
  own : ∀ i, (i, .observer label) ∈ s.registry.networks → i = 0
  later : 0 < s.registry.nextId
  others : 0 ∉ s.handlers.map Handler.networkListener
  told : Event.Accounts (delivered (.observer label) s.journal) s.inventory.network?

namespace Observed

variable {label : String} {s t : Controller}

theorem quiet (obs : Observed label s) (registry : t.registry = s.registry)
    (handlers : t.handlers.map Handler.networkListener = s.handlers.map Handler.networkListener)
    (inventory : t.inventory = s.inventory) (entries : List Entry)
    (journal : t.journal = s.journal ++ entries)
    (silent : delivered (.observer label) entries = []) : Observed label t where
  heard := registry ▸ obs.heard
  deaf := registry ▸ obs.deaf
  own := registry ▸ obs.own
  later := registry ▸ obs.later
  others := handlers ▸ obs.others
  told := by
    rw [journal, delivered_append, silent, List.append_nil, inventory]
    exact obs.told

theorem note (obs : Observed label s) {e : Entry}
    (silent : e.deliveredTo? (.observer label) = none) : Observed label (s.note e) :=
  obs.quiet rfl rfl rfl [e] rfl (by simp [delivered, silent])

theorem same (obs : Observed label s) (registry : t.registry = s.registry)
    (handlers : t.handlers.map Handler.networkListener = s.handlers.map Handler.networkListener)
    (inventory : t.inventory = s.inventory) (journal : t.journal = s.journal) :
    Observed label t :=
  obs.quiet registry handlers inventory [] (by rw [journal, List.append_nil]) rfl

theorem logSome (obs : Observed label s) (n : Option Notice) : Observed label (s.logSome n) := by
  cases n with
  | none => exact obs
  | some n => exact obs.note rfl

/-- The observer is told of an update once if it changes the networks, and otherwise not at all. -/
theorem delivered_update (obs : Observed label s) (u : Update) :
    (∃ e, e.Fits s.inventory.network? ∧
      (s.update u).inventory.network? = e.record s.inventory.network? ∧
      delivered (.observer label) (s.update u).journal =
        delivered (.observer label) s.journal ++ [e]) ∨
    ((s.update u).inventory.network? = s.inventory.network? ∧
      delivered (.observer label) (s.update u).journal =
        delivered (.observer label) s.journal) := by
  obtain ⟨schedule, entries, same, -, heard⟩ := update_spec s u
  have hears : delivered (.observer label) (s.update u).journal =
      delivered (.observer label) s.journal ++ delivered (.observer label) entries := by
    rw [same, delivered_append]
    rfl
  have inventory : (s.update u).inventory = s.inventory.update u := by rw [same]
  rw [hears, inventory, heard]
  rcases s.inventory.event?_network u with ⟨change, n, raised, fits, networks⟩ | ⟨none, networks⟩
  · refine .inl ⟨.network change n, fits, networks, ?_⟩
    simp [raised, obs.heard]
  · refine .inr ⟨networks, ?_⟩
    cases raised : s.inventory.event? u with
    | none => exact List.append_nil _
    | some e =>
      cases e with
      | network change n => exact absurd raised (none change n)
      | node change x =>
        have unheard := List.count_eq_zero.2 (obs.deaf change x)
        simp [unheard]

theorem update (obs : Observed label s) (u : Update) : Observed label (s.update u) := by
  have told := obs.delivered_update u
  obtain ⟨schedule, entries, same, -, -⟩ := update_spec s u
  have registry : (s.update u).registry = s.registry := by rw [same]
  have handlers : (s.update u).handlers.map Handler.networkListener =
      s.handlers.map Handler.networkListener := by
    rw [same]
    refine map_afterUpdate (fun t a => ?_) s u
    unfold Handler.receive
    split <;> rfl
  refine ⟨registry ▸ obs.heard, registry ▸ obs.deaf, registry ▸ obs.own, registry ▸ obs.later,
    handlers ▸ obs.others, ?_⟩
  rcases told with ⟨e, fits, networks, more⟩ | ⟨networks, more⟩
  · rw [more, networks]
    exact obs.told.concat fits
  · rw [more, networks]
    exact obs.told

theorem lead (obs : Observed label s) (leadership : Leadership) :
    Observed label { s with leadership } := obs.same rfl rfl rfl rfl

theorem disturb (obs : Observed label s) (d : Disturbance) : Observed label (s.disturb d) := by
  cases d with
  | update u => exact obs.update u
  | appoint leader => exact obs.lead _
  | refuse device reason | accept device => exact obs.same rfl rfl rfl rfl

theorem working (obs : Observed label s) {h : Nat} {allowed : Call → Prop}
    (w : Working h allowed s t) : Observed label t := by
  refine w.keeps (fun t n _ obs => obs.note rfl) (fun t c crashes _ obs => ?_)
    (fun t hooks obs => ?_) (fun t d obs => obs.disturb d) obs
  · exact (obs.note (e := .call h c) rfl).same rfl rfl rfl rfl
  · exact obs.same rfl rfl rfl rfl

theorem work (obs : Observed label s) (h : Nat) : Observed label (s.work h) := by
  rcases work_cases s h with same | ended | ⟨a, task, rest, -, -, w⟩
  · rwa [same]
  · rw [ended]
    exact (obs.note (e := .log .queueDrained) rfl).same rfl
      (Handler.map_modify s.handlers h fun _ => rfl) rfl rfl
  · have taken : Observed label (s.take h task rest) :=
      (obs.note (e := .taken h task) rfl).same rfl
        (Handler.map_modify s.handlers h fun _ => rfl) rfl rfl
    exact taken.working w

theorem add (obs : Observed label s) {l : Listener} (other : l ≠ .observer label)
    (kind : ListenerKind) : Observed label { s with registry := (s.registry.add l kind).1 } where
  heard change n := by
    have heard := obs.heard change n
    cases kind <;>
      simpa [Registry.add, Registry.audience, List.count_append, List.count_singleton, other]
        using heard
  deaf change x := by
    have deaf := obs.deaf change x
    cases kind <;> simpa [Registry.add, Registry.audience, other.symm] using deaf
  own i member := by
    have own := obs.own i
    cases kind
    · have stranger : (i, Listener.observer label) ≠ (s.registry.nextId, l) :=
        fun same => other (Prod.mk.inj same).2.symm
      exact own (by simpa [Registry.add, stranger] using member)
    · exact own member
  later := by cases kind <;> exact Nat.succ_pos _
  others := obs.others
  told := obs.told

theorem remove (obs : Observed label s) (kind : ListenerKind) (id : Nat)
    (other : kind = .network → id ≠ 0) :
    Observed label { s with registry := s.registry.remove id kind } where
  heard change n := by
    have heard := obs.heard change n
    cases kind with
    | node => exact heard
    | network =>
      rw [← heard]
      exact Registry.count_filter fun i member same =>
        other rfl (same.symm.trans (obs.own i member))
  deaf change x heard := obs.deaf change x ((Registry.audience_remove _ _ _ _).subset heard)
  own i member := by
    cases kind with
    | network => exact obs.own i (List.mem_filter.1 member).1
    | node => exact obs.own i member
  later := by cases kind <;> exact obs.later
  others := obs.others
  told := obs.told

theorem enroll (obs : Observed label s) (handler : String) (self : Member) (p : Placement) :
    Observed label (s.enroll handler self p) := by
  have first := obs.add (l := .handler s.handlers.length) nofun .network
  have second := first.add (l := .handler s.handlers.length) nofun .node
  refine { second with others := fun member => ?_ }
  have more : (s.enroll handler self p).handlers.map Handler.networkListener =
      s.handlers.map Handler.networkListener ++ [s.registry.nextId] := List.map_append
  rw [more, List.mem_append, List.mem_singleton] at member
  exact member.elim obs.others fun same => obs.later.ne same

theorem close (obs : Observed label s) {h : Nat} {a : Handler}
    (present : s.handlers[h]? = some a) : Observed label (s.closeIntake h a) := by
  have own : a.networkListener ≠ 0 := fun same =>
    obs.others (List.mem_map.2 ⟨a, List.mem_of_getElem? present, same⟩)
  have fewer : Observed label { s with registry := (s.closeIntake h a).registry } := by
    unfold closeIntake
    dsimp only [Controller.note, modifyHandler]
    split
    · exact obs
    · exact (obs.remove .node a.nodeListener nofun).remove .network _ fun _ => own
  exact fewer.quiet rfl (Handler.map_modify s.handlers h fun _ => rfl) rfl [.closed h] rfl rfl

theorem act (obs : Observed label s) {act : Act}
    (alone : ∀ kind, act ≠ .listen kind label) (stays : act ≠ .unlisten .network 0) :
    Observed label (s.act act) := by
  cases act with
  | log n => exact obs.note rfl
  | disturb d => exact obs.disturb d
  | arrange schedule | armCrash crash | armHook hook => exact obs.same rfl rfl rfl rfl
  | listen kind other =>
    exact obs.add (fun same => alone kind (by rw [Listener.observer.inj same])) kind
  | unlisten kind id =>
    refine obs.remove kind id fun network first => stays ?_
    rw [network, first]
  | enroll handler self p => exact obs.enroll handler self p
  | stand h g =>
    exact ((obs.lead _).note (e := .call h (.run g.topic)) rfl).logSome _
  | withdraw h g =>
    exact ((obs.lead _).note (e := .call h (.withdraw g.topic)) rfl).logSome _
  | close h =>
    unfold Controller.act
    dsimp only
    split
    · exact obs
    · next a present => exact obs.close present
  | work h => exact obs.work h
  | loseWorkers =>
    refine obs.same rfl ?_ rfl rfl
    change (s.handlers.map _).map Handler.networkListener = s.handlers.map Handler.networkListener
    rw [List.map_map]
    refine List.map_congr_left fun a _ => ?_
    rw [Function.comp_apply]
    split <;> rfl
  | reconcile h n action =>
    simp only [Controller.act, Controller.reconcile]
    split
    · exact obs
    · exact obs.working (pass_working s h _ n action)

end Observed

variable (leadership : Leadership) (fixedPort : Option Port) (keepsListeners logsRequests : Bool)

def observedFrom (label : String) : Controller :=
  ((start leadership fixedPort keepsListeners logsRequests).step (.listen .network label)).1

theorem observed_observedFrom (label : String) :
    Observed label (observedFrom leadership fixedPort keepsListeners logsRequests label) where
  heard change n := by
    simp [observedFrom, step, start, initial, Registry.empty, Registry.add, Registry.audience]
  deaf change x := by
    simp [observedFrom, step, start, initial, Registry.empty, Registry.add, Registry.audience]
  own i member := by
    simpa [observedFrom, step, start, initial, Registry.empty, Registry.add] using member
  later := Nat.one_pos
  others := List.not_mem_nil
  told := Event.accounts_nil

/-- An observer that stays is told everything, whatever else happens. -/
theorem run_observed (label : String) (steps : List Step)
    (alone : ∀ kind, .listen kind label ∉ steps) (stays : .unlisten .network 0 ∉ steps) :
    Observed label
      ((observedFrom leadership fixedPort keepsListeners logsRequests label).run steps) := by
  have keep (s : Controller) (act : Act)
      (ok : (∀ kind, act ≠ .listen kind label) ∧ act ≠ .unlisten .network 0)
      (obs : Observed label s) : Observed label (s.act act) := obs.act ok.1 ok.2
  refine (run_acts _ steps fun step member act ok => ⟨?_, ?_⟩).keeps keep
    (observed_observedFrom leadership fixedPort keepsListeners logsRequests label)
  · rintro kind rfl
    cases step <;> simp [Step.Allows, Act.IsTurn] at ok
    obtain ⟨rfl, rfl⟩ := ok
    exact alone kind member
  · rintro rfl
    cases step <;> simp [Step.Allows, Act.IsTurn] at ok
    obtain ⟨rfl, rfl⟩ := ok
    exact stays member

/-- The events about networks are an exact change log. Whatever happens in a run, what an observer
has heard since the beginning tells at every point which networks are stored, every event that it
has heard fits what the events before tell, and a further update is told once if it changes the
networks, and otherwise not at all. -/
theorem network_events_are_change_log (label : String) (steps : List Step)
    (alone : ∀ kind, .listen kind label ∉ steps) (stays : .unlisten .network 0 ∉ steps) :
    let s := (observedFrom leadership fixedPort keepsListeners logsRequests label).run steps
    let heard : Controller → List Event := fun t => delivered (.observer label) t.journal
    Event.rebuild (heard s) = s.inventory.network? ∧
    (∀ earlier e, earlier ++ [e] <+: heard s → e.Fits (Event.rebuild earlier)) ∧
    ∀ u,
      let t := (s.step (.disturb (.update u))).1
      (t.inventory.network? = s.inventory.network? → heard t = heard s) ∧
      (t.inventory.network? ≠ s.inventory.network? → ∃ e, heard t = heard s ++ [e]) := by
  intro s heard
  have obs : Observed label s :=
    run_observed leadership fixedPort keepsListeners logsRequests label steps alone stays
  refine ⟨obs.told.rebuilt, obs.told.fitting, fun u => ?_⟩
  rcases obs.delivered_update u with ⟨e, fits, networks, told⟩ | ⟨networks, untold⟩
  · have changed : (s.update u).inventory.network? ≠ s.inventory.network? :=
      networks ▸ fits.record_ne
    exact ⟨fun same => absurd same changed, fun _ => ⟨e, told⟩⟩
  · exact ⟨fun _ => untold, fun changed => absurd networks changed⟩

/-- A network that is stored, stored again, changed, removed and stored once more. -/
theorem network_events_are_change_log_recreated :
    let n : Network := ⟨"host", "blue", .vxlan, default, none⟩
    let m : Network := { n with encapsulation := .gre }
    let steps : List Step := [.disturb (.update (.upsertNetwork n)),
      .disturb (.update (.upsertNetwork n)), .disturb (.update (.upsertNetwork m)),
      .disturb (.update (.removeNetwork "blue")), .disturb (.update (.removeNetwork "blue")),
      .disturb (.update (.upsertNetwork n))]
    let s := (observedFrom (.appointed none) none false false "log").run steps
    (∀ kind, .listen kind "log" ∉ steps) ∧ .unlisten .network 0 ∉ steps ∧
      delivered (.observer "log") s.journal = [.network .created n, .network .updated m,
        .network .removed m, .network .created n] ∧
      Event.rebuild [.network .created n, .network .updated m, .network .removed m,
        .network .created n] = s.inventory.network? ∧
      delivered (.observer "log") (s.step (.disturb (.update (.upsertNetwork n)))).1.journal =
        delivered (.observer "log") s.journal := by
  intro n m steps s
  have alone : ∀ kind, .listen kind "log" ∉ steps := by
    intro kind
    cases kind <;> decide
  have stays : .unlisten .network 0 ∉ steps := by decide
  have heard : delivered (.observer "log") s.journal = [.network .created n, .network .updated m,
      .network .removed m, .network .created n] := by decide
  obtain ⟨rebuilt, -, next⟩ :=
    network_events_are_change_log (.appointed none) none false false "log" steps alone stays
  refine ⟨alone, stays, heard, ?_, (next (.upsertNetwork n)).1 ?_⟩
  · rw [← heard]
    exact rebuilt
  · have stored : s.inventory.network? n.id = some n := by decide
    change (s.update (.upsertNetwork n)).inventory.network? = s.inventory.network?
    obtain ⟨schedule, entries, same, -, -⟩ := update_spec s (.upsertNetwork n)
    rw [same]
    exact (Inventory.network?_upsertNetwork _ _).trans (by rw [← stored, Function.update_eq_self])

end Controller
end GatewayRules
