import GatewayRules.Proofs.Spans
import Mathlib.Data.List.Chain

/-!
Events about nodes. Between two removals of a node its events are the switches of a state that is
incomplete at first: they alternate, and the last one tells whether the node is complete.
-/
namespace GatewayRules
open Journal

def Event.changeOf? (h : String) : Event → Option NodeChange
  | .node change x => if x.hostname = h then some change else none
  | .network .. => none

def changesOf (h : String) (events : List Event) : List NodeChange :=
  events.filterMap (Event.changeOf? h)

theorem changesOf_append (h : String) (first second : List Event) :
    changesOf h (first ++ second) = changesOf h first ++ changesOf h second :=
  List.filterMap_append

theorem changesOf_raisedFor (h : String) (entries : List Entry) :
    changesOf h (raisedFor .node entries) = changesOf h (raised entries) := by
  unfold changesOf raisedFor
  rw [List.filterMap_filter]
  congr 1
  funext e
  cases e <;> rfl

def Readiness.change : Readiness → NodeChange
  | .complete => .complete
  | .incomplete => .incomplete

namespace Inventory

variable {h : String}

/-- Where a node stands, as the change that leads there; a node that is not stored is not ready. -/
def standing (v : Inventory) (h : String) : NodeChange :=
  match v.node? h with
  | some x => x.readiness.change
  | none => .incomplete

theorem standing_of_some {v : Inventory} {x : Node} (stored : v.node? h = some x) :
    v.standing h = x.readiness.change := by
  unfold standing
  rw [stored]

theorem standing_of_none {v : Inventory} (absent : v.node? h = none) :
    v.standing h = .incomplete := by
  unfold standing
  rw [absent]

theorem standing_eq_complete_iff {v : Inventory} :
    v.standing h = .complete ↔ ∃ x ∈ v.completeNodes, x.hostname = h := by
  constructor
  · intro complete
    cases stored : v.node? h with
    | none =>
      rw [standing_of_none stored] at complete
      cases complete
    | some x =>
      obtain ⟨member, named⟩ := node?_eq_some_iff.1 stored
      rw [standing_of_some stored] at complete
      refine ⟨x, mem_completeNodes.2 ⟨member, ?_⟩, named⟩
      unfold Node.isComplete
      cases ready : x.readiness with
      | incomplete =>
        rw [ready] at complete
        cases complete
      | complete => rfl
  · rintro ⟨x, member, named⟩
    obtain ⟨member, complete⟩ := mem_completeNodes.1 member
    rw [standing_of_some (node?_eq_some_iff.2 ⟨member, named⟩)]
    have ready : x.readiness = .complete := eq_of_beq complete
    rw [ready]
    rfl

theorem node?_upsertNode (v : Inventory) (x : Node) :
    (v.update (.upsertNode x)).node? x.hostname = some x := v.nodes.find?_insert_self x

/-- What an upsert tells of its node: where this stands now, unless it stood there before. -/
theorem event?_upsertNode (v : Inventory) (x : Node) : v.event? (.upsertNode x) =
    if x.readiness.change = v.standing x.hostname then none
    else some (.node x.readiness.change x) := by
  unfold standing
  simp only [event?]
  cases stored : v.node? x.hostname with
  | none => cases x.readiness <;> rfl
  | some y =>
    rw [Option.map_some]
    obtain ⟨_, _, _, _, before, _⟩ := y
    obtain ⟨_, _, _, _, now, _⟩ := x
    cases before <;> cases now <;> rfl

theorem eq_upsertNode_of_event? {v : Inventory} {u : Update} {change : NodeChange} {x : Node}
    (event : v.event? u = some (.node change x)) : u = .upsertNode x := by
  cases u with
  | upsertNode y =>
    rw [event?_upsertNode] at event
    split at event
    · cases event
    · cases event
      rfl
  | upsertNetwork n =>
    simp only [event?] at event
    split at event
    · cases event
    · split at event <;> cases event
  | removeNetwork id =>
    obtain ⟨n, -, same⟩ := Option.map_eq_some_iff.1 event
    cases same
  | removeNode hostname => cases event

/-- Only an upsert of the node changes where it stands, as long as it is not removed. -/
theorem changesOf_event? (v : Inventory) {u : Update} (kept : u ≠ .removeNode h) :
    changesOf h (v.event? u).toList =
      if (v.update u).standing h = v.standing h then [] else [(v.update u).standing h] := by
  have unmoved (quiet : changesOf h (v.event? u).toList = [])
      (same : (v.update u).node? h = v.node? h) : changesOf h (v.event? u).toList =
        if (v.update u).standing h = v.standing h then [] else [(v.update u).standing h] := by
    have stands : (v.update u).standing h = v.standing h := by
      unfold standing
      rw [same]
    rw [quiet, if_pos stands]
  cases u with
  | upsertNetwork n =>
    refine unmoved ?_ rfl
    unfold event?
    dsimp only
    split
    · rfl
    · split <;> rfl
  | removeNetwork id =>
    refine unmoved ?_ rfl
    unfold event?
    dsimp only
    cases v.network? id <;> rfl
  | removeNode hostname =>
    have other : h ≠ hostname := fun same => kept (same ▸ rfl)
    exact unmoved rfl (v.nodes.find?_erase_of_ne other)
  | upsertNode x =>
    by_cases mine : x.hostname = h
    · subst mine
      rw [event?_upsertNode, standing_of_some (v.node?_upsertNode x)]
      split
      · rfl
      · simp [changesOf, Event.changeOf?]
    · refine unmoved ?_ (v.nodes.find?_insert_of_ne mine)
      rw [event?_upsertNode]
      split
      · rfl
      · simp [changesOf, Event.changeOf?, mine]

/-- As long as a node is not removed, the changes to it lead from where it stands to where it stands
in the end, and every one of them is another than the one before. -/
theorem changesOf_raisedBy (v : Inventory) {us : List Update} (kept : .removeNode h ∉ us) :
    (v.standing h :: changesOf h (v.raisedBy us)).IsChain (· ≠ ·) ∧
      (v.standing h :: changesOf h (v.raisedBy us)).getLast? = some ((v.after us).standing h) := by
  induction us generalizing v with
  | nil => exact ⟨.singleton _, rfl⟩
  | cons u rest ih =>
    rw [List.mem_cons, not_or] at kept
    obtain ⟨chain, last⟩ := ih (v.update u) kept.2
    rw [raisedBy, changesOf_append, changesOf_event? v (Ne.symm kept.1)]
    split
    · next same =>
      rw [List.nil_append, ← same]
      exact ⟨chain, last⟩
    · next moved =>
      rw [List.singleton_append, List.isChain_cons_cons, List.getLast?_cons_cons]
      exact ⟨⟨Ne.symm moved, chain⟩, last⟩

/-- A node that is not stored at first: its changes alternate beginning with its completion, and the
last of them tells whether it is complete. -/
theorem changesOf_raisedBy_of_absent {v : Inventory} (absent : v.node? h = none) {us : List Update}
    (kept : .removeNode h ∉ us) :
    (changesOf h (v.raisedBy us)).IsChain (· ≠ ·) ∧
      (changesOf h (v.raisedBy us)).head? ≠ some .incomplete ∧
        ((∃ x ∈ (v.after us).completeNodes, x.hostname = h) ↔
          (changesOf h (v.raisedBy us)).getLast? = some .complete) := by
  obtain ⟨chain, last⟩ := v.changesOf_raisedBy kept
  rw [standing_of_none absent] at chain last
  rw [← standing_eq_complete_iff]
  generalize changesOf h (v.raisedBy us) = changes at chain last
  rw [List.isChain_cons] at chain
  refine ⟨chain.2, fun first => chain.1 .incomplete first rfl, ?_⟩
  cases changes with
  | nil =>
    have stands : .incomplete = (v.after us).standing h := Option.some.inj last
    rw [← stands]
    simp
  | cons first rest =>
    rw [List.getLast?_cons_cons] at last
    rw [last, Option.some.injEq]

end Inventory

def Entry.Removes (h : String) (d : Entry) : Prop := ∃ e, d = .updated (.removeNode h) e

namespace Controller

variable {s t : Controller} {entries : List Entry} {h : String}

/-- The event that is noted with an update is the one that it raises. -/
theorem Recorded.event (recorded : Recorded s t entries) {part : List Entry} {u : Update}
    {e : Option Event} (noted : part ++ [.updated u e] <+: entries) :
    e = (s.inventory.after (updates part)).event? u := by
  have before := recorded.raised part ((List.prefix_append _ _).trans noted)
  have both := recorded.raised _ noted
  obtain ⟨unit, one⟩ := raised_of_news (u := u) (e := e) (List.forall_mem_nil Entry.IsNews)
  rw [raised_append, updates_append, Inventory.raisedBy_append, before, one, unit] at both
  have same : e.toList = ((s.inventory.after (updates part)).event? u).toList :=
    (List.append_cancel_left both).trans (List.append_nil _)
  have heads := congrArg List.head? same
  rwa [Option.head?_toList, Option.head?_toList] at heads

theorem Recorded.event_of_mem (recorded : Recorded s t entries) {u : Update} {e : Option Event}
    (member : .updated u e ∈ entries) : ∃ v : Inventory, e = v.event? u := by
  obtain ⟨part, rest, rfl⟩ := List.append_of_mem member
  have noted : part ++ [.updated u e] <+: part ++ .updated u e :: rest :=
    ⟨rest, List.append_cons _ _ _ |>.symm⟩
  exact ⟨_, recorded.event noted⟩

theorem Recorded.raised_between (recorded : Recorded s t entries) {earlier part : List Entry}
    (inside : earlier ++ part <+: entries) :
    Journal.raised part = (s.inventory.after (updates earlier)).raisedBy (updates part) := by
  have before := recorded.raised earlier ((List.prefix_append _ _).trans inside)
  have both := recorded.raised _ inside
  rw [raised_append, updates_append, Inventory.raisedBy_append, before] at both
  exact List.append_cancel_left both

/-- After updates of which the last, if there is one, removes a node, the node is not stored. -/
theorem node?_after_of_removed {v : Inventory} (absent : v.node? h = none)
    (removed : ∀ d ∈ entries.getLast?, d.Removes h) :
    (v.after (updates entries)).node? h = none := by
  rcases List.eq_nil_or_concat entries with rfl | ⟨before, last, rfl⟩
  · exact absent
  · rw [List.concat_eq_append] at removed ⊢
    obtain ⟨e, rfl⟩ := removed last (by simp)
    have unit : updates [.updated (.removeNode h) e] = [.removeNode h] := rfl
    rw [updates_append, unit, Inventory.after_concat]
    exact Catalog.find?_erase_self _ h

theorem settled_of_head? {first rest : List Entry} (next : ∀ d ∈ rest.head?, d.Removes h) :
    Settled first (first ++ rest) := by
  cases rest with
  | nil => exact .inl (List.append_nil _).symm
  | cons d others =>
    obtain ⟨e, rfl⟩ := next d rfl
    exact .inr ⟨_, e, ⟨others, (List.append_cons _ _ _).symm⟩⟩

/-- After a removal everything is told, for it raises nothing. -/
theorem heard_of_removed (recorded : Recorded s t entries) {k : ListenerKind} {l : Listener}
    (hears : ∀ {part}, Settled part entries → heard l k part = raisedFor k part)
    {part : List Entry} (inside : part <+: entries) (removed : ∀ d ∈ part.getLast?, d.Removes h) :
    heard l k part = raisedFor k part := by
  rcases List.eq_nil_or_concat part with rfl | ⟨before, last, rfl⟩
  · rfl
  · rw [List.concat_eq_append] at inside removed ⊢
    obtain ⟨e, rfl⟩ := removed last (by simp)
    obtain rfl : e = none := recorded.event inside
    rw [heard_append, raisedFor_append, hears (.inr ⟨_, _, inside⟩)]
    rfl

theorem not_mem_updates_of_kept (kept : ∀ d ∈ entries, ¬d.Removes h) :
    .removeNode h ∉ updates entries := by
  intro member
  obtain ⟨d, found, same⟩ := List.mem_filterMap.1 member
  cases d with
  | updated u e =>
    obtain rfl : u = .removeNode h := Option.some.inj same
    exact kept _ found ⟨e, rfl⟩
  | _ => cases same

/-- Between two removals of a node, or from the beginning, or to the end, one who hears what is raised
hears alternating changes to the node, and at the end the last of them tells its state. -/
theorem changes_between (recorded : Recorded s t entries) (absent : s.inventory.node? h = none)
    {l : Listener}
    (hears : ∀ {part}, Settled part entries → heard l .node part = raisedFor .node part)
    {earlier part later : List Entry} (journal : entries = earlier ++ part ++ later)
    (removed : ∀ d ∈ earlier.getLast?, d.Removes h) (kept : ∀ d ∈ part, ¬d.Removes h)
    (next : ∀ d ∈ later.head?, d.Removes h) :
    (changesOf h (heard l .node part)).IsChain (· ≠ ·) ∧
      (changesOf h (heard l .node part)).head? ≠ some .incomplete ∧
      (later = [] → ((∃ x ∈ t.inventory.completeNodes, x.hostname = h) ↔
        (changesOf h (heard l .node part)).getLast? = some .complete)) := by
  have settled : Settled (earlier ++ part) entries := by
    rw [journal]
    exact settled_of_head? next
  have heardEarlier : heard l .node earlier = raisedFor .node earlier :=
    heard_of_removed recorded hears ((List.prefix_append _ _).trans settled.inside) removed
  have heardBoth := hears settled
  rw [raisedFor_append, ← heardEarlier] at heardBoth
  have heardPart : heard l .node part = raisedFor .node part :=
    List.append_cancel_left ((heard_append ..).symm.trans heardBoth)
  have raisedPart := recorded.raised_between settled.inside
  have missing : (s.inventory.after (updates earlier)).node? h = none :=
    node?_after_of_removed absent removed
  obtain ⟨chain, head, last⟩ :=
    Inventory.changesOf_raisedBy_of_absent missing (not_mem_updates_of_kept kept)
  rw [heardPart, changesOf_raisedFor, raisedPart]
  refine ⟨chain, head, fun ended => ?_⟩
  have reached : t.inventory = (s.inventory.after (updates earlier)).after (updates part) := by
    rw [recorded.inventory, journal, ended, List.append_nil, updates_append]
    exact List.foldl_append
  rw [reached]
  exact last

/-- An update adds nothing to what is heard of nodes, or one event about the record it stores. -/
theorem heard_update (s : Controller) (u : Update) {l : Listener}
    (before : heard l .node s.journal = raisedFor .node s.journal)
    (after : heard l .node (s.update u).journal = raisedFor .node (s.update u).journal) :
    heard l .node (s.update u).journal = heard l .node s.journal ∨
      ∃ change x, u = .upsertNode x ∧ (s.update u).inventory.node? x.hostname = some x ∧
        heard l .node (s.update u).journal = heard l .node s.journal ++ [.node change x] := by
  obtain ⟨schedule, news, same, about, -⟩ := update_spec s u
  have journal : (s.update u).journal = s.journal ++ .updated u (s.inventory.event? u) :: news :=
    congrArg Controller.journal same
  have more : heard l .node (s.update u).journal =
      heard l .node s.journal ++ (s.inventory.event? u).toList.filter (·.kind = .node) := by
    rw [after, journal, raisedFor_append, before]
    unfold raisedFor
    rw [(raised_of_news about).2]
  cases event : s.inventory.event? u with
  | none =>
    rw [event] at more
    exact .inl (more.trans (List.append_nil _))
  | some e =>
    rw [event] at more
    cases e with
    | network change n => exact .inl (more.trans (List.append_nil _))
    | node change x =>
      obtain rfl := Inventory.eq_upsertNode_of_event? event
      refine .inr ⟨change, x, rfl, ?_, more⟩
      have inventory : (s.update (.upsertNode x)).inventory =
          s.inventory.update (.upsertNode x) := congrArg Controller.inventory same
      rw [inventory]
      exact s.inventory.node?_upsertNode x

variable (leadership : Leadership) (fixedPort : Option Port) (keepsListeners logsRequests : Bool)

/-- An observer that listens from the beginning of a run to its end. -/
theorem span_of_first {k : ListenerKind} {label : String} {steps : List Step}
    (alone : .listen k label ∉ steps) (stays : .unlisten k 0 ∉ steps) :
    Span (start leadership fixedPort keepsListeners logsRequests) [] (.listen k label) steps [] k 0
      (.observer label) := by
  constructor
  · intro member
    cases k <;> cases member
  · cases k <;> exact List.mem_singleton_self _
  · intro other same
    obtain rfl := Listener.observer.inj same
    rw [List.append_nil]
    exact alone
  · intro d member removes
    cases d with
    | unlisten kind id =>
      obtain ⟨rfl, rfl⟩ := removes
      exact stays member
    | deactivate h => cases removes.2
    | _ => exact removes
  · intro d none
    cases none

/-- It has heard what was raised, whenever everything is told. -/
theorem heard_of_first {k : ListenerKind} {label : String} {steps : List Step}
    (alone : .listen k label ∉ steps) (stays : .unlisten k 0 ∉ steps) {part : List Entry}
    (settled : Settled part
      ((start leadership fixedPort keepsListeners logsRequests).run
        (.listen k label :: steps)).journal) :
    heard (.observer label) k part = raisedFor k part := by
  have span := span_of_first leadership fixedPort keepsListeners logsRequests alone stays
  refine span.heard_within (.start leadership fixedPort keepsListeners logsRequests) ?_ settled
  intro j member
  cases k <;> cases member

/-- Events about a node alternate and tell whether it is complete. Between two removals of a node,
or from the beginning of a run, or to its end, an observer hears of changes to the node that
alternate beginning with its completion. The node is complete at the end if and only if this is the
last that was heard since. What is heard is what is raised; the upsert of a record raises only events
about this record, which is then the one stored, and no other update raises an event about a node. -/
theorem node_events_alternate (label : String) (steps : List Step)
    (alone : .listen .node label ∉ steps) (stays : .unlisten .node 0 ∉ steps) (h : String) :
    let s := (start leadership fixedPort keepsListeners logsRequests).run
      (.listen .node label :: steps)
    let told : List Entry → List Event := heard (.observer label) .node
    (∀ earlier entries later, s.journal = earlier ++ entries ++ later →
      (∀ d ∈ earlier.getLast?, d.Removes h) → (∀ d ∈ entries, ¬d.Removes h) →
      (∀ d ∈ later.head?, d.Removes h) →
      (changesOf h (told entries)).IsChain (· ≠ ·) ∧
      (changesOf h (told entries)).head? ≠ some .incomplete ∧
      (later = [] → ((∃ x ∈ s.inventory.completeNodes, x.hostname = h) ↔
        (changesOf h (told entries)).getLast? = some .complete))) ∧
    told s.journal = raisedFor .node s.journal ∧
    (∀ u change x, .updated u (some (.node change x)) ∈ s.journal → u = .upsertNode x) ∧
    (∀ e, .updated (.removeNode h) (some e) ∉ s.journal) ∧
    ∀ u, let t := (s.step (.disturb (.update u))).1
      told t.journal = told s.journal ∨
        ∃ change x, u = .upsertNode x ∧ t.inventory.node? x.hostname = some x ∧
          told t.journal = told s.journal ++ [.node change x] := by
  intro s told
  let first := start leadership fixedPort keepsListeners logsRequests
  have recorded : Recorded first s s.journal := recorded_run first (.listen .node label :: steps)
  have hears {part : List Entry} (settled : Settled part s.journal) :
      told part = raisedFor .node part :=
    heard_of_first leadership fixedPort keepsListeners logsRequests alone stays settled
  refine ⟨fun earlier entries later journal removed kept next => ?_, hears (.inl rfl), ?_, ?_, ?_⟩
  · exact changes_between recorded rfl hears journal removed kept next
  · intro u change x member
    obtain ⟨v, event⟩ := recorded.event_of_mem member
    exact Inventory.eq_upsertNode_of_event? event.symm
  · intro e member
    obtain ⟨v, event⟩ := recorded.event_of_mem member
    cases event
  · intro u t
    refine heard_update s u (hears (.inl rfl)) ?_
    have later : s.update u = first.run (.listen .node label :: (steps ++ [.disturb (.update u)])) := by
      rw [← List.cons_append, run_append]
      rfl
    rw [later]
    refine heard_of_first leadership fixedPort keepsListeners logsRequests ?_ ?_ (.inl rfl)
    · simpa using alone
    · simpa using stays

/-- A node that is removed while it is complete begins anew when it is stored again. -/
theorem node_events_alternate_removed_complete :
    let x : Node := ⟨"host", ⟨"br"⟩, default, default, .complete, .none⟩
    let y : Node := { x with hostname := "other" }
    let steps : List Step := [.disturb (.update (.upsertNode x)),
      .disturb (.update (.removeNode "host")), .disturb (.update (.upsertNode y)),
      .disturb (.update (.upsertNode x)), .disturb (.update (.upsertNode { x with bridge := ⟨"br2"⟩ }))]
    let s := (start (.appointed none) none false false).run (.listen .node "log" :: steps)
    let told := heard (.observer "log") .node
    let earlier := s.journal.take 4
    let entries := s.journal.drop 4
    .listen .node "log" ∉ steps ∧ .unlisten .node 0 ∉ steps ∧
      earlier.getLast? = some (.updated (.removeNode "host") none) ∧
      changesOf "host" (told s.journal) = [.complete, .complete] ∧
      changesOf "host" (told entries) = [.complete] ∧
      (changesOf "host" (told entries)).IsChain (· ≠ ·) ∧
      (changesOf "host" (told entries)).head? ≠ some .incomplete ∧
      ((∃ z ∈ s.inventory.completeNodes, z.hostname = "host") ↔
        (changesOf "host" (told entries)).getLast? = some .complete) := by
  intro x y steps s told earlier entries
  have alone : .listen .node "log" ∉ steps := by decide
  have stays : .unlisten .node 0 ∉ steps := by decide
  have journal : s.journal = earlier ++ entries ++ [] := by
    rw [List.append_nil, List.take_append_drop]
  have silent : earlier.getLast? = some (.updated (.removeNode "host") none) := by decide
  have removed : ∀ d ∈ earlier.getLast?, d.Removes "host" := by
    rw [silent]
    rintro d ⟨⟩
    exact ⟨none, rfl⟩
  have kept : ∀ d ∈ entries, ¬d.Removes "host" := by
    have all : updates entries =
        [.upsertNode y, .upsertNode x, .upsertNode { x with bridge := ⟨"br2"⟩ }] := by decide
    rintro d member ⟨e, rfl⟩
    have changed : .removeNode "host" ∈ updates entries :=
      List.mem_filterMap.2 ⟨_, member, rfl⟩
    rw [all] at changed
    revert changed
    decide
  obtain ⟨segments, -⟩ :=
    node_events_alternate (.appointed none) none false false "log" steps alone stays "host"
  obtain ⟨chain, head, last⟩ := segments earlier entries [] journal removed kept (by simp)
  exact ⟨alone, stays, silent, by decide, by decide, chain, head, last rfl⟩

end Controller
end GatewayRules
