import GatewayRules.Proofs.Reading
import GatewayRules.Wire.Flow
import GatewayRules.Wire.Settings

/-!
The order of the members of an object does not matter. Two members that have been met one after the
other could have been met the other way round, with the same outcome, so it stays the same under
every permutation. A member whose name nobody knows leaves no trace at all.
-/
namespace GatewayRules.Json

def Unknown (known : List String) (m : Quotation × Tree) : Prop :=
  ∃ name, m.1.text = .ok name ∧ name ∉ known

/-- A text that is read as an object is read in the same way when the members stand in another order
and others of unknown names stand among them. -/
def Reader.Lenient {α : Type} (r : Reader α) (known : List String) : Prop :=
  ∀ s s' members members' extras a,
    Spells (.padded (.object members .closed)) s → Spells (.padded (.object members' .closed)) s' →
      members'.Perm (members ++ extras) → (∀ m ∈ extras, Unknown known m) →
        r.readText s = .ok a → r.readText s' = .ok a

/-- A text that is read as an object is read in the same way when the members stand in another
order. -/
def Reader.Unordered {α : Type} (r : Reader α) : Prop :=
  ∀ s s' members members' a,
    Spells (.padded (.object members .closed)) s → Spells (.padded (.object members' .closed)) s' →
      members'.Perm members → r.readText s = .ok a → r.readText s' = .ok a

theorem Tree.skip_of_mem {ms : List (Quotation × Tree)} (whole : skipMembers ms = .ok ()) :
    ∀ m ∈ ms, m.2.skip = .ok () := by
  induction ms with
  | nil => exact List.forall_mem_nil _
  | cons m ms ih =>
    obtain ⟨-, first, others⟩ := skipMembers_cons_iff.1 whole
    exact List.forall_mem_cons.2 ⟨first, ih others⟩

namespace Fields

variable {types : List Type} (fields : Fields types) {mode : Mode}

theorem meet_swap {name name' : String} {t t' : Tree} {draft next last : Draft types}
    (first : fields.meet mode name t draft = .ok next)
    (second : fields.meet mode name' t' next = .ok last) :
    ∃ other, fields.meet mode name' t' draft = .ok other ∧
      fields.meet mode name t other = .ok last := by
  induction fields with
  | nil => exact ⟨(), meet_nil_iff.2 (meet_nil_iff.1 second), meet_nil_iff.2 (meet_nil_iff.1 first)⟩
  | cons f rest ih =>
    obtain ⟨value, draft⟩ := draft
    obtain ⟨same, rfl, b, read, rfl⟩ | ⟨other, next, met, rfl⟩ := meet_cons_iff.1 first
    · obtain ⟨-, filled, -⟩ | ⟨other', last, met', rfl⟩ := meet_cons_iff.1 second
      · cases filled
      · refine ⟨.cons none last, ?_, ?_⟩
        · exact meet_cons_iff.2 (.inr ⟨other', last, met', rfl⟩)
        · exact meet_cons_iff.2 (.inl ⟨same, rfl, b, read, rfl⟩)
    · obtain ⟨same', rfl, b, read, rfl⟩ | ⟨other', last, met', rfl⟩ := meet_cons_iff.1 second
      · refine ⟨.cons (some b) draft, ?_, ?_⟩
        · exact meet_cons_iff.2 (.inl ⟨same', rfl, b, read, rfl⟩)
        · exact meet_cons_iff.2 (.inr ⟨other, next, met, rfl⟩)
      · obtain ⟨middle, met', met⟩ := ih met met'
        refine ⟨.cons value middle, ?_, ?_⟩
        · exact meet_cons_iff.2 (.inr ⟨other', middle, met', rfl⟩)
        · exact meet_cons_iff.2 (.inr ⟨other, last, met, rfl⟩)

theorem meet_of_not_mem {name : String} {t : Tree} (unknown : name ∉ fields.names)
    (whole : t.skip = .ok ()) (draft : Draft types) :
    fields.meet mode name t draft = .ok draft := by
  induction fields with
  | nil => exact meet_nil_iff.2 fun _ => whole
  | cons f rest ih =>
    obtain ⟨value, draft⟩ := draft
    obtain ⟨other, unknown⟩ := not_or.1 (mt List.mem_cons.2 unknown)
    exact meet_cons_iff.2 (.inr ⟨other, draft, ih unknown draft, rfl⟩)

theorem meetAll_of_perm {ms ms' : List (Quotation × Tree)} (perm : ms.Perm ms')
    {draft last : Draft types} (met : fields.meetAll mode ms draft = .ok last) :
    fields.meetAll mode ms' draft = .ok last := by
  induction perm generalizing draft with
  | nil => exact met
  | cons m _ ih =>
    obtain ⟨name, next, named, first, others⟩ := meetAll_cons_iff.1 met
    exact meetAll_cons_iff.2 ⟨name, next, named, first, ih others⟩
  | swap m m' ms =>
    obtain ⟨name, next, named, first, met⟩ := meetAll_cons_iff.1 met
    obtain ⟨name', last', named', second, others⟩ := meetAll_cons_iff.1 met
    obtain ⟨other, first', second'⟩ := fields.meet_swap first second
    refine meetAll_cons_iff.2 ⟨name', other, named', first', ?_⟩
    exact meetAll_cons_iff.2 ⟨name, last', named, second', others⟩
  | trans _ _ ih ih' => exact ih' (ih met)

theorem meetAll_append_of_unknown {extras : List (Quotation × Tree)}
    (unknown : ∀ m ∈ extras, Unknown fields.names m) (whole : ∀ m ∈ extras, m.2.skip = .ok ())
    (ms : List (Quotation × Tree)) {draft last : Draft types}
    (met : fields.meetAll mode ms draft = .ok last) :
    fields.meetAll mode (ms ++ extras) draft = .ok last := by
  induction ms generalizing draft with
  | cons m ms ih =>
    obtain ⟨name, next, named, first, others⟩ := meetAll_cons_iff.1 met
    exact meetAll_cons_iff.2 ⟨name, next, named, first, ih others⟩
  | nil =>
    induction extras with
    | nil => exact met
    | cons m extras ih =>
      obtain ⟨⟨name, named, foreign⟩, unknown⟩ := List.forall_mem_cons.1 unknown
      obtain ⟨sound, whole⟩ := List.forall_mem_cons.1 whole
      refine meetAll_cons_iff.2 ⟨name, draft, named, ?_, ih unknown whole⟩
      exact fields.meet_of_not_mem foreign sound draft

end Fields

namespace Record

variable {types : List Type} {α : Type} (r : Record types α)

theorem read_of_perm {mode : Mode} {members members' extras : List (Quotation × Tree)}
    {close : ObjectEnd} {a : α} (perm : members'.Perm (members ++ extras))
    (unknown : ∀ m ∈ extras, Unknown r.fields.names m) (whole : ∀ m ∈ extras, m.2.skip = .ok ())
    (read : r.read mode (.object members close) = .ok a) :
    r.read mode (.object members' close) = .ok a := by
  obtain ⟨draft, row, met, closed, filled, made⟩ := read_object_iff.1 read
  have more := r.fields.meetAll_append_of_unknown unknown whole members met
  have met' := r.fields.meetAll_of_perm perm.symm more
  exact read_object_iff.2 ⟨draft, row, met', closed, filled, made⟩

theorem lenient : r.read.Lenient r.fields.names := by
  intro s s' members members' extras a spelled spelled' perm unknown read
  have whole : ∀ m ∈ members', m.2.skip = .ok () :=
    Tree.skip_of_mem (Tree.skip_object_iff.1 (Tree.whole_of_spells spelled')).1
  have sound (m : Quotation × Tree) (member : m ∈ extras) : m.2.skip = .ok () :=
    whole m (perm.mem_iff.2 (List.mem_append_right _ member))
  rw [Reader.readText_of_spells _ spelled] at read
  rw [Reader.readText_of_spells _ spelled']
  exact r.read_of_perm perm unknown sound read

end Record

end GatewayRules.Json

namespace GatewayRules.Update
open Json

def ReadsRecord (read : Reader Update) : Prop :=
  ∃ (β : Type) (r : Record [β] Update), read = r.read

/-- Every kind of update is read as a record. -/
theorem readsRecord_of_readKind {t : Tree} {read : Reader Update}
    (known : readKind t = .ok read) : ReadsRecord read := by
  have kind : ∀ k ∈ kinds, ReadsRecord k.2 := by
    simp only [kinds, List.forall_mem_cons]
    exact ⟨⟨_, _, rfl⟩, ⟨_, _, rfl⟩, ⟨_, _, rfl⟩, ⟨_, _, rfl⟩, List.forall_mem_nil _⟩
  cases t with
  | string q =>
    obtain ⟨name, -, named⟩ := bind_eq_ok_iff.1 known
    exact kind (name, read) (Reader.mem_of_variantNamed named)
  | _ => cases known

variable {kind kind' : Option (Reader Update)} {others others' taken : List (Quotation × Tree)}

theorem Takes.of_perm {m : Quotation × Tree} (takes : Takes kind others m kind' taken)
    (same : others.Perm others') :
    ∃ taken', Takes kind others' m kind' taken' ∧ taken.Perm taken' := by
  cases takes with
  | kind named known => exact ⟨others', .kind named known, same⟩
  | @other q t _ _ _ named other vetted =>
    exact ⟨(q, t) :: others', .other named other vetted, same.cons (q, t)⟩

/-- Two members may be taken in in either order, the kind first or last. -/
theorem Takes.swap {middle : Option (Reader Update)} {m m' : Quotation × Tree}
    (first : Takes kind others m middle others') (second : Takes middle others' m' kind' taken) :
    ∃ middle' others'' taken', Takes kind others m' middle' others'' ∧
      Takes middle' others'' m kind' taken' ∧ taken.Perm taken' := by
  cases first with
  | kind named known =>
    cases second with
    | other named' other vetted =>
      exact ⟨_, _, _, .other named' other vetted, .kind named known, .refl _⟩
  | other named other vetted =>
    cases second with
    | kind named' known => exact ⟨_, _, _, .kind named' known, .other named other vetted, .refl _⟩
    | other named' other' vetted' =>
      exact ⟨_, _, _, .other named' other' vetted', .other named other vetted, .swap _ _ _⟩

theorem takeMembers_of_perm_others (same : others.Perm others') {ms : List (Quotation × Tree)}
    (done : takeMembers kind others ms = .ok (kind', taken)) :
    ∃ taken', takeMembers kind others' ms = .ok (kind', taken') ∧ taken.Perm taken' := by
  induction ms generalizing kind others others' with
  | nil =>
    cases done
    exact ⟨others', rfl, same⟩
  | cons m ms ih =>
    obtain ⟨_, _, takes, later⟩ := takeMembers_cons_iff.1 done
    obtain ⟨_, takes', next⟩ := takes.of_perm same
    obtain ⟨taken', done', perm⟩ := ih next later
    exact ⟨taken', takeMembers_cons_iff.2 ⟨_, _, takes', done'⟩, perm⟩

/-- Wherever the kind stands among the members, it is found, and the other members are taken in. -/
theorem takeMembers_of_perm {ms ms' : List (Quotation × Tree)} (perm : ms.Perm ms')
    (done : takeMembers kind others ms = .ok (kind', taken)) :
    ∃ taken', takeMembers kind others ms' = .ok (kind', taken') ∧ taken.Perm taken' := by
  induction perm generalizing kind others taken with
  | nil => exact ⟨taken, done, .refl _⟩
  | cons m _ ih =>
    obtain ⟨_, _, takes, later⟩ := takeMembers_cons_iff.1 done
    obtain ⟨taken', done', perm⟩ := ih later
    exact ⟨taken', takeMembers_cons_iff.2 ⟨_, _, takes, done'⟩, perm⟩
  | swap m m' ms =>
    obtain ⟨_, _, first, later⟩ := takeMembers_cons_iff.1 done
    obtain ⟨_, _, second, later⟩ := takeMembers_cons_iff.1 later
    obtain ⟨_, _, _, second', first', same⟩ := first.swap second
    obtain ⟨taken', done', perm⟩ := takeMembers_of_perm_others same later
    refine ⟨taken', takeMembers_cons_iff.2 ⟨_, _, second', ?_⟩, perm⟩
    exact takeMembers_cons_iff.2 ⟨_, _, first', done'⟩
  | trans _ _ ih ih' =>
    obtain ⟨middle, done, perm⟩ := ih done
    obtain ⟨taken', done', perm'⟩ := ih' done
    exact ⟨taken', done', perm.trans perm'⟩

theorem unordered : reader.Unordered := by
  intro s s' members members' u spelled spelled' perm read
  rw [Reader.readText_of_spells _ spelled] at read
  rw [Reader.readText_of_spells _ spelled']
  obtain ⟨-, kind, others, done, read⟩ := reader_object_iff.1 read
  obtain ⟨others', done', perm'⟩ := takeMembers_of_perm perm.symm done
  have records := kind_of_takeMembers (fun _ _ => readsRecord_of_readKind)
    (fun _ none => by cases none) done
  obtain ⟨β, r, rfl⟩ := records kind rfl
  have same : others'.reverse.Perm (others.reverse ++ []) := by
    rw [List.append_nil]
    exact (List.reverse_perm others').trans (perm'.symm.trans (List.reverse_perm others).symm)
  refine reader_object_iff.2 ⟨rfl, _, others', done', ?_⟩
  exact r.read_of_perm same (List.forall_mem_nil _) (List.forall_mem_nil _) read

end GatewayRules.Update

namespace GatewayRules
open Json

/-- In the text of an object, the order of the members does not matter, and members of unknown names
do not either: a text that is read as a network, node, set of tunnel ports, selector, treatment,
snapshot or settings is read as the same value with its members in any order and with any others
among them, however deep their values are nested. In the text of an update, the members may stand in
any order, wherever its kind ends up. -/
theorem members_read_in_any_order :
    Network.reader.Lenient Network.record.fields.names ∧
    Node.reader.Lenient Node.record.fields.names ∧
    TunnelPorts.reader.Lenient TunnelPorts.record.fields.names ∧
    Selector.reader.Lenient Selector.record.fields.names ∧
    Treatment.reader.Lenient Treatment.record.fields.names ∧
    Snapshot.reader.Lenient Snapshot.record.fields.names ∧
    Settings.reader.Lenient Settings.record.fields.names ∧
    Update.reader.Unordered :=
  ⟨Network.record.lenient, Node.record.lenient, TunnelPorts.record.lenient,
    Selector.record.lenient, Treatment.record.lenient, Snapshot.record.lenient,
    Settings.record.lenient, Update.unordered⟩

/-- Tunnel ports with a note between them and another behind, and an update with its kind at the
end. -/
theorem members_read_in_any_order_with_notes :
    TunnelPorts.reader.readText "\x7b\"vxlan\":4789,\"gre\":null\x7d".toList =
        .ok ⟨some ⟨4789⟩, none, none⟩ ∧
      TunnelPorts.reader.readText
          "\x7b\"gre\":null,\"note\":[\x7b\"gre\":true\x7d],\"vxlan\":4789,\"note\":7\x7d".toList =
        .ok ⟨some ⟨4789⟩, none, none⟩ ∧
    Update.reader.readText "\x7b\"op\":\"remove_node\",\"hostname\":\"compute-1\"\x7d".toList =
        .ok (.removeNode "compute-1") ∧
      Update.reader.readText "\x7b\"hostname\":\"compute-1\",\"op\":\"remove_node\"\x7d".toList =
        .ok (.removeNode "compute-1") := by
  let note : Value := .array [.object [("gre", .bool true)]]
  let ports : Value := .object [("vxlan", .number 4789), ("gre", .null)]
  let noted : Value :=
    .object [("gre", .null), ("note", note), ("vxlan", .number 4789), ("note", .number 7)]
  let removal : Value := .object [("op", .string "remove_node"), ("hostname", .string "compute-1")]
  let turned : Value := .object [("hostname", .string "compute-1"), ("op", .string "remove_node")]
  obtain ⟨-, -, lenient, -, -, -, -, unordered⟩ := members_read_in_any_order
  refine ⟨by decide +kernel, ?_, by decide +kernel, ?_⟩
  · have first : TunnelPorts.reader.readText ports.chars = .ok ⟨some ⟨4789⟩, none, none⟩ := by
      decide +kernel
    have named : (Quotation.ofString "note").text = .ok "note" := Quotation.text_ofString "note"
    have other : "note" ∉ TunnelPorts.record.fields.names := by decide
    refine Eq.subst (motive := fun s => TunnelPorts.reader.readText s = _)
      (by decide +kernel : noted.chars = _) ?_
    refine lenient _ _ _ _ [(.ofString "note", note.tree), (.ofString "note", (Value.number 7).tree)]
      _ ports.spelled.bare noted.spelled.bare (@List.perm_middle _ _ [_, _] [_]) ?_ first
    exact List.forall_mem_cons.2 ⟨⟨"note", named, other⟩,
      List.forall_mem_singleton.2 ⟨"note", named, other⟩⟩
  · have kinded : Update.reader.readText removal.chars = .ok (.removeNode "compute-1") := by
      decide +kernel
    refine Eq.subst (motive := fun s => Update.reader.readText s = _)
      (by decide +kernel : turned.chars = _) ?_
    exact unordered _ _ _ _ _ removal.spelled.bare turned.spelled.bare (.swap _ _ _) kinded

end GatewayRules
