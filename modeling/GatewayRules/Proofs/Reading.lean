import Mathlib.Data.List.TakeWhile
import GatewayRules.Proofs.Readback
import GatewayRules.Proofs.Spelling
import GatewayRules.Wire.Inventory

/-!
What it takes to be read. Each lemma says of one reader when it gives a value, and from what; the
errors of those that give none are left aside.
-/
namespace GatewayRules.Json

section Result

variable {ε α β : Type}

theorem bind_eq_ok_iff {x : Except ε α} {f : α → Except ε β} {b : β} :
    x >>= f = .ok b ↔ ∃ a, x = .ok a ∧ f a = .ok b := by
  cases x with
  | error e => exact ⟨nofun, by rintro ⟨_, ⟨⟩, _⟩⟩
  | ok a =>
    constructor
    · intro later
      exact ⟨a, rfl, later⟩
    · rintro ⟨_, ⟨⟩, later⟩
      exact later

theorem map_eq_ok_iff {x : Except ε α} {f : α → β} {b : β} :
    x.map f = .ok b ↔ ∃ a, x = .ok a ∧ f a = b := by
  cases x with
  | error e => exact ⟨nofun, by rintro ⟨_, ⟨⟩, _⟩⟩
  | ok a =>
    constructor
    · rintro ⟨⟩
      exact ⟨a, rfl, rfl⟩
    · rintro ⟨_, ⟨⟩, rfl⟩
      rfl

theorem orFault_eq_ok_iff {x : Except Fault α} {a : α} : orFault x = .ok a ↔ x = .ok a := by
  cases x with
  | error fault => exact ⟨nofun, nofun⟩
  | ok b =>
    constructor
    · rintro ⟨⟩
      rfl
    · rintro ⟨⟩
      rfl

theorem ArrayEnd.check_eq_ok_iff {close : ArrayEnd} {u : Unit} :
    close.check = .ok u ↔ close = .closed := by
  cases close with
  | closed => exact ⟨fun _ => rfl, fun _ => rfl⟩
  | broken fault => exact ⟨nofun, nofun⟩

theorem ObjectEnd.check_eq_ok_iff {close : ObjectEnd} {u : Unit} :
    close.check = .ok u ↔ close = .closed := by
  cases close with
  | closed => exact ⟨fun _ => rfl, fun _ => rfl⟩
  | broken fault | nameless fault => exact ⟨nofun, nofun⟩

end Result

theorem Reader.readText_iff {α : Type} {r : Reader α} {s : List Char} {a : α} :
    r.readText s = .ok a ↔ r .streamed (Tree.scan s).1 = .ok a ∧ Blank (Tree.scan s).2 := by
  have blank : (skipBlanks (Tree.scan s).2).isEmpty = true ↔ Blank (Tree.scan s).2 := by
    rw [List.isEmpty_iff, skipBlanks, List.dropWhile_eq_nil_iff]
    rfl
  unfold Reader.readText
  rw [← blank]
  generalize Tree.scan s = scanned
  obtain ⟨t, rest⟩ := scanned
  dsimp only
  rw [bind_eq_ok_iff]
  constructor
  · rintro ⟨b, value, whole⟩
    split at whole
    · next empty =>
      cases whole
      exact ⟨value, empty⟩
    · cases whole
  · rintro ⟨value, empty⟩
    exact ⟨a, value, if_pos empty⟩

theorem Reader.readText_of_spells {α : Type} (r : Reader α) {t : Tree} {s : List Char}
    (spelled : Spells (.padded t) s) : r.readText s = r .streamed t := by
  obtain ⟨b, blank, scanned⟩ := Tree.scan_of_spells spelled
  have empty : skipBlanks b = [] := List.dropWhile_eq_nil_iff.2 blank
  unfold Reader.readText
  rw [scanned]
  dsimp only
  rw [empty]
  cases r .streamed t <;> rfl

theorem Reader.list_iff {α : Type} {r : Reader α} {mode : Mode} {items : List Tree}
    {close : ArrayEnd} {values : List α} : r.list mode (.array items close) = .ok values ↔
      items.map (r mode) = values.map .ok ∧ close = .closed := by
  have each : items.mapM (r mode) = .ok values ↔ items.map (r mode) = values.map .ok := by
    induction items generalizing values with
    | nil => cases values <;> simp [pure, Except.pure]
    | cons t items ih =>
      rw [List.mapM_cons, bind_eq_ok_iff, List.map_cons]
      constructor
      · rintro ⟨a, first, later⟩
        obtain ⟨rest, others, same⟩ := bind_eq_ok_iff.1 later
        cases same
        rw [first, ih.1 others]
        rfl
      · intro same
        cases values with
        | nil => cases same
        | cons a rest =>
          obtain ⟨first, others⟩ := List.cons.inj same
          exact ⟨a, first, bind_eq_ok_iff.2 ⟨rest, ih.2 others, rfl⟩⟩
  rw [← each]
  constructor
  · intro read
    obtain ⟨values', read, later⟩ := bind_eq_ok_iff.1 read
    obtain ⟨_, closed, same⟩ := bind_eq_ok_iff.1 later
    cases same
    exact ⟨read, ArrayEnd.check_eq_ok_iff.1 (orFault_eq_ok_iff.1 closed)⟩
  · rintro ⟨read, rfl⟩
    exact bind_eq_ok_iff.2 ⟨values, read, rfl⟩

theorem Reader.mem_of_variantNamed {α : Type} {variants : List (String × α)} {name : String} {a : α}
    (named : variantNamed variants name = .ok a) : (name, a) ∈ variants := by
  unfold variantNamed at named
  split at named
  · next found =>
    cases named
    obtain ⟨l, l', all, -⟩ := List.lookup_eq_some_iff.1 found
    rw [all]
    exact List.mem_append_right l List.mem_cons_self
  · cases named

theorem Payload.readUnit_iff {α : Type} {a b : α} {t : Tree} :
    readUnit a .streamed t = .ok b ↔ t = .null ∧ a = b := by
  cases t with
  | null => exact ⟨fun same => ⟨rfl, Except.ok.inj same⟩, fun both => congrArg Except.ok both.2⟩
  | object ms close =>
    constructor
    · intro value
      cases ms <;> cases value
    · rintro ⟨⟨⟩, -⟩
  | _ =>
    constructor
    · intro value
      cases value
    · rintro ⟨⟨⟩, -⟩

/-- A text chooses a variant by an object with its name as the only member. -/
theorem Reader.choice_object_iff {α : Type} {variants : List (String × Payload α)}
    {ms : List (Quotation × Tree)} {close : ObjectEnd} {a : α} :
    choice variants .streamed (.object ms close) = .ok a ↔ close = .closed ∧ ∃ q t name payload,
      ms = [(q, t)] ∧ q.text = .ok name ∧ variantNamed variants name = .ok payload ∧
        payload.read .streamed t = .ok a := by
  constructor
  · intro read
    cases ms with
    | nil =>
      obtain ⟨_, -, none⟩ := bind_eq_ok_iff.1 read
      cases none
    | cons m others =>
      obtain ⟨q, t⟩ := m
      obtain ⟨name, named, later⟩ := bind_eq_ok_iff.1 read
      obtain ⟨payload, variant, later⟩ := bind_eq_ok_iff.1 later
      obtain ⟨b, value, later⟩ := bind_eq_ok_iff.1 later
      cases others with
      | cons m others => cases close <;> cases later
      | nil =>
        cases close with
        | closed =>
          cases later
          exact ⟨rfl, q, t, name, payload, rfl, orFault_eq_ok_iff.1 named, variant, value⟩
        | broken fault | nameless fault => cases later
  · rintro ⟨rfl, q, t, name, payload, rfl, named, variant, value⟩
    refine bind_eq_ok_iff.2 ⟨name, orFault_eq_ok_iff.2 named, ?_⟩
    exact bind_eq_ok_iff.2 ⟨payload, variant, bind_eq_ok_iff.2 ⟨a, value, rfl⟩⟩

namespace Tree

variable {depth : Nat}

theorem vet_array_iff {ts : List Tree} {close : ArrayEnd} :
    (array ts close).vet (depth + 1) = .ok () ↔ vetItems depth ts = .ok () ∧ close = .closed := by
  rw [vet, bind_eq_ok_iff]
  constructor
  · rintro ⟨_, items, closed⟩
    exact ⟨items, ArrayEnd.check_eq_ok_iff.1 closed⟩
  · rintro ⟨items, closed⟩
    exact ⟨(), items, ArrayEnd.check_eq_ok_iff.2 closed⟩

theorem vet_object_iff {ms : List (Quotation × Tree)} {close : ObjectEnd} :
    (object ms close).vet (depth + 1) = .ok () ↔
      vetMembers depth ms = .ok () ∧ close = .closed := by
  rw [vet, bind_eq_ok_iff]
  constructor
  · rintro ⟨_, members, closed⟩
    exact ⟨members, ObjectEnd.check_eq_ok_iff.1 closed⟩
  · rintro ⟨members, closed⟩
    exact ⟨(), members, ObjectEnd.check_eq_ok_iff.2 closed⟩

theorem vetItems_cons_iff {t : Tree} {ts : List Tree} :
    vetItems depth (t :: ts) = .ok () ↔ t.vet depth = .ok () ∧ vetItems depth ts = .ok () := by
  rw [vetItems, bind_eq_ok_iff]
  exact ⟨fun ⟨_, first, others⟩ => ⟨first, others⟩, fun ⟨first, others⟩ => ⟨(), first, others⟩⟩

theorem vetMembers_cons_iff {q : Quotation} {t : Tree} {ms : List (Quotation × Tree)} :
    vetMembers depth ((q, t) :: ms) = .ok () ↔ (∃ name, q.text = .ok name) ∧
      t.vet depth = .ok () ∧ vetMembers depth ms = .ok () := by
  rw [vetMembers, bind_eq_ok_iff]
  constructor
  · rintro ⟨name, named, later⟩
    obtain ⟨_, first, others⟩ := bind_eq_ok_iff.1 later
    exact ⟨⟨name, named⟩, first, others⟩
  · rintro ⟨⟨name, named⟩, first, others⟩
    exact ⟨name, named, bind_eq_ok_iff.2 ⟨(), first, others⟩⟩

end Tree

namespace Fields

variable {β : Type} {types : List Type} {mode : Mode} {name : String} {t : Tree}

theorem meet_nil_iff {draft draft' : Draft []} :
    nil.meet mode name t draft = .ok draft' ↔ mode = .streamed → t.skip = .ok () := by
  cases mode with
  | buffered => exact ⟨fun _ => nofun, fun _ => rfl⟩
  | streamed =>
    change orFault (t.skip.map fun _ => draft) = .ok draft' ↔ _
    rw [orFault_eq_ok_iff, map_eq_ok_iff]
    exact ⟨fun ⟨_, whole, _⟩ _ => whole, fun whole => ⟨(), whole rfl, rfl⟩⟩

theorem meet_cons_iff {f : Field β} {rest : Fields types} {value : Option β} {draft : Draft types}
    {after : Draft (β :: types)} :
    (cons f rest).meet mode name t (.cons value draft) = .ok after ↔
      (name = f.name ∧ value = none ∧
        ∃ b, f.read mode t = .ok b ∧ after = .cons (some b) draft) ∨
      (name ≠ f.name ∧
        ∃ draft', rest.meet mode name t draft = .ok draft' ∧ after = .cons value draft') := by
  by_cases same : name = f.name
  · subst same
    cases value with
    | some b =>
      have repeated : (cons f rest).meet mode f.name t (.cons (some b) draft) =
        reject (.repeatedField f.name) := if_pos rfl
      rw [repeated]
      constructor
      · exact nofun
      · rintro (⟨-, none, -⟩ | ⟨other, -⟩)
        · cases none
        · exact absurd rfl other
    | none =>
      rw [meet_cons_self, map_eq_ok_iff]
      constructor
      · rintro ⟨b, value, rfl⟩
        exact .inl ⟨rfl, rfl, b, value, rfl⟩
      · rintro (⟨-, -, b, value, rfl⟩ | ⟨other, -⟩)
        · exact ⟨b, value, rfl⟩
        · exact absurd rfl other
  · rw [meet_cons_of_ne rest same, map_eq_ok_iff]
    constructor
    · rintro ⟨draft', met, rfl⟩
      exact .inr ⟨same, draft', met, rfl⟩
    · rintro (⟨same', -⟩ | ⟨-, draft', met, rfl⟩)
      · exact absurd same' same
      · exact ⟨draft', met, rfl⟩

theorem meetAll_cons_iff {fields : Fields types} {q : Quotation} {ms : List (Quotation × Tree)}
    {draft draft' : Draft types} :
    fields.meetAll mode ((q, t) :: ms) draft = .ok draft' ↔ ∃ name next, q.text = .ok name ∧
      fields.meet mode name t draft = .ok next ∧ fields.meetAll mode ms next = .ok draft' := by
  rw [meetAll, bind_eq_ok_iff]
  constructor
  · rintro ⟨name, named, later⟩
    obtain ⟨next, met, others⟩ := bind_eq_ok_iff.1 later
    exact ⟨name, next, orFault_eq_ok_iff.1 named, met, others⟩
  · rintro ⟨name, next, named, met, others⟩
    exact ⟨name, orFault_eq_ok_iff.2 named, bind_eq_ok_iff.2 ⟨next, met, others⟩⟩

theorem positional_cons_iff {f : Field β} {rest : Fields types} {wanted : String}
    {close : ArrayEnd} {index : Nat} {items left : List Tree} {row : Row (β :: types)} :
    (cons f rest).positional mode wanted close index (t :: items) = .ok (row, left) ↔
      ∃ b row', f.read mode t = .ok b ∧
        rest.positional mode wanted close (index + 1) items = .ok (row', left) ∧
          row = (b, row') := by
  rw [positional, bind_eq_ok_iff]
  constructor
  · rintro ⟨b, value, later⟩
    obtain ⟨⟨row', left'⟩, others, same⟩ := bind_eq_ok_iff.1 later
    cases same
    exact ⟨b, row', value, others, rfl⟩
  · rintro ⟨b, row', value, others, rfl⟩
    exact ⟨b, value, bind_eq_ok_iff.2 ⟨(row', left), others, rfl⟩⟩

end Fields

namespace Record

variable {types : List Type} {α : Type} {r : Record types α} {mode : Mode} {a : α}

theorem read_object_iff {ms : List (Quotation × Tree)} {close : ObjectEnd} :
    r.read mode (.object ms close) = .ok a ↔ ∃ draft row,
      r.fields.meetAll mode ms r.fields.blank = .ok draft ∧ close = .closed ∧
        r.fields.complete draft = .ok row ∧ r.make row = a := by
  rw [Record.read, bind_eq_ok_iff]
  constructor
  · rintro ⟨draft, met, later⟩
    obtain ⟨u, closed, later⟩ := bind_eq_ok_iff.1 later
    obtain ⟨row, filled, made⟩ := bind_eq_ok_iff.1 later
    have braced := ObjectEnd.check_eq_ok_iff.1 (orFault_eq_ok_iff.1 closed)
    exact ⟨draft, row, met, braced, filled, Except.ok.inj made⟩
  · rintro ⟨draft, row, met, rfl, filled, rfl⟩
    exact ⟨draft, met, bind_eq_ok_iff.2 ⟨(), rfl, bind_eq_ok_iff.2 ⟨row, filled, rfl⟩⟩⟩

/-- No item may be left over, in a text or taken in. -/
theorem read_array_iff {items : List Tree} {close : ArrayEnd} :
    r.read mode (.array items close) = .ok a ↔ ∃ row,
      r.fields.positional mode s!"{r.label} with {countElements r.fields.size}" close 0 items =
        .ok (row, []) ∧ close = .closed ∧ r.make row = a := by
  rw [Record.read, bind_eq_ok_iff]
  constructor
  · rintro ⟨⟨row, left⟩, placed, later⟩
    cases left with
    | nil =>
      obtain ⟨u, closed, made⟩ := bind_eq_ok_iff.1 later
      have bracketed := ArrayEnd.check_eq_ok_iff.1 (orFault_eq_ok_iff.1 closed)
      exact ⟨row, placed, bracketed, Except.ok.inj made⟩
    | cons t left => cases mode <;> cases later
  · rintro ⟨row, placed, rfl, rfl⟩
    exact ⟨(row, []), placed, rfl⟩

end Record

end GatewayRules.Json

namespace GatewayRules.Update
open Json

/-- A member is taken in, as the kind if there is none yet, or in front of the others. -/
inductive Takes : Option (Reader Update) → List (Quotation × Tree) → Quotation × Tree →
    Option (Reader Update) → List (Quotation × Tree) → Prop where
  | kind {q : Quotation} {t : Tree} {read : Reader Update} {others : List (Quotation × Tree)} :
    q.text = .ok "op" → readKind t = .ok read → Takes none others (q, t) (some read) others
  | other {q : Quotation} {t : Tree} {name : String} {kind : Option (Reader Update)}
    {others : List (Quotation × Tree)} :
    q.text = .ok name → name ≠ "op" → t.vet maxDepth = .ok () →
      Takes kind others (q, t) kind ((q, t) :: others)

theorem takeMembers_cons_iff {kind : Option (Reader Update)} {others : List (Quotation × Tree)}
    {m : Quotation × Tree} {ms : List (Quotation × Tree)}
    {taken : Option (Reader Update) × List (Quotation × Tree)} :
    takeMembers kind others (m :: ms) = .ok taken ↔ ∃ kind' others',
      Takes kind others m kind' others' ∧ takeMembers kind' others' ms = .ok taken := by
  obtain ⟨q, t⟩ := m
  constructor
  · intro taken
    obtain ⟨name, named, later⟩ := bind_eq_ok_iff.1 taken
    have named := orFault_eq_ok_iff.1 named
    split at later
    · next op =>
      subst op
      cases kind with
      | some read => cases later
      | none =>
        obtain ⟨read, known, later⟩ := bind_eq_ok_iff.1 later
        exact ⟨_, _, .kind named known, later⟩
    · next other =>
      obtain ⟨_, vetted, later⟩ := bind_eq_ok_iff.1 later
      exact ⟨_, _, .other named other (orFault_eq_ok_iff.1 vetted), later⟩
  · rintro ⟨kind', others', takes, later⟩
    cases takes with
    | kind named known =>
      refine bind_eq_ok_iff.2 ⟨"op", orFault_eq_ok_iff.2 named, ?_⟩
      exact bind_eq_ok_iff.2 ⟨_, known, later⟩
    | @other _ _ name _ _ named other vetted =>
      refine bind_eq_ok_iff.2 ⟨name, orFault_eq_ok_iff.2 named, ?_⟩
      rw [if_neg other]
      exact bind_eq_ok_iff.2 ⟨(), orFault_eq_ok_iff.2 vetted, later⟩

theorem kind_of_takeMembers {p : Reader Update → Prop}
    (each : ∀ t read, readKind t = .ok read → p read) {kind kind' : Option (Reader Update)}
    {others taken ms : List (Quotation × Tree)} (before : ∀ read ∈ kind, p read)
    (done : takeMembers kind others ms = .ok (kind', taken)) : ∀ read ∈ kind', p read := by
  induction ms generalizing kind others with
  | nil =>
    cases done
    exact before
  | cons m ms ih =>
    obtain ⟨_, _, takes, later⟩ := takeMembers_cons_iff.1 done
    cases takes with
    | kind named known =>
      refine ih (fun read same => ?_) later
      cases same
      exact each _ _ known
    | other named other vetted => exact ih before later

/-- The members taken in beside the kind do not have its name. -/
theorem others_of_takeMembers {p : Quotation × Tree → Prop} {kind kind' : Option (Reader Update)}
    {others taken ms : List (Quotation × Tree)} (before : ∀ m ∈ others, p m)
    (each : ∀ m ∈ ms, ∀ name, m.1.text = .ok name → name ≠ "op" → p m)
    (done : takeMembers kind others ms = .ok (kind', taken)) : ∀ m ∈ taken, p m := by
  induction ms generalizing kind others with
  | nil =>
    cases done
    exact before
  | cons m ms ih =>
    obtain ⟨first, rest⟩ := List.forall_mem_cons.1 each
    obtain ⟨_, _, takes, later⟩ := takeMembers_cons_iff.1 done
    cases takes with
    | kind named known => exact ih before rest later
    | other named other vetted =>
      exact ih (List.forall_mem_cons.2 ⟨first _ named other, before⟩) rest later

theorem reader_object_iff {mode : Mode} {ms : List (Quotation × Tree)} {close : ObjectEnd}
    {u : Update} : reader mode (.object ms close) = .ok u ↔ close = .closed ∧ ∃ read others,
      takeMembers none [] ms = .ok (some read, others) ∧
        read .buffered (.object others.reverse .closed) = .ok u := by
  rw [reader, bind_eq_ok_iff]
  constructor
  · rintro ⟨⟨kind, others⟩, taken, later⟩
    obtain ⟨_, closed, later⟩ := bind_eq_ok_iff.1 later
    refine ⟨ObjectEnd.check_eq_ok_iff.1 (orFault_eq_ok_iff.1 closed), ?_⟩
    cases kind with
    | none => cases later
    | some read => exact ⟨read, others, taken, later⟩
  · rintro ⟨rfl, read, others, taken, value⟩
    exact ⟨(some read, others), taken, value⟩

theorem reader_array_iff {mode : Mode} {ts : List Tree} {close : ArrayEnd} {u : Update} :
    reader mode (.array ts close) = .ok u ↔ close = .closed ∧ ∃ kind items read,
      ts = kind :: items ∧ readKind kind = .ok read ∧ Tree.vetItems maxDepth items = .ok () ∧
        read .buffered (.array items .closed) = .ok u := by
  constructor
  · intro value
    cases ts with
    | nil =>
      obtain ⟨_, -, none⟩ := bind_eq_ok_iff.1 value
      cases none
    | cons kind items =>
      obtain ⟨read, kinded, later⟩ := bind_eq_ok_iff.1 value
      obtain ⟨_, vetted, later⟩ := bind_eq_ok_iff.1 later
      obtain ⟨_, closed, value⟩ := bind_eq_ok_iff.1 later
      refine ⟨ArrayEnd.check_eq_ok_iff.1 (orFault_eq_ok_iff.1 closed), kind, items, read, rfl, kinded,
        orFault_eq_ok_iff.1 vetted, value⟩
  · rintro ⟨rfl, kind, items, read, rfl, kinded, vetted, value⟩
    refine bind_eq_ok_iff.2 ⟨read, kinded, ?_⟩
    exact bind_eq_ok_iff.2 ⟨(), orFault_eq_ok_iff.2 vetted, bind_eq_ok_iff.2 ⟨(), rfl, value⟩⟩

/-- An update of a known kind is what the reader of that kind makes of its other member. -/
theorem reader_pair {kind field : String} {read : Reader Update} {t : Tree} {u : Update}
    (known : Reader.variantNamed kinds kind = .ok read) (other : field ≠ "op")
    (vetted : t.vet maxDepth = .ok ())
    (value : read .buffered (.object [(.ofString field, t)] .closed) = .ok u) (mode : Mode) :
    reader mode (.object [(.ofString "op", .string (.ofString kind)), (.ofString field, t)]
      .closed) = .ok u := by
  have kinded : readKind (.string (.ofString kind)) = .ok read := by
    rw [readKind, Quotation.text_ofString]
    exact known
  refine reader_object_iff.2 ⟨rfl, read, [(.ofString field, t)], ?_, value⟩
  refine takeMembers_cons_iff.2 ⟨_, _, .kind (Quotation.text_ofString "op") kinded, ?_⟩
  exact takeMembers_cons_iff.2 ⟨_, _, .other (Quotation.text_ofString field) other vetted, rfl⟩

theorem read_payload {β : Type} {read : Reader β} {t : Tree} {b : β}
    (value : read .buffered t = .ok b) (label field : String) (make : β → Update) :
    Record.read ⟨label, .cons (.required field read) .nil, fun (b, ()) => make b⟩ .buffered
      (.object [(.ofString field, t)] .closed) = .ok (make b) := by
  let fields : Fields [β] := .cons (.required field read) .nil
  have met : fields.meet .buffered field t fields.blank = .ok (some b, ()) :=
    Fields.meet_cons_iff.2 (.inl ⟨rfl, rfl, b, value, rfl⟩)
  refine Record.read_object_iff.2 ⟨(some b, ()), (b, ()), ?_, rfl, rfl, rfl⟩
  exact Fields.meetAll_cons_iff.2 ⟨field, _, Quotation.text_ofString field, met, rfl⟩

end GatewayRules.Update
