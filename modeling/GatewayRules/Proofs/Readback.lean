import GatewayRules.Json.Reader
import GatewayRules.Proofs.Writing

/-!
Readers that read written values back, in a text as well as taken in before. A record is read back
from its members if every field is, and if fields that are not written have their value by default.
-/
namespace GatewayRules.Json
open Text

def Recovers {α : Type} (r : Reader α) (toJson : α → Value) : Prop :=
  ∀ mode a, r mode (toJson a).tree = .ok a

namespace Recovers

variable {α β : Type} {r : Reader α} {toJson : α → Value}

/-- The whole text of a value is read back. -/
theorem readText (recovers : Recovers r toJson) (a : α) : r.readText (toJson a).chars = .ok a := by
  simp [Reader.readText, Tree.scan_chars, recovers .streamed a, bind, Except.bind, skipBlanks]
  rfl

theorem text (wanted : String) : Recovers (Reader.text wanted) .string := by
  intro mode s
  simp [Reader.text, Value.tree, Quotation.text_ofString, orFault]

theorem string : Recovers .string .string := text _

theorem bool : Recovers .bool .bool := fun _ _ => rfl

theorem map (recovers : Recovers r toJson) {f : α → β} {g : β → α} (back : ∀ b, f (g b) = b) :
    Recovers (r.map f) (toJson ∘ g) := by
  intro mode b
  simp [Reader.map, recovers mode (g b), Except.map, back]

theorem natural (wanted : String) (max : Nat) (small : max < UInt64.size) (mode : Mode) {n : Nat}
    (bound : n ≤ max) : Reader.natural wanted max mode (Value.number n).tree = .ok n := by
  have whole : Number.ofDigits false (decimal n) none none = .integer n := by
    simp [Number.ofDigits, Nat.lt_of_le_of_lt bound small]
  simp [Reader.natural, Value.tree, whole, bound]

theorem u8 : Recovers .u8 fun n => .number n.toNat := by
  intro mode n
  have bound : n.toNat ≤ 255 := Nat.le_of_lt_succ n.toNat_lt
  simp [Reader.u8, Reader.map, natural _ 255 (by decide) mode bound, Except.map]

theorem u16 : Recovers .u16 fun n => .number n.toNat := by
  intro mode n
  have bound : n.toNat ≤ 65535 := Nat.le_of_lt_succ n.toNat_lt
  simp [Reader.u16, Reader.map, natural _ 65535 (by decide) mode bound, Except.map]

theorem u32 : Recovers .u32 fun n => .number n.toNat := by
  intro mode n
  have bound : n.toNat ≤ 4294967295 := Nat.le_of_lt_succ n.toNat_lt
  simp [Reader.u32, Reader.map, natural _ 4294967295 (by decide) mode bound, Except.map]

theorem parsed (wanted : String) {parse : String → Except Mismatch α} {write : α → String}
    (back : ∀ a, parse (write a) = .ok a) :
    Recovers (.parsed wanted parse) fun a => .string (write a) := by
  intro mode a
  simp [Reader.parsed, text wanted mode (write a), back]

theorem list (recovers : Recovers r toJson) :
    Recovers r.list fun items => .array (items.map toJson) := by
  intro mode items
  have each : (Value.itemTrees (items.map toJson)).mapM (r mode) = .ok items := by
    induction items with
    | nil => rfl
    | cons a rest ih =>
      simp [Value.itemTrees, recovers mode a, ih, bind, Except.bind, pure, Except.pure]
  simp [Reader.list, Value.tree, each, ArrayEnd.check, orFault, bind, Except.bind, pure,
    Except.pure]

theorem optional (recovers : Recovers r toJson) (mode : Mode) {a : α}
    (some : (toJson a).tree ≠ .null) : r.optional mode (toJson a).tree = .ok (.some a) := by
  unfold Reader.optional
  split
  · next null => exact absurd null some
  · rw [recovers mode a]
    rfl

end Recovers

/-- What has been met of one field more. -/
def Draft.cons {β : Type} {types : List Type} (value : Option β) (draft : Draft types) :
    Draft (β :: types) := (value, draft)

namespace Fields

def names : {types : List Type} → Fields types → List String
  | [], nil => []
  | _ :: _, cons f rest => f.name :: rest.names

variable {β : Type} {types : List Type} {f : Field β} (rest : Fields types)

theorem meet_cons_self (mode : Mode) (t : Tree) (draft : Draft types) :
    (cons f rest).meet mode f.name t (.cons none draft) =
      (f.read mode t).map fun b => .cons (some b) draft := if_pos rfl

theorem meet_cons_of_ne {name : String} (other : name ≠ f.name) (mode : Mode) (t : Tree)
    (value : Option β) (draft : Draft types) :
    (cons f rest).meet mode name t (.cons value draft) =
      (rest.meet mode name t draft).map (.cons value) := if_neg other

theorem complete_cons {value : Option β} {b : β} (filled : value.or f.absent = some b)
    (draft : Draft types) :
    (cons f rest).complete (.cons value draft) = (rest.complete draft).map fun row => (b, row) := by
  cases value with
  | some b' =>
    cases filled
    rfl
  | none =>
    obtain ⟨name, read, absent, cutOff⟩ := f
    obtain rfl : absent = some b := filled
    rfl

theorem meetAll_member {fields : Fields types} (mode : Mode) (name : String) (v : Value)
    (members : List (String × Value)) (draft : Draft types) :
    fields.meetAll mode (Value.memberTrees ((name, v) :: members)) draft =
      (fields.meet mode name v.tree draft).bind
        (fields.meetAll mode (Value.memberTrees members)) := by
  simp only [Value.memberTrees, meetAll, Quotation.text_ofString, orFault, bind, Except.bind]

/-- Members of other names leave a field as it is. -/
theorem meetAll_cons {members : List (String × Value)} (foreign : ∀ m ∈ members, m.1 ≠ f.name)
    (mode : Mode) (value : Option β) (draft : Draft types) :
    (cons f rest).meetAll mode (Value.memberTrees members) (.cons value draft) =
      (rest.meetAll mode (Value.memberTrees members) draft).map (.cons value) := by
  induction members generalizing draft with
  | nil => rfl
  | cons m members ih =>
    obtain ⟨name, v⟩ := m
    obtain ⟨other, others⟩ := List.forall_mem_cons.1 foreign
    rw [meetAll_member, meetAll_member, meet_cons_of_ne rest other]
    cases rest.meet mode name v.tree draft with
    | error e => rfl
    | ok next => exact ih others next

end Fields

/-- The members that are written for the fields of a record with the given values. -/
inductive Written :
    {types : List Type} → Fields types → Row types → List (String × Value) → Prop where
  | nil : Written .nil () []
  | member {β : Type} {types : List Type} {f : Field β} {fields : Fields types} {b : β}
    {row : Row types} {members : List (String × Value)} (v : Value) :
    (∀ mode, f.read mode v.tree = .ok b) → Written fields row members →
      Written (.cons f fields) (b, row) ((f.name, v) :: members)
  | absent {β : Type} {types : List Type} {f : Field β} {fields : Fields types} {b : β}
    {row : Row types} {members : List (String × Value)} :
    f.absent = some b → Written fields row members → Written (.cons f fields) (b, row) members

namespace Written

variable {types : List Type} {fields : Fields types} {row : Row types}
  {members : List (String × Value)}

theorem mem_names (written : Written fields row members) : ∀ m ∈ members, m.1 ∈ fields.names := by
  induction written with
  | nil => exact List.forall_mem_nil _
  | member v read written ih =>
    refine List.forall_mem_cons.2 ⟨List.mem_cons_self, fun m member => ?_⟩
    exact List.mem_cons_of_mem _ (ih m member)
  | absent default written ih => exact fun m member => List.mem_cons_of_mem _ (ih m member)

theorem foreign {β : Type} {f : Field β} (written : Written fields row members)
    (fresh : f.name ∉ fields.names) : ∀ m ∈ members, m.1 ≠ f.name :=
  fun m member same => fresh (same ▸ written.mem_names m member)

theorem complete (written : Written fields row members) (distinct : fields.names.Nodup)
    (mode : Mode) : ∃ draft,
    fields.meetAll mode (Value.memberTrees members) fields.blank = .ok draft ∧
    fields.complete draft = .ok row := by
  induction written with
  | nil => exact ⟨(), rfl, rfl⟩
  | @member β types f fields b row members v read written ih =>
    obtain ⟨fresh, distinct⟩ := List.nodup_cons.1 distinct
    obtain ⟨draft, met, filled⟩ := ih distinct
    have later := Fields.meetAll_cons fields (written.foreign fresh) mode (some b) fields.blank
    have first := Fields.meet_cons_self (f := f) fields mode v.tree fields.blank
    rw [met] at later
    rw [read mode] at first
    refine ⟨.cons (some b) draft, ?_, ?_⟩
    · rw [Fields.meetAll_member]
      exact (congrArg (Except.bind · (Fields.meetAll mode _ (Value.memberTrees members)))
        first).trans later
    · rw [Fields.complete_cons fields rfl, filled]
      rfl
  | @absent β types f fields b row members default written ih =>
    obtain ⟨fresh, distinct⟩ := List.nodup_cons.1 distinct
    obtain ⟨draft, met, filled⟩ := ih distinct
    have later := Fields.meetAll_cons fields (written.foreign fresh) mode none fields.blank
    rw [met] at later
    have substitute : (none : Option β).or f.absent = some b := default
    refine ⟨.cons none draft, later, ?_⟩
    rw [Fields.complete_cons fields substitute, filled]
    rfl

/-- An object of written members is read as the record. -/
theorem read {α : Type} {r : Record types α} (written : Written r.fields row members)
    (distinct : r.fields.names.Nodup) (mode : Mode) :
    r.read mode (Value.object members).tree = .ok (r.make row) := by
  obtain ⟨draft, met, filled⟩ := written.complete distinct mode
  simp [Record.read, Value.tree, met, filled, ObjectEnd.check, orFault, bind, Except.bind, pure,
    Except.pure]

variable {β : Type} {read : Reader β} {toJson : β → Value}

theorem required (name : String) (recovers : Recovers read toJson) (b : β)
    (written : Written fields row members) :
    Written (.cons (.required name read) fields) (b, row) ((name, toJson b) :: members) :=
  .member (toJson b) (fun mode => recovers mode b) written

theorem withDefault (name : String) (recovers : Recovers read toJson) (default b : β)
    (written : Written fields row members) :
    Written (.cons (.withDefault name read default) fields) (b, row)
      ((name, toJson b) :: members) :=
  .member (toJson b) (fun mode => recovers mode b) written

theorem optional {f : Field (Option β)} (reads : f.read = read.optional)
    (absent : f.absent = some none) (recovers : Recovers read toJson)
    (some : ∀ b, (toJson b).tree ≠ .null) (value : Option β)
    (written : Written fields row members) :
    Written (.cons f fields) (value, row) (Value.maybe f.name (value.map toJson) ++ members) := by
  cases value with
  | none => exact .absent absent written
  | some b =>
    refine .member (toJson b) (fun mode => ?_) written
    rw [reads]
    exact recovers.optional mode (some b)

end Written

namespace Recovers

variable {types : List Type} {α : Type}

/-- A record with fields of distinct names is read back if its members are written. -/
theorem record (r : Record types α) (distinct : r.fields.names.Nodup) (row : α → Row types)
    (make : ∀ a, r.make (row a) = a) {members : α → List (String × Value)}
    (written : ∀ a, Written r.fields (row a) (members a)) :
    Recovers r.read fun a => .object (members a) :=
  fun mode a => ((written a).read distinct mode).trans (congrArg Except.ok (make a))

end Recovers

namespace Reader

variable {α : Type} (variants : List (String × Payload α))

theorem choice_string (mode : Mode) (name : String) :
    choice variants mode (Value.string name).tree =
      (variantNamed variants name).bind Payload.bare := by
  cases mode <;> simp [choice, Value.tree, Quotation.text_ofString, orFault, bind, Except.bind]

theorem choice_object (mode : Mode) (name : String) (v : Value) :
    choice variants mode (Value.object [(name, v)]).tree =
      (variantNamed variants name).bind fun payload => payload.read mode v.tree := by
  cases mode with
  | buffered =>
    simp [choice, Value.tree, Value.memberTrees, Quotation.text_ofString, orFault, bind,
      Except.bind]
  | streamed =>
    simp only [choice, Value.tree, Value.memberTrees, Quotation.text_ofString, orFault, bind,
      Except.bind]
    cases variantNamed variants name with
    | error e => rfl
    | ok payload =>
      dsimp only
      cases payload.read .streamed v.tree <;> rfl

theorem choice_of_payload {mode : Mode} {name : String} {v : Value} {a : α} (payload : Payload α)
    (known : variantNamed variants name = .ok payload) (read : payload.read mode v.tree = .ok a) :
    choice variants mode (Value.object [(name, v)]).tree = .ok a := by
  rw [choice_object, known]
  exact read

end Reader

namespace Value

theorem vet_string (s : String) (depth : Nat) : (string s).tree.vet depth = .ok () := by
  simp [tree, Tree.vet, Quotation.text_ofString, Except.map]

theorem vet_number {n : Nat} (small : n < UInt64.size) (depth : Nat) :
    (number n).tree.vet depth = .ok () := by
  simp [tree, Tree.vet, Number.ofDigits, small]

theorem vet_object {members : List (String × Value)} {depth : Nat}
    (each : ∀ m ∈ members, m.2.tree.vet depth = .ok ()) :
    (object members).tree.vet (depth + 1) = .ok () := by
  have all : Tree.vetMembers depth (memberTrees members) = .ok () := by
    induction members with
    | nil => rfl
    | cons m members ih =>
      obtain ⟨name, v⟩ := m
      obtain ⟨first, others⟩ := List.forall_mem_cons.1 each
      simp only [memberTrees, Tree.vetMembers, Quotation.text_ofString, bind, Except.bind, first]
      exact ih others
  simp [tree, Tree.vet, all, ObjectEnd.check, bind, Except.bind]

theorem vet_maybe {v : Option Value} {depth : Nat} (each : ∀ w ∈ v, w.tree.vet depth = .ok ())
    (name : String) : ∀ m ∈ maybe name v, m.2.tree.vet depth = .ok () := by
  cases v with
  | none => exact List.forall_mem_nil _
  | some w => exact List.forall_mem_singleton.2 (each w rfl)

end Value

end GatewayRules.Json
