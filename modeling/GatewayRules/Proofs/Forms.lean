import GatewayRules.Proofs.RoundTrip

/-!
The two forms of a record in JSON: an object with a member for each field, and an array with an item
for each. Every record inside a record may be in either form too, whatever the form around it.
-/
namespace GatewayRules.Json

/-- How a field of a record may be written. -/
structure Slot where
  name : String
  shows : Value → Prop
  omitted : Prop
  spare : Prop

namespace Slot

def required (name : String) (shows : Value → Prop) : Slot := ⟨name, shows, False, False⟩

def withDefault (name : String) (shows : Value → Prop) (usual : Prop) : Slot :=
  ⟨name, shows, usual, usual⟩

def maybe (name : String) (v : Option Value) : Slot :=
  ⟨name, (· = v.getD .null), v = none, v = none⟩

def nullable (name : String) (v : Option Value) : Slot :=
  ⟨name, (· = v.getD .null), v = none, False⟩

inductive Placed : List Slot → List Value → Prop where
  | nil : Placed [] []
  | item {p : Slot} {slots : List Slot} {v : Value} {vs : List Value} :
    p.shows v → Placed slots vs → Placed (p :: slots) (v :: vs)
  | cut {slots : List Slot} : (∀ p ∈ slots, p.spare) → Placed slots []

inductive Listed : List Slot → List (String × Value) → Prop where
  | nil : Listed [] []
  | member {p : Slot} {slots : List Slot} {v : Value} {ms : List (String × Value)} :
    p.shows v → Listed slots ms → Listed (p :: slots) ((p.name, v) :: ms)
  | without {p : Slot} {slots : List Slot} {ms : List (String × Value)} :
    p.omitted → Listed slots ms → Listed (p :: slots) ms

/-- Either form of a record with the fields. -/
inductive Form (slots : List Slot) : Value → Prop where
  | object {ms : List (String × Value)} : Listed slots ms → Form slots (.object ms)
  | array {vs : List Value} : Placed slots vs → Form slots (.array vs)

variable {slots : List Slot}

theorem Listed.append_maybe {p : Slot} {v : Option Value} {ms : List (String × Value)}
    (shows : ∀ w ∈ v, p.shows w) (omitted : v = none → p.omitted) (listed : Listed slots ms) :
    Listed (p :: slots) (Value.maybe p.name v ++ ms) := by
  cases v with
  | none => exact .without (omitted rfl) listed
  | some w => exact .member (shows w rfl) listed

theorem Listed.maybe (name : String) (v : Option Value) {ms : List (String × Value)}
    (listed : Listed slots ms) : Listed (.maybe name v :: slots) (Value.maybe name v ++ ms) := by
  refine .append_maybe (p := .maybe name v) ?_ id listed
  rintro w rfl
  rfl

theorem Listed.nullable (name : String) (v : Option Value) {ms : List (String × Value)}
    (listed : Listed slots ms) : Listed (.nullable name v :: slots) (Value.maybe name v ++ ms) := by
  refine .append_maybe (p := .nullable name v) ?_ id listed
  rintro w rfl
  rfl

end Slot

def Forms {α : Type} (form : α → Value → Prop) (items : List α) (v : Value) : Prop :=
  ∃ vs, v = .array vs ∧ List.Forall₂ form items vs

/-- The reader reads every form of a value as the value. -/
def Reads {α : Type} (r : Reader α) (form : α → Value → Prop) : Prop :=
  ∀ mode a v, form a v → r mode v.tree = .ok a

theorem Recovers.reads {α : Type} {r : Reader α} {toJson : α → Value}
    (recovers : Recovers r toJson) : Reads r fun a v => v = toJson a := by
  rintro mode a v rfl
  exact recovers mode a

theorem Value.itemTrees_eq_map (vs : List Value) : itemTrees vs = vs.map tree := by
  induction vs with
  | nil => rfl
  | cons v vs ih => rw [itemTrees, ih, List.map_cons]

theorem Reads.list {α : Type} {r : Reader α} {form : α → Value → Prop} (reads : Reads r form) :
    Reads r.list (Forms form) := by
  rintro mode items v ⟨vs, rfl, each⟩
  refine Reader.list_iff.2 ⟨?_, rfl⟩
  rw [Value.itemTrees_eq_map]
  induction each with
  | nil => rfl
  | cons first _ ih =>
    simp only [List.map_cons, ih]
    rw [reads mode _ _ first]

/-- The field is read as the value from all that stands for it, and has it without that too where it
need not be written. -/
structure Slot.Fits {β : Type} (p : Slot) (f : Field β) (b : β) : Prop where
  name : p.name = f.name
  reads : ∀ mode v, p.shows v → f.read mode v.tree = .ok b
  omitted : p.omitted → f.absent = some b
  spare : p.spare → f.cutOff = some b

namespace Slot.Fits

variable {β : Type} {read : Reader β} {form : β → Value → Prop} {toJson : β → Value}

theorem required (name : String) (reads : Reads read form) (b : β) :
    (Slot.required name (form b)).Fits (.required name read) b :=
  ⟨rfl, fun mode v => reads mode b v, False.elim, False.elim⟩

theorem withDefault (name : String) (reads : Reads read form) (default b : β) :
    (Slot.withDefault name (form b) (b = default)).Fits (.withDefault name read default) b :=
  ⟨rfl, fun mode v => reads mode b v, fun usual => usual ▸ rfl, fun usual => usual ▸ rfl⟩

theorem reads_optional (recovers : Recovers read toJson) (some : ∀ b, (toJson b).tree ≠ .null)
    (value : Option β) (mode : Mode) :
    read.optional mode ((value.map toJson).getD .null).tree = .ok value := by
  cases value with
  | none => rfl
  | some b => exact recovers.optional mode (some b)

theorem maybe (name : String) (recovers : Recovers read toJson)
    (some : ∀ b, (toJson b).tree ≠ .null) (value : Option β) :
    (Slot.maybe name (value.map toJson)).Fits (.maybe name read) value where
  name := rfl
  reads := by
    rintro mode v rfl
    exact reads_optional recovers some value mode
  omitted none := congrArg Option.some (Option.map_eq_none_iff.1 none).symm
  spare none := congrArg Option.some (Option.map_eq_none_iff.1 none).symm

theorem nullable (name : String) (recovers : Recovers read toJson)
    (some : ∀ b, (toJson b).tree ≠ .null) (value : Option β) :
    (Slot.nullable name (value.map toJson)).Fits (.nullable name read) value where
  name := rfl
  reads := by
    rintro mode v rfl
    exact reads_optional recovers some value mode
  omitted none := congrArg Option.some (Option.map_eq_none_iff.1 none).symm
  spare := False.elim

end Slot.Fits

/-- The fields of a record, one by one, fit the ways in which their values may be written. -/
inductive Fitting : {types : List Type} → List Slot → Fields types → Row types → Prop where
  | nil : Fitting [] .nil ()
  | cons {β : Type} {types : List Type} {p : Slot} {f : Field β} {b : β} {slots : List Slot}
    {fields : Fields types} {row : Row types} :
    p.Fits f b → Fitting slots fields row → Fitting (p :: slots) (.cons f fields) (b, row)

namespace Fitting

variable {types : List Type} {slots : List Slot} {fields : Fields types} {row : Row types}

theorem written (fitting : Fitting slots fields row) {ms : List (String × Value)}
    (listed : Slot.Listed slots ms) : Written fields row ms := by
  induction fitting generalizing ms with
  | nil =>
    cases listed
    exact .nil
  | cons fits _ ih =>
    cases listed with
    | member shown listed =>
      rw [fits.name]
      exact .member _ (fun mode => fits.reads mode _ shown) (ih listed)
    | without omitted listed => exact .absent (fits.omitted omitted) (ih listed)

theorem positional_nil (fitting : Fitting slots fields row) (spare : ∀ p ∈ slots, p.spare)
    (mode : Mode) (wanted : String) (index : Nat) :
    fields.positional mode wanted .closed index [] = .ok (row, []) := by
  induction fitting generalizing index with
  | nil => rfl
  | cons fits _ ih =>
    obtain ⟨first, others⟩ := List.forall_mem_cons.1 spare
    rw [Fields.positional, fits.spare first]
    change Except.bind _ _ = _
    rw [ih others (index + 1)]
    rfl

theorem positional (fitting : Fitting slots fields row) {vs : List Value}
    (placed : Slot.Placed slots vs) (mode : Mode) (wanted : String) (index : Nat) :
    fields.positional mode wanted .closed index (Value.itemTrees vs) = .ok (row, []) := by
  induction fitting generalizing vs index with
  | nil => cases placed <;> rfl
  | cons fits fitting ih =>
    cases placed with
    | item shown placed =>
      exact Fields.positional_cons_iff.2 ⟨_, _, fits.reads mode _ shown, ih placed (index + 1), rfl⟩
    | cut spare => exact (cons fits fitting).positional_nil spare mode wanted index

/-- Either form of a record is read as the record. -/
theorem reads {α : Type} {r : Record types α} (fitting : Fitting slots r.fields row)
    (distinct : r.fields.names.Nodup) (mode : Mode) {v : Value} (form : Slot.Form slots v) :
    r.read mode v.tree = .ok (r.make row) := by
  cases form with
  | object listed => exact (fitting.written listed).read distinct mode
  | array placed => exact Record.read_array_iff.2 ⟨row, fitting.positional placed mode _ 0, rfl, rfl⟩

end Fitting

theorem Value.vet_array {vs : List Value} {depth : Nat}
    (each : ∀ v ∈ vs, v.tree.vet depth = .ok ()) : (array vs).tree.vet (depth + 1) = .ok () := by
  refine Tree.vet_array_iff.2 ⟨?_, rfl⟩
  induction vs with
  | nil => rfl
  | cons v vs ih =>
    obtain ⟨first, others⟩ := List.forall_mem_cons.1 each
    exact Tree.vetItems_cons_iff.2 ⟨first, ih others⟩

namespace Slot

variable {slots : List Slot} {depth : Nat}

/-- All that stands for the field may be taken in. -/
def Vets (depth : Nat) (p : Slot) : Prop := ∀ v, p.shows v → v.tree.vet depth = .ok ()

theorem vets_of_eq {p : Slot} {w : Value} (shows : ∀ v, p.shows v → v = w)
    (vetted : w.tree.vet depth = .ok ()) : p.Vets depth :=
  fun v shown => shows v shown ▸ vetted

theorem vets_maybe (name : String) {v : Option Value}
    (vetted : ∀ w ∈ v, w.tree.vet depth = .ok ()) : (maybe name v).Vets depth := by
  refine vets_of_eq (fun _ => id) ?_
  cases v with
  | none => rfl
  | some w => exact vetted w rfl

theorem Form.vet (vets : ∀ p ∈ slots, p.Vets depth) {v : Value} (form : Form slots v) :
    v.tree.vet (depth + 1) = .ok () := by
  cases form with
  | object listed =>
    refine Value.vet_object ?_
    induction listed with
    | nil => exact List.forall_mem_nil _
    | member shown _ ih =>
      obtain ⟨first, others⟩ := List.forall_mem_cons.1 vets
      exact List.forall_mem_cons.2 ⟨first _ shown, ih others⟩
    | without _ _ ih => exact ih (List.forall_mem_cons.1 vets).2
  | array placed =>
    refine Value.vet_array ?_
    induction placed with
    | nil | cut _ => exact List.forall_mem_nil _
    | item shown _ ih =>
      obtain ⟨first, others⟩ := List.forall_mem_cons.1 vets
      exact List.forall_mem_cons.2 ⟨first _ shown, ih others⟩

end Slot

end GatewayRules.Json
