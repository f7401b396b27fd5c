import GatewayRules.Proofs.Agreement
import GatewayRules.Proofs.Positional

/-!
Numbers in updates. An update that names nothing unknown holds no numbers but integers, since no
field is read from any other number.
-/
namespace GatewayRules.Json

namespace Tree

mutual

/-- Every number in the tree is an integer. -/
def Integral : Tree → Prop
  | number n => ∃ i, n = .integer i
  | array items _ => IntegralItems items
  | object members _ => IntegralMembers members
  | absent | stray | broken .. | null | bool _ | string _ => True

def IntegralItems : List Tree → Prop
  | [] => True
  | t :: rest => t.Integral ∧ IntegralItems rest

def IntegralMembers : List (Quotation × Tree) → Prop
  | [] => True
  | (_, t) :: rest => t.Integral ∧ IntegralMembers rest

end

theorem integralMembers_iff {ms : List (Quotation × Tree)} :
    IntegralMembers ms ↔ ∀ m ∈ ms, m.2.Integral := by
  induction ms with
  | nil => simp [IntegralMembers]
  | cons m ms ih => simp [IntegralMembers, ih]

end Tree

/-- Of the familiar trees, the reader accepts among those taken in only the ones whose numbers are
integers. -/
def Reader.Integral {α : Type} (r : Reader α) (familiar : Tree → Prop) : Prop :=
  ∀ t a, familiar t → r .buffered t = .ok a → t.Integral

namespace Reader.Integral

variable {α β : Type} {r : Reader α} {familiar : Tree → Prop}

theorem map (integral : r.Integral familiar) (f : α → β) : (r.map f).Integral familiar := by
  intro t b known read
  obtain ⟨a, inner, -⟩ := map_eq_ok_iff.1 read
  exact integral t a known inner

theorem text (wanted : String) : (Reader.text wanted).Integral familiar := by
  intro t s known read
  cases t with
  | string q => trivial
  | _ => cases read

theorem parsed (wanted : String) (parse : String → Except Mismatch α) :
    (Reader.parsed wanted parse).Integral familiar := by
  intro t a known read
  unfold Reader.parsed at read
  split at read
  · cases read
  · next s decoded => exact text wanted t s known decoded

theorem natural (wanted : String) (max : Nat) : (Reader.natural wanted max).Integral familiar := by
  intro t n known read
  cases t with
  | number n =>
    cases n with
    | integer i => exact ⟨i, rfl⟩
    | float isFinite => cases read
  | _ => cases read

theorem optional (integral : r.Integral familiar) : r.optional.Integral familiar := by
  intro t a known read
  unfold Reader.optional at read
  split at read
  · trivial
  · obtain ⟨b, inner, -⟩ := map_eq_ok_iff.1 read
    exact integral t b known inner

theorem readUnit {a b : α} {t : Tree} (read : Payload.readUnit a .buffered t = .ok b) :
    t.Integral := by
  unfold Payload.readUnit at read
  split at read
  · trivial
  · trivial
  · cases read

theorem choice {variants : List (String × Payload α)}
    (units : ∀ v ∈ variants, ∃ a, v.2 = .unit a) : (Reader.choice variants).Integral familiar := by
  intro t a known read
  cases t with
  | string q => trivial
  | object ms close =>
    cases ms with
    | nil => cases read
    | cons m others =>
      cases others with
      | cons m' others => cases read
      | nil =>
        obtain ⟨name, -, later⟩ := bind_eq_ok_iff.1 read
        obtain ⟨payload, variant, value⟩ := bind_eq_ok_iff.1 later
        obtain ⟨b, unit⟩ := units _ (mem_of_variantNamed variant)
        obtain rfl : payload = .unit b := unit
        exact ⟨readUnit value, trivial⟩
  | _ => cases read

theorem names (all : List α) (name : α → String) : (Reader.names all name).Integral familiar := by
  refine choice fun v member => ?_
  obtain ⟨a, -, rfl⟩ := List.mem_map.1 member
  exact ⟨a, rfl⟩

end Reader.Integral

namespace Fields

def Integral (familiar : String → Tree → Prop) : {types : List Type} → Fields types → Prop
  | [], nil => True
  | _ :: _, cons f rest => f.read.Integral (familiar f.name) ∧ rest.Integral familiar

variable {types : List Type} {fields : Fields types} {familiar : String → Tree → Prop}

theorem Integral.meet (integral : fields.Integral familiar) {name : String} {t : Tree}
    (field : name ∈ fields.names) (known : familiar name t) {draft next : Draft types}
    (met : fields.meet .buffered name t draft = .ok next) : t.Integral := by
  induction fields with
  | nil => cases field
  | cons f rest ih =>
    obtain ⟨value, draft⟩ := draft
    obtain ⟨rfl, -, b, read, -⟩ | ⟨other, draft', later, -⟩ := meet_cons_iff.1 met
    · exact integral.1 t b known read
    · exact ih integral.2 (List.mem_of_ne_of_mem other field) later

theorem Integral.meetAll (integral : fields.Integral familiar) {ms : List (Quotation × Tree)}
    (known : ∀ m ∈ ms, ∀ name ∈ m.1.text.toOption, name ∈ fields.names ∧ familiar name m.2)
    {draft last : Draft types} (met : fields.meetAll .buffered ms draft = .ok last) :
    Tree.IntegralMembers ms := by
  induction ms generalizing draft with
  | nil => trivial
  | cons m ms ih =>
    obtain ⟨first, others⟩ := List.forall_mem_cons.1 known
    obtain ⟨name, next, named, met, later⟩ := meetAll_cons_iff.1 met
    obtain ⟨field, familiar⟩ := first name (by rw [named]; rfl)
    exact ⟨integral.meet field familiar met, ih others later⟩

theorem Integral.positional (integral : fields.Integral familiar) {items : List Tree}
    (known : ∀ p ∈ fields.names.zip items, familiar p.1 p.2) {wanted : String} {close : ArrayEnd}
    {index : Nat} {row : Row types}
    (placed : fields.positional .buffered wanted close index items = .ok (row, [])) :
    Tree.IntegralItems items := by
  induction fields generalizing index items with
  | nil =>
    cases placed
    trivial
  | cons f rest ih =>
    cases items with
    | nil => trivial
    | cons t items =>
      obtain ⟨first, others⟩ := List.forall_mem_cons.1 known
      obtain ⟨b, row', read, later, rfl⟩ := positional_cons_iff.1 placed
      exact ⟨integral.1 t b first read, ih integral.2 others later⟩

end Fields

theorem Record.integral {types : List Type} {α : Type} {r : Record types α}
    {inside : String → Tree → Prop} (integral : r.fields.Integral inside) :
    r.read.Integral (r.Familiar inside) := by
  intro t a known read
  cases t with
  | object ms close =>
    obtain ⟨draft, row, met, -, -, -⟩ := read_object_iff.1 read
    exact integral.meetAll known met
  | array items close =>
    obtain ⟨row, placed, -, -⟩ := read_array_iff.1 read
    exact integral.positional known placed
  | _ => cases read

end GatewayRules.Json

namespace GatewayRules
open Json

theorem Port.integral (familiar : Tree → Prop) : reader.Integral familiar :=
  ((Reader.Integral.natural _ _).map _).map _

theorem Network.integral : reader.Integral Familiar :=
  Record.integral ⟨.text _, .text _, .names _ _, .parsed _ _, .optional (.text _), trivial⟩

theorem TunnelPorts.integral : reader.Integral Familiar :=
  Record.integral ⟨.optional (Port.integral _), .optional (Port.integral _),
    .optional (Port.integral _), trivial⟩

theorem Node.integral : reader.Integral Familiar := by
  have ports : TunnelPorts.reader.Integral
      (fun t => "tunnel_ports" = "tunnel_ports" → TunnelPorts.Familiar t) :=
    fun t a known => TunnelPorts.integral t a (known rfl)
  exact Record.integral ⟨.text _, .map (.text _) _, .parsed _ _, .parsed _ _, .names _ _, ports,
    trivial⟩

namespace Update

/-- The value of the field names nothing unknown. -/
def Knows : Update → Tree → Prop
  | upsertNetwork _ => Network.Familiar
  | upsertNode _ => Node.Familiar
  | removeNetwork _ | removeNode _ => fun _ => True

instance : (u : Update) → DecidablePred u.Knows
  | upsertNetwork _ => inferInstanceAs (DecidablePred Network.Familiar)
  | upsertNode _ => inferInstanceAs (DecidablePred Node.Familiar)
  | removeNetwork _ | removeNode _ => inferInstanceAs (DecidablePred fun _ => True)

/-- The tree names nothing but the kind and the field of the update, and nothing unknown inside. -/
def Familiar (u : Update) : Tree → Prop
  | .object ms _ => ∀ m ∈ ms, ∀ name ∈ m.1.text.toOption,
    name = "op" ∨ name = u.payloadName ∧ u.Knows m.2
  | .array items _ => ∀ t ∈ items.tail, u.Knows t
  | _ => True

instance (u : Update) : DecidablePred u.Familiar
  | .object ms _ => inferInstanceAs (Decidable (∀ m ∈ ms, ∀ name ∈ m.1.text.toOption,
      name = "op" ∨ name = u.payloadName ∧ u.Knows m.2))
  | .array items _ => inferInstanceAs (Decidable (∀ t ∈ items.tail, u.Knows t))
  | .absent | .stray | .broken .. | .null | .bool _ | .number _ | .string _ =>
    inferInstanceAs (Decidable True)

/-- What is read after the kind names nothing but the field, and nothing unknown inside. -/
def KnowsPayload (u : Update) : Tree → Prop
  | .object ms _ => ∀ m ∈ ms, ∀ name ∈ m.1.text.toOption, name = u.payloadName ∧ u.Knows m.2
  | .array items _ => ∀ t ∈ items, u.Knows t
  | _ => True

theorem integral_of_payload {β : Type} {r : Record [β] Update} {field : String} {read : Reader β}
    (fields : r.fields = .cons (.required field read) .nil) {knows : Tree → Prop}
    (integral : read.Integral knows)
    (makes : ∀ b, (r.make (b, ())).payloadName = field ∧ (r.make (b, ())).Knows = knows)
    {t : Tree} {u : Update} (value : r.read .buffered t = .ok u) (known : u.KnowsPayload t) :
    t.Integral := by
  have made : ∃ b, u = r.make (b, ()) := by
    cases t with
    | object ms close =>
      obtain ⟨draft, ⟨b, _⟩, -, -, -, rfl⟩ := Record.read_object_iff.1 value
      exact ⟨b, rfl⟩
    | array items close =>
      obtain ⟨⟨b, _⟩, -, -, rfl⟩ := Record.read_array_iff.1 value
      exact ⟨b, rfl⟩
    | _ => cases value
  obtain ⟨b, rfl⟩ := made
  obtain ⟨named, knows'⟩ := makes b
  have names : r.fields.names = [field] := by rw [fields]; rfl
  have each : r.fields.Integral fun _ => knows := by
    rw [fields]
    exact ⟨integral, trivial⟩
  refine Record.integral each t _ ?_ value
  cases t with
  | object ms close =>
    intro m member name text
    obtain ⟨same, inside⟩ := known m member name text
    exact ⟨names ▸ List.mem_singleton.2 (same.trans named), knows' ▸ inside⟩
  | array items close =>
    rintro ⟨name, t⟩ member
    exact knows' ▸ known t (List.of_mem_zip member).2
  | _ => trivial

theorem integral_of_kind {kind : Tree} {read : Reader Update} (known : readKind kind = .ok read)
    {t : Tree} {u : Update} (value : read .buffered t = .ok u) (knows : u.KnowsPayload t) :
    t.Integral := by
  have text : Reader.Integral .string fun _ => True := .text _
  have each : ∀ k ∈ kinds, ∀ t u, k.2 .buffered t = .ok u → u.KnowsPayload t → t.Integral := by
    simp only [kinds, List.forall_mem_cons]
    exact ⟨fun t u => integral_of_payload rfl Network.integral fun _ => ⟨rfl, rfl⟩,
      fun t u => integral_of_payload rfl text fun _ => ⟨rfl, rfl⟩,
      fun t u => integral_of_payload rfl Node.integral fun _ => ⟨rfl, rfl⟩,
      fun t u => integral_of_payload rfl text fun _ => ⟨rfl, rfl⟩, List.forall_mem_nil _⟩
  cases kind with
  | string q =>
    obtain ⟨name, -, named⟩ := bind_eq_ok_iff.1 known
    exact each (name, read) (Reader.mem_of_variantNamed named) t u value knows
  | _ => cases known

theorem string_of_readKind {t : Tree} {read : Reader Update} (known : readKind t = .ok read) :
    ∃ q, t = .string q ∧ ∃ name, q.text = .ok name := by
  cases t with
  | string q =>
    obtain ⟨name, named, -⟩ := bind_eq_ok_iff.1 known
    exact ⟨q, rfl, name, orFault_eq_ok_iff.1 named⟩
  | _ => cases known

theorem integral_of_takeMembers {kind kind' : Option (Reader Update)}
    {others taken ms : List (Quotation × Tree)}
    (done : takeMembers kind others ms = .ok (kind', taken))
    (integral : Tree.IntegralMembers taken) :
    Tree.IntegralMembers ms ∧ Tree.IntegralMembers others := by
  induction ms generalizing kind others with
  | nil =>
    cases done
    exact ⟨trivial, integral⟩
  | cons m ms ih =>
    obtain ⟨_, _, takes, later⟩ := takeMembers_cons_iff.1 done
    obtain ⟨rest, before⟩ := ih later
    cases takes with
    | kind named known =>
      obtain ⟨q, rfl, -⟩ := string_of_readKind known
      exact ⟨⟨trivial, rest⟩, before⟩
    | other named other vetted => exact ⟨⟨before.1, rest⟩, before.2⟩

/-- An update that names nothing unknown holds no numbers but integers. -/
theorem integral_of_read {mode : Mode} {t : Tree} {u : Update} (read : reader mode t = .ok u)
    (familiar : u.Familiar t) : t.Integral := by
  cases t with
  | object ms close =>
    obtain ⟨-, kind, others, done, value⟩ := reader_object_iff.1 read
    have known := kind_of_takeMembers (p := fun read => ∃ t, readKind t = .ok read)
      (fun t _ known => ⟨t, known⟩) (fun _ none => by cases none) done
    obtain ⟨t, kinded⟩ := known kind rfl
    have knows : ∀ m ∈ others, ∀ name ∈ m.1.text.toOption, name = u.payloadName ∧ u.Knows m.2 := by
      refine others_of_takeMembers (List.forall_mem_nil _) ?_ done
      intro m member name named other
      rw [named]
      intro name' same
      obtain rfl := Option.some.inj same
      exact (familiar m member name (by rw [named]; rfl)).resolve_left other
    have integral := integral_of_kind kinded value fun m member =>
      knows m (List.mem_reverse.1 member)
    refine (integral_of_takeMembers done (Tree.integralMembers_iff.2 fun m member => ?_)).1
    exact Tree.integralMembers_iff.1 integral m (List.mem_reverse.2 member)
  | array ts close =>
    obtain ⟨-, kind, items, read, rfl, kinded, -, value⟩ := reader_array_iff.1 read
    obtain ⟨q, rfl, -⟩ := string_of_readKind kinded
    exact ⟨trivial, integral_of_kind kinded value familiar⟩
  | _ => trivial

end Update

end GatewayRules
