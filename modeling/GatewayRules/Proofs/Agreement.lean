import GatewayRules.Proofs.Reading

/-!
Two ways into a record. The records of a snapshot are read as they come; the record of an update is
taken in first, with all that it holds, and then read. What the first way accepts, the second accepts
with the same meaning, unless something is passed over: for that it is enough to be well formed, but
to be taken in its strings need a text, its numbers have to be finite, and it may not be too deep.
-/
namespace GatewayRules.Json

/-- Of the familiar trees, the reader accepts in a text only what may be taken in, where so many
levels of nesting are left, and it is then accepted as the same. -/
def Reader.Agrees {α : Type} (r : Reader α) (familiar : Tree → Prop) (levels : Nat) : Prop :=
  ∀ t a, familiar t → r .streamed t = .ok a →
    r .buffered t = .ok a ∧ ∀ depth, levels ≤ depth → t.vet depth = .ok ()

namespace Reader.Agrees

variable {α β : Type} {r : Reader α} {familiar : Tree → Prop} {levels : Nat}

theorem map (agrees : r.Agrees familiar levels) (f : α → β) : (r.map f).Agrees familiar levels := by
  intro t b known read
  obtain ⟨a, inner, rfl⟩ := map_eq_ok_iff.1 read
  obtain ⟨same, vetted⟩ := agrees t a known inner
  exact ⟨map_eq_ok_iff.2 ⟨a, same, rfl⟩, vetted⟩

theorem text (wanted : String) : (Reader.text wanted).Agrees familiar levels := by
  intro t s known read
  refine ⟨read, fun depth _ => ?_⟩
  cases t with
  | string q =>
    have decoded : q.text = .ok s := orFault_eq_ok_iff.1 read
    rw [Tree.vet, decoded]
    rfl
  | _ => cases read

theorem parsed (wanted : String) (parse : String → Except Mismatch α) :
    (Reader.parsed wanted parse).Agrees familiar levels := by
  intro t a known read
  refine ⟨read, ?_⟩
  unfold Reader.parsed at read
  split at read
  · cases read
  · next s decoded => exact (text wanted t s known decoded).2

theorem natural (wanted : String) (max : Nat) :
    (Reader.natural wanted max).Agrees familiar levels := by
  intro t n known read
  refine ⟨read, fun depth _ => ?_⟩
  cases t with
  | number n =>
    cases n with
    | integer i => rfl
    | float isFinite => cases read
  | _ => cases read

theorem optional (agrees : r.Agrees familiar levels) : r.optional.Agrees familiar levels := by
  intro t a known read
  unfold Reader.optional at read ⊢
  split at read
  · exact ⟨read, fun depth _ => rfl⟩
  · obtain ⟨b, inner, rfl⟩ := map_eq_ok_iff.1 read
    obtain ⟨same, vetted⟩ := agrees t b known inner
    exact ⟨map_eq_ok_iff.2 ⟨b, same, rfl⟩, vetted⟩

theorem choice {variants : List (String × Payload α)}
    (units : ∀ v ∈ variants, ∃ a, v.2 = .unit a) :
    (Reader.choice variants).Agrees familiar (levels + 1) := by
  intro t a known read
  cases t with
  | string q =>
    refine ⟨read, fun depth _ => ?_⟩
    obtain ⟨name, named, -⟩ := bind_eq_ok_iff.1 read
    rw [Tree.vet, orFault_eq_ok_iff.1 named]
    rfl
  | object ms close =>
    obtain ⟨rfl, q, t, name, payload, rfl, named, variant, value⟩ := choice_object_iff.1 read
    obtain ⟨b, unit⟩ := units _ (mem_of_variantNamed variant)
    obtain rfl : payload = .unit b := unit
    obtain ⟨rfl, rfl⟩ := Payload.readUnit_iff.1 value
    refine ⟨?_, fun depth enough => ?_⟩
    · refine bind_eq_ok_iff.2 ⟨name, orFault_eq_ok_iff.2 named, ?_⟩
      exact bind_eq_ok_iff.2 ⟨_, variant, rfl⟩
    · obtain ⟨depth, rfl⟩ := Nat.exists_eq_add_of_le' enough
      exact Tree.vet_object_iff.2 ⟨Tree.vetMembers_cons_iff.2 ⟨⟨name, named⟩, rfl, rfl⟩, rfl⟩
  | _ => cases read

theorem names (all : List α) (name : α → String) :
    (Reader.names all name).Agrees familiar (levels + 1) := by
  refine choice fun v member => ?_
  obtain ⟨a, -, rfl⟩ := List.mem_map.1 member
  exact ⟨a, rfl⟩

end Reader.Agrees

namespace Fields

/-- The readers of all fields agree on what is familiar in them. -/
def Agree (familiar : String → Tree → Prop) (levels : Nat) :
    {types : List Type} → Fields types → Prop
  | [], nil => True
  | _ :: _, cons f rest => f.read.Agrees (familiar f.name) levels ∧ rest.Agree familiar levels

variable {types : List Type} {fields : Fields types} {familiar : String → Tree → Prop}
  {levels : Nat}

theorem Agree.meet (agree : fields.Agree familiar levels) {name : String} {t : Tree}
    (field : name ∈ fields.names) (known : familiar name t) {draft next : Draft types}
    (met : fields.meet .streamed name t draft = .ok next) :
    fields.meet .buffered name t draft = .ok next ∧
      ∀ depth, levels ≤ depth → t.vet depth = .ok () := by
  induction fields with
  | nil => cases field
  | cons f rest ih =>
    obtain ⟨value, draft⟩ := draft
    obtain ⟨rfl, rfl, b, read, rfl⟩ | ⟨other, draft', later, rfl⟩ := meet_cons_iff.1 met
    · obtain ⟨same, vetted⟩ := agree.1 t b known read
      exact ⟨meet_cons_iff.2 (.inl ⟨rfl, rfl, b, same, rfl⟩), vetted⟩
    · obtain ⟨same, vetted⟩ := ih agree.2 (List.mem_of_ne_of_mem other field) later
      exact ⟨meet_cons_iff.2 (.inr ⟨other, draft', same, rfl⟩), vetted⟩

theorem Agree.meetAll (agree : fields.Agree familiar levels) {ms : List (Quotation × Tree)}
    (known : ∀ m ∈ ms, ∀ name ∈ m.1.text.toOption, name ∈ fields.names ∧ familiar name m.2)
    {draft last : Draft types} (met : fields.meetAll .streamed ms draft = .ok last) :
    fields.meetAll .buffered ms draft = .ok last ∧
      ∀ depth, levels ≤ depth → Tree.vetMembers depth ms = .ok () := by
  induction ms generalizing draft with
  | nil => exact ⟨met, fun _ _ => rfl⟩
  | cons m ms ih =>
    obtain ⟨first, others⟩ := List.forall_mem_cons.1 known
    obtain ⟨name, next, named, met, later⟩ := meetAll_cons_iff.1 met
    obtain ⟨field, familiar⟩ := first name (by rw [named]; rfl)
    obtain ⟨same, vetted⟩ := agree.meet field familiar met
    obtain ⟨sames, vetteds⟩ := ih others later
    refine ⟨meetAll_cons_iff.2 ⟨name, next, named, same, sames⟩, fun depth enough => ?_⟩
    exact Tree.vetMembers_cons_iff.2 ⟨⟨name, named⟩, vetted depth enough, vetteds depth enough⟩

theorem positional_nil (mode mode' : Mode) (wanted : String) (close : ArrayEnd)
    (fields : Fields types) (index : Nat) :
    fields.positional mode wanted close index [] = fields.positional mode' wanted close index [] := by
  induction fields generalizing index with
  | nil => rfl
  | cons f rest ih => rw [positional, positional, ih]

theorem Agree.positional (agree : fields.Agree familiar levels) {items : List Tree}
    (known : ∀ p ∈ fields.names.zip items, familiar p.1 p.2) {wanted : String} {close : ArrayEnd}
    {index : Nat} {row : Row types}
    (placed : fields.positional .streamed wanted close index items = .ok (row, [])) :
    fields.positional .buffered wanted close index items = .ok (row, []) ∧
      ∀ depth, levels ≤ depth → Tree.vetItems depth items = .ok () := by
  induction fields generalizing index items with
  | nil =>
    cases placed
    exact ⟨rfl, fun _ _ => rfl⟩
  | cons f rest ih =>
    cases items with
    | nil =>
      rw [positional_nil .streamed .buffered] at placed
      exact ⟨placed, fun _ _ => rfl⟩
    | cons t items =>
      obtain ⟨first, others⟩ := List.forall_mem_cons.1 known
      obtain ⟨b, row', read, later, rfl⟩ := positional_cons_iff.1 placed
      obtain ⟨same, vetted⟩ := agree.1 t b first read
      obtain ⟨sames, vetteds⟩ := ih agree.2 others later
      refine ⟨positional_cons_iff.2 ⟨b, row', same, sames, rfl⟩, fun depth enough => ?_⟩
      exact Tree.vetItems_cons_iff.2 ⟨vetted depth enough, vetteds depth enough⟩

end Fields

namespace Record

variable {types : List Type} {α : Type}

/-- A record without unknown members, and with something familiar in each of its fields. -/
def Familiar (r : Record types α) (inside : String → Tree → Prop) : Tree → Prop
  | .object ms _ =>
    ∀ m ∈ ms, ∀ name ∈ m.1.text.toOption, name ∈ r.fields.names ∧ inside name m.2
  | .array items _ => ∀ p ∈ r.fields.names.zip items, inside p.1 p.2
  | _ => True

instance (r : Record types α) (inside : String → Tree → Prop)
    [∀ name t, Decidable (inside name t)] : DecidablePred (r.Familiar inside)
  | .object ms _ => inferInstanceAs (Decidable
      (∀ m ∈ ms, ∀ name ∈ m.1.text.toOption, name ∈ r.fields.names ∧ inside name m.2))
  | .array items _ => inferInstanceAs (Decidable
      (∀ p ∈ r.fields.names.zip items, inside p.1 p.2))
  | .absent | .stray | .broken .. | .null | .bool _ | .number _ | .string _ => isTrue trivial

theorem agrees {r : Record types α} {inside : String → Tree → Prop} {levels : Nat}
    (agree : r.fields.Agree inside levels) : r.read.Agrees (r.Familiar inside) (levels + 1) := by
  intro t a known read
  cases t with
  | object ms close =>
    obtain ⟨draft, row, met, rfl, filled, made⟩ := read_object_iff.1 read
    obtain ⟨same, vetted⟩ := agree.meetAll known met
    refine ⟨read_object_iff.2 ⟨draft, row, same, rfl, filled, made⟩, fun depth enough => ?_⟩
    obtain ⟨depth, rfl⟩ := Nat.exists_eq_add_of_le' enough
    exact Tree.vet_object_iff.2 ⟨vetted (depth + levels) (Nat.le_add_left _ _), rfl⟩
  | array items close =>
    obtain ⟨row, placed, rfl, made⟩ := read_array_iff.1 read
    obtain ⟨same, vetted⟩ := agree.positional known placed
    refine ⟨read_array_iff.2 ⟨row, same, rfl, made⟩, fun depth enough => ?_⟩
    obtain ⟨depth, rfl⟩ := Nat.exists_eq_add_of_le' enough
    exact Tree.vet_array_iff.2 ⟨vetted (depth + levels) (Nat.le_add_left _ _), rfl⟩
  | _ => cases read

end Record

namespace Quotation

theorem fault_of_decode {fault : Option Fault} {gs : List Glyph} {cs : List Char}
    (decoded : decode fault gs = .ok cs) : fault = none := by
  fun_induction decode fault gs generalizing cs with
  | case1 => cases decoded
  | case2 whole => exact whole
  | case3 c rest ih | case4 high low rest pair ih =>
    obtain ⟨cs, later, -⟩ := map_eq_ok_iff.1 decoded
    exact ih later
  | _ => cases decoded

theorem fault_of_text {q : Quotation} {name : String} (named : q.text = .ok name) :
    q.fault = none := by
  obtain ⟨cs, decoded, -⟩ := map_eq_ok_iff.1 named
  exact fault_of_decode decoded

end Quotation

namespace Tree

mutual

/-- What may be taken in may be passed over. -/
theorem skip_of_vet (t : Tree) {depth : Nat} (vetted : t.vet depth = .ok ()) : t.skip = .ok () := by
  match t, depth with
  | .null, _ | .bool _, _ | .number _, _ => rfl
  | .string q, _ =>
    obtain ⟨name, named, -⟩ := map_eq_ok_iff.1 vetted
    rw [skip, Quotation.fault_of_text named]
  | .array ts close, depth + 1 =>
    obtain ⟨items, closed⟩ := vet_array_iff.1 vetted
    exact skip_array_iff.2 ⟨skipItems_of_vet ts items, closed⟩
  | .object ms close, depth + 1 =>
    obtain ⟨members, closed⟩ := vet_object_iff.1 vetted
    exact skip_object_iff.2 ⟨skipMembers_of_vet ms members, closed⟩

theorem skipItems_of_vet (ts : List Tree) {depth : Nat} (vetted : vetItems depth ts = .ok ()) :
    skipItems ts = .ok () := by
  match ts with
  | [] => rfl
  | t :: ts =>
    obtain ⟨first, others⟩ := vetItems_cons_iff.1 vetted
    exact skipItems_cons_iff.2 ⟨skip_of_vet t first, skipItems_of_vet ts others⟩

theorem skipMembers_of_vet (ms : List (Quotation × Tree)) {depth : Nat}
    (vetted : vetMembers depth ms = .ok ()) : skipMembers ms = .ok () := by
  match ms with
  | [] => rfl
  | (q, t) :: ms =>
    obtain ⟨⟨name, named⟩, first, others⟩ := vetMembers_cons_iff.1 vetted
    have ended := Quotation.fault_of_text named
    exact skipMembers_cons_iff.2 ⟨ended, skip_of_vet t first, skipMembers_of_vet ms others⟩

end

end Tree

def Proper (s : List Char) : Prop := Spells (.padded (Tree.scan s).1) s

theorem proper_of_read {α : Type} {r : Reader α} {s : List Char} {a : α}
    (read : r.readText s = .ok a) (whole : (Tree.scan s).1.skip = .ok ()) : Proper s :=
  Tree.spells_iff_scan.2 ⟨⟨_, (Reader.readText_iff.1 read).2, rfl⟩, whole⟩

end GatewayRules.Json

namespace GatewayRules
open Json

theorem Encapsulation.agrees (familiar : Tree → Prop) : reader.Agrees familiar 1 := .names _ _

theorem Readiness.agrees (familiar : Tree → Prop) : reader.Agrees familiar 1 := .names _ _

theorem Port.agrees (familiar : Tree → Prop) : reader.Agrees familiar 0 :=
  ((Reader.Agrees.natural _ _).map _).map _

namespace Network

def Familiar : Tree → Prop := record.Familiar fun _ _ => True

instance : DecidablePred Familiar := inferInstanceAs (DecidablePred (record.Familiar _))

theorem agrees : reader.Agrees Familiar 2 :=
  Record.agrees ⟨.text _, .text _, Encapsulation.agrees _, .parsed _ _, .optional (.text _), trivial⟩

end Network

namespace TunnelPorts

def Familiar : Tree → Prop := record.Familiar fun _ _ => True

instance : DecidablePred Familiar := inferInstanceAs (DecidablePred (record.Familiar _))

theorem agrees : reader.Agrees Familiar 1 :=
  Record.agrees ⟨.optional (Port.agrees _), .optional (Port.agrees _), .optional (Port.agrees _),
    trivial⟩

end TunnelPorts

namespace Node

/-- The tree names nothing but fields of nodes, and fields of tunnel ports inside of those. -/
def Familiar : Tree → Prop :=
  record.Familiar fun name t => name = "tunnel_ports" → TunnelPorts.Familiar t

instance : DecidablePred Familiar := inferInstanceAs (DecidablePred (record.Familiar _))

theorem agrees : reader.Agrees Familiar 2 := by
  have ports : TunnelPorts.reader.Agrees
      (fun t => "tunnel_ports" = "tunnel_ports" → TunnelPorts.Familiar t) 1 :=
    fun t a known => TunnelPorts.agrees t a (known rfl)
  exact Record.agrees ⟨.text _, .map (.text _) _, .parsed _ _, .parsed _ _, Readiness.agrees _, ports,
    trivial⟩

end Node

namespace Update

/-- The text of an update that carries a value with the given text. -/
def carrying (kind field : String) (s : List Char) : List Char :=
  '\x7b' :: (quote "op" ++ ':' :: (quote kind ++ ',' :: (quote field ++ ':' :: (s ++ ['\x7d']))))

example (s : List Char) : carrying "upsert_node" "node" s =
    "\x7b\"op\":\"upsert_node\",\"node\":".toList ++ (s ++ ['\x7d']) := rfl

theorem spelled_carrying (kind field : String) {t : Tree} {s : List Char}
    (spelled : Spells (.padded t) s) :
    Spells (.padded (.object [(.ofString "op", .string (.ofString kind)), (.ofString field, t)]
      .closed)) (carrying kind field s) := by
  have op : Spells (.padded (.string (.ofString kind))) (quote kind) :=
    (Spells.string (letters_escape kind.toList)).bare
  have both := (Spells.object (.nextMember (named_quote "op") op
    (.lastMember (named_quote field) spelled))).bare
  rw [List.append_assoc, List.cons_append, List.append_assoc, List.cons_append, List.append_assoc,
    List.cons_append] at both
  exact both

/-- What is accepted as a record by itself is accepted inside an update. -/
theorem readText_carrying {β : Type} {r : Reader β} {familiar : Tree → Prop}
    (agrees : r.Agrees familiar 2) {kind field label : String} {make : β → Update}
    (kinded : Reader.variantNamed kinds kind =
      .ok (Record.read ⟨label, .cons (.required field r) .nil, fun (b, ()) => make b⟩))
    (other : field ≠ "op") {s : List Char} {b : β} (known : familiar (Tree.scan s).1)
    (read : r.readText s = .ok b) : reader.readText (carrying kind field s) = .ok (make b) := by
  obtain ⟨buffered, vetted⟩ := agrees _ b known (Reader.readText_iff.1 read).1
  have taken : (Tree.scan s).1.vet maxDepth = .ok () := vetted maxDepth (by decide)
  have proper : Proper s := proper_of_read read (Tree.skip_of_vet _ taken)
  rw [Reader.readText_of_spells reader (spelled_carrying kind field proper)]
  exact reader_pair kinded other taken (read_payload buffered label field make) .streamed

theorem upsertNetwork_of_text {s : List Char} {n : Network}
    (known : Network.Familiar (Tree.scan s).1) (read : Network.reader.readText s = .ok n) :
    reader.readText (carrying "upsert_network" "network" s) = .ok (upsertNetwork n) :=
  readText_carrying Network.agrees rfl (by decide) known read

theorem upsertNode_of_text {s : List Char} {x : Node} (known : Node.Familiar (Tree.scan s).1)
    (read : Node.reader.readText s = .ok x) :
    reader.readText (carrying "upsert_node" "node" s) = .ok (upsertNode x) :=
  readText_carrying Node.agrees rfl (by decide) known read

end Update

namespace Snapshot

/-- The text of a snapshot that lists values with the given texts. -/
def listing (networks nodes : List (List Char)) : List Char :=
  let array (texts : List (List Char)) := '[' :: (Text.join [','] texts ++ [']'])
  '\x7b' :: (quote "networks" ++ ':' :: (array networks ++
    ',' :: (quote "nodes" ++ ':' :: array nodes)) ++ ['\x7d'])

variable {networks nodes : List (List Char)}

def shown (texts : List (List Char)) : Tree :=
  .array (texts.map fun s => (Tree.scan s).1) .closed

theorem spelled_shown {texts : List (List Char)} (proper : ∀ s ∈ texts, Proper s) :
    Spells (.padded (shown texts)) ('[' :: (Text.join [','] texts ++ [']'])) := by
  have each : List.Forall₂ (fun t s => Spells (.padded t) s)
      (texts.map fun s => (Tree.scan s).1) texts :=
    List.forall₂_map_left_iff.2 (List.forall₂_same.2 proper)
  exact (Spells.array_join each).bare

theorem spelled_listing (proper : ∀ s ∈ networks ++ nodes, Proper s) :
    Spells (.padded (.object [(.ofString "networks", shown networks),
      (.ofString "nodes", shown nodes)] .closed)) (listing networks nodes) := by
  obtain ⟨networks, nodes⟩ := List.forall_mem_append.1 proper
  exact (Spells.object (.nextMember (named_quote "networks") (spelled_shown networks)
    (.lastMember (named_quote "nodes") (spelled_shown nodes)))).bare

theorem read_shown_iff {α : Type} {r : Reader α} {texts : List (List Char)}
    (proper : ∀ s ∈ texts, Proper s) {values : List α} :
    r.list .streamed (shown texts) = .ok values ↔ texts.map r.readText = values.map .ok := by
  have each : texts.map r.readText = (texts.map fun s => (Tree.scan s).1).map (r .streamed) := by
    rw [List.map_map]
    exact List.map_congr_left fun s member => r.readText_of_spells (proper s member)
  rw [each]
  exact Reader.list_iff.trans (and_iff_left rfl)

/-- A snapshot is accepted if all its records are, and is made of them. -/
theorem read_listing_iff (proper : ∀ s ∈ networks ++ nodes, Proper s) {snapshot : Snapshot} :
    reader.readText (listing networks nodes) = .ok snapshot ↔
      networks.map Network.reader.readText = snapshot.networks.map .ok ∧
        nodes.map Node.reader.readText = snapshot.nodes.map .ok := by
  obtain ⟨properNetworks, properNodes⟩ := List.forall_mem_append.1 proper
  have apart : "nodes" ≠ "networks" := by decide
  rw [reader.readText_of_spells (spelled_listing proper), ← read_shown_iff properNetworks,
    ← read_shown_iff properNodes]
  constructor
  · intro read
    obtain ⟨draft, row, met, -, filled, rfl⟩ := Record.read_object_iff.1 read
    obtain ⟨name, next, named, first, met⟩ := Fields.meetAll_cons_iff.1 met
    obtain ⟨name', last, named', second, met⟩ := Fields.meetAll_cons_iff.1 met
    rw [Quotation.text_ofString] at named named'
    cases named
    cases named'
    cases met
    obtain ⟨-, -, ns, readNetworks, rfl⟩ :=
      (Fields.meet_cons_iff.1 first).resolve_right fun other => other.1 rfl
    obtain ⟨-, filed, inner, rfl⟩ :=
      (Fields.meet_cons_iff.1 second).resolve_left fun same => apart same.1
    obtain ⟨-, -, xs, readNodes, rfl⟩ :=
      (Fields.meet_cons_iff.1 inner).resolve_right fun other => other.1 rfl
    cases filled
    exact ⟨readNetworks, readNodes⟩
  · rintro ⟨readNetworks, readNodes⟩
    have first : record.fields.meet .streamed "networks" (shown networks) record.fields.blank =
        .ok (some snapshot.networks, none, ()) :=
      Fields.meet_cons_iff.2 (.inl ⟨rfl, rfl, _, readNetworks, rfl⟩)
    have second : record.fields.meet .streamed "nodes" (shown nodes)
        (some snapshot.networks, none, ()) =
          .ok (some snapshot.networks, some snapshot.nodes, ()) :=
      Fields.meet_cons_iff.2 (.inr ⟨apart, (some snapshot.nodes, ()),
        Fields.meet_cons_iff.2 (.inl ⟨rfl, rfl, _, readNodes, rfl⟩), rfl⟩)
    refine Record.read_object_iff.2 ⟨(some snapshot.networks, some snapshot.nodes, ()),
      (snapshot.networks, snapshot.nodes, ()), ?_, rfl, rfl, rfl⟩
    refine Fields.meetAll_cons_iff.2 ⟨_, _, Quotation.text_ofString _, first, ?_⟩
    exact Fields.meetAll_cons_iff.2 ⟨_, _, Quotation.text_ofString _, second, rfl⟩

end Snapshot

theorem map_ok_of_map_ok {ε α β γ : Type} {f : α → Except ε β} {g : α → Except ε γ} {h : β → γ}
    {l : List α} {l' : List β} (each : ∀ a ∈ l, ∀ b, f a = .ok b → g a = .ok (h b))
    (all : l.map f = l'.map .ok) : l.map g = l'.map fun b => .ok (h b) := by
  induction l generalizing l' with
  | nil =>
    cases l' with
    | nil => rfl
    | cons b rest => cases all
  | cons a l ih =>
    cases l' with
    | nil => cases all
    | cons b rest =>
      obtain ⟨first, others⟩ := List.cons.inj all
      obtain ⟨here, later⟩ := List.forall_mem_cons.1 each
      rw [List.map_cons, List.map_cons, here b first, ih later others]

/-- A record means the same to the feed as to the seed file. Every text that is accepted as a node and
names no unknown fields at any level is accepted by the feed inside an update, as the same node, and
so is every such text of a network: with its fields in any order or in an array, with null or nothing
for what is optional, and with variants as strings or objects. So if a snapshot that lists such
records is accepted, each of them is, in its own update, and as what the snapshot makes of it. -/
theorem feed_accepts_what_seed_accepts :
    (∀ (s : List Char) (x : Node), Node.Familiar (Tree.scan s).1 →
      Node.reader.readText s = .ok x →
      Update.reader.readText (Update.carrying "upsert_node" "node" s) = .ok (.upsertNode x)) ∧
    (∀ (s : List Char) (n : Network), Network.Familiar (Tree.scan s).1 →
      Network.reader.readText s = .ok n →
      Update.reader.readText (Update.carrying "upsert_network" "network" s) =
        .ok (.upsertNetwork n)) ∧
    ∀ (networks nodes : List (List Char)) (snapshot : Snapshot),
      (∀ s ∈ networks ++ nodes, Proper s) →
      (∀ s ∈ networks, Network.Familiar (Tree.scan s).1) →
      (∀ s ∈ nodes, Node.Familiar (Tree.scan s).1) →
      Snapshot.reader.readText (Snapshot.listing networks nodes) = .ok snapshot →
      networks.map (fun s =>
          Update.reader.readText (Update.carrying "upsert_network" "network" s)) =
        snapshot.networks.map (fun n => .ok (.upsertNetwork n)) ∧
      nodes.map (fun s => Update.reader.readText (Update.carrying "upsert_node" "node" s)) =
        snapshot.nodes.map (fun x => .ok (.upsertNode x)) := by
  refine ⟨fun s x => Update.upsertNode_of_text, fun s n => Update.upsertNetwork_of_text, ?_⟩
  intro networks nodes snapshot proper knownNetworks knownNodes read
  obtain ⟨readNetworks, readNodes⟩ := (Snapshot.read_listing_iff proper).1 read
  constructor
  · exact map_ok_of_map_ok
      (fun s member _ => Update.upsertNetwork_of_text (knownNetworks s member)) readNetworks
  · exact map_ok_of_map_ok
      (fun s member _ => Update.upsertNode_of_text (knownNodes s member)) readNodes

def arrayedNode : List Char :=
  " [\"compute-1\", \"br-int\", \"fe:00:00:00:00:01\", \"10.1.0.1\", \x7b\"COMPLETE\": null\x7d,
    \x7b\"gre\": null, \"vxlan\": 4789\x7d]".toList

def turnedNetwork : List Char :=
  "\x7b\"cidr\":null,\"gateway_ip\":\"10.0.0.1\",\"network_id\":\"a\",\"name\":\"\\u006e\"\x7d".toList

theorem feed_accepts_arrayed_node :
    let x : Node := ⟨"compute-1", ⟨"br-int"⟩, ⟨0xfe, 0, 0, 0, 0, 1⟩, ⟨10, 1, 0, 1⟩, .complete,
      ⟨some ⟨4789⟩, none, none⟩⟩
    let n : Network := ⟨"n", "a", .vxlan, ⟨10, 0, 0, 1⟩, none⟩
    Update.reader.readText (Update.carrying "upsert_node" "node" arrayedNode) =
        .ok (.upsertNode x) ∧
      Update.reader.readText (Update.carrying "upsert_network" "network" turnedNetwork) =
        .ok (.upsertNetwork n) ∧
      Snapshot.reader.readText (Snapshot.listing [turnedNetwork] [arrayedNode]) = .ok ⟨[n], [x]⟩ ∧
      [arrayedNode].map (fun s => Update.reader.readText (Update.carrying "upsert_node" "node" s)) =
        [.ok (.upsertNode x)] := by
  intro x n
  have node : Node.reader.readText arrayedNode = .ok x := by decide +kernel
  have network : Network.reader.readText turnedNetwork = .ok n := by decide +kernel
  have proper : ∀ s ∈ [turnedNetwork] ++ [arrayedNode], Proper s := by
    refine List.forall_mem_cons.2 ⟨?_, List.forall_mem_singleton.2 ?_⟩
    · exact proper_of_read network (by decide +kernel)
    · exact proper_of_read node (by decide +kernel)
  have snapshot : Snapshot.reader.readText (Snapshot.listing [turnedNetwork] [arrayedNode]) =
      .ok ⟨[n], [x]⟩ :=
    (Snapshot.read_listing_iff proper).2 ⟨congrArg (fun result => [result]) network,
      congrArg (fun result => [result]) node⟩
  obtain ⟨nodes, networks, seeds⟩ := feed_accepts_what_seed_accepts
  refine ⟨nodes _ x ?_ node, networks _ n ?_ network, snapshot, ?_⟩
  · decide +kernel
  · decide +kernel
  · refine (seeds [turnedNetwork] [arrayedNode] ⟨[n], [x]⟩ proper ?_ ?_ snapshot).2
    · exact List.forall_mem_singleton.2 (by decide +kernel)
    · exact List.forall_mem_singleton.2 (by decide +kernel)

end GatewayRules
