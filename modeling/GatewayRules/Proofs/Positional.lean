import GatewayRules.Proofs.Forms

/-!
The forms of networks, nodes and their tunnel ports, of the parts of rules, and of snapshots,
settings and updates. All of them are read as what they are forms of.
-/
namespace GatewayRules
open Json

namespace Network

def slots (n : Network) : List Slot := [
  .required "name" (· = .string n.name),
  .required "network_id" (· = .string n.id),
  .withDefault "network_type" (· = n.encapsulation.toJson) (n.encapsulation = .vxlan),
  .required "gateway_ip" (· = n.gateway.toJson),
  .maybe "cidr" (n.cidr.map .string)]

def Form (n : Network) : Value → Prop := Slot.Form n.slots

theorem fitting (n : Network) : Fitting n.slots record.fields
    (n.name, n.id, n.encapsulation, n.gateway, n.cidr, ()) :=
  .cons (.required _ Recovers.string.reads _) <| .cons (.required _ Recovers.string.reads _) <|
  .cons (.withDefault _ Encapsulation.recovers.reads _ _) <|
  .cons (.required _ Ipv4Address.recovers.reads _) <|
  .cons (.maybe _ .string (fun _ => nofun) _) .nil

theorem reads : Reads reader Form := fun mode n _ form => n.fitting.reads (by decide) mode form

theorem form_toJson (n : Network) : n.Form n.toJson := by
  refine .object (.member rfl <| .member rfl <| .member rfl <| .member rfl ?_)
  rw [← List.append_nil (Value.maybe "cidr" _)]
  exact .maybe _ _ .nil

theorem vet_form {n : Network} {v : Value} (form : n.Form v) (depth : Nat) :
    v.tree.vet (depth + 1) = .ok () := by
  have cidr : (Slot.maybe "cidr" (n.cidr.map .string)).Vets depth :=
    Slot.vets_maybe _ (by simp [Value.vet_string])
  have text (s : String) (v : Value) (same : v = .string s) : v.tree.vet depth = .ok () :=
    same ▸ Value.vet_string s depth
  refine form.vet ?_
  simp only [slots, List.forall_mem_cons]
  exact ⟨text _, text _, text _, text _, cidr, List.forall_mem_nil _⟩

end Network

namespace TunnelPorts

def slots (t : TunnelPorts) : List Slot := [
  .maybe "vxlan" (t.vxlan.map Port.toJson),
  .maybe "gre" (t.gre.map Port.toJson),
  .maybe "geneve" (t.geneve.map Port.toJson)]

def Form (t : TunnelPorts) : Value → Prop := Slot.Form t.slots

theorem fitting (t : TunnelPorts) :
    Fitting t.slots record.fields (t.vxlan, t.gre, t.geneve, ()) :=
  .cons (.maybe _ Port.recovers (fun _ => nofun) _) <|
  .cons (.maybe _ Port.recovers (fun _ => nofun) _) <|
  .cons (.maybe _ Port.recovers (fun _ => nofun) _) .nil

theorem reads : Reads reader Form := fun mode t _ form => t.fitting.reads (by decide) mode form

theorem form_toJson (t : TunnelPorts) : t.Form t.toJson := by
  refine .object ?_
  rw [List.append_assoc, ← List.append_nil (Value.maybe "geneve" _)]
  exact .maybe _ _ (.maybe _ _ (.maybe _ _ .nil))

theorem vet_form {t : TunnelPorts} {v : Value} (form : t.Form v) (depth : Nat) :
    v.tree.vet (depth + 1) = .ok () := by
  have port (name : String) (p : Option Port) :
      (Slot.maybe name (p.map Port.toJson)).Vets depth := by
    refine Slot.vets_maybe _ fun w member => ?_
    obtain ⟨p, -, rfl⟩ := Option.map_eq_some_iff.1 member
    exact Value.vet_number (Nat.lt_trans p.number.toNat_lt (by decide)) depth
  refine form.vet ?_
  simp only [slots, List.forall_mem_cons]
  exact ⟨port _ _, port _ _, port _ _, List.forall_mem_nil _⟩

end TunnelPorts

namespace Node

def slots (x : Node) : List Slot := [
  .required "hostname" (· = .string x.hostname),
  .required "int_bridge" (· = x.bridge.toJson),
  .required "int_bridge_mac" (· = x.bridgeMac.toJson),
  .required "data_ip" (· = x.dataAddress.toJson),
  .withDefault "state" (· = x.readiness.toJson) (x.readiness = .incomplete),
  .withDefault "tunnel_ports" x.tunnels.Form (x.tunnels = .none)]

def Form (x : Node) : Value → Prop := Slot.Form x.slots

theorem fitting (x : Node) : Fitting x.slots record.fields
    (x.hostname, x.bridge, x.bridgeMac, x.dataAddress, x.readiness, x.tunnels, ()) :=
  .cons (.required _ Recovers.string.reads _) <| .cons (.required _ Device.recovers.reads _) <|
  .cons (.required _ MacAddress.recovers.reads _) <|
  .cons (.required _ Ipv4Address.recovers.reads _) <|
  .cons (.withDefault _ Readiness.recovers.reads _ _) <|
  .cons (.withDefault _ TunnelPorts.reads _ _) .nil

theorem reads : Reads reader Form := fun mode x _ form => x.fitting.reads (by decide) mode form

theorem form_toJson (x : Node) : x.Form x.toJson :=
  .object (.member rfl <| .member rfl <| .member rfl <| .member rfl <| .member rfl <|
    .member x.tunnels.form_toJson .nil)

theorem vet_form {x : Node} {v : Value} (form : x.Form v) (depth : Nat) :
    v.tree.vet (depth + 2) = .ok () := by
  have text (s : String) (v : Value) (same : v = .string s) : v.tree.vet (depth + 1) = .ok () :=
    same ▸ Value.vet_string s _
  refine form.vet ?_
  simp only [slots, List.forall_mem_cons]
  exact ⟨text _, text _, text _, text _, text _, fun _ form => TunnelPorts.vet_form form depth,
    List.forall_mem_nil _⟩

end Node

namespace Subnet

def slots (s : Subnet) : List Slot := [
  .required "address" (· = s.address.toJson),
  .required "len" (· = .number s.length.toNat)]

def Form (s : Subnet) : Value → Prop := Slot.Form s.slots

theorem fitting (s : Subnet) : Fitting s.slots record.fields (s.address, s.length, ()) :=
  .cons (.required _ Ipv4Address.recovers.reads _) <| .cons (.required _ Recovers.u8.reads _) .nil

theorem reads : Reads reader Form := fun mode s _ form => s.fitting.reads (by decide) mode form

theorem form_toJson (s : Subnet) : s.Form s.toJson := .object (.member rfl (.member rfl .nil))

end Subnet

namespace Selector

def slots (s : Selector) : List Slot := [
  .required "eth_type" (· = .number s.etherType.toNat),
  .required "ipv4_dst" s.destination.Form]

def Form (s : Selector) : Value → Prop := Slot.Form s.slots

theorem fitting (s : Selector) : Fitting s.slots record.fields (s.etherType, s.destination, ()) :=
  .cons (.required _ Recovers.u16.reads _) <| .cons (.required _ Subnet.reads _) .nil

theorem reads : Reads reader Form := fun mode s _ form => s.fitting.reads (by decide) mode form

theorem form_toJson (s : Selector) : s.Form s.toJson :=
  .object (.member rfl (.member s.destination.form_toJson .nil))

end Selector

namespace Instruction

def tunnelSlots (device : Device) (remote : Ipv4Address) : List Slot := [
  .required "device" (· = device.toJson),
  .required "remote" (· = remote.toJson)]

def Form : Instruction → Value → Prop
  | setMac mac, v => v = .object [("set_eth_dst", mac.toJson)]
  | tunnelTo device remote, v =>
    ∃ w, Slot.Form (tunnelSlots device remote) w ∧ v = .object [("tunnel_dst", w)]
  | output port, v => v = .object [("output", port.toJson)]

theorem fitting (device : Device) (remote : Ipv4Address) :
    Fitting (tunnelSlots device remote) tunnelRecord.fields (device, remote, ()) :=
  .cons (.required _ Device.recovers.reads _) <|
  .cons (.required _ Ipv4Address.recovers.reads _) .nil

theorem reads : Reads reader Form := by
  intro mode i v form
  cases i with
  | setMac mac =>
    obtain rfl := form
    exact recovers mode (setMac mac)
  | tunnelTo device remote =>
    obtain ⟨w, form, rfl⟩ := form
    refine Reader.choice_of_payload _ (.fields tunnelRecord.read) rfl ?_
    exact (fitting device remote).reads (by decide) mode form
  | output port =>
    obtain rfl := form
    exact recovers mode (output port)

theorem form_toJson (i : Instruction) : i.Form i.toJson := by
  cases i with
  | tunnelTo device remote => exact ⟨_, .object (.member rfl (.member rfl .nil)), rfl⟩
  | setMac mac | output port => rfl

end Instruction

theorem Json.forms_toJson {α : Type} {form : α → Value → Prop} {toJson : α → Value}
    (each : ∀ a, form a (toJson a)) (items : List α) :
    Forms form items (.array (items.map toJson)) :=
  ⟨_, rfl, List.forall₂_map_right_iff.2 (List.forall₂_same.2 fun a _ => each a)⟩

namespace Treatment

def slots (t : Treatment) : List Slot := [
  .required "instructions" (Forms Instruction.Form t.instructions)]

def Form (t : Treatment) : Value → Prop := Slot.Form t.slots

theorem fitting (t : Treatment) : Fitting t.slots record.fields (t.instructions, ()) :=
  .cons (.required _ Instruction.reads.list _) .nil

theorem reads : Reads reader Form := fun mode t _ form => t.fitting.reads (by decide) mode form

theorem form_toJson (t : Treatment) : t.Form t.toJson :=
  .object (.member (forms_toJson Instruction.form_toJson _) .nil)

end Treatment

namespace Snapshot

def slots (s : Snapshot) : List Slot := [
  .withDefault "networks" (Forms Network.Form s.networks) (s.networks = []),
  .withDefault "nodes" (Forms Node.Form s.nodes) (s.nodes = [])]

def Form (s : Snapshot) : Value → Prop := Slot.Form s.slots

theorem fitting (s : Snapshot) : Fitting s.slots record.fields (s.networks, s.nodes, ()) :=
  .cons (.withDefault _ Network.reads.list _ _) <| .cons (.withDefault _ Node.reads.list _ _) .nil

theorem reads : Reads reader Form := fun mode s _ form => s.fitting.reads (by decide) mode form

theorem form_toJson (s : Snapshot) : s.Form s.toJson :=
  .object (.member (forms_toJson Network.form_toJson _) <|
    .member (forms_toJson Node.form_toJson _) .nil)

end Snapshot

namespace Settings

def slots (s : Settings) : List Slot := [
  .required "app_name" (· = .string s.app),
  .nullable "local_node_id" (s.localId.map .string),
  .required "gateway_priority" (· = .number s.priority.toNat),
  .required "routing_table" (· = .number s.table.toNat),
  .nullable "inventory_file" (s.inventoryFile.map .string),
  .required "read_stdin_feed" (· = .bool s.readsFeed)]

def Form (s : Settings) : Value → Prop := Slot.Form s.slots

theorem fitting (s : Settings) : Fitting s.slots record.fields
    (s.app, s.localId, s.priority, s.table, s.inventoryFile, s.readsFeed, ()) :=
  .cons (.required _ Recovers.string.reads _) <|
  .cons (.nullable _ .string (fun _ => nofun) _) <|
  .cons (.required _ Recovers.u32.reads _) <| .cons (.required _ Recovers.u32.reads _) <|
  .cons (.nullable _ (.text _) (fun _ => nofun) _) <|
  .cons (.required _ Recovers.bool.reads _) .nil

theorem reads : Reads reader Form := fun mode s _ form => s.fitting.reads (by decide) mode form

theorem form_toJson (s : Settings) : s.Form s.toJson := by
  refine .object ?_
  simp only [List.append_assoc, List.cons_append, List.nil_append]
  exact .member rfl <| .nullable _ _ <| .member rfl <| .member rfl <| .nullable _ _ <|
    .member rfl .nil

end Settings

namespace Update

def op : Update → String
  | upsertNetwork _ => "upsert_network"
  | removeNetwork _ => "remove_network"
  | upsertNode _ => "upsert_node"
  | removeNode _ => "remove_node"

def payloadName : Update → String
  | upsertNetwork _ => "network"
  | removeNetwork _ => "network_id"
  | upsertNode _ => "node"
  | removeNode _ => "hostname"

def Carries : Update → Value → Prop
  | upsertNetwork n => n.Form
  | removeNetwork id => (· = .string id)
  | upsertNode x => x.Form
  | removeNode hostname => (· = .string hostname)

/-- Either form of an update: its kind is a member of the object, or in front of the array. -/
inductive Form (u : Update) : Value → Prop where
  | object {v : Value} : u.Carries v → Form u (.object [("op", .string u.op), (u.payloadName, v)])
  | array {v : Value} : u.Carries v → Form u (.array [.string u.op, v])

/-- An array is read as an update of the kind in front. -/
theorem reader_front {kind : String} {read : Reader Update} {t : Tree} {u : Update}
    (known : Reader.variantNamed kinds kind = .ok read) (vetted : t.vet maxDepth = .ok ())
    (value : read .buffered (.array [t] .closed) = .ok u) (mode : Mode) :
    reader mode (.array [.string (.ofString kind), t] .closed) = .ok u := by
  have kinded : readKind (.string (.ofString kind)) = .ok read := by
    rw [readKind, Quotation.text_ofString]
    exact known
  have whole : Tree.vetItems maxDepth [t] = .ok () := Tree.vetItems_cons_iff.2 ⟨vetted, rfl⟩
  exact reader_array_iff.2 ⟨rfl, _, _, read, rfl, kinded, whole, value⟩

theorem reads_payload {β : Type} {read : Reader β} {shows : β → Value → Prop}
    {r : Record [β] Update} (kind field : String) (reads : Reads read shows)
    (known : Reader.variantNamed kinds kind = .ok r.read)
    (fields : r.fields = .cons (.required field read) .nil) (other : field ≠ "op")
    {b : β} {v : Value} (shown : shows b v) (vetted : v.tree.vet maxDepth = .ok ()) (mode : Mode) :
    reader mode (Value.object [("op", .string kind), (field, v)]).tree = .ok (r.make (b, ())) ∧
      reader mode (Value.array [.string kind, v]).tree = .ok (r.make (b, ())) := by
  have fitting : Fitting [.required field (shows b)] r.fields (b, ()) :=
    fields ▸ .cons (.required field reads b) .nil
  have distinct : r.fields.names.Nodup := by
    rw [fields]
    exact List.pairwise_singleton _ field
  constructor
  · refine reader_pair known other vetted ?_ mode
    exact fitting.reads distinct .buffered (.object (.member shown .nil))
  · refine reader_front known vetted ?_ mode
    exact fitting.reads distinct .buffered (.array (.item shown .nil))

/-- An update is read from its kind and a form of what it carries, by name as well as in order. -/
theorem reads_carried (u : Update) {v : Value} (carried : u.Carries v) (mode : Mode) :
    reader mode (Value.object [("op", .string u.op), (u.payloadName, v)]).tree = .ok u ∧
      reader mode (Value.array [.string u.op, v]).tree = .ok u := by
  have text {s : String} (same : v = .string s) : v.tree.vet maxDepth = .ok () :=
    same ▸ Value.vet_string s _
  cases u with
  | upsertNetwork n =>
    have vetted : v.tree.vet maxDepth = .ok () := Network.vet_form carried 125
    exact reads_payload "upsert_network" "network" Network.reads rfl rfl (by decide) carried vetted
      mode
  | removeNetwork id =>
    exact reads_payload "remove_network" "network_id" Recovers.string.reads rfl rfl (by decide)
      carried (text carried) mode
  | upsertNode x =>
    have vetted : v.tree.vet maxDepth = .ok () := Node.vet_form carried 124
    exact reads_payload "upsert_node" "node" Node.reads rfl rfl (by decide) carried vetted mode
  | removeNode hostname =>
    exact reads_payload "remove_node" "hostname" Recovers.string.reads rfl rfl (by decide)
      carried (text carried) mode

theorem reads : Reads reader Form := by
  intro mode u v form
  cases form with
  | object carried => exact (u.reads_carried carried mode).1
  | array carried => exact (u.reads_carried carried mode).2

theorem form_toJson (u : Update) : u.Form u.toJson := by
  cases u with
  | upsertNetwork n => exact .object n.form_toJson
  | upsertNode x => exact .object x.form_toJson
  | removeNetwork id | removeNode hostname => exact .object rfl

end Update

/-- What is written for a value is one of its forms, and every text of every one of its forms is read
as the value: the compact text, and those with blanks and with strings and numbers spelled in other
ways. -/
def Json.Reader.Accepts {α : Type} (r : Reader α) (toJson : α → Value) (form : α → Value → Prop) :
    Prop :=
  ∀ a, form a (toJson a) ∧ ∀ v, form a v →
    r.readText v.chars = .ok a ∧ ∀ s, Spells (.padded v.tree) s → r.readText s = .ok a

theorem Json.Reads.accepts {α : Type} {r : Reader α} {toJson : α → Value}
    {form : α → Value → Prop} (reads : Reads r form) (written : ∀ a, form a (toJson a)) :
    r.Accepts toJson form := by
  intro a
  have each (v : Value) (formed : form a v) (s : List Char) (spelled : Spells (.padded v.tree) s) :
      r.readText s = .ok a := by
    rw [Reader.readText_of_spells r spelled]
    exact reads .streamed a v formed
  exact ⟨written a, fun v formed => ⟨each v formed _ v.spelled.bare, each v formed⟩⟩

/-- The form of an object and the form of an array are read alike: for a network, a node, a set of
tunnel ports, a selector, a subnet, a treatment, a snapshot, the settings and an update, with either
form chosen anew for every record inside, and without the items at the end of an array that are what
they are by default. -/
theorem either_form_is_read :
    Network.reader.Accepts Network.toJson Network.Form ∧
    Node.reader.Accepts Node.toJson Node.Form ∧
    TunnelPorts.reader.Accepts TunnelPorts.toJson TunnelPorts.Form ∧
    Selector.reader.Accepts Selector.toJson Selector.Form ∧
    Subnet.reader.Accepts Subnet.toJson Subnet.Form ∧
    Treatment.reader.Accepts Treatment.toJson Treatment.Form ∧
    Snapshot.reader.Accepts Snapshot.toJson Snapshot.Form ∧
    Settings.reader.Accepts Settings.toJson Settings.Form ∧
    Update.reader.Accepts Update.toJson Update.Form :=
  ⟨Network.reads.accepts Network.form_toJson, Node.reads.accepts Node.form_toJson,
    TunnelPorts.reads.accepts TunnelPorts.form_toJson, Selector.reads.accepts Selector.form_toJson,
    Subnet.reads.accepts Subnet.form_toJson, Treatment.reads.accepts Treatment.form_toJson,
    Snapshot.reads.accepts Snapshot.form_toJson, Settings.reads.accepts Settings.form_toJson,
    Update.reads.accepts Update.form_toJson⟩

/-- An update in the form of an array with a node in the same form, whose tunnel ports are an array
cut off after the first; and a snapshot cut off before its nodes, with a network that names neither
its encapsulation nor its range. -/
theorem either_form_is_read_nested :
    Update.reader.readText
        ("[\"upsert_node\",[\"compute-1\",\"of:01\",\"02:00:00:00:00:01\",\"10.0.0.1\"," ++
          "\"COMPLETE\",[4789]]]").toList =
      .ok (.upsertNode ⟨"compute-1", ⟨"of:01"⟩, ⟨2, 0, 0, 0, 0, 1⟩, ⟨10, 0, 0, 1⟩, .complete,
        ⟨some ⟨4789⟩, none, none⟩⟩) ∧
    Snapshot.reader.readText
        ("[[\x7b\"name\":\"compute-1\",\"network_id\":\"net-1\"," ++
          "\"gateway_ip\":\"10.0.0.254\"\x7d]]").toList =
      .ok ⟨[⟨"compute-1", "net-1", .vxlan, ⟨10, 0, 0, 254⟩, none⟩], []⟩ := by
  obtain ⟨-, -, -, -, -, -, snapshot, -, update⟩ := either_form_is_read
  let x : Node := ⟨"compute-1", ⟨"of:01"⟩, ⟨2, 0, 0, 0, 0, 1⟩, ⟨10, 0, 0, 1⟩, .complete,
    ⟨some ⟨4789⟩, none, none⟩⟩
  let n : Network := ⟨"compute-1", "net-1", .vxlan, ⟨10, 0, 0, 254⟩, none⟩
  have spare : ∀ p ∈ (x.tunnels.slots.drop 1), p.spare :=
    List.forall_mem_cons.2 ⟨rfl, List.forall_mem_cons.2 ⟨rfl, List.forall_mem_nil _⟩⟩
  have ports : x.tunnels.Form (.array [.number 4789]) := .array (.item rfl (.cut spare))
  have node : x.Form (.array [.string x.hostname, x.bridge.toJson, x.bridgeMac.toJson,
      x.dataAddress.toJson, x.readiness.toJson, .array [.number 4789]]) :=
    .array (.item rfl <| .item rfl <| .item rfl <| .item rfl <| .item rfl <| .item ports .nil)
  have network : n.Form (.object [("name", .string n.name), ("network_id", .string n.id),
      ("gateway_ip", n.gateway.toJson)]) :=
    .object (.member rfl <| .member rfl <| .without rfl <| .member rfl <| .without rfl .nil)
  constructor
  · refine Eq.subst (motive := fun s => Update.reader.readText s = _) ?_
      ((update (.upsertNode x)).2 _ (.array node)).1
    decide +kernel
  · have listed : Forms Network.Form [n] (.array [_]) := ⟨_, rfl, .cons network .nil⟩
    have cut : ∀ p ∈ [Slot.withDefault "nodes" (Forms Node.Form []) ([] = ([] : List Node))],
        p.spare := List.forall_mem_singleton.2 rfl
    refine Eq.subst (motive := fun s => Snapshot.reader.readText s = _) ?_
      ((snapshot ⟨[n], []⟩).2 _ (.array (.item listed (.cut cut)))).1
    decide +kernel

end GatewayRules
