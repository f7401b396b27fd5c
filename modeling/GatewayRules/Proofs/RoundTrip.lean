import GatewayRules.Proofs.Addresses
import GatewayRules.Proofs.Reading
import GatewayRules.Wire.Flow
import GatewayRules.Wire.Settings

/-! Every record, rule, update and snapshot, and the settings, are read back from their JSON. -/
namespace GatewayRules
open Json

theorem MacAddress.recovers : Recovers reader toJson := by
  refine Recovers.parsed "a string" fun m => ?_
  rw [parse_text]
  rfl

theorem Ipv4Address.recovers : Recovers reader toJson := by
  refine Recovers.parsed "IPv4 address" fun a => ?_
  rw [ofString?_text]

theorem Device.recovers : Recovers reader toJson := Recovers.string.map fun _ => rfl

theorem Port.recovers : Recovers reader toJson := Recovers.u32.map fun _ => rfl

theorem Encapsulation.recovers : Recovers reader toJson := by
  intro mode e
  refine (Reader.choice_string _ mode e.text).trans ?_
  cases e <;> rfl

theorem Readiness.recovers : Recovers reader toJson := by
  intro mode r
  refine (Reader.choice_string _ mode r.text).trans ?_
  cases r <;> rfl

theorem Network.recovers : Recovers reader toJson := by
  refine Recovers.record record (by decide)
    (fun n => (n.name, n.id, n.encapsulation, n.gateway, n.cidr, ())) (fun _ => rfl) fun n => ?_
  rw [← List.append_nil (Value.maybe "cidr" _)]
  exact .required _ .string _ <| .required _ .string _ <|
    .withDefault _ Encapsulation.recovers _ _ <| .required _ Ipv4Address.recovers _ <|
    .optional rfl rfl .string (fun _ => nofun) _ .nil

theorem TunnelPorts.recovers : Recovers reader toJson := by
  refine Recovers.record record (by decide)
    (fun t => (t.vxlan, t.gre, t.geneve, ())) (fun _ => rfl) fun t => ?_
  rw [List.append_assoc, ← List.append_nil (Value.maybe "geneve" _)]
  exact .optional rfl rfl Port.recovers (fun _ => nofun) _ <|
    .optional rfl rfl Port.recovers (fun _ => nofun) _ <|
    .optional rfl rfl Port.recovers (fun _ => nofun) _ .nil

theorem Node.recovers : Recovers reader toJson :=
  Recovers.record record (by decide)
    (fun x => (x.hostname, x.bridge, x.bridgeMac, x.dataAddress, x.readiness, x.tunnels, ()))
    (fun _ => rfl) fun _ =>
    .required _ .string _ <| .required _ Device.recovers _ <| .required _ MacAddress.recovers _ <|
    .required _ Ipv4Address.recovers _ <| .withDefault _ Readiness.recovers _ _ <|
    .withDefault _ TunnelPorts.recovers _ _ .nil

theorem Subnet.recovers : Recovers reader toJson :=
  Recovers.record record (by decide) (fun s => (s.address, s.length, ())) (fun _ => rfl) fun _ =>
    .required _ Ipv4Address.recovers _ <| .required _ .u8 _ .nil

theorem Selector.recovers : Recovers reader toJson :=
  Recovers.record record (by decide) (fun s => (s.etherType, s.destination, ())) (fun _ => rfl)
    fun _ => .required _ .u16 _ <| .required _ Subnet.recovers _ .nil

theorem Instruction.recovers : Recovers reader toJson := by
  intro mode i
  cases i with
  | setMac mac =>
    refine Reader.choice_of_payload _ (.value (MacAddress.reader.map setMac)) rfl ?_
    exact map_eq_ok_iff.2 ⟨mac, MacAddress.recovers mode mac, rfl⟩
  | tunnelTo device remote =>
    refine Reader.choice_of_payload _ (.fields tunnelRecord.read) rfl ?_
    have written : Written tunnelRecord.fields (device, remote, ())
        [("device", device.toJson), ("remote", remote.toJson)] :=
      .required _ Device.recovers _ <| .required _ Ipv4Address.recovers _ .nil
    exact written.read (by decide) mode
  | output port =>
    refine Reader.choice_of_payload _ (.value (Port.reader.map output)) rfl ?_
    exact map_eq_ok_iff.2 ⟨port, Port.recovers mode port, rfl⟩

theorem Treatment.recovers : Recovers reader toJson :=
  Recovers.record record (by decide) (fun t => (t.instructions, ())) (fun _ => rfl) fun _ =>
    .required _ Instruction.recovers.list _ .nil

theorem Snapshot.recovers : Recovers reader toJson :=
  Recovers.record record (by decide) (fun s => (s.networks, s.nodes, ())) (fun _ => rfl) fun _ =>
    .withDefault _ Network.recovers.list _ _ <| .withDefault _ Node.recovers.list _ _ .nil

theorem Settings.recovers : Recovers reader toJson := by
  refine Recovers.record record (by decide)
    (fun s => (s.app, s.localId, s.priority, s.table, s.inventoryFile, s.readsFeed, ()))
    (fun _ => rfl) fun s => ?_
  simp only [List.append_assoc, List.cons_append, List.nil_append]
  exact .required _ .string _ <| .optional rfl rfl .string (fun _ => nofun) _ <|
    .required _ .u32 _ <| .required _ .u32 _ <|
    .optional rfl rfl (.text _) (fun _ => nofun) _ <| .required _ .bool _ .nil

theorem Network.vet_toJson (n : Network) (depth : Nat) :
    n.toJson.tree.vet (depth + 1) = .ok () := by
  refine Value.vet_object (List.forall_mem_append.2 ⟨?_, Value.vet_maybe ?_ _⟩)
  · simp [Encapsulation.toJson, Ipv4Address.toJson, Value.vet_string]
  · simp [Value.vet_string]

theorem TunnelPorts.vet_toJson (t : TunnelPorts) (depth : Nat) :
    t.toJson.tree.vet (depth + 1) = .ok () := by
  have port (p : Option Port) : ∀ v ∈ p.map Port.toJson, v.tree.vet depth = .ok () := by
    rintro v member
    obtain ⟨p, -, rfl⟩ := Option.map_eq_some_iff.1 member
    exact Value.vet_number (Nat.lt_trans p.number.toNat_lt (by decide)) depth
  exact Value.vet_object <| List.forall_mem_append.2 ⟨List.forall_mem_append.2
    ⟨Value.vet_maybe (port t.vxlan) _, Value.vet_maybe (port t.gre) _⟩,
    Value.vet_maybe (port t.geneve) _⟩

theorem Node.vet_toJson (x : Node) (depth : Nat) : x.toJson.tree.vet (depth + 2) = .ok () := by
  refine Value.vet_object ?_
  simp [Device.toJson, MacAddress.toJson, Ipv4Address.toJson, Readiness.toJson, Value.vet_string,
    TunnelPorts.vet_toJson]

namespace Update

theorem recovers : Recovers reader toJson := by
  intro mode u
  cases u with
  | upsertNetwork n =>
    have value := read_payload (Network.recovers .buffered n)
    exact reader_pair rfl (by decide) (n.vet_toJson 125) (value _ _ upsertNetwork) mode
  | removeNetwork id =>
    have value := read_payload (Recovers.string .buffered id)
    exact reader_pair rfl (by decide) (Value.vet_string id _) (value _ _ removeNetwork) mode
  | upsertNode x =>
    have value := read_payload (Node.recovers .buffered x)
    exact reader_pair rfl (by decide) (x.vet_toJson 124) (value _ _ upsertNode) mode
  | removeNode hostname =>
    have value := read_payload (Recovers.string .buffered hostname)
    exact reader_pair rfl (by decide) (Value.vet_string hostname _) (value _ _ removeNode) mode

end Update

/-- Whatever is written as JSON is read back from its text as it was: every network, node and set of
tunnel ports, every address, port and device, every part of a rule, every update and snapshot, and
all settings, with any characters in their strings and any of their optional parts missing. -/
theorem json_read_back :
    (∀ n : Network, Network.reader.readText n.toJson.chars = .ok n) ∧
    (∀ x : Node, Node.reader.readText x.toJson.chars = .ok x) ∧
    (∀ t : TunnelPorts, TunnelPorts.reader.readText t.toJson.chars = .ok t) ∧
    (∀ m : MacAddress, MacAddress.reader.readText m.toJson.chars = .ok m) ∧
    (∀ p : Port, Port.reader.readText p.toJson.chars = .ok p) ∧
    (∀ d : Device, Device.reader.readText d.toJson.chars = .ok d) ∧
    (∀ s : Selector, Selector.reader.readText s.toJson.chars = .ok s) ∧
    (∀ s : Subnet, Subnet.reader.readText s.toJson.chars = .ok s) ∧
    (∀ i : Instruction, Instruction.reader.readText i.toJson.chars = .ok i) ∧
    (∀ t : Treatment, Treatment.reader.readText t.toJson.chars = .ok t) ∧
    (∀ u : Update, Update.reader.readText u.toJson.chars = .ok u) ∧
    (∀ s : Snapshot, Snapshot.reader.readText s.toJson.chars = .ok s) ∧
    ∀ s : Settings, Settings.reader.readText s.toJson.chars = .ok s :=
  ⟨Network.recovers.readText, Node.recovers.readText, TunnelPorts.recovers.readText,
    MacAddress.recovers.readText, Port.recovers.readText, Device.recovers.readText,
    Selector.recovers.readText, Subnet.recovers.readText, Instruction.recovers.readText,
    Treatment.recovers.readText, Update.recovers.readText, Snapshot.recovers.readText,
    Settings.recovers.readText⟩

end GatewayRules
