import Mathlib.Data.List.Forall2
import GatewayRules.Proofs.Acts
import GatewayRules.Proofs.Addresses
import GatewayRules.Proofs.Reachability

/-!
What the written steps of a rule tell. Everything but the devices of tunnels can be read off them,
and the tunnels of every request that a handler makes are on the device of the request.
-/
namespace GatewayRules
open Text Journal

theorem Text.decimal_inj {m n : Nat} : decimal m = decimal n ↔ m = n := by
  constructor
  · intro same
    have back : ofDecimal (decimal m) = ofDecimal (decimal n) := congrArg ofDecimal same
    rwa [ofDecimal_decimal, ofDecimal_decimal] at back
  · rintro rfl
    rfl

theorem Text.comma_not_mem_decimal (n : Nat) : ',' ∉ decimal n := by
  intro member
  have digit := isDigit_of_mem_decimal member
  exact absurd digit (by decide)

namespace MacAddress

theorem comma_not_mem_chars (m : MacAddress) : ',' ∉ m.chars := by
  intro member
  rcases eq_or_mem_of_mem_join member with colon | ⟨part, listed, inside⟩
  · cases colon
  · obtain ⟨octet, -, rfl⟩ := List.mem_map.1 listed
    obtain ⟨d, bound, same⟩ := digit_of_mem_hexPadded inside
    have all : ∀ d : Fin 16, ',' ≠ Nat.digitChar d := by decide
    exact all ⟨d, bound⟩ same

end MacAddress

namespace Ipv4Address

theorem comma_not_mem_chars (a : Ipv4Address) : ',' ∉ a.chars := by
  intro member
  rcases eq_or_mem_of_mem_join member with point | ⟨part, listed, inside⟩
  · cases point
  · obtain ⟨octet, -, rfl⟩ := List.mem_map.1 listed
    exact comma_not_mem_decimal _ inside

end Ipv4Address

namespace Port

/-- The name of the port to the host is no number. -/
theorem decimal_ne_name (n : Nat) : decimal n ≠ ['L', 'O', 'C', 'A', 'L'] := by
  intro same
  have letter : 'L' ∈ decimal n := by
    rw [same]
    exact List.mem_cons_self
  have digit := isDigit_of_mem_decimal letter
  exact absurd digit (by decide)

theorem chars_inj {p q : Port} : p.chars = q.chars ↔ p = q := by
  constructor
  · intro same
    unfold chars at same
    by_cases left : p = host
    · by_cases right : q = host
      · exact left.trans right.symm
      · rw [if_pos left, if_neg right] at same
        exact absurd same.symm (decimal_ne_name _)
    · by_cases right : q = host
      · rw [if_neg left, if_pos right] at same
        exact absurd same (decimal_ne_name _)
      · rw [if_neg left, if_neg right, decimal_inj] at same
        have number : p.number = q.number := UInt32.toNat_inj.1 same
        exact congrArg Port.mk number
  · rintro rfl
    rfl

theorem comma_not_mem_chars (p : Port) : ',' ∉ p.chars := by
  unfold chars
  split
  · decide
  · exact comma_not_mem_decimal _

end Port

/-- The steps differ at most in the device of a tunnel. -/
inductive Instruction.Alike : Instruction → Instruction → Prop where
  | setMac (mac : MacAddress) : Alike (.setMac mac) (.setMac mac)
  | tunnelTo (device device' : Device) (remote : Ipv4Address) :
    Alike (.tunnelTo device remote) (.tunnelTo device' remote)
  | output (port : Port) : Alike (.output port) (.output port)

namespace Instruction

variable {i j : Instruction}

def mark : Instruction → Char
  | setMac _ => 'e'
  | tunnelTo .. => 't'
  | output _ => 'o'

theorem head?_chars (i : Instruction) : i.chars.head? = some i.mark := by
  cases i <;> rfl

/-- A written step tells of everything but the device of a tunnel. -/
theorem chars_eq_iff : i.chars = j.chars ↔ Alike i j := by
  constructor
  · intro same
    have marks : i.mark = j.mark := by
      apply Option.some.inj
      rw [← head?_chars, ← head?_chars, same]
    cases i with
    | setMac mac =>
      cases j with
      | setMac mac' =>
        obtain rfl := MacAddress.chars_inj.1 (List.append_cancel_left same)
        exact .setMac mac
      | tunnelTo device remote => exact absurd marks (show 'e' ≠ 't' by decide)
      | output port => exact absurd marks (show 'e' ≠ 'o' by decide)
    | tunnelTo device remote =>
      cases j with
      | setMac mac => exact absurd marks (show 't' ≠ 'e' by decide)
      | tunnelTo device' remote' =>
        obtain rfl := Ipv4Address.chars_inj.1 (List.append_cancel_left same)
        exact .tunnelTo device device' remote
      | output port => exact absurd marks (show 't' ≠ 'o' by decide)
    | output port =>
      cases j with
      | setMac mac => exact absurd marks (show 'o' ≠ 'e' by decide)
      | tunnelTo device remote => exact absurd marks (show 'o' ≠ 't' by decide)
      | output port' =>
        obtain rfl := Port.chars_inj.1 (List.append_cancel_left same)
        exact .output port
  · rintro (_ | _ | _) <;> rfl

theorem comma_not_mem_chars (i : Instruction) : ',' ∉ i.chars := by
  cases i with
  | setMac mac =>
    exact List.not_mem_append (by decide) mac.comma_not_mem_chars
  | tunnelTo device remote =>
    exact List.not_mem_append (by decide) remote.comma_not_mem_chars
  | output port =>
    exact List.not_mem_append (by decide) port.comma_not_mem_chars

theorem chars_ne_nil (i : Instruction) : i.chars ≠ [] := by
  cases i <;> exact List.cons_ne_nil _ _

end Instruction

/-- Written treatments are the same if and only if the steps are alike one by one. -/
theorem Treatment.text_eq_iff {a b : Treatment} :
    a.text = b.text ↔ List.Forall₂ Instruction.Alike a.instructions b.instructions := by
  have free (is : List Instruction) : ∀ part ∈ is.map Instruction.chars, ',' ∉ part := by
    intro part listed
    obtain ⟨i, -, rfl⟩ := List.mem_map.1 listed
    exact i.comma_not_mem_chars
  have filled (is : List Instruction) : [] ∉ is.map Instruction.chars := by
    intro listed
    obtain ⟨i, -, nothing⟩ := List.mem_map.1 listed
    exact i.chars_ne_nil nothing
  have written : a.text = b.text ↔
      a.instructions.map Instruction.chars = b.instructions.map Instruction.chars := by
    unfold text chars
    rw [String.ofList_inj]
    exact join_inj (free _) (free _) (filled _) (filled _)
  rw [written, ← List.forall₂_eq_eq_eq, List.forall₂_map_left_iff, List.forall₂_map_right_iff]
  simp only [Instruction.chars_eq_iff]

def Rule.IsScoped (r : Rule) : Prop :=
  ∀ device remote, .tunnelTo device remote ∈ r.treatment.instructions → device = r.device

theorem Rule.isScoped_of_synthesize {resolver : Resolver} {n : Network} {x : Node}
    {owner : Option Node} {rule : Rule} (built : synthesize resolver n x owner = .ok rule) :
    rule.IsScoped := by
  intro device remote listed
  by_cases owns : x.Owns n
  · have delivers := deliversAt_of_synthesize built owns
    rw [delivers.2] at listed
    simp at listed
  · obtain ⟨o, port, -, -, tunnels⟩ := tunnelsTo_of_synthesize built owns
    rw [tunnels.2] at listed
    simp only [List.mem_cons, Instruction.tunnelTo.injEq, List.not_mem_nil, or_false,
      reduceCtorEq] at listed
    exact listed.1.trans tunnels.1.symm

theorem Rule.treatment_eq_of_text_eq {r r' : Rule} (own : r.IsScoped) (own' : r'.IsScoped)
    (device : r.device = r'.device) (text : r.treatment.text = r'.treatment.text) :
    r.treatment = r'.treatment := by
  have alike := Treatment.text_eq_iff.1 text
  have same : r.treatment.instructions = r'.treatment.instructions := by
    apply List.ext_getElem alike.length_eq
    intro k bound bound'
    have pair : Instruction.Alike r.treatment.instructions[k] r'.treatment.instructions[k] :=
      alike.get bound bound'
    generalize left : r.treatment.instructions[k] = i at pair
    generalize right : r'.treatment.instructions[k] = j at pair
    cases pair with
    | setMac mac | output port => rfl
    | tunnelTo d d' remote =>
      have first : d = r.device := own d remote (left ▸ List.getElem_mem bound)
      have second : d' = r'.device := own' d' remote (right ▸ List.getElem_mem bound')
      rw [first, second, device]
  exact congrArg Treatment.mk same

namespace Controller

variable {s t : Controller}

/-- Handlers make no request but those whose rules are synthesized. -/
def Orderly (s : Controller) : Prop := ∀ h c, .call h c ∈ s.journal → c.IsOrderly

namespace Orderly

theorem append (orderly : s.Orderly) {entries : List Entry}
    (journal : t.journal = s.journal ++ entries)
    (more : ∀ h c, .call h c ∈ entries → c.IsOrderly) : t.Orderly := by
  intro h c made
  rw [journal] at made
  rcases List.mem_append.1 made with before | now
  · exact orderly h c before
  · exact more h c now

theorem note (orderly : s.Orderly) {e : Entry} (ok : ∀ h c, .call h c = e → c.IsOrderly) :
    (s.note e).Orderly := by
  have journal : (s.note e).journal = s.journal ++ [e] := rfl
  apply orderly.append journal
  intro h c made
  exact ok h c (List.mem_singleton.1 made)

theorem log (orderly : s.Orderly) (n : Notice) : (s.log n).Orderly :=
  orderly.note fun h c same => by cases same

theorem logSome (orderly : s.Orderly) (n : Option Notice) : (s.logSome n).Orderly := by
  cases n with
  | none => exact orderly
  | some n => exact orderly.log n

theorem call (orderly : s.Orderly) (h : Nat) (c : Call) (ok : c.IsOrderly) :
    (s.note (.call h c)).Orderly := by
  apply orderly.note
  intro k c' same
  cases same
  exact ok

theorem lead (orderly : s.Orderly) (leadership : Leadership) :
    Orderly { s with leadership } := orderly

theorem disturb (orderly : s.Orderly) (d : Disturbance) : (s.disturb d).Orderly := by
  cases d with
  | update u =>
    obtain ⟨schedule, entries, same, news, -⟩ := update_spec s u
    have journal : (s.update u).journal =
        s.journal ++ .updated u (s.inventory.event? u) :: entries := by rw [same]
    apply orderly.append journal
    intro h c made
    rcases List.mem_cons.1 made with other | among
    · cases other
    · exact (news _ among).elim
  | appoint leader | refuse device reason | accept device => exact orderly

theorem working {h : Nat} (orderly : s.Orderly) (w : Working h Call.IsOrderly s t) : t.Orderly :=
  w.keeps (fun _ n _ orderly => orderly.log n) (fun _ c _ ok orderly => orderly.call h c ok)
    (fun _ _ orderly => orderly) (fun _ d orderly => orderly.disturb d) orderly

theorem work (orderly : s.Orderly) (h : Nat) : (s.work h).Orderly := by
  rcases work_turn s h with same | ⟨a, -, -, -, -, ended⟩ | ⟨a, task, rest, present, queue, -⟩
  · rwa [same]
  · rw [ended]
    exact orderly.log .queueDrained
  · have taken : (s.take h task rest).Orderly := orderly.note fun k c same => by cases same
    exact taken.working (work_orderly present queue)

theorem act (orderly : s.Orderly) (act : Act) : (s.act act).Orderly := by
  cases act with
  | log n => exact orderly.log n
  | disturb d => exact orderly.disturb d
  | arrange schedule | armCrash crash | armHook hook | listen kind label | unlisten kind id
  | enroll label self p | loseWorkers => exact orderly
  | stand h g => exact ((orderly.lead _).call h (.run g.topic) trivial).logSome _
  | withdraw h g => exact ((orderly.lead _).call h (.withdraw g.topic) trivial).logSome _
  | close h =>
    unfold Controller.act
    dsimp only
    split
    · exact orderly
    · next a _ =>
      have journal : (s.closeIntake h a).journal = s.journal ++ [.closed h] := rfl
      apply orderly.append journal
      intro k c made
      cases List.mem_singleton.1 made
  | work h => exact orderly.work h
  | reconcile h n action =>
    simp only [Controller.act, Controller.reconcile]
    split
    · exact orderly
    · exact orderly.working ((pass_ordered s h _ n action).mono fun _ => And.right)

theorem run (orderly : s.Orderly) (steps : List Step) : (s.run steps).Orderly := by
  have acts : Acts (fun _ => True) s (s.run steps) := run_acts s steps fun _ _ _ _ => trivial
  exact acts.keeps (fun _ act _ orderly => orderly.act act) orderly

end Orderly
end Controller

theorem Journal.call_mem_of_mem_calls {h : Nat} {c : Call} {journal : List Entry}
    (made : c ∈ calls h journal) : .call h c ∈ journal := by
  obtain ⟨e, noted, mine⟩ := List.mem_filterMap.1 made
  cases e with
  | call k c' =>
    by_cases own : k = h
    · subst own
      obtain rfl : c' = c := by simpa [Entry.callBy?] using mine
      exact noted
    · simp [Entry.callBy?, own] at mine
  | updated _ _ | delivered _ _ | taken _ _ | closed _ | log _ => cases mine

/-- Some handler makes the request in some run. -/
def Request.Arises (r : Request) : Prop :=
  ∃ (leadership : Leadership) (fixedPort : Option Port)
    (customPorts : Option (Inventory → Network → Node → Except RuleError Port))
    (keepsListeners logsRequests : Bool) (steps : List Step) (h : Nat),
    r ∈ submitted h ({ Controller.start leadership fixedPort keepsListeners logsRequests with
      customPorts }.run steps).journal

theorem Request.Arises.isScoped {r : Request} (arises : r.Arises) : r.rule.IsScoped := by
  obtain ⟨leadership, fixedPort, customPorts, keepsListeners, logsRequests, steps, h, made⟩ := arises
  have begun : Controller.Orderly
      { Controller.start leadership fixedPort keepsListeners logsRequests with customPorts } :=
    fun _ _ made => by cases made
  obtain ⟨c, called, same⟩ := List.mem_filterMap.1 made
  have submits : c = .submit r := by
    cases c with
    | submit r' => exact congrArg Call.submit (Option.some.inj same)
    | run _ | withdraw _ | leader _ _ | read _ | accepted _ | refused _ => cases same
  rw [submits] at called
  obtain ⟨resolver, n, x, owner, built⟩ :=
    begun.run steps h (.submit r) (Journal.call_mem_of_mem_calls called)
  exact Rule.isScoped_of_synthesize built

/-- The written steps stand for the treatment. Two treatments, whatever their steps, are written the
same if and only if they have as many steps, which agree one by one in their kind, the Ethernet
address, the remote address of the tunnel and the port, so that only devices of tunnels can differ.
The tunnels of a request that any handler makes in any run are on the device of the request, and so
two of them that have one device and written steps that are the same have the same treatment. -/
theorem written_actions_identify_treatment :
    (∀ a b : Treatment,
      a.text = b.text ↔ List.Forall₂ Instruction.Alike a.instructions b.instructions) ∧
    (∀ r : Request, r.Arises → r.rule.IsScoped) ∧
    ∀ r r' : Request, r.Arises → r'.Arises → r.rule.device = r'.rule.device →
      r.rule.treatment.text = r'.rule.treatment.text → r.rule.treatment = r'.rule.treatment :=
  ⟨fun _ _ => Treatment.text_eq_iff, fun _ arises => arises.isScoped,
    fun _ _ arises arises' device text =>
      Rule.treatment_eq_of_text_eq arises.isScoped arises'.isScoped device text⟩

/-- One node sends the traffic of two networks to their common owner, in the same written steps. -/
theorem written_actions_identify_treatment_two_networks :
    let n : Network := ⟨"host", "blue", .vxlan, ⟨192, 168, 0, 1⟩, none⟩
    let m : Network := ⟨"host", "red", .vxlan, ⟨192, 168, 1, 1⟩, none⟩
    let treatment : Treatment := ⟨[.tunnelTo ⟨"br1"⟩ ⟨10, 0, 0, 1⟩, .output ⟨7⟩]⟩
    let r : Request := ⟨⟨⟨"br1"⟩, n.selector, treatment⟩, .default, .install⟩
    let r' : Request := ⟨⟨⟨"br1"⟩, m.selector, treatment⟩, .default, .remove⟩
    r.Arises ∧ r'.Arises ∧ r.rule.treatment.text = "tun_dst=10.0.0.1,output:7" ∧
      r'.rule.treatment.text = "tun_dst=10.0.0.1,output:7" ∧
      r.rule.treatment = r'.rule.treatment := by
  intro n m treatment r r'
  let x : Node := ⟨"host", ⟨"br0"⟩, default, ⟨10, 0, 0, 1⟩, .complete, .none⟩
  let y : Node := ⟨"other", ⟨"br1"⟩, default, default, .complete, ⟨some ⟨7⟩, none, none⟩⟩
  let steps : List Step := [.disturb (.update (.upsertNode x)), .disturb (.update (.upsertNode y)),
    .disturb (.update (.upsertNetwork m)), .activate "one" ⟨"a"⟩ .default,
    .disturb (.update (.upsertNetwork n)), .disturb (.update (.removeNetwork "red")), .drain]
  have arises : r.Arises :=
    ⟨.appointed (some ⟨"a"⟩), none, none, false, false, steps, 0, by decide⟩
  have arises' : r'.Arises :=
    ⟨.appointed (some ⟨"a"⟩), none, none, false, false, steps, 0, by decide⟩
  have text : r.rule.treatment.text = "tun_dst=10.0.0.1,output:7" := by decide
  have text' : r'.rule.treatment.text = "tun_dst=10.0.0.1,output:7" := by decide
  obtain ⟨-, -, identified⟩ := written_actions_identify_treatment
  exact ⟨arises, arises', text, text',
    identified r r' arises arises' rfl (text.trans text'.symm)⟩

end GatewayRules
