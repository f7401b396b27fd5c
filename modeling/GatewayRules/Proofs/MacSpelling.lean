import Mathlib.Data.List.Forall2
import GatewayRules.Proofs.Addresses

/-!
The texts that are Ethernet addresses, and the one among them for every address that has only
lower-case digits.
-/
namespace GatewayRules
open Text

namespace Text

def lowerDigits : List Char := "0123456789abcdef".toList

def upperDigits : List Char := "0123456789ABCDEF".toList

def IsHexDigit (c : Char) (v : Nat) : Prop := lowerDigits[v]? = some c ∨ upperDigits[v]? = some c

theorem IsHexDigit.lt {c : Char} {v : Nat} (digit : IsHexDigit c v) : v < 16 := by
  rcases digit with lower | upper
  · exact (List.getElem?_eq_some_iff.1 lower).1
  · exact (List.getElem?_eq_some_iff.1 upper).1

theorem hexValue?_eq_some_iff {c : Char} {v : Nat} : hexValue? c = some v ↔ IsHexDigit c v := by
  constructor
  · intro found
    have small : c.toNat < 128 := by
      by_contra large
      have nothing : hexValue? c = none := by
        unfold hexValue?
        dsimp only
        rw [if_neg (by omega), if_neg (by omega), if_neg (by omega)]
      rw [nothing] at found
      cases found
    have all : ∀ n : Fin 128, (hexValue? (Char.ofNat n)).all fun v =>
        lowerDigits[v]? = some (Char.ofNat n) ∨ upperDigits[v]? = some (Char.ofNat n) := by decide
    have here := all ⟨c.toNat, small⟩
    rw [Char.ofNat_toNat, found] at here
    simpa [IsHexDigit] using here
  · intro digit
    have bound : v < 16 := digit.lt
    have lower : ∀ d : Fin 16, lowerDigits[d.val]?.all (hexValue? · = some d.val) := by decide
    have upper : ∀ d : Fin 16, upperDigits[d.val]?.all (hexValue? · = some d.val) := by decide
    rcases digit with found | found
    · simpa [found] using lower ⟨v, bound⟩
    · simpa [found] using upper ⟨v, bound⟩

theorem IsHexDigit.lower {c : Char} {v : Nat} (digit : IsHexDigit c v) (listed : c ∈ lowerDigits) :
    lowerDigits[v]? = some c := by
  have bound : v < 16 := digit.lt
  have all : ∀ d : Fin 16, upperDigits[d.val]?.all fun c =>
      c ∈ lowerDigits → lowerDigits[d.val]? = some c := by decide
  rcases digit with lower | upper
  · exact lower
  · have here := all ⟨v, bound⟩
    simp only [upper, Option.all_some, decide_eq_true_eq] at here
    exact here listed

theorem getElem?_lowerDigits {d : Nat} (bound : d < 16) : lowerDigits[d]? = some (Nat.digitChar d) := by
  have all : ∀ d : Fin 16, lowerDigits[d.val]? = some (Nat.digitChar d.val) := by decide
  exact all ⟨d, bound⟩

end Text

namespace MacAddress

/-- The text stands for the octet in an address: it is two digits, or a plus sign and one. -/
inductive Group : List Char → UInt8 → Prop where
  | digits {a b : Char} {x y : Nat} {octet : UInt8} :
    IsHexDigit a x → IsHexDigit b y → octet.toNat = 16 * x + y → Group [a, b] octet
  | signed {b : Char} {y : Nat} {octet : UInt8} :
    IsHexDigit b y → octet.toNat = y → Group ['+', b] octet

/-- The two lower-case digits for the octet. -/
def Plain (part : List Char) (octet : UInt8) : Prop :=
  ∃ a b, part = [a, b] ∧ lowerDigits[octet.toNat / 16]? = some a ∧
    lowerDigits[octet.toNat % 16]? = some b

variable {part : List Char} {octet : UInt8}

theorem group?_eq_some_iff : group? part = some octet ↔ Group part octet := by
  have ofNat {n : Nat} (bound : n < 256) : UInt8.ofNat n = octet ↔ octet.toNat = n := by
    constructor
    · rintro rfl
      simp [Nat.mod_eq_of_lt bound]
    · rintro rfl
      simp
  constructor
  · intro read
    unfold group? at read
    split at read
    · next a b =>
      split at read
      · next sign =>
        subst sign
        obtain ⟨y, found, same⟩ := Option.map_eq_some_iff.1 read
        have digit := hexValue?_eq_some_iff.1 found
        have bound : y < 16 := digit.lt
        exact .signed digit ((ofNat (by omega)).1 same)
      · simp only [Option.bind_eq_bind, Option.bind_eq_some_iff, Option.pure_def,
          Option.some.injEq] at read
        obtain ⟨x, high, y, low, same⟩ := read
        have digit := hexValue?_eq_some_iff.1 high
        have digit' := hexValue?_eq_some_iff.1 low
        have bound : x < 16 := digit.lt
        have bound' : y < 16 := digit'.lt
        exact .digits digit digit' ((ofNat (by omega)).1 same)
    · cases read
  · rintro (⟨digit, digit', same⟩ | ⟨digit, same⟩)
    · next a b x y =>
      have unsigned : a ≠ '+' := by
        rintro rfl
        have found := hexValue?_eq_some_iff.2 digit
        cases found
      have bound : x < 16 := digit.lt
      have bound' : y < 16 := digit'.lt
      have read : hexValue? a = some x := hexValue?_eq_some_iff.2 digit
      have read' : hexValue? b = some y := hexValue?_eq_some_iff.2 digit'
      have value : UInt8.ofNat (16 * x + y) = octet := (ofNat (by omega)).2 same
      simp [group?, unsigned, read, read', ← value]
    · next b y =>
      have bound : y < 16 := digit.lt
      have read : hexValue? b = some y := hexValue?_eq_some_iff.2 digit
      have value : UInt8.ofNat y = octet := (ofNat (by omega)).2 same
      simp [group?, read, value]

theorem Group.undivided (group : Group part octet) : ':' ∉ part := by
  have colon (v : Nat) : ¬IsHexDigit ':' v := by
    intro digit
    have found := hexValue?_eq_some_iff.2 digit
    cases found
  intro member
  rcases group with ⟨digit, digit', -⟩ | ⟨digit, -⟩
  · rcases List.mem_pair.1 member with rfl | rfl
    · exact colon _ digit
    · exact colon _ digit'
  · rcases List.mem_pair.1 member with same | rfl
    · cases same
    · exact colon _ digit

theorem ofChars?_eq_some_iff {s : List Char} {m : MacAddress} :
    ofChars? s = some m ↔ List.Forall₂ Group (fields ':' s) m.octets := by
  have listed : ofChars? s = some m ↔ (fields ':' s).map group? = m.octets.map some := by
    constructor
    · intro read
      unfold ofChars? at read
      split at read
      · next parts =>
        obtain rfl := Option.some.inj read
        exact parts
      · cases read
    · intro parts
      simp [ofChars?, parts, octets]
  rw [listed, ← List.forall₂_eq_eq_eq, List.forall₂_map_left_iff, List.forall₂_map_right_iff]
  simp only [group?_eq_some_iff]

theorem ofChars?_iff_join {s : List Char} {m : MacAddress} : ofChars? s = some m ↔
    ∃ parts, s = join [':'] parts ∧ List.Forall₂ Group parts m.octets := by
  rw [ofChars?_eq_some_iff]
  constructor
  · intro groups
    exact ⟨fields ':' s, (join_fields ':' s).symm, groups⟩
  · rintro ⟨parts, rfl, groups⟩
    have nonempty : parts ≠ [] := by
      rintro rfl
      cases groups
    have free : ∀ part ∈ parts, ':' ∉ part := by
      intro part member
      obtain ⟨i, bound, rfl⟩ := List.mem_iff_getElem.1 member
      have bound' : i < m.octets.length := groups.length_eq ▸ bound
      exact (groups.get bound bound').undivided
    rwa [fields_join nonempty free]

theorem parse_eq_ok_iff {s : String} {m : MacAddress} : parse s = .ok m ↔
    ∃ parts, s.toList = join [':'] parts ∧ List.Forall₂ Group parts m.octets := by
  rw [← ofChars?_iff_join]
  unfold parse ofString?
  split
  · next read => simp [read]
  · next read => simp [read]

theorem plain_hexPadded (octet : UInt8) : Plain (hexPadded 2 octet.toNat) octet := by
  have high : octet.toNat / 16 < 16 := Nat.div_lt_of_lt_mul octet.toNat_lt
  have low : octet.toNat % 16 < 16 := Nat.mod_lt _ (by decide)
  refine ⟨_, _, ?_, getElem?_lowerDigits high, getElem?_lowerDigits low⟩
  simp [hexPadded, Nat.mod_eq_of_lt high]

theorem plain_chars (m : MacAddress) : ∃ parts, m.chars = join [':'] parts ∧
    List.Forall₂ Plain parts m.octets := by
  refine ⟨_, rfl, ?_⟩
  rw [List.forall₂_map_left_iff, List.forall₂_same]
  exact fun octet _ => plain_hexPadded octet

theorem Plain.unique {part' : List Char} (plain : Plain part octet) (plain' : Plain part' octet) :
    part = part' := by
  obtain ⟨a, b, rfl, high, low⟩ := plain
  obtain ⟨a', b', rfl, high', low'⟩ := plain'
  rw [high] at high'
  rw [low] at low'
  obtain rfl := Option.some.inj high'
  obtain rfl := Option.some.inj low'
  rfl

/-- A group without a sign or an upper-case digit is plain. -/
theorem Group.plain (group : Group part octet) (lower : ∀ c ∈ part, c ∈ lowerDigits) :
    Plain part octet := by
  cases group with
  | @digits a b x y _ digit digit' same =>
    have first : lowerDigits[x]? = some a := digit.lower (lower a (by simp))
    have second : lowerDigits[y]? = some b := digit'.lower (lower b (by simp))
    have bound : y < 16 := digit'.lt
    have high : octet.toNat / 16 = x := by omega
    have low : octet.toNat % 16 = y := by omega
    exact ⟨a, b, rfl, high ▸ first, low ▸ second⟩
  | signed _ _ =>
    have sign : '+' ∈ lowerDigits := lower '+' (by simp)
    exact absurd sign (by decide)

theorem length_text (m : MacAddress) : m.text.length = 17 := by
  have length : m.chars.length = 17 := by simp [chars, octets, join, length_hexPadded]
  rw [text, String.length_ofList, length]

/-- Texts without signs and upper-case digits that are the same address are the same text. -/
theorem eq_text_iff_lower {s : String} {m : MacAddress} (read : parse s = .ok m) :
    s = m.text ↔ ∀ c ∈ s.toList, c = ':' ∨ c ∈ lowerDigits := by
  obtain ⟨plain, written, all⟩ := m.plain_chars
  have written : m.text.toList = join [':'] plain := by rw [← written, text, String.toList_ofList]
  constructor
  · rintro rfl c member
    rw [written] at member
    rcases eq_or_mem_of_mem_join member with colon | ⟨part, listed, inside⟩
    · exact .inl colon
    · obtain ⟨i, bound, rfl⟩ := List.mem_iff_getElem.1 listed
      have bound' : i < m.octets.length := all.length_eq ▸ bound
      obtain ⟨a, b, same, high, low⟩ := all.get bound bound'
      rw [List.get_eq_getElem] at same
      rw [same] at inside
      rcases List.mem_pair.1 inside with rfl | rfl
      · exact .inr (List.mem_of_getElem? high)
      · exact .inr (List.mem_of_getElem? low)
  · intro lower
    obtain ⟨parts, spelt, groups⟩ := parse_eq_ok_iff.1 read
    have same : parts = plain := by
      apply List.ext_getElem (groups.length_eq.trans all.length_eq.symm)
      intro i bound bound'
      have here : i < m.octets.length := groups.length_eq ▸ bound
      have group : Group parts[i] m.octets[i] := groups.get bound here
      have other : Plain plain[i] m.octets[i] := all.get bound' here
      apply Plain.unique _ other
      apply group.plain
      intro c inside
      have member : c ∈ s.toList := spelt ▸ mem_join_of_mem (List.getElem_mem bound) inside
      rcases lower c member with rfl | listed
      · exact absurd inside group.undivided
      · exact listed
    apply String.ext
    rw [spelt, written, same]

/-- What is read as an address, and what addresses are written as. A text is read exactly if it is six
groups with a colon between each two and nothing else, a group being two hexadecimal digits of
either case or a plus sign and one, and the octets are the values of the groups; any other text comes
back in the error as it is. An address is written in seventeen characters as two lower-case digits
for each octet, which are read as the address again, and among the texts that are read as it this
is the only one without plus signs and upper-case digits. -/
theorem parse_reads_exactly_groups :
    (∀ s m, parse s = .ok m ↔
      ∃ parts, s.toList = join [':'] parts ∧ List.Forall₂ Group parts m.octets) ∧
    (∀ s e, parse s = .error e ↔ e = ⟨s⟩ ∧ ∀ m, parse s ≠ .ok m) ∧
    ∀ m : MacAddress, m.text.length = 17 ∧
      (∃ parts, m.text.toList = join [':'] parts ∧ List.Forall₂ Plain parts m.octets) ∧
      parse m.text = .ok m ∧
      ∀ s, parse s = .ok m → (s = m.text ↔ ∀ c ∈ s.toList, c = ':' ∨ c ∈ lowerDigits) := by
  refine ⟨fun s m => parse_eq_ok_iff, fun s e => ?_, fun m => ?_⟩
  · unfold parse
    cases ofString? s with
    | some m => simp
    | none => simp [eq_comm]
  · obtain ⟨parts, written, plain⟩ := m.plain_chars
    have spelt : m.text.toList = join [':'] parts := by rw [← written, text, String.toList_ofList]
    exact ⟨m.length_text, ⟨parts, spelt, plain⟩, m.parse_text, fun s read => eq_text_iff_lower read⟩

/-- Signs and upper-case digits are read, and are not written. -/
example : (parse "+a:0B:cD:00:ff:+0").map text = .ok "0a:0b:cd:00:ff:00" := by decide

end MacAddress
end GatewayRules
