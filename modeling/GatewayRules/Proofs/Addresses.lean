import GatewayRules.Address

/-! Addresses as they are written are read back. -/
namespace GatewayRules
open Text

namespace MacAddress

theorem group?_hexPadded (octet : UInt8) : group? (hexPadded 2 octet.toNat) = some octet := by
  have high : octet.toNat / 16 < 16 := Nat.div_lt_of_lt_mul octet.toNat_lt
  have low : octet.toNat % 16 < 16 := Nat.mod_lt _ (by decide)
  have unsigned : Nat.digitChar (octet.toNat / 16) ≠ '+' := by
    have all : ∀ d : Fin 16, Nat.digitChar d ≠ '+' := by decide
    exact all ⟨_, high⟩
  have digits : hexPadded 2 octet.toNat =
      [Nat.digitChar (octet.toNat / 16), Nat.digitChar (octet.toNat % 16)] := by
    simp [hexPadded, Nat.mod_eq_of_lt high]
  have whole : 16 * (octet.toNat / 16) + octet.toNat % 16 = octet.toNat := Nat.div_add_mod ..
  rw [digits]
  simp only [group?, if_neg unsigned, hexValue?_digitChar high, hexValue?_digitChar low]
  exact congrArg some ((congrArg UInt8.ofNat whole).trans UInt8.ofNat_toNat)

theorem colon_not_mem_hexPadded (k n : Nat) : ':' ∉ hexPadded k n := by
  intro member
  obtain ⟨d, bound, same⟩ := digit_of_mem_hexPadded member
  have all : ∀ d : Fin 16, ':' ≠ Nat.digitChar d := by decide
  exact all ⟨d, bound⟩ same

theorem ofChars?_chars (m : MacAddress) : ofChars? m.chars = some m := by
  have parts : fields ':' m.chars = m.octets.map fun octet => hexPadded 2 octet.toNat := by
    refine fields_join (by simp [octets]) fun part member => ?_
    obtain ⟨octet, -, rfl⟩ := List.mem_map.1 member
    exact colon_not_mem_hexPadded 2 _
  simp [ofChars?, parts, octets, group?_hexPadded]

theorem chars_inj {m m' : MacAddress} : m.chars = m'.chars ↔ m = m' := by
  constructor
  · intro same
    have back : ofChars? m.chars = ofChars? m'.chars := congrArg ofChars? same
    rw [ofChars?_chars, ofChars?_chars] at back
    exact Option.some.inj back
  · rintro rfl
    rfl

theorem parse_text (m : MacAddress) : parse m.text = .ok m := by
  simp [parse, ofString?, text, ofChars?_chars]

end MacAddress

namespace Ipv4Address

theorem part?_decimal (octet : UInt8) : part? (decimal octet.toNat) = some octet := by
  have short : (decimal octet.toNat).length ≤ 3 := by
    have small := octet.toNat_lt
    refine (Nat.length_toDigits_le_iff (by decide) (by decide)).2 ?_
    omega
  have plain (zero : (decimal octet.toNat).head? = some '0') : decimal octet.toNat = ['0'] := by
    by_cases nonzero : octet.toNat = 0
    · rw [nonzero]
      rfl
    · exact absurd zero (head?_decimal nonzero)
  simp only [part?, if_pos (And.intro short plain), ofDecimal?_decimal]
  simp [octet.toNat_lt]

theorem point_not_mem_decimal (n : Nat) : '.' ∉ decimal n := by
  intro member
  have digit := isDigit_of_mem_decimal member
  exact absurd digit (by decide)

theorem ofChars?_chars (a : Ipv4Address) : ofChars? a.chars = some a := by
  have parts : fields '.' a.chars = a.octets.map fun octet => decimal octet.toNat := by
    refine fields_join (by simp [octets]) fun part member => ?_
    obtain ⟨octet, -, rfl⟩ := List.mem_map.1 member
    exact point_not_mem_decimal _
  simp [ofChars?, parts, octets, part?_decimal]

theorem chars_inj {a b : Ipv4Address} : a.chars = b.chars ↔ a = b := by
  constructor
  · intro same
    have back : ofChars? a.chars = ofChars? b.chars := congrArg ofChars? same
    rw [ofChars?_chars, ofChars?_chars] at back
    exact Option.some.inj back
  · rintro rfl
    rfl

theorem ofString?_text (a : Ipv4Address) : ofString? a.text = some a := by
  simp [ofString?, text, ofChars?_chars]

end Ipv4Address
end GatewayRules
