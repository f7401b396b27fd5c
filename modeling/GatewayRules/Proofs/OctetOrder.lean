import Mathlib.Data.List.TakeWhile
import GatewayRules.Text.Utf8

/-! The order of texts by code points is the order of their octets, one octet after the other. -/
namespace GatewayRules.Text

theorem octet_cons_lt_iff {a b : Nat} (ha : a < 256) (hb : b < 256) (x y : List UInt8) :
    UInt8.ofNat a :: x < UInt8.ofNat b :: y ↔ a < b ∨ a = b ∧ x < y := by
  have first : (UInt8.ofNat a).toNat = a := UInt8.toNat_ofNat_of_lt' ha
  have second : (UInt8.ofNat b).toNat = b := UInt8.toNat_ofNat_of_lt' hb
  rw [List.cons_lt_cons_iff, UInt8.lt_iff_toNat_lt, ← UInt8.toNat_inj, first, second]

/-- Numbers of four digits are in the order of the first digit in which they differ. -/
theorem sextets_lt {v w : Nat} (less : v < w) :
    v / 262144 < w / 262144 ∨ v / 262144 = w / 262144 ∧
      (v / 4096 % 64 < w / 4096 % 64 ∨ v / 4096 % 64 = w / 4096 % 64 ∧
        (v / 64 % 64 < w / 64 % 64 ∨ v / 64 % 64 = w / 64 % 64 ∧ v % 64 < w % 64)) := by
  have sextets (n : Nat) :
      n = 262144 * (n / 262144) + 4096 * (n / 4096 % 64) + 64 * (n / 64 % 64) + n % 64 := by omega
  have first := sextets v
  have second := sextets w
  omega

/-- The octets of the lesser character are less, whatever comes after them. -/
theorem encode_append_lt {c d : Char} (less : c < d) (x y : List UInt8) :
    String.utf8EncodeChar c ++ x < String.utf8EncodeChar d ++ y := by
  have before : c.val.toNat < d.val.toNat := less
  have bound : d.val.toNat < 0x110000 := by
    have valid := d.valid
    simp only [UInt32.isValidChar, Nat.isValidChar] at valid
    omega
  unfold String.utf8EncodeChar
  extract_lets v w
  change v < w at before
  change w < _ at bound
  by_cases long : v ≤ 0xffff
  · -- The first octet tells how many there are, and more octets are for greater characters.
    clear_value v w
    split <;> split <;> repeat' split
    all_goals
      simp (disch := omega) only [List.cons_append, List.nil_append, octet_cons_lt_iff]
      omega
  · have digits := sextets_lt before
    have own : v / 262144 % 8 = v / 262144 := Nat.mod_eq_of_lt (by omega)
    have other : w / 262144 % 8 = w / 262144 := Nat.mod_eq_of_lt (by omega)
    rw [if_neg (by omega), if_neg (by omega), if_neg long, if_neg (by omega), if_neg (by omega),
      if_neg (by omega)]
    simp (disch := omega) only [List.cons_append, List.nil_append, octet_cons_lt_iff, own, other]
    omega

theorem toUtf8_lt_of_lt {s t : List Char} (less : s < t) : toUtf8 s < toUtf8 t := by
  induction s generalizing t with
  | nil =>
    cases t with
    | nil => exact absurd less (List.lt_irrefl [])
    | cons d t =>
      obtain ⟨b, octets, encoded⟩ := List.exists_cons_of_ne_nil (String.utf8EncodeChar_ne_nil (c := d))
      change [] < String.utf8EncodeChar d ++ toUtf8 t
      rw [encoded]
      exact List.nil_lt_cons b _
  | cons c s ih =>
    cases t with
    | nil => exact absurd less (List.not_lt_nil _)
    | cons d t =>
      change String.utf8EncodeChar c ++ toUtf8 s < String.utf8EncodeChar d ++ toUtf8 t
      rcases List.cons_lt_cons_iff.1 less with first | ⟨rfl, others⟩
      · exact encode_append_lt first _ _
      · exact List.append_left_lt (ih others)

end GatewayRules.Text
