/-! Numbers as digits: decimal digits, and hexadecimal ones with or without padding. -/
namespace GatewayRules.Text

/-- The decimal digits of a number, without leading zeros. -/
def decimal (n : Nat) : List Char := Nat.toDigits 10 n

def ofDecimal (s : List Char) : Nat := Nat.ofDigitChars 10 s 0

@[simp] theorem ofDecimal_decimal (n : Nat) : ofDecimal (decimal n) = n :=
  Nat.ofDigitChars_ten_toDigits

theorem isDigit_of_mem_decimal {n : Nat} {c : Char} (h : c ∈ decimal n) : c.isDigit = true :=
  Nat.isDigit_of_mem_toDigits (by decide) (by decide) h

theorem decimal_ne_nil (n : Nat) : decimal n ≠ [] := Nat.toDigits_ne_nil

theorem head?_decimal {n : Nat} (nonzero : n ≠ 0) : (decimal n).head? ≠ some '0' := by
  induction n using Nat.strongRecOn with
  | ind n ih =>
    by_cases single : n < 10
    · rw [decimal, Nat.toDigits_of_lt_base single, List.head?_cons, ne_eq, Option.some.injEq,
        Nat.digitChar_eq_zero]
      exact nonzero
    · have fewer : (decimal (n / 10)).head? ≠ some '0' := ih (n / 10) (by omega) (by omega)
      have split : decimal n = decimal (n / 10) ++ [Nat.digitChar (n % 10)] :=
        Nat.toDigits_of_base_le (by decide) (by omega)
      cases front : decimal (n / 10) with
      | nil => exact absurd front (decimal_ne_nil _)
      | cons c rest =>
        rw [front] at fewer
        rwa [split, front]

def hexValue? (c : Char) : Option Nat :=
  let n := c.toNat
  if 48 ≤ n ∧ n ≤ 57 then some (n - 48)
  else if 97 ≤ n ∧ n ≤ 102 then some (n - 87)
  else if 65 ≤ n ∧ n ≤ 70 then some (n - 55)
  else none

/-- The last `k` hexadecimal digits of a number in lower case, padded with zeros. -/
def hexPadded : Nat → Nat → List Char
  | 0, _ => []
  | k + 1, n => hexPadded k (n / 16) ++ [Nat.digitChar (n % 16)]

theorem length_hexPadded (k n : Nat) : (hexPadded k n).length = k := by
  induction k generalizing n with
  | zero => rfl
  | succ k ih => simp [hexPadded, ih]

theorem digit_of_mem_hexPadded {k n : Nat} {c : Char} (member : c ∈ hexPadded k n) :
    ∃ d < 16, c = Nat.digitChar d := by
  induction k generalizing n with
  | zero => cases member
  | succ k ih =>
    rcases List.mem_append.1 member with before | last
    · exact ih before
    · exact ⟨n % 16, Nat.mod_lt n (by decide), List.mem_singleton.1 last⟩

theorem hexValue?_digitChar {n : Nat} (h : n < 16) : hexValue? (Nat.digitChar n) = some n := by
  have all : ∀ m : Fin 16, hexValue? (Nat.digitChar m) = some m.val := by decide
  exact all ⟨n, h⟩

def hex (n : Nat) : List Char := Nat.toDigits 16 n

def ofHex? (s : List Char) : Option Nat :=
  s.foldl (fun sum c => do return 16 * (← sum) + (← hexValue? c)) (some 0)

/-- Padded digits keep the number up to a multiple of the power of sixteen. -/
theorem ofHex?_hexPadded (k n : Nat) : ofHex? (hexPadded k n) = some (n % Nat.pow 16 k) := by
  induction k generalizing n with
  | zero => simp [hexPadded, ofHex?, Nat.mod_one]
  | succ k ih =>
    have digit := hexValue?_digitChar (Nat.mod_lt n (by decide : 0 < 16))
    have before := ih (n / 16)
    unfold ofHex? at before ⊢
    rw [hexPadded, List.foldl_append, before]
    simp only [List.foldl_cons, List.foldl_nil, digit, Option.bind_eq_bind, Option.bind_some]
    have power : Nat.pow 16 (k + 1) = 16 * Nat.pow 16 k := Nat.pow_succ'
    rw [power, Nat.mod_mul]
    exact congrArg some (Nat.add_comm _ _)

/-- The value of a nonempty run of decimal digits, and nothing for any other text. -/
def ofDecimal? (s : List Char) : Option Nat :=
  if s.isEmpty || !s.all Char.isDigit then none else some (ofDecimal s)

@[simp] theorem ofDecimal?_decimal (n : Nat) : ofDecimal? (decimal n) = some n := by
  have digits : (decimal n).all Char.isDigit = true :=
    List.all_eq_true.2 fun _ h => isDigit_of_mem_decimal h
  have some_digit : (decimal n).isEmpty = false := by
    simpa using decimal_ne_nil n
  simp [ofDecimal?, digits, some_digit]

end GatewayRules.Text
