import GatewayRules.Json.Scan

/-!
The grammar of JSON texts, with what each of them shows. The scanner finds whatever a text spells,
with any blanks between the parts, whatever stands after it, and to any depth.
-/
namespace GatewayRules.Json
open Text

def Blank (s : List Char) : Prop := ∀ c ∈ s, isBlank c = true

/-- One element of a string. -/
inductive Letter : Glyph → List Char → Prop where
  | plain {c : Char} : c ≠ '"' → c ≠ '\\' → 0x20 ≤ c.toNat → Letter (.char c) [c]
  | escape {e c : Char} : escaped? e = some c → Letter (.char c) ['\\', e]
  | number {a b c d : Char} {unit : Nat} : ofHex? [a, b, c, d] = some unit →
    Letter (.ofUnit unit) ['\\', 'u', a, b, c, d]

inductive Letters : List Glyph → List Char → Prop where
  | nil : Letters [] []
  | cons {g : Glyph} {gs : List Glyph} {s s' : List Char} :
    Letter g s → Letters gs s' → Letters (g :: gs) (s ++ s')

inductive Named : Quotation → List Char → Prop where
  | mk {gs : List Glyph} {a s b : List Char} : Blank a → Letters gs s → Blank b →
    Named ⟨gs, none⟩ (a ++ '"' :: (s ++ '"' :: b))

def Digits (s : List Char) : Prop := s ≠ [] ∧ ∀ c ∈ s, c.isDigit = true

inductive Sign : Bool → List Char → Prop where
  | plus : Sign false []
  | minus : Sign true ['-']

inductive Fraction : Option (List Char) → List Char → Prop where
  | none : Fraction none []
  | some {s : List Char} : Digits s → Fraction (some s) ('.' :: s)

inductive Exponent : Option (Bool × List Char) → List Char → Prop where
  | none : Exponent none []
  | bare {e : Char} {s : List Char} : e = 'e' ∨ e = 'E' → Digits s → Exponent (some (false, s)) (e :: s)
  | plus {e : Char} {s : List Char} :
    e = 'e' ∨ e = 'E' → Digits s → Exponent (some (false, s)) (e :: '+' :: s)
  | minus {e : Char} {s : List Char} :
    e = 'e' ∨ e = 'E' → Digits s → Exponent (some (true, s)) (e :: '-' :: s)

/-- A number, in which no zero stands before other digits. -/
inductive Numeral : Number → List Char → Prop where
  | mk {negative : Bool} {whole : List Char} {fraction : Option (List Char)}
    {exponent : Option (Bool × List Char)} {a b c : List Char} :
    Sign negative a → Digits whole → (∀ s, whole = '0' :: s → s = []) → Fraction fraction b →
      Exponent exponent c →
        Numeral (.ofDigits negative whole fraction exponent) (a ++ (whole ++ (b ++ c)))

/-- A part of a text: a value, a value with blanks on both sides, what stands between brackets, and
what stands between braces. -/
inductive Piece where
  | value (t : Tree)
  | padded (t : Tree)
  | items (ts : List Tree)
  | members (ms : List (Quotation × Tree))

inductive Spells : Piece → List Char → Prop where
  | null : Spells (.value .null) ['n', 'u', 'l', 'l']
  | true : Spells (.value (.bool true)) ['t', 'r', 'u', 'e']
  | false : Spells (.value (.bool false)) ['f', 'a', 'l', 's', 'e']
  | number {n : Number} {s : List Char} : Numeral n s → Spells (.value (.number n)) s
  | string {gs : List Glyph} {s : List Char} :
    Letters gs s → Spells (.value (.string ⟨gs, none⟩)) ('"' :: (s ++ ['"']))
  | emptyArray {s : List Char} : Blank s → Spells (.value (.array [] .closed)) ('[' :: (s ++ [']']))
  | array {ts : List Tree} {s : List Char} :
    Spells (.items ts) s → Spells (.value (.array ts .closed)) ('[' :: (s ++ [']']))
  | emptyObject {s : List Char} :
    Blank s → Spells (.value (.object [] .closed)) ('\x7b' :: (s ++ ['\x7d']))
  | object {ms : List (Quotation × Tree)} {s : List Char} :
    Spells (.members ms) s → Spells (.value (.object ms .closed)) ('\x7b' :: (s ++ ['\x7d']))
  | padded {t : Tree} {a s b : List Char} :
    Blank a → Spells (.value t) s → Blank b → Spells (.padded t) (a ++ (s ++ b))
  | lastItem {t : Tree} {s : List Char} : Spells (.padded t) s → Spells (.items [t]) s
  | nextItem {t : Tree} {ts : List Tree} {s s' : List Char} :
    Spells (.padded t) s → Spells (.items ts) s' → Spells (.items (t :: ts)) (s ++ ',' :: s')
  | lastMember {q : Quotation} {t : Tree} {a s : List Char} :
    Named q a → Spells (.padded t) s → Spells (.members [(q, t)]) (a ++ ':' :: s)
  | nextMember {q : Quotation} {t : Tree} {ms : List (Quotation × Tree)} {a s s' : List Char} :
    Named q a → Spells (.padded t) s → Spells (.members ms) s' →
      Spells (.members ((q, t) :: ms)) (a ++ ':' :: (s ++ ',' :: s'))

theorem skipBlanks_append {a : List Char} (blank : Blank a) (s : List Char) :
    skipBlanks (a ++ s) = skipBlanks s := List.dropWhile_append_of_pos blank

theorem skipBlanks_of_head {c : Char} (s : List Char) (printing : isBlank c = false) :
    skipBlanks (c :: s) = c :: s := by
  rw [skipBlanks, List.dropWhile_cons_of_neg (by simp [printing])]

namespace Quotation

theorem scan_letter {g : Glyph} {s : List Char} (letter : Letter g s) (done : List Glyph)
    (rest : List Char) : scan done (s ++ rest) = scan (g :: done) rest := by
  cases letter with
  | plain unquoted unescaped printing =>
    rw [List.singleton_append, scan]
    · rw [if_neg (Nat.not_lt.2 printing)]
    all_goals grind
  | @escape e c known =>
    have other : e ≠ 'u' := by
      rintro rfl
      cases known
    change scan done ('\\' :: e :: rest) = _
    rw [scan]
    · rw [known]
    all_goals grind
  | @number a b c d unit known =>
    change scan done ('\\' :: 'u' :: a :: b :: c :: d :: rest) = _
    rw [scan, known]

theorem scan_letters {gs : List Glyph} {s : List Char} (letters : Letters gs s)
    (done : List Glyph) (rest : List Char) :
    scan done (s ++ '"' :: rest) = (⟨done.reverse ++ gs, none⟩, rest) := by
  induction letters generalizing done with
  | nil =>
    rw [List.nil_append, scan, List.append_nil]
  | cons letter letters ih =>
    rw [List.append_assoc, scan_letter letter, ih, List.reverse_cons, List.append_assoc]
    rfl

end Quotation

namespace Tree

/-- What stands after a value is no further part of a number. -/
def Ends (rest : List Char) : Prop :=
  ∀ c, rest.head? = some c → c.isDigit = false ∧ c ≠ '.' ∧ c ≠ 'e' ∧ c ≠ 'E'

variable {rest : List Char}

theorem ends_of_head {c : Char} (s : List Char) (digit : c.isDigit = false) (point : c ≠ '.')
    (small : c ≠ 'e') (capital : c ≠ 'E') : Ends (c :: s) := by
  rintro d same
  obtain rfl := Option.some.inj same
  exact ⟨digit, point, small, capital⟩

theorem ends_comma (s : List Char) : Ends (',' :: s) :=
  ends_of_head s (by decide) (by decide) (by decide) (by decide)

theorem ends_bracket (s : List Char) : Ends (']' :: s) :=
  ends_of_head s (by decide) (by decide) (by decide) (by decide)

theorem ends_brace (s : List Char) : Ends ('\x7d' :: s) :=
  ends_of_head s (by decide) (by decide) (by decide) (by decide)

theorem ends_blank {b : List Char} (blank : Blank b) (ends : Ends rest) : Ends (b ++ rest) := by
  cases b with
  | nil => exact ends
  | cons c s =>
    have one : isBlank c = true := blank c List.mem_cons_self
    simp only [isBlank, Bool.or_eq_true, decide_eq_true_eq] at one
    rcases one with ((rfl | rfl) | rfl) | rfl <;>
      exact ends_of_head _ (by decide) (by decide) (by decide) (by decide)

theorem digits_append {s : List Char} (all : ∀ c ∈ s, c.isDigit = true)
    (stop : ∀ c, rest.head? = some c → c.isDigit = false) :
    digits (s ++ rest) = s ∧ afterDigits (s ++ rest) = rest := by
  have beyond : rest.takeWhile Char.isDigit = [] ∧ rest.dropWhile Char.isDigit = rest := by
    cases rest with
    | nil => exact ⟨rfl, rfl⟩
    | cons c s =>
      have none : c.isDigit = false := stop c rfl
      simp [none]
  unfold digits afterDigits
  rw [List.takeWhile_append_of_pos all, List.dropWhile_append_of_pos all, beyond.1, beyond.2]
  exact ⟨List.append_nil _, rfl⟩

theorem digits_ends {s : List Char} (spelled : Digits s) (ends : Ends rest) :
    (digits (s ++ rest)).isEmpty = false ∧ digits (s ++ rest) = s ∧ afterDigits (s ++ rest) = rest := by
  obtain ⟨front, back⟩ := digits_append spelled.2 fun c head => (ends c head).1
  refine ⟨?_, front, back⟩
  rw [front]
  exact List.isEmpty_eq_false_iff.2 spelled.1

theorem scanExponent_append {exponent : Option (Bool × List Char)} {s : List Char}
    (spelled : Exponent exponent s) (ends : Ends rest) (negative : Bool) (whole : List Char)
    (fraction : Option (List Char)) : scanExponent negative whole fraction (s ++ rest) =
      (.number (.ofDigits negative whole fraction exponent), rest) := by
  cases spelled with
  | none =>
    cases rest with
    | nil => rfl
    | cons c r =>
      obtain ⟨-, -, small, capital⟩ := ends c rfl
      exact if_neg (not_or.2 ⟨small, capital⟩)
  | @bare e s mark spelled =>
    obtain ⟨some, front, back⟩ := digits_ends spelled ends
    obtain ⟨d, r, rfl⟩ := List.exists_cons_of_ne_nil spelled.1
    have digit : d.isDigit = true := spelled.2 d List.mem_cons_self
    rw [List.cons_append, scanExponent, if_pos mark]
    · simp only [List.cons_append] at some front back ⊢
      rw [some, front, back]
      rfl
    all_goals
      rintro s same
      rw [(List.cons.inj same).1] at digit
      exact absurd digit (by decide)
  | @plus e s mark spelled =>
    obtain ⟨some, front, back⟩ := digits_ends spelled ends
    rw [List.cons_append, List.cons_append, scanExponent, if_pos mark]
    rw [some, front, back]
    rfl
  | @minus e s mark spelled =>
    obtain ⟨some, front, back⟩ := digits_ends spelled ends
    rw [List.cons_append, List.cons_append, scanExponent, if_pos mark]
    rw [some, front, back]
    rfl

/-- After the digits of a number comes no digit, and after its fraction no point. -/
theorem head_of_exponent {exponent : Option (Bool × List Char)} {s : List Char}
    (spelled : Exponent exponent s) (ends : Ends rest) (c : Char)
    (head : (s ++ rest).head? = some c) : c.isDigit = false ∧ c ≠ '.' := by
  have marked {e : Char} (mark : e = 'e' ∨ e = 'E') (same : some e = some c) :
      c.isDigit = false ∧ c ≠ '.' := by
    obtain rfl := Option.some.inj same
    rcases mark with rfl | rfl <;> decide
  cases spelled with
  | none => exact ⟨(ends c head).1, (ends c head).2.1⟩
  | bare mark | plus mark | minus mark => exact marked mark head

theorem head_of_fraction {fraction : Option (List Char)} {exponent : Option (Bool × List Char)}
    {s s' : List Char} (spelled : Fraction fraction s) (later : Exponent exponent s')
    (ends : Ends rest) (c : Char) (head : (s ++ (s' ++ rest)).head? = some c) :
    c.isDigit = false := by
  cases spelled with
  | none => exact (head_of_exponent later ends c head).1
  | some =>
    obtain rfl : '.' = c := Option.some.inj head
    decide

theorem scanFraction_fraction {fraction : Option (List Char)} {s : List Char}
    (spelled : Fraction fraction s)
    (stop : ∀ c, rest.head? = some c → c.isDigit = false ∧ c ≠ '.') (negative : Bool)
    (whole : List Char) :
    scanFraction negative whole (s ++ rest) = scanExponent negative whole fraction rest := by
  cases spelled with
  | none =>
    rw [List.nil_append, scanFraction]
    intro r same
    exact (stop '.' (by rw [same]; rfl)).2 rfl
  | @some s spelled =>
    obtain ⟨front, back⟩ := digits_append spelled.2 fun c head => (stop c head).1
    rw [List.cons_append, scanFraction, front, back, if_neg]
    simpa using spelled.1

theorem scanFraction_append {fraction : Option (List Char)} {exponent : Option (Bool × List Char)}
    {s s' : List Char} (spelled : Fraction fraction s) (later : Exponent exponent s')
    (ends : Ends rest) (negative : Bool) (whole : List Char) :
    scanFraction negative whole (s ++ (s' ++ rest)) =
      (.number (.ofDigits negative whole fraction exponent), rest) := by
  rw [scanFraction_fraction spelled (head_of_exponent later ends)]
  exact scanExponent_append later ends negative whole fraction

theorem scanNumber_digits {whole : List Char} (digits : Digits whole)
    (lean : ∀ r, whole = '0' :: r → r = [])
    (stop : ∀ c, rest.head? = some c → c.isDigit = false) (negative : Bool) :
    scanNumber negative (whole ++ rest) = scanFraction negative whole rest := by
  obtain ⟨front, back⟩ := digits_append digits.2 stop
  rw [scanNumber, front, back]
  split
  · exact absurd rfl digits.1
  · exact absurd (lean _ rfl) (List.cons_ne_nil _ _)
  · rfl

theorem scanNumber_append {whole : List Char} {fraction : Option (List Char)}
    {exponent : Option (Bool × List Char)} {s s' : List Char} (digits : Digits whole)
    (lean : ∀ r, whole = '0' :: r → r = []) (spelled : Fraction fraction s)
    (later : Exponent exponent s') (ends : Ends rest) (negative : Bool) :
    scanNumber negative (whole ++ (s ++ (s' ++ rest))) =
      (.number (.ofDigits negative whole fraction exponent), rest) := by
  rw [scanNumber_digits digits lean (head_of_fraction spelled later ends)]
  exact scanFraction_append spelled later ends negative whole

theorem scanScalar_of_isDigit {c : Char} (digit : c.isDigit = true) (s : List Char) :
    scanScalar (c :: s) = scanNumber false (c :: s) := by
  rw [scanScalar]
  · rw [if_pos digit]
  all_goals
    rintro rfl
    exact absurd digit (by decide)

theorem scanScalar_numeral {n : Number} {s : List Char} (spelled : Numeral n s) (ends : Ends rest) :
    scanScalar (s ++ rest) = (.number n, rest) := by
  obtain @⟨_, whole, _, _, _, b, c, sign, digits, lean, fraction, exponent⟩ := spelled
  cases sign with
  | plus =>
    have scanned := scanNumber_append digits lean fraction exponent ends false
    obtain ⟨d, r, rfl⟩ := List.exists_cons_of_ne_nil digits.1
    have digit : d.isDigit = true := digits.2 d List.mem_cons_self
    simp only [List.nil_append, List.append_assoc, List.cons_append] at scanned ⊢
    rw [scanScalar_of_isDigit digit, scanned]
  | minus =>
    have scanned := scanNumber_append digits lean fraction exponent ends true
    simp only [List.cons_append, List.nil_append, List.append_assoc] at scanned ⊢
    rw [scanScalar, scanned]

theorem scanScalar_letters {gs : List Glyph} {s : List Char} (letters : Letters gs s) :
    scanScalar ('"' :: (s ++ '"' :: rest)) = (.string ⟨gs, none⟩, rest) := by
  rw [scanScalar, Quotation.scan_letters letters]
  rfl

theorem scanValue_scalar (n : Nat) {c : Char} (s : List Char) (printing : isBlank c = false)
    (bracket : c ≠ '[') (brace : c ≠ '\x7b') :
    scanValue (n + 1) (c :: s) = scanScalar (c :: s) := by
  rw [scanValue, skipBlanks_of_head s printing]
  split <;> next same => first
    | rfl
    | exact absurd (List.cons.inj same).1 (by assumption)

theorem scanValue_append {a : List Char} (blank : Blank a) (n : Nat) (s : List Char) :
    scanValue n (a ++ s) = scanValue n s := by
  cases n with
  | zero => rfl
  | succ n => rw [scanValue, scanValue, skipBlanks_append blank]

theorem printing_of_isDigit {c : Char} (digit : c.isDigit = true) : isBlank c = false := by
  refine Bool.eq_false_iff.2 fun blank => ?_
  simp only [isBlank, Bool.or_eq_true, decide_eq_true_eq] at blank
  rcases blank with ((rfl | rfl) | rfl) | rfl <;> exact absurd digit (by decide)

theorem head_of_numeral {n : Number} {s : List Char} (spelled : Numeral n s) :
    ∃ c r, s = c :: r ∧ (c.isDigit = true ∨ c = '-') := by
  obtain @⟨_, whole, _, _, _, b, c, sign, digits, -, -, -⟩ := spelled
  cases sign with
  | plus =>
    obtain ⟨d, r, rfl⟩ := List.exists_cons_of_ne_nil digits.1
    exact ⟨d, _, rfl, .inl (digits.2 d List.mem_cons_self)⟩
  | minus => exact ⟨_, _, rfl, .inr rfl⟩

theorem head_of_value {t : Tree} {s : List Char} (spelled : Spells (.value t) s) :
    ∃ c r, s = c :: r ∧ isBlank c = false ∧ c ≠ ']' := by
  cases spelled with
  | number numeral =>
    obtain ⟨c, r, rfl, digit | rfl⟩ := head_of_numeral numeral
    · refine ⟨c, r, rfl, printing_of_isDigit digit, ?_⟩
      rintro rfl
      exact absurd digit (by decide)
    · exact ⟨_, _, rfl, by decide, by decide⟩
  | _ => exact ⟨_, _, rfl, by decide, by decide⟩

/-- Blanks go before what stands between brackets or braces, and no bracket or brace follows. -/
theorem head_of_items {ts : List Tree} {s : List Char} (spelled : Spells (.items ts) s) :
    ∃ a c r, Blank a ∧ s = a ++ c :: r ∧ isBlank c = false ∧ c ≠ ']' := by
  have first {t : Tree} {s : List Char} (spelled : Spells (.padded t) s) :
      ∃ a c r, Blank a ∧ s = a ++ c :: r ∧ isBlank c = false ∧ c ≠ ']' := by
    cases spelled with
    | @padded t a s b blank value =>
      obtain ⟨c, r, rfl, printing, closing⟩ := head_of_value value
      exact ⟨a, c, r ++ b, blank, rfl, printing, closing⟩
  cases spelled with
  | lastItem value => exact first value
  | nextItem value =>
    obtain ⟨a, c, r, blank, rfl, printing, closing⟩ := first value
    exact ⟨a, c, _, blank, by rw [List.append_assoc]; rfl, printing, closing⟩

theorem head_of_members {ms : List (Quotation × Tree)} {s : List Char}
    (spelled : Spells (.members ms) s) : ∃ a r, Blank a ∧ s = a ++ '"' :: r := by
  cases spelled with
  | lastMember named | nextMember named =>
    obtain ⟨blank, -, -⟩ := named
    exact ⟨_, _, blank, by rw [List.append_assoc]; rfl⟩

theorem scanItems_append {a : List Char} (blank : Blank a) (n : Nat) (s : List Char) :
    scanItems n (a ++ s) = scanItems n s := by
  cases n with
  | zero => rfl
  | succ n => rw [scanItems, scanItems, scanValue_append blank]

theorem scanMembers_append {a : List Char} (blank : Blank a) (n : Nat) (s : List Char) :
    scanMembers n (a ++ s) = scanMembers n s := by
  cases n with
  | zero => rfl
  | succ n => rw [scanMembers, scanMembers, skipBlanks_append blank]

/-- The scanner finds the piece in the text, whatever follows. Two steps for every character are
enough, and blanks before a value take none. -/
def Finds : Piece → List Char → Prop
  | .value t, s => ∀ n rest, 2 * s.length ≤ n → Ends rest → scanValue n (s ++ rest) = (t, rest)
  | .padded t, s => ∀ n rest, 2 * s.length ≤ n → Ends rest →
    ∃ b, Blank b ∧ scanValue n (s ++ rest) = (t, b ++ rest)
  | .items ts, s => ∀ n rest, 2 * s.length < n →
    scanItems n (s ++ ']' :: rest) = (ts, .closed, rest)
  | .members ms, s => ∀ n rest, 2 * s.length < n →
    scanMembers n (s ++ '\x7d' :: rest) = (ms, .closed, rest)

theorem finds_scalar {t : Tree} {s : List Char} (spelled : Spells (.value t) s)
    (bracket : s.head? ≠ some '[') (brace : s.head? ≠ some '\x7b')
    (scanned : ∀ rest, Ends rest → scanScalar (s ++ rest) = (t, rest)) : Finds (.value t) s := by
  intro n rest bound ends
  obtain ⟨c, r, rfl, printing, -⟩ := head_of_value spelled
  rw [List.length_cons] at bound
  obtain ⟨n, rfl⟩ := Nat.exists_eq_add_of_le' (Nat.le_trans (by omega : 1 ≤ _) bound)
  have scalar : scanValue (n + 1) (c :: (r ++ rest)) = scanScalar (c :: (r ++ rest)) :=
    scanValue_scalar n _ printing (by simpa using bracket) (by simpa using brace)
  exact scalar.trans (scanned rest ends)

theorem finds_numeral {n : Number} {s : List Char} (spelled : Numeral n s) :
    Finds (.value (.number n)) s := by
  obtain ⟨c, r, rfl, front⟩ := head_of_numeral spelled
  have other {d : Char} (digit : d.isDigit = false) (sign : d ≠ '-') :
      (c :: r).head? ≠ some d := by
    intro head
    obtain rfl := Option.some.inj head
    rcases front with isDigit | rfl
    · exact absurd isDigit (by simp [digit])
    · exact sign rfl
  exact finds_scalar (.number spelled) (other (by decide) (by decide))
    (other (by decide) (by decide)) fun _ => scanScalar_numeral spelled

theorem finds_emptyArray {s : List Char} (blank : Blank s) :
    Finds (.value (.array [] .closed)) ('[' :: (s ++ [']'])) := by
  intro n rest bound ends
  rw [List.length_cons] at bound
  obtain ⟨n, rfl⟩ := Nat.exists_eq_add_of_le' (Nat.le_trans (by omega : 1 ≤ _) bound)
  have bracket : skipBlanks (']' :: rest) = ']' :: rest := skipBlanks_of_head rest (by decide)
  rw [List.cons_append, List.append_assoc, scanValue, skipBlanks_of_head _ (by decide)]
  simp only [skipBlanks_append blank, List.singleton_append, bracket]

theorem finds_emptyObject {s : List Char} (blank : Blank s) :
    Finds (.value (.object [] .closed)) ('\x7b' :: (s ++ ['\x7d'])) := by
  intro n rest bound ends
  rw [List.length_cons] at bound
  obtain ⟨n, rfl⟩ := Nat.exists_eq_add_of_le' (Nat.le_trans (by omega : 1 ≤ _) bound)
  have brace : skipBlanks ('\x7d' :: rest) = '\x7d' :: rest := skipBlanks_of_head rest (by decide)
  rw [List.cons_append, List.append_assoc, scanValue, skipBlanks_of_head _ (by decide)]
  simp only [skipBlanks_append blank, List.singleton_append, brace]

theorem finds_array {ts : List Tree} {s : List Char} (spelled : Spells (.items ts) s)
    (found : Finds (.items ts) s) : Finds (.value (.array ts .closed)) ('[' :: (s ++ [']'])) := by
  intro n rest bound ends
  simp only [List.length_cons, List.length_append, List.length_nil] at bound
  obtain ⟨n, rfl⟩ := Nat.exists_eq_add_of_le' (Nat.le_trans (by omega : 1 ≤ _) bound)
  have scanned := found n rest (by omega)
  obtain ⟨a, c, r, blank, rfl, printing, closing⟩ := head_of_items spelled
  rw [List.append_assoc, scanItems_append blank] at scanned
  rw [List.cons_append, List.append_assoc, List.append_assoc, scanValue,
    skipBlanks_of_head _ (by decide)]
  simp only [skipBlanks_append blank, List.cons_append, skipBlanks_of_head _ printing]
  split
  · next same => exact absurd (List.cons.inj same).1 closing
  · exact congrArg (fun r => (Tree.array r.1 r.2.1, r.2.2)) scanned

theorem finds_object {ms : List (Quotation × Tree)} {s : List Char}
    (spelled : Spells (.members ms) s) (found : Finds (.members ms) s) :
    Finds (.value (.object ms .closed)) ('\x7b' :: (s ++ ['\x7d'])) := by
  intro n rest bound ends
  simp only [List.length_cons, List.length_append, List.length_nil] at bound
  obtain ⟨n, rfl⟩ := Nat.exists_eq_add_of_le' (Nat.le_trans (by omega : 1 ≤ _) bound)
  have scanned := found n rest (by omega)
  obtain ⟨a, r, blank, rfl⟩ := head_of_members spelled
  rw [List.append_assoc, scanMembers_append blank] at scanned
  rw [List.cons_append, List.append_assoc, List.append_assoc, scanValue,
    skipBlanks_of_head _ (by decide)]
  have quoted (s : List Char) : skipBlanks ('"' :: s) = '"' :: s := skipBlanks_of_head s (by decide)
  simp only [skipBlanks_append blank, List.cons_append, quoted]
  split
  · next same => exact absurd (List.cons.inj same).1 (by decide)
  · exact congrArg (fun r => (Tree.object r.1 r.2.1, r.2.2)) scanned

theorem scanMembers_named {q : Quotation} {a : List Char} (named : Named q a) (n : Nat)
    (s : List Char) : scanMembers (n + 1) (a ++ ':' :: s) =
      match skipBlanks (scanValue n s).2 with
      | [] => ([(q, (scanValue n s).1)], .broken .unfinished, [])
      | '\x7d' :: s' => ([(q, (scanValue n s).1)], .closed, s')
      | ',' :: s' => ((q, (scanValue n s).1) :: (scanMembers n s').1, (scanMembers n s').2)
      | _ => ([(q, (scanValue n s).1)], .broken .malformed, []) := by
  obtain @⟨gs, a, name, b, before, letters, after⟩ := named
  have scanned := Quotation.scan_letters letters [] (b ++ ':' :: s)
  have colon : skipBlanks (':' :: s) = ':' :: s := skipBlanks_of_head s (by decide)
  rw [List.append_assoc, scanMembers_append before, List.cons_append, List.append_assoc,
    List.cons_append, scanMembers, skipBlanks_of_head _ (by decide)]
  simp only [scanned, skipBlanks_append after, colon]
  rfl

theorem finds_lastItem {t : Tree} {s : List Char} (found : Finds (.padded t) s) :
    Finds (.items [t]) s := by
  intro n rest bound
  obtain ⟨n, rfl⟩ := Nat.exists_eq_add_of_le' (Nat.lt_of_le_of_lt (Nat.zero_le _) bound)
  obtain ⟨b, blank, scanned⟩ := found n (']' :: rest) (by omega) (ends_bracket rest)
  have bracket : skipBlanks (']' :: rest) = ']' :: rest := skipBlanks_of_head rest (by decide)
  rw [scanItems, scanned]
  simp only [skipBlanks_append blank, bracket]

theorem finds_nextItem {t : Tree} {ts : List Tree} {s s' : List Char}
    (found : Finds (.padded t) s) (others : Finds (.items ts) s') :
    Finds (.items (t :: ts)) (s ++ ',' :: s') := by
  intro n rest bound
  rw [List.length_append, List.length_cons] at bound
  obtain ⟨n, rfl⟩ := Nat.exists_eq_add_of_le' (Nat.lt_of_le_of_lt (Nat.zero_le _) bound)
  obtain ⟨b, blank, scanned⟩ := found n (',' :: (s' ++ ']' :: rest)) (by omega) (ends_comma _)
  have comma : skipBlanks (',' :: (s' ++ ']' :: rest)) = ',' :: (s' ++ ']' :: rest) :=
    skipBlanks_of_head _ (by decide)
  rw [List.append_assoc, List.cons_append, scanItems, scanned]
  simp only [skipBlanks_append blank, comma, others n rest (by omega)]

theorem finds_lastMember {q : Quotation} {t : Tree} {a s : List Char} (named : Named q a)
    (found : Finds (.padded t) s) : Finds (.members [(q, t)]) (a ++ ':' :: s) := by
  intro n rest bound
  rw [List.length_append, List.length_cons] at bound
  obtain ⟨n, rfl⟩ := Nat.exists_eq_add_of_le' (Nat.lt_of_le_of_lt (Nat.zero_le _) bound)
  obtain ⟨b, blank, scanned⟩ := found n ('\x7d' :: rest) (by omega) (ends_brace rest)
  have brace : skipBlanks ('\x7d' :: rest) = '\x7d' :: rest := skipBlanks_of_head rest (by decide)
  rw [List.append_assoc, List.cons_append, scanMembers_named named, scanned]
  simp only [skipBlanks_append blank, brace]

theorem finds_nextMember {q : Quotation} {t : Tree} {ms : List (Quotation × Tree)}
    {a s s' : List Char} (named : Named q a) (found : Finds (.padded t) s)
    (others : Finds (.members ms) s') :
    Finds (.members ((q, t) :: ms)) (a ++ ':' :: (s ++ ',' :: s')) := by
  intro n rest bound
  simp only [List.length_append, List.length_cons] at bound
  obtain ⟨n, rfl⟩ := Nat.exists_eq_add_of_le' (Nat.lt_of_le_of_lt (Nat.zero_le _) bound)
  obtain ⟨b, blank, scanned⟩ := found n (',' :: (s' ++ '\x7d' :: rest)) (by omega) (ends_comma _)
  have comma : skipBlanks (',' :: (s' ++ '\x7d' :: rest)) = ',' :: (s' ++ '\x7d' :: rest) :=
    skipBlanks_of_head _ (by decide)
  rw [List.append_assoc, List.cons_append, List.append_assoc, List.cons_append,
    scanMembers_named named, scanned]
  simp only [skipBlanks_append blank, comma, others n rest (by omega)]

/-- The scanner finds whatever is spelled. -/
theorem finds_of_spells {p : Piece} {s : List Char} (spelled : Spells p s) : Finds p s := by
  induction spelled with
  | null => exact finds_scalar .null (by decide) (by decide) fun _ _ => rfl
  | true => exact finds_scalar .true (by decide) (by decide) fun _ _ => rfl
  | false => exact finds_scalar .false (by decide) (by decide) fun _ _ => rfl
  | number numeral => exact finds_numeral numeral
  | string letters =>
    refine finds_scalar (.string letters) (by simp) (by simp) fun rest _ => ?_
    rw [List.cons_append, List.append_assoc]
    exact scanScalar_letters letters
  | emptyArray blank => exact finds_emptyArray blank
  | array spelled ih => exact finds_array spelled ih
  | emptyObject blank => exact finds_emptyObject blank
  | object spelled ih => exact finds_object spelled ih
  | @padded t a s b before spelled after ih =>
    intro n rest bound ends
    simp only [List.length_append] at bound
    refine ⟨b, after, ?_⟩
    rw [List.append_assoc, scanValue_append before, List.append_assoc]
    exact ih n (b ++ rest) (by omega) (ends_blank after ends)
  | lastItem spelled ih => exact finds_lastItem ih
  | nextItem spelled others ih ihs => exact finds_nextItem ih ihs
  | lastMember named spelled ih => exact finds_lastMember named ih
  | nextMember named spelled others ih ihs => exact finds_nextMember named ih ihs

/-- A whole text: its tree, and blanks. -/
theorem scan_of_spells {t : Tree} {s : List Char} (spelled : Spells (.padded t) s) :
    ∃ b, Blank b ∧ scan s = (t, b) := by
  have found := finds_of_spells spelled (2 * s.length + 2) [] (by omega) (by rintro c ⟨⟩)
  obtain ⟨b, blank, scanned⟩ := found
  rw [List.append_nil, List.append_nil] at scanned
  exact ⟨b, blank, scanned⟩

end Tree
end GatewayRules.Json
