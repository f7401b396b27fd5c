import Mathlib.Data.List.TakeWhile
import GatewayRules.Proofs.Spelling

/-!
Texts that break off. The scanner looks at what there is of the text from left to right, so what it
finds in a beginning of the text of a value is the value up to the place of the cut: whatever stands
before it is whole, and what is open there has no end.
-/
namespace GatewayRules.Json
open Text

/-- A beginning of two texts one after the other ends before the end of the first, or is the first
with a beginning of the second. -/
theorem prefix_append_cases {α : Type} {p a b : List α} (inside : p <+: a ++ b) :
    (p <+: a ∧ p ≠ a) ∨ ∃ q, p = a ++ q ∧ q <+: b := by
  rcases List.prefix_or_prefix_of_prefix inside (List.prefix_append a b) with early | ⟨q, rfl⟩
  · by_cases whole : p = a
    · exact .inr ⟨[], by rw [whole, List.append_nil], List.nil_prefix⟩
    · exact .inl ⟨early, whole⟩
  · exact .inr ⟨q, rfl, (List.prefix_append_right_inj a).1 inside⟩

theorem prefix_separated {α : Type} {p a b : List α} {c : α} (inside : p <+: a ++ c :: b) :
    p <+: a ∨ ∃ q, p = a ++ c :: q ∧ q <+: b := by
  rcases prefix_append_cases inside with ⟨early, -⟩ | ⟨q, rfl, later⟩
  · exact .inl early
  · rcases List.prefix_cons_iff.1 later with rfl | ⟨r, rfl, last⟩
    · rw [List.append_nil]
      exact .inl List.prefix_rfl
    · exact .inr ⟨r, rfl, last⟩

theorem Blank.of_beginning {p s : List Char} (blank : Blank s) (inside : p <+: s) : Blank p :=
  fun c member => blank c (inside.subset member)

theorem skipBlanks_of_blank {s : List Char} (blank : Blank s) : skipBlanks s = [] :=
  List.dropWhile_eq_nil_iff.2 blank

theorem Digits.of_beginning {p s : List Char} (digits : Digits s) (inside : p <+: s)
    (some : p ≠ []) : Digits p :=
  ⟨some, fun c member => digits.2 c (inside.subset member)⟩

def Number.IsInteger (n : Number) : Prop := ∃ i, n = .integer i

/-- What is left of a piece when its text breaks off, with an end for what is open then. What is left
of items is an array, and what is left of members an object. -/
inductive Cut : Piece → Tree → Prop where
  | absent {t : Tree} : Cut (.value t) .absent
  | broken {t : Tree} {cut : Bool} : Cut (.value t) (.broken .unfinished cut)
  | number {n n' : Number} : (n.IsInteger → n'.IsInteger) → Cut (.value (.number n)) (.number n')
  | string {gs gs' : List Glyph} :
    gs' <+: gs → Cut (.value (.string ⟨gs, none⟩)) (.string ⟨gs', some .unfinished⟩)
  | emptyArray : Cut (.value (.array [] .closed)) (.array [.absent] (.broken .unfinished))
  | array {ts : List Tree} {t : Tree} : Cut (.items ts) t → Cut (.value (.array ts .closed)) t
  | emptyObject : Cut (.value (.object [] .closed)) (.object [] (.nameless .unfinished))
  | object {ms : List (Quotation × Tree)} {t : Tree} :
    Cut (.members ms) t → Cut (.value (.object ms .closed)) t
  | whole {t : Tree} : Cut (.padded t) t
  | padded {t t' : Tree} : Cut (.value t) t' → Cut (.padded t) t'
  | lastItem {t t' : Tree} {ts : List Tree} :
    Cut (.padded t) t' → Cut (.items (t :: ts)) (.array [t'] (.broken .unfinished))
  | nextItem {t : Tree} {ts ts' : List Tree} {close : ArrayEnd} :
    Cut (.items ts) (.array ts' close) → Cut (.items (t :: ts)) (.array (t :: ts') close)
  | nameless {ms : List (Quotation × Tree)} : Cut (.members ms) (.object [] (.nameless .unfinished))
  | name {gs gs' : List Glyph} {t : Tree} {ms : List (Quotation × Tree)} : gs' <+: gs →
    Cut (.members ((⟨gs, none⟩, t) :: ms)) (.object [(⟨gs', some .unfinished⟩, .absent)] .closed)
  | colon {q : Quotation} {t : Tree} {ms : List (Quotation × Tree)} :
    Cut (.members ((q, t) :: ms)) (.object [(q, .absent)] .closed)
  | lastMember {q : Quotation} {t t' : Tree} {ms : List (Quotation × Tree)} :
    Cut (.padded t) t' → Cut (.members ((q, t) :: ms)) (.object [(q, t')] (.broken .unfinished))
  | nextMember {q : Quotation} {t : Tree} {ms ms' : List (Quotation × Tree)} {close : ObjectEnd} :
    Cut (.members ms) (.object ms' close) →
      Cut (.members ((q, t) :: ms)) (.object ((q, t) :: ms') close)

namespace Quotation

theorem utf8Size_of_hexValue? {c : Char} {n : Nat} (digit : hexValue? c = some n) :
    c.utf8Size = 1 := by
  have ascii : c.toNat ≤ 0x7f := by
    unfold hexValue? at digit
    grind
  exact Char.utf8Size_eq_one_iff.2 ascii

theorem hexDigits_of_ofHex? {a b c d : Char} {unit : Nat}
    (known : ofHex? [a, b, c, d] = some unit) :
    a.utf8Size = 1 ∧ b.utf8Size = 1 ∧ c.utf8Size = 1 := by
  simp only [ofHex?, List.foldl_cons, List.foldl_nil, Option.bind_eq_bind, Option.bind_some,
    Option.bind_eq_some_iff] at known
  obtain ⟨_, ⟨_, ⟨_, ⟨_, first, -⟩, _, second, -⟩, _, third, -⟩, -⟩ := known
  exact ⟨utf8Size_of_hexValue? first, utf8Size_of_hexValue? second, utf8Size_of_hexValue? third⟩

/-- The scanner finds no end of a letter that breaks off. -/
theorem scan_cut_letter {g : Glyph} {s p : List Char} (letter : Letter g s) (inside : p <+: s)
    (short : p ≠ s) (done : List Glyph) :
    scan done p = (⟨done.reverse, some .unfinished⟩, []) := by
  cases letter with
  | @plain c unquoted unescaped printing =>
    rcases List.prefix_cons_iff.1 inside with rfl | ⟨q, rfl, later⟩
    · rw [scan]
    · rw [List.prefix_nil.1 later] at short
      exact absurd rfl short
  | @escape e c known =>
    rcases List.prefix_cons_iff.1 inside with rfl | ⟨q, rfl, later⟩
    · rw [scan]
    rcases List.prefix_cons_iff.1 later with rfl | ⟨q, rfl, later'⟩
    · rw [scan]
    · rw [List.prefix_nil.1 later'] at short
      exact absurd rfl short
  | @number a b c d unit known =>
    obtain ⟨first, second, third⟩ := hexDigits_of_ofHex? known
    rcases List.prefix_cons_iff.1 inside with rfl | ⟨q, rfl, later⟩
    · rw [scan]
    rcases List.prefix_cons_iff.1 later with rfl | ⟨q, rfl, digits⟩
    · rw [scan]
    have fewer : isShort q = true ∧ ∀ a b c d r, q ≠ a :: b :: c :: d :: r := by
      have within : q = [] ∨ q = [a] ∨ q = [a, b] ∨ q = [a, b, c] := by
        simp only [List.prefix_cons_iff, List.prefix_nil] at digits
        grind
      rcases within with rfl | rfl | rfl | rfl <;> simp [isShort, first, second, third]
    rw [scan, if_pos fewer.1]
    exact fewer.2

/-- A string that breaks off shows the letters before the cut. -/
theorem scan_cut_letters {gs : List Glyph} {s p : List Char} (letters : Letters gs s)
    (inside : p <+: s) (done : List Glyph) : ∃ gs', gs' <+: gs ∧
      scan done p = (⟨done.reverse ++ gs', some .unfinished⟩, []) := by
  induction letters generalizing p done with
  | nil =>
    rw [List.prefix_nil] at inside
    subst inside
    exact ⟨[], List.nil_prefix, by rw [scan, List.append_nil]⟩
  | @cons g gs a s letter letters ih =>
    rcases prefix_append_cases inside with ⟨early, short⟩ | ⟨q, rfl, later⟩
    · refine ⟨[], List.nil_prefix, ?_⟩
      rw [scan_cut_letter letter early short, List.append_nil]
    · obtain ⟨gs', left, scanned⟩ := ih later (g :: done)
      refine ⟨g :: gs', (List.prefix_cons_inj g).2 left, ?_⟩
      rw [scan_letter letter, scanned, List.reverse_cons, List.append_assoc]
      rfl

end Quotation

namespace Number

theorem ofDecimal_le_append (s s' : List Char) : ofDecimal s ≤ ofDecimal (s ++ s') := by
  unfold ofDecimal
  have power : 0 < 10 ^ s'.length := Nat.pow_pos (by decide)
  rw [Nat.ofDigitChars_append, Nat.ofDigitChars_eq_ofDigitChars_zero (l := s')]
  exact Nat.le_add_right_of_le (Nat.le_mul_of_pos_left _ power)

theorem ofDecimal_pos {c : Char} {s : List Char} (digit : c.isDigit = true) (nonzero : c ≠ '0') :
    0 < ofDecimal (c :: s) := by
  have low : 48 ≤ c.toNat := by
    simp only [Char.isDigit, Bool.and_eq_true, decide_eq_true_eq] at digit
    exact digit.1
  have other : c.toNat ≠ '0'.toNat := fun same => nonzero (Char.toNat_inj.1 same)
  have first : 0 < ofDecimal [c] := by
    change 0 < 10 * 0 + (c.toNat - 48)
    change c.toNat ≠ 48 at other
    omega
  exact Nat.lt_of_lt_of_le first (ofDecimal_le_append [c] s)

theorem isInteger_of_beginning {negative : Bool} {whole whole' : List Char} (digits : Digits whole')
    (lean : ∀ r, whole = '0' :: r → r = []) (inside : whole' <+: whole)
    (integer : (ofDigits negative whole none none).IsInteger) :
    (ofDigits negative whole' none none).IsInteger := by
  obtain ⟨r, rfl⟩ := inside
  have less : ofDecimal whole' ≤ ofDecimal (whole' ++ r) := ofDecimal_le_append whole' r
  have positive (pos : 0 < ofDecimal (whole' ++ r)) : 0 < ofDecimal whole' := by
    obtain ⟨c, s, rfl⟩ := List.exists_cons_of_ne_nil digits.1
    by_cases zero : c = '0'
    · -- no digits stand after a zero, so nothing has been cut off
      subst zero
      have none : s ++ r = [] := lean (s ++ r) rfl
      rw [(List.append_eq_nil_iff.1 none).2, List.append_nil] at pos
      exact pos
    · exact ofDecimal_pos (digits.2 c List.mem_cons_self) zero
  obtain ⟨i, same⟩ := integer
  unfold ofDigits at same ⊢
  cases negative with
  | false =>
    simp only [Bool.false_eq_true, if_false] at same ⊢
    split at same
    · next small => exact ⟨_, if_pos (Nat.lt_of_le_of_lt less small)⟩
    · cases same
  | true =>
    simp only [if_true] at same ⊢
    split at same
    · next range =>
      exact ⟨_, if_pos ⟨positive range.1, Nat.le_trans less range.2⟩⟩
    · cases same

theorem parts_of_isInteger {negative : Bool} {whole : List Char} {fraction : Option (List Char)}
    {exponent : Option (Bool × List Char)}
    (integer : (ofDigits negative whole fraction exponent).IsInteger) :
    fraction = none ∧ exponent = none := by
  obtain ⟨i, same⟩ := integer
  unfold ofDigits at same
  split at same
  · exact ⟨rfl, rfl⟩
  · cases same

end Number

namespace Tree

theorem scanWord_cut (t : Tree) {word p : List Char} (inside : p <+: word) (short : p ≠ word) :
    scanWord t word p = (.broken .unfinished false, []) := by
  induction word generalizing p with
  | nil => exact absurd (List.prefix_nil.1 inside) short
  | cons w word ih =>
    rcases List.prefix_cons_iff.1 inside with rfl | ⟨q, rfl, later⟩
    · rfl
    · rw [scanWord, if_pos rfl]
      exact ih later fun same => short (congrArg (w :: ·) same)

theorem ends_nil : Ends [] := nofun

variable {negative : Bool} {whole : List Char} {fraction : Option (List Char)}
  {exponent : Option (Bool × List Char)}

/-- A number with a fraction or an exponent is no integer, so any other number may be left of it. -/
theorem cut_of_parts {n' : Number} (parts : fraction ≠ none ∨ exponent ≠ none) :
    Cut (.value (.number (.ofDigits negative whole fraction exponent))) (.number n') := by
  refine .number fun integer => ?_
  obtain ⟨unbroken, plain⟩ := Number.parts_of_isInteger integer
  rcases parts with some | some
  · exact absurd unbroken some
  · exact absurd plain some

theorem scanExponent_cut {s p : List Char} (spelled : Exponent exponent s) (inside : p <+: s)
    (fraction : Option (List Char)) : ∃ t, scanExponent negative whole fraction p = (t, []) ∧
      Cut (.value (.number (.ofDigits negative whole fraction exponent))) t := by
  -- a mark with or without a sign, and some of the digits after it
  have marked {below : Bool} (front : List Char) {s q : List Char} (digits : Digits s)
      (inside : q <+: s) (spells : ∀ {d}, Digits d → Exponent (some (below, d)) (front ++ d))
      (none : scanExponent negative whole fraction front = (.broken .unfinished true, [])) :
      ∃ t, scanExponent negative whole fraction (front ++ q) = (t, []) ∧
        Cut (.value (.number (.ofDigits negative whole fraction (some (below, s))))) t := by
    by_cases empty : q = []
    · rw [empty, List.append_nil]
      exact ⟨_, none, .broken⟩
    · have left := digits.of_beginning inside empty
      have scanned := scanExponent_append (spells left) ends_nil negative whole fraction
      rw [List.append_nil] at scanned
      exact ⟨_, scanned, cut_of_parts (.inr nofun)⟩
  cases spelled with
  | none =>
    rw [List.prefix_nil.1 inside]
    exact ⟨_, rfl, .number id⟩
  | @bare e s mark digits =>
    rcases List.prefix_cons_iff.1 inside with rfl | ⟨q, rfl, later⟩
    · exact ⟨_, rfl, cut_of_parts (.inr nofun)⟩
    · exact marked [e] digits later (.bare mark) (if_pos mark)
  | @plus e s mark digits =>
    rcases List.prefix_cons_iff.1 inside with rfl | ⟨q, rfl, later⟩
    · exact ⟨_, rfl, cut_of_parts (.inr nofun)⟩
    rcases List.prefix_cons_iff.1 later with rfl | ⟨q', rfl, later'⟩
    · exact ⟨_, if_pos mark, .broken⟩
    · exact marked [e, '+'] digits later' (.plus mark) (if_pos mark)
  | @minus e s mark digits =>
    rcases List.prefix_cons_iff.1 inside with rfl | ⟨q, rfl, later⟩
    · exact ⟨_, rfl, cut_of_parts (.inr nofun)⟩
    rcases List.prefix_cons_iff.1 later with rfl | ⟨q', rfl, later'⟩
    · exact ⟨_, if_pos mark, .broken⟩
    · exact marked [e, '-'] digits later' (.minus mark) (if_pos mark)

theorem scanFraction_cut {s s' p : List Char} (spelled : Fraction fraction s)
    (later : Exponent exponent s') (inside : p <+: s ++ s') :
    ∃ t, scanFraction negative whole p = (t, []) ∧
      Cut (.value (.number (.ofDigits negative whole fraction exponent))) t := by
  rcases prefix_append_cases inside with ⟨early, short⟩ | ⟨q, rfl, rest⟩
  · cases spelled with
    | none => exact absurd (List.prefix_nil.1 early) short
    | @some s digits =>
      rcases List.prefix_cons_iff.1 early with rfl | ⟨q, rfl, early'⟩
      · exact ⟨_, rfl, cut_of_parts (.inl nofun)⟩
      by_cases empty : q = []
      · subst empty
        exact ⟨_, rfl, .broken⟩
      · have left := digits.of_beginning early' empty
        have scanned := scanFraction_append (.some left) .none ends_nil negative whole
        rw [List.append_nil, List.append_nil] at scanned
        exact ⟨_, scanned, cut_of_parts (.inl nofun)⟩
  · have stop (c : Char) (head : q.head? = some c) : c.isDigit = false ∧ c ≠ '.' := by
      obtain ⟨r, rfl⟩ := rest
      have front : ((q ++ r) ++ []).head? = some c := by
        rw [List.append_nil, List.head?_append, head]
        rfl
      exact head_of_exponent later ends_nil c front
    rw [scanFraction_fraction spelled stop]
    exact scanExponent_cut later rest fraction

theorem scanNumber_cut {b c p : List Char} (digits : Digits whole)
    (lean : ∀ r, whole = '0' :: r → r = []) (spelled : Fraction fraction b)
    (later : Exponent exponent c) (inside : p <+: whole ++ (b ++ c)) :
    ∃ t, scanNumber negative p = (t, []) ∧
      Cut (.value (.number (.ofDigits negative whole fraction exponent))) t := by
  by_cases empty : p = []
  · subst empty
    exact ⟨_, rfl, .broken⟩
  rcases prefix_append_cases inside with ⟨early, -⟩ | ⟨q, rfl, rest⟩
  · have fewer : Digits p := digits.of_beginning early empty
    have lean' (r : List Char) (front : p = '0' :: r) : r = [] := by
      obtain ⟨r', same⟩ := early
      rw [front] at same
      exact (List.append_eq_nil_iff.1 (lean (r ++ r') same.symm)).1
    have scanned := scanNumber_append fewer lean' .none .none ends_nil negative
    simp only [List.append_nil] at scanned
    refine ⟨_, scanned, .number fun integer => ?_⟩
    obtain ⟨rfl, rfl⟩ := Number.parts_of_isInteger integer
    exact Number.isInteger_of_beginning fewer lean early integer
  · have stop (d : Char) (head : q.head? = some d) : d.isDigit = false := by
      obtain ⟨r, same⟩ := rest
      have front : (b ++ (c ++ [])).head? = some d := by
        rw [List.append_nil, ← same, List.head?_append, head]
        rfl
      exact head_of_fraction spelled later ends_nil d front
    rw [scanNumber_digits digits lean stop]
    exact scanFraction_cut spelled later rest

/-- A number that breaks off lacks digits, or is another number. -/
theorem scanScalar_cut_numeral {n : Number} {s p : List Char} (spelled : Numeral n s)
    (inside : p <+: s) : ∃ t, scanScalar p = (t, []) ∧ Cut (.value (.number n)) t := by
  obtain @⟨negative, whole, _, _, a, b, c, sign, digits, lean, fraction, exponent⟩ := spelled
  cases p with
  | nil => exact ⟨.absent, rfl, .absent⟩
  | cons d q =>
    cases sign with
    | plus =>
      obtain ⟨t, scanned, cut⟩ := scanNumber_cut digits lean fraction exponent inside
      obtain ⟨e, r, rfl⟩ := List.exists_cons_of_ne_nil digits.1
      obtain ⟨rfl, -⟩ := List.cons_prefix_cons.1 inside
      exact ⟨t, by rw [scanScalar_of_isDigit (digits.2 d List.mem_cons_self), scanned], cut⟩
    | minus =>
      obtain ⟨rfl, later⟩ := List.cons_prefix_cons.1 inside
      obtain ⟨t, scanned, cut⟩ := scanNumber_cut digits lean fraction exponent later
      exact ⟨t, by rw [scanScalar, scanned], cut⟩

/-- The scanner finds what is left of a piece in every beginning of its text that is not all of a
value. Two steps for every character are enough, and one more for what is missing. -/
def Breaks : Piece → List Char → Prop
  | .value t, s => ∀ n p, 2 * p.length < n → p <+: s → p ≠ s →
    ∃ t', scanValue n p = (t', []) ∧ Cut (.value t) t'
  | .padded t, s => ∀ n p, 2 * p.length < n → p <+: s →
    ∃ t' b, scanValue n p = (t', b) ∧ Blank b ∧ Cut (.padded t) t'
  | .items ts, s => ∀ n p, 2 * p.length + 1 < n → p <+: s →
    ∃ ts', scanItems n p = (ts', .broken .unfinished, []) ∧
      Cut (.items ts) (.array ts' (.broken .unfinished))
  | .members ms, s => ∀ n p, 2 * p.length + 1 < n → p <+: s →
    ∃ ms' close, scanMembers n p = (ms', close, []) ∧ Cut (.members ms) (.object ms' close)

theorem breaks_scalar {t : Tree} {s : List Char} (spelled : Spells (.value t) s)
    (bracket : s.head? ≠ some '[') (brace : s.head? ≠ some '\x7b')
    (scanned : ∀ p, p <+: s → p ≠ s → ∃ t', scanScalar p = (t', []) ∧ Cut (.value t) t') :
    Breaks (.value t) s := by
  intro n p bound inside short
  obtain ⟨n, rfl⟩ := Nat.exists_eq_add_of_le' (Nat.lt_of_le_of_lt (Nat.zero_le _) bound)
  obtain ⟨c, r, rfl, printing, -⟩ := head_of_value spelled
  rcases List.prefix_cons_iff.1 inside with rfl | ⟨q, rfl, later⟩
  · exact ⟨.absent, rfl, .absent⟩
  · rw [scanValue_scalar n q printing (by simpa using bracket) (by simpa using brace)]
    exact scanned (c :: q) inside short

theorem breaks_word {t : Tree} {c : Char} {word : List Char}
    (spelled : Spells (.value t) (c :: word)) (bracket : c ≠ '[') (brace : c ≠ '\x7b')
    (scanned : ∀ s, scanScalar (c :: s) = scanWord t word s) : Breaks (.value t) (c :: word) := by
  refine breaks_scalar spelled (by simpa using bracket) (by simpa using brace) ?_
  intro p inside short
  rcases List.prefix_cons_iff.1 inside with rfl | ⟨q, rfl, later⟩
  · exact ⟨.absent, rfl, .absent⟩
  · rw [scanned, scanWord_cut t later fun same => short (congrArg (c :: ·) same)]
    exact ⟨_, rfl, .broken⟩

theorem inside_of_beginning {o c : Char} {s p : List Char} (inside : p <+: o :: (s ++ [c]))
    (short : p ≠ o :: (s ++ [c])) : p = [] ∨ ∃ q, p = o :: q ∧ q <+: s := by
  rcases List.prefix_cons_iff.1 inside with rfl | ⟨q, rfl, later⟩
  · exact .inl rfl
  · rcases List.prefix_concat_iff.1 later with rfl | open'
    · exact absurd rfl short
    · exact .inr ⟨q, rfl, open'⟩

theorem breaks_string {gs : List Glyph} {s : List Char} (letters : Letters gs s) :
    Breaks (.value (.string ⟨gs, none⟩)) ('"' :: (s ++ ['"'])) := by
  refine breaks_scalar (.string letters) (by simp) (by simp) fun p inside short => ?_
  rcases inside_of_beginning inside short with rfl | ⟨q, rfl, later⟩
  · exact ⟨.absent, rfl, .absent⟩
  · obtain ⟨gs', left, scanned⟩ := Quotation.scan_cut_letters letters later []
    refine ⟨.string ⟨gs', some .unfinished⟩, ?_, .string left⟩
    rw [scanScalar, scanned]
    rfl

theorem breaks_numeral {n : Number} {s : List Char} (spelled : Numeral n s) :
    Breaks (.value (.number n)) s := by
  obtain ⟨c, r, rfl, front⟩ := head_of_numeral spelled
  have other {d : Char} (digit : d.isDigit = false) (sign : d ≠ '-') :
      (c :: r).head? ≠ some d := by
    intro head
    obtain rfl := Option.some.inj head
    rcases front with isDigit | rfl
    · exact absurd isDigit (by simp [digit])
    · exact sign rfl
  exact breaks_scalar (.number spelled) (other (by decide) (by decide))
    (other (by decide) (by decide)) fun p inside _ => scanScalar_cut_numeral spelled inside

theorem head_of_beginning {s p : List Char} {c d : Char} {r r' : List Char} (inside : p <+: s)
    (whole : skipBlanks s = c :: r) (front : skipBlanks p = d :: r') : d = c := by
  obtain ⟨a, blank, split⟩ := skipBlanks_split p
  obtain ⟨rest, rfl⟩ := inside
  rw [front] at split
  have printing : isBlank d = false := by
    have first := List.head?_dropWhile_not isBlank p
    rw [skipBlanks] at front
    rw [front] at first
    simpa using first
  rw [split, List.append_assoc, skipBlanks_append blank, List.cons_append,
    skipBlanks_of_head _ printing] at whole
  exact (List.cons.inj whole).1

theorem breaks_emptyArray {s : List Char} (blank : Blank s) :
    Breaks (.value (.array [] .closed)) ('[' :: (s ++ [']'])) := by
  intro n p bound inside short
  obtain ⟨n, rfl⟩ := Nat.exists_eq_add_of_le' (Nat.lt_of_le_of_lt (Nat.zero_le _) bound)
  rcases inside_of_beginning inside short with rfl | ⟨q, rfl, later⟩
  · exact ⟨.absent, rfl, .absent⟩
  · rw [List.length_cons] at bound
    obtain ⟨m, rfl⟩ := Nat.exists_eq_add_of_le' (show 2 ≤ n by omega)
    have nothing : skipBlanks q = [] := skipBlanks_of_blank (blank.of_beginning later)
    refine ⟨.array [.absent] (.broken .unfinished), ?_, .emptyArray⟩
    rw [scanValue, skipBlanks_of_head _ (by decide)]
    simp only [nothing]
    rfl

theorem breaks_emptyObject {s : List Char} (blank : Blank s) :
    Breaks (.value (.object [] .closed)) ('\x7b' :: (s ++ ['\x7d'])) := by
  intro n p bound inside short
  obtain ⟨n, rfl⟩ := Nat.exists_eq_add_of_le' (Nat.lt_of_le_of_lt (Nat.zero_le _) bound)
  rcases inside_of_beginning inside short with rfl | ⟨q, rfl, later⟩
  · exact ⟨.absent, rfl, .absent⟩
  · rw [List.length_cons] at bound
    obtain ⟨m, rfl⟩ := Nat.exists_eq_add_of_le' (show 1 ≤ n by omega)
    have nothing : skipBlanks q = [] := skipBlanks_of_blank (blank.of_beginning later)
    refine ⟨.object [] (.nameless .unfinished), ?_, .emptyObject⟩
    rw [scanValue, skipBlanks_of_head _ (by decide)]
    simp only [nothing]
    rfl

theorem breaks_array {ts : List Tree} {s : List Char} (spelled : Spells (.items ts) s)
    (breaks : Breaks (.items ts) s) :
    Breaks (.value (.array ts .closed)) ('[' :: (s ++ [']'])) := by
  intro n p bound inside short
  obtain ⟨n, rfl⟩ := Nat.exists_eq_add_of_le' (Nat.lt_of_le_of_lt (Nat.zero_le _) bound)
  rcases inside_of_beginning inside short with rfl | ⟨q, rfl, later⟩
  · exact ⟨.absent, rfl, .absent⟩
  · rw [List.length_cons] at bound
    obtain ⟨ts', scanned, cut⟩ := breaks n q (by omega) later
    obtain ⟨a, c, r, blank, whole, printing, closing⟩ := head_of_items spelled
    have first : skipBlanks s = c :: r := by
      rw [whole, skipBlanks_append blank, skipBlanks_of_head r printing]
    obtain ⟨b, blank', split⟩ := skipBlanks_split q
    rw [split, scanItems_append blank'] at scanned
    refine ⟨_, ?_, .array cut⟩
    simp only [scanValue, skipBlanks_of_head q (show isBlank '[' = false by decide)]
    split
    · next front => exact absurd (head_of_beginning later first front).symm closing
    · rw [scanned]

theorem breaks_object {ms : List (Quotation × Tree)} {s : List Char}
    (spelled : Spells (.members ms) s) (breaks : Breaks (.members ms) s) :
    Breaks (.value (.object ms .closed)) ('\x7b' :: (s ++ ['\x7d'])) := by
  intro n p bound inside short
  obtain ⟨n, rfl⟩ := Nat.exists_eq_add_of_le' (Nat.lt_of_le_of_lt (Nat.zero_le _) bound)
  rcases inside_of_beginning inside short with rfl | ⟨q, rfl, later⟩
  · exact ⟨.absent, rfl, .absent⟩
  · rw [List.length_cons] at bound
    obtain ⟨ms', close, scanned, cut⟩ := breaks n q (by omega) later
    obtain ⟨a, r, blank, whole⟩ := head_of_members spelled
    have first : skipBlanks s = '"' :: r := by
      rw [whole, skipBlanks_append blank, skipBlanks_of_head r (by decide)]
    obtain ⟨b, blank', split⟩ := skipBlanks_split q
    rw [split, scanMembers_append blank'] at scanned
    refine ⟨_, ?_, .object cut⟩
    simp only [scanValue, skipBlanks_of_head q (show isBlank '\x7b' = false by decide)]
    split
    · next front => exact absurd (head_of_beginning later first front) (by decide)
    · rw [scanned]

theorem breaks_padded {t : Tree} {a s b : List Char} (before : Blank a)
    (spelled : Spells (.value t) s) (after : Blank b) (breaks : Breaks (.value t) s) :
    Breaks (.padded t) (a ++ (s ++ b)) := by
  intro n p bound inside
  rcases prefix_append_cases inside with ⟨early, -⟩ | ⟨q, rfl, later⟩
  · obtain ⟨n, rfl⟩ := Nat.exists_eq_add_of_le' (Nat.lt_of_le_of_lt (Nat.zero_le _) bound)
    refine ⟨.absent, [], ?_, List.forall_mem_nil _, .padded .absent⟩
    rw [scanValue, skipBlanks_of_blank (before.of_beginning early)]
    rfl
  rw [List.length_append] at bound
  rw [scanValue_append before]
  rcases prefix_append_cases later with ⟨early, short⟩ | ⟨r, rfl, last⟩
  · obtain ⟨t', scanned, cut⟩ := breaks n q (by omega) early short
    exact ⟨t', [], scanned, List.forall_mem_nil _, .padded cut⟩
  · rw [List.length_append] at bound
    have blank : Blank r := after.of_beginning last
    have ends : Ends (r ++ []) := ends_blank blank ends_nil
    rw [List.append_nil] at ends
    exact ⟨t, r, finds_of_spells spelled n r (by omega) ends, blank, .whole⟩

theorem scanItems_cut {t : Tree} {s p : List Char} (breaks : Breaks (.padded t) s) {n : Nat}
    (bound : 2 * p.length + 1 < n + 1) (inside : p <+: s) : ∃ t',
      scanItems (n + 1) p = ([t'], .broken .unfinished, []) ∧ Cut (.padded t) t' := by
  obtain ⟨t', b, scanned, blank, cut⟩ := breaks n p (by omega) inside
  refine ⟨t', ?_, cut⟩
  rw [scanItems, scanned]
  simp only [skipBlanks_of_blank blank]

theorem breaks_lastItem {t : Tree} {s : List Char} (breaks : Breaks (.padded t) s) :
    Breaks (.items [t]) s := by
  intro n p bound inside
  obtain ⟨n, rfl⟩ := Nat.exists_eq_add_of_le' (Nat.lt_of_le_of_lt (Nat.zero_le _) bound)
  obtain ⟨t', scanned, cut⟩ := scanItems_cut breaks bound inside
  exact ⟨_, scanned, .lastItem cut⟩

theorem breaks_nextItem {t : Tree} {ts : List Tree} {s s' : List Char}
    (found : Finds (.padded t) s) (breaks : Breaks (.padded t) s) (others : Breaks (.items ts) s') :
    Breaks (.items (t :: ts)) (s ++ ',' :: s') := by
  intro n p bound inside
  obtain ⟨n, rfl⟩ := Nat.exists_eq_add_of_le' (Nat.lt_of_le_of_lt (Nat.zero_le _) bound)
  rcases prefix_separated inside with early | ⟨q, rfl, later⟩
  · obtain ⟨t', scanned, cut⟩ := scanItems_cut breaks bound early
    exact ⟨_, scanned, .lastItem cut⟩
  · rw [List.length_append, List.length_cons] at bound
    obtain ⟨b, blank, scanned⟩ := found n (',' :: q) (by omega) (ends_comma q)
    obtain ⟨ts', scanned', cut⟩ := others n q (by omega) later
    have comma : skipBlanks (',' :: q) = ',' :: q := skipBlanks_of_head q (by decide)
    refine ⟨t :: ts', ?_, .nextItem cut⟩
    rw [scanItems, scanned]
    simp only [skipBlanks_append blank, comma, scanned']

theorem scanMembers_cut_name {q : Quotation} {t : Tree} {ms : List (Quotation × Tree)}
    {a p : List Char} (named : Named q a) (inside : p <+: a) (n : Nat) : ∃ ms' close,
      scanMembers (n + 1) p = (ms', close, []) ∧
        Cut (.members ((q, t) :: ms)) (.object ms' close) := by
  obtain @⟨gs, a, name, b, before, letters, after⟩ := named
  rcases prefix_separated inside with early | ⟨r, rfl, later⟩
  · refine ⟨[], .nameless .unfinished, ?_, .nameless⟩
    rw [scanMembers, skipBlanks_of_blank (before.of_beginning early)]
  rw [scanMembers_append before]
  rcases prefix_separated later with early | ⟨r', rfl, last⟩
  · obtain ⟨gs', left, scanned⟩ := Quotation.scan_cut_letters letters early []
    refine ⟨_, _, ?_, .name left⟩
    rw [scanMembers, skipBlanks_of_head _ (by decide)]
    simp only [scanned]
    rfl
  · refine ⟨_, _, ?_, .colon⟩
    rw [scanMembers, skipBlanks_of_head _ (by decide)]
    simp only [Quotation.scan_letters letters, skipBlanks_of_blank (after.of_beginning last)]
    rfl

/-- What is left of members when the text breaks off in or after the first value. -/
theorem scanMembers_cut_value {q : Quotation} {t : Tree} {ms : List (Quotation × Tree)}
    {a s p : List Char} (named : Named q a) (breaks : Breaks (.padded t) s) {n : Nat}
    (bound : 2 * (a ++ ':' :: p).length + 1 < n + 1) (inside : p <+: s) : ∃ ms' close,
      scanMembers (n + 1) (a ++ ':' :: p) = (ms', close, []) ∧
        Cut (.members ((q, t) :: ms)) (.object ms' close) := by
  rw [List.length_append, List.length_cons] at bound
  obtain ⟨t', b, scanned, blank, cut⟩ := breaks n p (by omega) inside
  refine ⟨_, _, ?_, .lastMember cut⟩
  rw [scanMembers_named named, scanned]
  simp only [skipBlanks_of_blank blank]

theorem breaks_lastMember {q : Quotation} {t : Tree} {a s : List Char} (named : Named q a)
    (breaks : Breaks (.padded t) s) : Breaks (.members [(q, t)]) (a ++ ':' :: s) := by
  intro n p bound inside
  obtain ⟨n, rfl⟩ := Nat.exists_eq_add_of_le' (Nat.lt_of_le_of_lt (Nat.zero_le _) bound)
  rcases prefix_separated inside with early | ⟨p', rfl, later⟩
  · exact scanMembers_cut_name named early n
  · exact scanMembers_cut_value named breaks bound later

theorem breaks_nextMember {q : Quotation} {t : Tree} {ms : List (Quotation × Tree)}
    {a s s' : List Char} (named : Named q a) (found : Finds (.padded t) s)
    (breaks : Breaks (.padded t) s) (others : Breaks (.members ms) s') :
    Breaks (.members ((q, t) :: ms)) (a ++ ':' :: (s ++ ',' :: s')) := by
  intro n p bound inside
  obtain ⟨n, rfl⟩ := Nat.exists_eq_add_of_le' (Nat.lt_of_le_of_lt (Nat.zero_le _) bound)
  rcases prefix_separated inside with early | ⟨p', rfl, later⟩
  · exact scanMembers_cut_name named early n
  rcases prefix_separated later with early | ⟨r, rfl, last⟩
  · exact scanMembers_cut_value named breaks bound early
  · simp only [List.length_append, List.length_cons] at bound
    obtain ⟨b, blank, scanned⟩ := found n (',' :: r) (by omega) (ends_comma r)
    obtain ⟨ms', close, scanned', cut⟩ := others n r (by omega) last
    have comma : skipBlanks (',' :: r) = ',' :: r := skipBlanks_of_head r (by decide)
    refine ⟨(q, t) :: ms', close, ?_, .nextMember cut⟩
    rw [scanMembers_named named, scanned]
    simp only [skipBlanks_append blank, comma, scanned']

/-- A text that breaks off shows what is left of the piece that the whole text spells. -/
theorem breaks_of_spells {p : Piece} {s : List Char} (spelled : Spells p s) : Breaks p s := by
  induction spelled with
  | null => exact breaks_word .null (by decide) (by decide) fun _ => rfl
  | true => exact breaks_word .true (by decide) (by decide) fun _ => rfl
  | false => exact breaks_word .false (by decide) (by decide) fun _ => rfl
  | number numeral => exact breaks_numeral numeral
  | string letters => exact breaks_string letters
  | emptyArray blank => exact breaks_emptyArray blank
  | array spelled ih => exact breaks_array spelled ih
  | emptyObject blank => exact breaks_emptyObject blank
  | object spelled ih => exact breaks_object spelled ih
  | padded before spelled after ih => exact breaks_padded before spelled after ih
  | lastItem spelled ih => exact breaks_lastItem ih
  | nextItem spelled others ih ihs => exact breaks_nextItem (finds_of_spells spelled) ih ihs
  | lastMember named spelled ih => exact breaks_lastMember named ih
  | nextMember named spelled others ih ihs =>
    exact breaks_nextMember named (finds_of_spells spelled) ih ihs

/-- What the scanner finds in a proper beginning of the text of a value, with nothing left over. -/
theorem scan_of_beginning {t : Tree} {s p : List Char} (spelled : Spells (.value t) s)
    (inside : p <+: s) (short : p ≠ s) : ∃ t', scan p = (t', []) ∧ Cut (.value t) t' :=
  breaks_of_spells spelled _ p (by omega) inside short

end Tree

end GatewayRules.Json
