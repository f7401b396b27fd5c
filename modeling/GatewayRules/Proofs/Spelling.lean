import GatewayRules.Proofs.Grammar

/-!
The other direction: a text spells what the scanner finds in it, if that is whole. So the scanner
finds a whole tree in a text exactly when the text belongs to the grammar.
-/
namespace GatewayRules.Json
open Text

namespace Tree

theorem skip_array_iff {ts : List Tree} {close : ArrayEnd} :
    (array ts close).skip = .ok () ↔ skipItems ts = .ok () ∧ close = .closed := by
  rw [skip]
  cases skipItems ts with
  | error fault => exact ⟨nofun, nofun⟩
  | ok _ =>
    cases close with
    | closed => exact ⟨fun _ => ⟨rfl, rfl⟩, fun _ => rfl⟩
    | broken fault => exact ⟨nofun, nofun⟩

theorem skip_object_iff {ms : List (Quotation × Tree)} {close : ObjectEnd} :
    (object ms close).skip = .ok () ↔ skipMembers ms = .ok () ∧ close = .closed := by
  rw [skip]
  cases skipMembers ms with
  | error fault => exact ⟨nofun, nofun⟩
  | ok _ =>
    cases close with
    | closed => exact ⟨fun _ => ⟨rfl, rfl⟩, fun _ => rfl⟩
    | broken fault | nameless fault => exact ⟨nofun, nofun⟩

theorem skipItems_cons_iff {t : Tree} {ts : List Tree} :
    skipItems (t :: ts) = .ok () ↔ t.skip = .ok () ∧ skipItems ts = .ok () := by
  rw [skipItems]
  cases t.skip with
  | error fault => exact ⟨nofun, nofun⟩
  | ok _ => exact ⟨fun others => ⟨rfl, others⟩, And.right⟩

theorem skipMembers_cons_iff {q : Quotation} {t : Tree} {ms : List (Quotation × Tree)} :
    skipMembers ((q, t) :: ms) = .ok () ↔
      q.fault = none ∧ t.skip = .ok () ∧ skipMembers ms = .ok () := by
  rw [skipMembers]
  cases q.fault with
  | some fault => exact ⟨nofun, nofun⟩
  | none =>
    cases t.skip with
    | error fault => exact ⟨nofun, nofun⟩
    | ok _ => exact ⟨fun others => ⟨rfl, rfl, others⟩, fun all => all.2.2⟩

def Whole : Piece → Prop
  | .value t | .padded t => t.skip = .ok ()
  | .items ts => skipItems ts = .ok ()
  | .members ms => skipMembers ms = .ok ()

theorem whole_of_spells {p : Piece} {s : List Char} (spelled : Spells p s) : Whole p := by
  induction spelled with
  | null | true | false | number _ | string _ => rfl
  | emptyArray _ | emptyObject _ => rfl
  | array spelled ih => exact skip_array_iff.2 ⟨ih, rfl⟩
  | object spelled ih => exact skip_object_iff.2 ⟨ih, rfl⟩
  | padded _ spelled _ ih => exact ih
  | lastItem spelled ih => exact skipItems_cons_iff.2 ⟨ih, rfl⟩
  | nextItem spelled others ih ihs => exact skipItems_cons_iff.2 ⟨ih, ihs⟩
  | lastMember named spelled ih =>
    obtain ⟨-, -, -⟩ := named
    exact skipMembers_cons_iff.2 ⟨rfl, ih, rfl⟩
  | nextMember named spelled others ih ihs =>
    obtain ⟨-, -, -⟩ := named
    exact skipMembers_cons_iff.2 ⟨rfl, ih, ihs⟩

end Tree

namespace Quotation

/-- What the scanner finds has its closing quote, and is spelled by what stands before it. -/
def Closes (done : List Glyph) (s : List Char) : Prop := ∃ gs body, Letters gs body ∧
  (scan done s).1 = ⟨done.reverse ++ gs, none⟩ ∧ s = body ++ '"' :: (scan done s).2

theorem closes_letter {g : Glyph} {a : List Char} (letter : Letter g a) {done : List Glyph}
    {s : List Char} (closes : Closes (g :: done) s) : Closes done (a ++ s) := by
  obtain ⟨gs, body, letters, found, rest⟩ := closes
  refine ⟨g :: gs, a ++ body, .cons letter letters, ?_, ?_⟩
  · rw [scan_letter letter, found, List.reverse_cons, List.append_assoc]
    rfl
  · rw [scan_letter letter, List.append_assoc, ← rest]

theorem closes_of_scan (done : List Glyph) (s : List Char)
    (whole : (scan done s).1.fault = none) : Closes done s := by
  induction done, s using scan.induct with
  | case1 done => cases whole
  | case2 done rest =>
    refine ⟨[], [], .nil, ?_, ?_⟩
    · rw [scan, List.append_nil]
    · rw [scan, List.nil_append]
  | case3 done a b c d rest unit known ih =>
    have letter : Letter (.ofUnit unit) ['\\', 'u', a, b, c, d] := .number known
    change (scan done (['\\', 'u', a, b, c, d] ++ rest)).1.fault = none at whole
    rw [scan_letter letter] at whole
    exact closes_letter letter (ih whole)
  | case4 done a b c d rest unknown =>
    rw [scan, unknown] at whole
    cases whole
  | case5 done rest short =>
    rw [scan] at whole
    · cases whole
    · exact short
  | case6 done e rest long other c known ih =>
    have letter : Letter (.char c) ['\\', e] := .escape known
    change (scan done (['\\', e] ++ rest)).1.fault = none at whole
    rw [scan_letter letter] at whole
    exact closes_letter letter (ih whole)
  | case7 done e rest long other unknown =>
    rw [scan] at whole
    · rw [unknown] at whole
      cases whole
    · exact long
    · exact other
  | case8 done =>
    rw [scan] at whole
    cases whole
  | case9 done c rest quoted _ _ long short control =>
    rw [scan, if_pos control] at whole
    · cases whole
    all_goals assumption
  | case10 done c rest quoted _ _ long short printing ih =>
    have unescaped : c ≠ '\\' := by
      intro same
      cases rest with
      | nil => exact short same rfl
      | cons e r => exact long e r same rfl
    have letter : Letter (.char c) [c] := .plain quoted unescaped (Nat.le_of_not_lt printing)
    change (scan done ([c] ++ rest)).1.fault = none at whole
    rw [scan_letter letter] at whole
    exact closes_letter letter (ih whole)

end Quotation

namespace Tree

theorem digits_append_afterDigits (s : List Char) : digits s ++ afterDigits s = s :=
  List.takeWhile_append_dropWhile

theorem digits_of_not_empty {s : List Char} (some : ¬(digits s).isEmpty = true) :
    Digits (digits s) := by
  refine ⟨fun none => some (by rw [none]; rfl), fun c member => ?_⟩
  exact List.all_eq_true.1 List.all_takeWhile c member

variable {t : Tree} {s rest : List Char}

theorem not_whole_of_breakNumber : (breakNumber s).1.skip ≠ .ok () := by
  unfold breakNumber
  cases s <;> exact fun whole => by cases whole

theorem exponent_of_scan {negative : Bool} {whole : List Char} {fraction : Option (List Char)}
    (scanned : scanExponent negative whole fraction s = (t, rest)) (sound : t.skip = .ok ()) :
    ∃ exponent e, Exponent exponent e ∧ s = e ++ rest ∧
      t = .number (.ofDigits negative whole fraction exponent) := by
  have marked {below : Bool} {e : Char} (sign : List Char) {r : List Char}
      (spelled : Digits (digits r) → Exponent (some (below, digits r)) (e :: (sign ++ digits r)))
      (scanned : (if (digits r).isEmpty then breakNumber r
        else (.number (.ofDigits negative whole fraction (some (below, digits r))), afterDigits r)) =
          (t, rest)) : ∃ exponent e', Exponent exponent e' ∧ e :: (sign ++ r) = e' ++ rest ∧
      t = .number (.ofDigits negative whole fraction exponent) := by
    split at scanned
    · exact absurd (by rw [scanned]; exact sound) (not_whole_of_breakNumber (s := r))
    · next some =>
      obtain ⟨rfl, rfl⟩ := Prod.mk.inj scanned
      refine ⟨_, _, spelled (digits_of_not_empty some), ?_, rfl⟩
      rw [List.cons_append, List.append_assoc, digits_append_afterDigits]
  cases s with
  | nil =>
    obtain ⟨rfl, rfl⟩ := Prod.mk.inj scanned
    exact ⟨_, _, .none, rfl, rfl⟩
  | cons c s =>
    by_cases mark : c = 'e' ∨ c = 'E'
    · rw [scanExponent.eq_def] at scanned
      simp only [if_pos mark] at scanned
      split at scanned
      · exact marked ['+'] (.plus mark) scanned
      · exact marked ['-'] (.minus mark) scanned
      · exact marked [] (.bare mark) scanned
    · have none : scanExponent negative whole fraction (c :: s) = _ := if_neg mark
      obtain ⟨rfl, rfl⟩ := Prod.mk.inj (none.symm.trans scanned)
      exact ⟨_, _, .none, rfl, rfl⟩

theorem fraction_of_scan {negative : Bool} {whole : List Char}
    (scanned : scanFraction negative whole s = (t, rest)) (sound : t.skip = .ok ()) :
    ∃ fraction f exponent e, Fraction fraction f ∧ Exponent exponent e ∧ s = f ++ (e ++ rest) ∧
      t = .number (.ofDigits negative whole fraction exponent) := by
  rw [scanFraction.eq_def] at scanned
  split at scanned
  · next s =>
    split at scanned
    · exact absurd (by rw [scanned]; exact sound) (not_whole_of_breakNumber (s := s))
    · next some =>
      obtain ⟨exponent, e, spelled, split, rfl⟩ := exponent_of_scan scanned sound
      refine ⟨_, _, exponent, e, .some (digits_of_not_empty some), spelled, ?_, rfl⟩
      rw [List.cons_append, ← split, digits_append_afterDigits]
  · obtain ⟨exponent, e, spelled, split, rfl⟩ := exponent_of_scan scanned sound
    exact ⟨_, _, exponent, e, .none, spelled, split, rfl⟩

theorem numeral_of_scan {negative : Bool} {sign : List Char} (signed : Sign negative sign)
    (scanned : scanNumber negative s = (t, rest)) (sound : t.skip = .ok ()) :
    ∃ n a, Numeral n (sign ++ a) ∧ s = a ++ rest ∧ t = .number n := by
  have split_digits := digits_append_afterDigits s
  rw [scanNumber.eq_def] at scanned
  split at scanned
  · exact absurd (by rw [scanned]; exact sound) (not_whole_of_breakNumber (s := s))
  · obtain ⟨rfl, -⟩ := Prod.mk.inj scanned
    cases sound
  · next some lean =>
    obtain ⟨fraction, f, exponent, e, spelled, later, split, rfl⟩ := fraction_of_scan scanned sound
    have whole : Digits (digits s) := digits_of_not_empty (by simpa using some)
    refine ⟨_, digits s ++ (f ++ e), .mk signed whole (fun r same => ?_) spelled later, ?_, rfl⟩
    · cases r with
      | nil => rfl
      | cons c r => exact absurd same (lean c r)
    · rw [List.append_assoc, List.append_assoc, ← split, split_digits]

theorem word_of_scan {t' : Tree} {word : List Char} (scanned : scanWord t' word s = (t, rest))
    (sound : t.skip = .ok ()) : t = t' ∧ s = word ++ rest := by
  induction word generalizing s with
  | nil =>
    obtain ⟨rfl, rfl⟩ := Prod.mk.inj scanned
    exact ⟨rfl, rfl⟩
  | cons w word ih =>
    cases s with
    | nil =>
      obtain ⟨rfl, -⟩ := Prod.mk.inj scanned
      cases sound
    | cons c s =>
      rw [scanWord] at scanned
      split at scanned
      · next same =>
        obtain ⟨rfl, rfl⟩ := ih scanned
        exact ⟨rfl, by rw [same]; rfl⟩
      · obtain ⟨rfl, -⟩ := Prod.mk.inj scanned
        cases sound

theorem spelled_of_scanScalar (scanned : scanScalar s = (t, rest)) (sound : t.skip = .ok ()) :
    ∃ a, Spells (.value t) a ∧ s = a ++ rest := by
  rw [scanScalar.eq_def] at scanned
  split at scanned
  · obtain ⟨rfl, -⟩ := Prod.mk.inj scanned
    cases sound
  · next s =>
    obtain ⟨rfl, rfl⟩ := Prod.mk.inj scanned
    have whole : (Quotation.scan [] s).1.fault = none := by
      rw [skip] at sound
      split at sound
      · cases sound
      · assumption
    obtain ⟨gs, body, letters, found, split⟩ := Quotation.closes_of_scan [] s whole
    refine ⟨'"' :: (body ++ ['"']), ?_, ?_⟩
    · rw [found]
      exact .string letters
    · rw [List.cons_append, List.append_assoc, List.singleton_append, ← split]
  · obtain ⟨rfl, rfl⟩ := word_of_scan scanned sound
    exact ⟨_, .null, rfl⟩
  · obtain ⟨rfl, rfl⟩ := word_of_scan scanned sound
    exact ⟨_, .true, rfl⟩
  · obtain ⟨rfl, rfl⟩ := word_of_scan scanned sound
    exact ⟨_, .false, rfl⟩
  · obtain ⟨n, a, numeral, rfl, rfl⟩ := numeral_of_scan .minus scanned sound
    exact ⟨_, .number numeral, rfl⟩
  · split at scanned
    · obtain ⟨n, a, numeral, split, rfl⟩ := numeral_of_scan .plus scanned sound
      exact ⟨_, .number numeral, split⟩
    · obtain ⟨rfl, -⟩ := Prod.mk.inj scanned
      cases sound

theorem skipBlanks_split (s : List Char) : ∃ a, Blank a ∧ s = a ++ skipBlanks s := by
  refine ⟨s.takeWhile isBlank, fun c member => ?_, List.takeWhile_append_dropWhile.symm⟩
  exact List.all_eq_true.1 List.all_takeWhile c member

mutual

/-- A whole value is spelled by what the scanner takes for it. -/
theorem spelled_of_scanValue (n : Nat) {s rest : List Char} {t : Tree}
    (scanned : scanValue n s = (t, rest)) (sound : t.skip = .ok ()) :
    ∃ a core, Blank a ∧ Spells (.value t) core ∧ s = a ++ (core ++ rest) := by
  match n with
  | 0 =>
    obtain ⟨rfl, -⟩ := Prod.mk.inj scanned
    cases sound
  | n + 1 =>
    obtain ⟨a, blank, split⟩ := skipBlanks_split s
    have core {t : Tree} {s' : List Char} (front : skipBlanks s = s')
        (spelled : ∃ core, Spells (.value t) core ∧ s' = core ++ rest) :
        ∃ a core, Blank a ∧ Spells (.value t) core ∧ s = a ++ (core ++ rest) := by
      obtain ⟨core, spelled, rfl⟩ := spelled
      exact ⟨a, core, blank, spelled, by rw [← front]; exact split⟩
    rw [scanValue] at scanned
    split at scanned
    · next s' front =>
      obtain ⟨b, inside, split'⟩ := skipBlanks_split s'
      split at scanned
      · next s'' close =>
        obtain ⟨rfl, rfl⟩ := Prod.mk.inj scanned
        refine core front ⟨'[' :: (b ++ [']']), .emptyArray inside, ?_⟩
        rw [split', close, List.cons_append, List.append_assoc, List.singleton_append]
      · rw [← scanItems_append inside, ← split'] at scanned
        obtain ⟨rfl, rfl⟩ := Prod.mk.inj scanned
        obtain ⟨soundItems, closed⟩ := skip_array_iff.1 sound
        obtain ⟨body, spelled, split''⟩ := spelled_of_scanItems n rfl soundItems closed
        refine core front ⟨'[' :: (body ++ [']']), ?_, ?_⟩
        · rw [closed]
          exact .array spelled
        · rw [List.cons_append, List.append_assoc, List.singleton_append, ← split'']
    · next s' front =>
      obtain ⟨b, inside, split'⟩ := skipBlanks_split s'
      split at scanned
      · next s'' close =>
        obtain ⟨rfl, rfl⟩ := Prod.mk.inj scanned
        refine core front ⟨'\x7b' :: (b ++ ['\x7d']), .emptyObject inside, ?_⟩
        rw [split', close, List.cons_append, List.append_assoc, List.singleton_append]
      · rw [← scanMembers_append inside, ← split'] at scanned
        obtain ⟨rfl, rfl⟩ := Prod.mk.inj scanned
        obtain ⟨soundMembers, closed⟩ := skip_object_iff.1 sound
        obtain ⟨body, spelled, split''⟩ := spelled_of_scanMembers n rfl soundMembers closed
        refine core front ⟨'\x7b' :: (body ++ ['\x7d']), ?_, ?_⟩
        · rw [closed]
          exact .object spelled
        · rw [List.cons_append, List.append_assoc, List.singleton_append, ← split'']
    · exact core rfl (spelled_of_scanScalar scanned sound)

theorem spelled_of_scanItems (n : Nat) {s rest : List Char} {ts : List Tree} {close : ArrayEnd}
    (scanned : scanItems n s = (ts, close, rest)) (sound : skipItems ts = .ok ())
    (closed : close = .closed) : ∃ body, Spells (.items ts) body ∧ s = body ++ ']' :: rest := by
  subst closed
  match n with
  | 0 =>
    obtain ⟨rfl, -⟩ := Prod.mk.inj scanned
    cases sound
  | n + 1 =>
    obtain ⟨b, after, split⟩ := skipBlanks_split (scanValue n s).2
    have value (whole : (scanValue n s).1.skip = .ok ()) :
        ∃ body, Spells (.padded (scanValue n s).1) body ∧
          s = body ++ skipBlanks (scanValue n s).2 := by
      obtain ⟨a, core, before, spelled, same⟩ := spelled_of_scanValue n rfl whole
      refine ⟨a ++ (core ++ b), .padded before spelled after, ?_⟩
      rw [List.append_assoc, List.append_assoc, ← split]
      exact same
    rw [scanItems] at scanned
    dsimp only at scanned
    split at scanned
    · cases scanned
    · next s' front =>
      obtain ⟨rfl, ends⟩ := Prod.mk.inj scanned
      obtain ⟨-, rfl⟩ := Prod.mk.inj ends
      obtain ⟨body, spelled, same⟩ := value (skipItems_cons_iff.1 sound).1
      exact ⟨body, .lastItem spelled, by rw [← front]; exact same⟩
    · next s' front =>
      obtain ⟨rfl, ends⟩ := Prod.mk.inj scanned
      obtain ⟨closed, rfl⟩ := Prod.mk.inj ends
      obtain ⟨whole, others⟩ := skipItems_cons_iff.1 sound
      obtain ⟨body, spelled, same⟩ := value whole
      obtain ⟨body', spelled', same'⟩ := spelled_of_scanItems n rfl others closed
      refine ⟨body ++ ',' :: body', .nextItem spelled spelled', ?_⟩
      rw [List.append_assoc, List.cons_append, ← same', ← front]
      exact same
    · cases scanned

theorem spelled_of_scanMembers (n : Nat) {s rest : List Char} {ms : List (Quotation × Tree)}
    {close : ObjectEnd} (scanned : scanMembers n s = (ms, close, rest))
    (sound : skipMembers ms = .ok ()) (closed : close = .closed) :
    ∃ body, Spells (.members ms) body ∧ s = body ++ '\x7d' :: rest := by
  subst closed
  match n with
  | 0 => cases scanned
  | n + 1 =>
    obtain ⟨a, before, start⟩ := skipBlanks_split s
    rw [scanMembers] at scanned
    split at scanned
    · cases scanned
    · next s₁ quote =>
      dsimp only at scanned
      obtain ⟨b, between, gap⟩ := skipBlanks_split (Quotation.scan [] s₁).2
      -- a member whose name ends, with what stands after the name
      have named (ends : (Quotation.scan [] s₁).1.fault = none) : ∃ name,
          Named (Quotation.scan [] s₁).1 name ∧
            s = name ++ skipBlanks (Quotation.scan [] s₁).2 := by
        obtain ⟨gs, body, letters, found, rest⟩ := Quotation.closes_of_scan [] s₁ ends
        refine ⟨a ++ '"' :: (body ++ '"' :: b), ?_, ?_⟩
        · rw [found]
          exact .mk before letters between
        · rw [List.append_assoc, List.cons_append, List.append_assoc, List.cons_append, ← gap,
            ← rest, ← quote]
          exact start
      split at scanned
      · obtain ⟨rfl, -⟩ := Prod.mk.inj scanned
        cases (skipMembers_cons_iff.1 sound).2.1
      · next s₂ colon =>
        obtain ⟨c, after, split⟩ := skipBlanks_split (scanValue n s₂).2
        have value (whole : (scanValue n s₂).1.skip = .ok ()) :
            ∃ body, Spells (.padded (scanValue n s₂).1) body ∧
              s₂ = body ++ skipBlanks (scanValue n s₂).2 := by
          obtain ⟨a, core, before, spelled, same⟩ := spelled_of_scanValue n rfl whole
          refine ⟨a ++ (core ++ c), .padded before spelled after, ?_⟩
          rw [List.append_assoc, List.append_assoc, ← split]
          exact same
        split at scanned
        · cases scanned
        · next s₃ front =>
          obtain ⟨rfl, ends⟩ := Prod.mk.inj scanned
          obtain ⟨-, rfl⟩ := Prod.mk.inj ends
          obtain ⟨ended, whole, -⟩ := skipMembers_cons_iff.1 sound
          obtain ⟨name, spelledName, same⟩ := named ended
          obtain ⟨body, spelled, same'⟩ := value whole
          refine ⟨name ++ ':' :: body, .lastMember spelledName spelled, ?_⟩
          rw [List.append_assoc, List.cons_append, ← front, ← same', ← colon]
          exact same
        · next s₃ front =>
          obtain ⟨rfl, ends⟩ := Prod.mk.inj scanned
          obtain ⟨closed, rfl⟩ := Prod.mk.inj ends
          obtain ⟨ended, whole, others⟩ := skipMembers_cons_iff.1 sound
          obtain ⟨name, spelledName, same⟩ := named ended
          obtain ⟨body, spelled, same'⟩ := value whole
          obtain ⟨body', spelled', same''⟩ := spelled_of_scanMembers n rfl others closed
          refine ⟨name ++ ':' :: (body ++ ',' :: body'), .nextMember spelledName spelled spelled', ?_⟩
          rw [List.append_assoc, List.cons_append, List.append_assoc, List.cons_append, ← same'',
            ← front, ← same', ← colon]
          exact same
        · cases scanned
      · obtain ⟨rfl, -⟩ := Prod.mk.inj scanned
        cases (skipMembers_cons_iff.1 sound).2.1
    · cases scanned

end

/-- A text spells a tree if and only if the scanner finds the tree whole in it, with nothing but
blanks after it. -/
theorem spells_iff_scan {t : Tree} {s : List Char} : Spells (.padded t) s ↔
    (∃ b, Blank b ∧ scan s = (t, b)) ∧ t.skip = .ok () := by
  constructor
  · intro spelled
    exact ⟨scan_of_spells spelled, whole_of_spells spelled⟩
  · rintro ⟨⟨b, after, scanned⟩, whole⟩
    obtain ⟨a, core, before, spelled, rfl⟩ := spelled_of_scanValue _ scanned whole
    exact .padded before spelled after

end Tree
end GatewayRules.Json
