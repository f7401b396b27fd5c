import Mathlib.Data.List.Forall2
import GatewayRules.Json.Value
import GatewayRules.Proofs.Grammar

/-!
The text of a value belongs to the grammar and spells what the value shows, so the scanner finds just
that. Strings may hold any characters, and containers may be nested to any depth.
-/
namespace GatewayRules.Json
open Text

mutual

def Value.tree : Value → Tree
  | .null => .null
  | .bool value => .bool value
  | .number value => .number (.ofDigits false (decimal value) none none)
  | .string value => .string (.ofString value)
  | .array items => .array (Value.itemTrees items) .closed
  | .object members => .object (Value.memberTrees members) .closed

def Value.itemTrees : List Value → List Tree
  | [] => []
  | v :: rest => v.tree :: Value.itemTrees rest

def Value.memberTrees : List (String × Value) → List (Quotation × Tree)
  | [] => []
  | (name, v) :: rest => (.ofString name, v.tree) :: Value.memberTrees rest

end

theorem escaped?_range {e c : Char} (known : escaped? e = some c) : 0x20 ≤ e.toNat ∧ e ≠ 'u' := by
  unfold escaped? at known
  split at known <;> first | exact ⟨by decide, by decide⟩ | cases known

/-- A character in a string stands for itself, or is a letter or a number after a backslash. -/
inductive Escaped (c : Char) : List Char → Prop where
  | plain : c ≠ '"' → c ≠ '\\' → 0x20 ≤ c.toNat → Escaped c [c]
  | letter (e : Char) : escaped? e = some c → Escaped c ['\\', e]
  | number : c.toNat < 0x20 → Escaped c ('\\' :: 'u' :: hexPadded 4 c.toNat)

theorem escaped_escape (c : Char) : Escaped c (escape c) := by
  unfold escape
  split
  · next same => exact .letter _ (by rw [same]; rfl)
  split
  · next same => exact .letter _ (by rw [same]; rfl)
  split
  · next same =>
    have back : c = '\x08' := Char.toNat_inj.1 same
    exact .letter _ (by rw [back]; rfl)
  split
  · next same => exact .letter _ (by rw [same]; rfl)
  split
  · next same => exact .letter _ (by rw [same]; rfl)
  split
  · next same =>
    have feed : c = '\x0c' := Char.toNat_inj.1 same
    exact .letter _ (by rw [feed]; rfl)
  split
  · next same => exact .letter _ (by rw [same]; rfl)
  split
  · next control => exact .number control
  · next unquoted unescaped _ _ _ _ _ printing =>
    exact .plain unquoted unescaped (Nat.le_of_not_lt printing)

theorem Escaped.element {c : Char} {s : List Char} (escaped : Escaped c s) : Letter (.char c) s := by
  cases escaped with
  | plain unquoted unescaped printing => exact .plain unquoted unescaped printing
  | letter e known => exact .escape known
  | number control =>
    have known := ofHex?_hexPadded 4 c.toNat
    have room : Nat.pow 16 4 = 65536 := rfl
    rw [Nat.mod_eq_of_lt (by omega)] at known
    have unit : Glyph.ofUnit c.toNat = .char c := by
      rw [Glyph.ofUnit, if_neg (by omega), Char.ofNat_toNat]
    rw [← unit]
    exact .number known

/-- A string is written with its characters one by one. -/
theorem letters_escape (text : List Char) : Letters (text.map .char) (text.flatMap escape) := by
  induction text with
  | nil => exact .nil
  | cons c text ih => exact .cons (escaped_escape c).element ih

theorem named_quote (name : String) : Named (.ofString name) (quote name) :=
  .mk (List.forall_mem_nil _) (letters_escape name.toList) (List.forall_mem_nil _)

theorem numeral_decimal (n : Nat) :
    Numeral (.ofDigits false (decimal n) none none) (decimal n) := by
  have digits : Digits (decimal n) := ⟨decimal_ne_nil n, fun _ => isDigit_of_mem_decimal⟩
  have lean (s : List Char) (front : decimal n = '0' :: s) : s = [] := by
    by_cases zero : n = 0
    · rw [zero] at front
      exact (List.cons.inj front).2.symm
    · exact absurd (by rw [front]; rfl) (head?_decimal zero)
  have numeral := Numeral.mk .plus digits lean .none .none
  rwa [List.nil_append, List.nil_append, List.append_nil] at numeral

/-- A value may stand without blanks. -/
theorem Spells.bare {t : Tree} {s : List Char} (spelled : Spells (.value t) s) :
    Spells (.padded t) s := by
  have padded := Spells.padded (List.forall_mem_nil _) spelled (List.forall_mem_nil _)
  rwa [List.nil_append, List.append_nil] at padded

theorem Spells.items_join {ts : List Tree} {texts : List (List Char)} (some : texts ≠ [])
    (each : List.Forall₂ (fun t s => Spells (.padded t) s) ts texts) :
    Spells (.items ts) (join [','] texts) := by
  induction each with
  | nil => exact absurd rfl some
  | @cons t s ts texts first others ih =>
    cases others with
    | nil => exact .lastItem first
    | cons second more =>
      have later := ih nofun
      rw [join, List.append_assoc, List.singleton_append]
      · exact .nextItem first later
      · exact nofun

theorem Spells.array_join {ts : List Tree} {texts : List (List Char)}
    (each : List.Forall₂ (fun t s => Spells (.padded t) s) ts texts) :
    Spells (.value (.array ts .closed)) ('[' :: (join [','] texts ++ [']'])) := by
  cases each with
  | nil => exact .emptyArray (List.forall_mem_nil _)
  | cons first others => exact .array (.items_join nofun (.cons first others))

namespace Quotation

theorem decode_chars (text : List Char) : decode none (text.map .char) = .ok text := by
  induction text with
  | nil => rfl
  | cons c text ih =>
    rw [List.map_cons, decode, ih]
    rfl

theorem text_ofString (s : String) : (ofString s).text = .ok s := by
  rw [text, ofString, decode_chars]
  exact congrArg Except.ok String.ofList_toList

end Quotation

namespace Value

mutual

/-- The text of a value spells what it shows. -/
theorem spelled (v : Value) : Spells (.value v.tree) v.chars := by
  match v with
  | .null => exact .null
  | .bool true => exact .true
  | .bool false => exact .false
  | .number value => exact .number (numeral_decimal value)
  | .string value => exact .string (letters_escape value.toList)
  | .array items => exact .array_join (spelled_items items)
  | .object [] => exact .emptyObject (List.forall_mem_nil _)
  | .object (m :: members) => exact .object (spelled_members (m :: members) nofun)

theorem spelled_items (items : List Value) :
    List.Forall₂ (fun t s => Spells (.padded t) s) (itemTrees items) (itemChars items) := by
  match items with
  | [] => exact .nil
  | v :: rest => exact .cons (spelled v).bare (spelled_items rest)

theorem spelled_members (members : List (String × Value)) (some : members ≠ []) :
    Spells (.members (memberTrees members)) (join [','] (memberChars members)) := by
  match members with
  | [] => exact absurd rfl some
  | [(name, v)] => exact .lastMember (named_quote name) (spelled v).bare
  | (name, v) :: (name', w) :: more =>
    have others := spelled_members ((name', w) :: more) nofun
    simp only [memberChars, join, List.append_assoc, List.cons_append, List.nil_append] at others ⊢
    exact .nextMember (named_quote name) (spelled v).bare others

end

end Value

/-- A written value is scanned as what it shows, with nothing left over. -/
theorem Tree.scan_chars (v : Value) : scan v.chars = (v.tree, []) := by
  have found := finds_of_spells v.spelled (2 * v.chars.length + 2) [] (by omega) nofun
  rwa [List.append_nil] at found

namespace Value

def Printing (text : List Char) : Prop := ∀ c ∈ text, 0x20 ≤ c.toNat

theorem printing_append {first second : List Char} (p : Printing first) (q : Printing second) :
    Printing (first ++ second) :=
  List.forall_mem_append.2 ⟨p, q⟩

theorem printing_cons {c : Char} {text : List Char} (p : 0x20 ≤ c.toNat) (q : Printing text) :
    Printing (c :: text) :=
  List.forall_mem_cons.2 ⟨p, q⟩

theorem printing_nil : Printing [] := List.forall_mem_nil _

theorem printing_join {parts : List (List Char)} (each : ∀ part ∈ parts, Printing part) :
    Printing (join [','] parts) := by
  match parts with
  | [] => exact printing_nil
  | [part] => exact each part List.mem_cons_self
  | part :: next :: more =>
    obtain ⟨first, others⟩ := List.forall_mem_cons.1 each
    exact printing_append (printing_append first (printing_cons (by decide) printing_nil))
      (printing_join others)

theorem printing_of_isDigit {text : List Char} (digits : ∀ c ∈ text, c.isDigit = true) :
    Printing text := by
  intro c member
  have digit := digits c member
  simp only [Char.isDigit, Bool.and_eq_true, decide_eq_true_eq] at digit
  have low : 48 ≤ c.toNat := digit.1
  omega

theorem printing_escape (c : Char) : Printing (escape c) := by
  have written := escaped_escape c
  generalize escape c = text at written ⊢
  cases written with
  | plain _ _ printing => exact printing_cons printing printing_nil
  | letter e known =>
    exact printing_cons (by decide) (printing_cons (escaped?_range known).1 printing_nil)
  | number control =>
    refine printing_cons (by decide) (printing_cons (by decide) fun d member => ?_)
    obtain ⟨n, bound, rfl⟩ := digit_of_mem_hexPadded member
    have all : ∀ n : Fin 16, 0x20 ≤ (Nat.digitChar n).toNat := by decide
    exact all ⟨n, bound⟩

theorem printing_quote (s : String) : Printing (quote s) := by
  refine printing_append (printing_cons (by decide) fun c member => ?_)
    (printing_cons (by decide) printing_nil)
  obtain ⟨d, -, member⟩ := List.mem_flatMap.1 member
  exact printing_escape d c member

mutual

/-- Written values have no control characters. -/
theorem printing_chars (v : Value) : Printing v.chars := by
  match v with
  | .null | .bool true | .bool false => simp [Printing, chars]
  | .number value => exact printing_of_isDigit fun c => isDigit_of_mem_decimal
  | .string value => exact printing_quote value
  | .array items =>
    exact printing_append (printing_cons (by decide) (printing_join (printing_items items)))
      (printing_cons (by decide) printing_nil)
  | .object members =>
    exact printing_append (printing_cons (by decide) (printing_join (printing_members members)))
      (printing_cons (by decide) printing_nil)

theorem printing_items (items : List Value) : ∀ part ∈ itemChars items, Printing part := by
  match items with
  | [] => exact List.forall_mem_nil _
  | v :: rest => exact List.forall_mem_cons.2 ⟨printing_chars v, printing_items rest⟩

theorem printing_members (members : List (String × Value)) :
    ∀ part ∈ memberChars members, Printing part := by
  match members with
  | [] => exact List.forall_mem_nil _
  | (name, v) :: rest =>
    refine List.forall_mem_cons.2 ⟨?_, printing_members rest⟩
    exact printing_append (printing_quote name) (printing_cons (by decide) (printing_chars v))

end

end Value

end GatewayRules.Json
